import SnapStore.Conc.Prog

/-!
# Rely-guarantee assertions for programs

`wp ρ p Q s` says that `p`, started in `s` and interleaved with any steps allowed by the rely,
keeps the invariant and the guarantee at each of its own steps and ends in a state with `Q`.
-/

namespace Conc

/-- What holds at every state, what the other threads may do between two steps of a thread, what
each step of the thread does for the others, and which of its steps are considered at all: what
the environment supplied, and the states before and after. -/
structure Rules (ε σ : Type) where
  may : ε → σ → σ → Prop
  inv : σ → Prop
  rely : σ → σ → Prop
  guar : σ → σ → Prop
  rely_refl : ∀ s, rely s s
  rely_trans : ∀ s t u, rely s t → rely t u → rely s u

variable {ε σ α β γ E : Type} {ρ : Rules ε σ}

def Stable (ρ : Rules ε σ) (P : σ → Prop) : Prop :=
  ∀ s t, P s → ρ.rely s t → ρ.inv t → P t

def wp (ρ : Rules ε σ) : Prog ε σ α → (α → σ → Prop) → σ → Prop
  | .ret a, Q, s => Q a s
  | .act f k, Q, s => ∀ t, ρ.rely s t → ρ.inv t → ∀ e b u, f e t = some (b, u) →
      ρ.may e t u → ρ.inv u ∧ ρ.guar t u ∧ wp ρ (k b) Q u

theorem Stable.and {P Q : σ → Prop} (hP : Stable ρ P) (hQ : Stable ρ Q) :
    Stable ρ fun s => P s ∧ Q s := fun s t h hr hi => ⟨hP s t h.1 hr hi, hQ s t h.2 hr hi⟩

theorem Stable.const (P : Prop) : Stable ρ fun _ => P := fun _ _ h _ _ => h

theorem Stable.all {ι : Sort*} {P : ι → σ → Prop} (h : ∀ i, Stable ρ (P i)) :
    Stable ρ fun s => ∀ i, P i s := fun s t hs hr hi i => h i s t (hs i) hr hi

theorem Stable.exist {ι : Sort*} {P : ι → σ → Prop} (h : ∀ i, Stable ρ (P i)) :
    Stable ρ fun s => ∃ i, P i s := fun s t ⟨i, hs⟩ hr hi => ⟨i, h i s t hs hr hi⟩

theorem wp_mono {p : Prog ε σ α} {Q Q' : α → σ → Prop} {s : σ} (hQ : ∀ a s, Q a s → Q' a s)
    (h : wp ρ p Q s) : wp ρ p Q' s := by
  induction p generalizing s with
  | ret a => exact hQ a s h
  | act f k ih =>
    intro t hr hi e b u hf hm
    obtain ⟨hu, hg, hk⟩ := h t hr hi e b u hf hm
    exact ⟨hu, hg, ih b hk⟩

theorem wp_bind {p : Prog ε σ α} {k : α → Prog ε σ β} {Q : β → σ → Prop} {s : σ}
    (h : wp ρ p (fun a s => wp ρ (k a) Q s) s) : wp ρ (p >>= k) Q s := by
  rw [Prog.bind_eq]
  induction p generalizing s with
  | ret a => exact h
  | act f g ih =>
    intro t hr hi e b u hf hm
    obtain ⟨hu, hg, hk⟩ := h t hr hi e b u hf hm
    exact ⟨hu, hg, ih b hk⟩

theorem wp_and_inv {p : Prog ε σ α} {Q : α → σ → Prop} {s : σ} (hi : ρ.inv s)
    (h : wp ρ p Q s) : wp ρ p (fun a s => Q a s ∧ ρ.inv s) s := by
  induction p generalizing s with
  | ret a => exact ⟨h, hi⟩
  | act f k ih =>
    intro t hr hi e b u hf hm
    obtain ⟨hu, hg, hk⟩ := h t hr hi e b u hf hm
    exact ⟨hu, hg, ih b hu hk⟩

theorem wp_rely {p : Prog ε σ α} {Q : α → σ → Prop} {s t : σ} (hp : p.isDone = false)
    (hr : ρ.rely s t) (h : wp ρ p Q s) : wp ρ p Q t := by
  cases p with
  | ret a => simp [Prog.isDone] at hp
  | act f k => exact fun u hu => h u (ρ.rely_trans s t u hr hu)

theorem wp_step {p p' : Prog ε σ α} {Q : α → σ → Prop} {s t : σ} {e : ε} (h : wp ρ p Q s)
    (hi : ρ.inv s) (hs : p.step e s = some (p', t)) (hm : ρ.may e s t) :
    ρ.inv t ∧ ρ.guar s t ∧ wp ρ p' Q t := by
  cases p with
  | ret a => simp [Prog.step] at hs
  | act f k =>
    simp only [Prog.step, Option.map_eq_some_iff, Prod.mk.injEq] at hs
    obtain ⟨⟨b, u⟩, hf, rfl, rfl⟩ := hs
    exact h s (ρ.rely_refl s) hi e b u hf hm

theorem wp_ret {a : α} {Q : α → σ → Prop} {s : σ} (h : Q a s) : wp ρ (pure a) Q s := h

theorem wp_await {f : ε → σ → Option (α × σ)} {P : σ → Prop} {Q : α → σ → Prop} {s : σ}
    (hP : Stable ρ P) (hs : P s)
    (h : ∀ e t b u, ρ.inv t → P t → f e t = some (b, u) → ρ.may e t u →
      ρ.inv u ∧ ρ.guar t u ∧ Q b u) : wp ρ (Prog.await f) Q s := by
  intro t hr hi e b u hf hm
  exact h e t b u hi (hP s t hs hr hi) hf hm

theorem wp_atomic {f : ε → σ → α × σ} {P : σ → Prop} {Q : α → σ → Prop} {s : σ}
    (hP : Stable ρ P) (hs : P s)
    (h : ∀ e t, ρ.inv t → P t → ρ.may e t (f e t).2 →
      ρ.inv (f e t).2 ∧ ρ.guar t (f e t).2 ∧ Q (f e t).1 (f e t).2) :
    wp ρ (Prog.atomic f) Q s := by
  refine wp_await hP hs fun e t b u hi ht hf hm => ?_
  have hb : f e t = (b, u) := Option.some.inj hf
  have hres := h e t hi ht
  rw [hb] at hres
  exact hres hm

theorem wp_stuck {Q : α → σ → Prop} {s : σ} : wp ρ (Prog.stuck : Prog ε σ α) Q s := by
  intro t hr hi e b u hf
  exact absurd hf (by simp)

theorem wp_conseq {ρ ρ' : Rules ε σ} {p : Prog ε σ α} {Q : α → σ → Prop} {s : σ}
    (hmay : ∀ e s t, ρ'.may e s t → ρ.may e s t) (hinv : ∀ s, ρ'.inv s ↔ ρ.inv s)
    (hrely : ∀ s t, ρ'.rely s t → ρ.rely s t) (hguar : ∀ s t, ρ.guar s t → ρ'.guar s t)
    (h : wp ρ p Q s) : wp ρ' p Q s := by
  induction p generalizing s with
  | ret a => exact h
  | act f k ih =>
    intro t hr hi e b u hf hm
    obtain ⟨hu, hg, hk⟩ := h t (hrely s t hr) ((hinv t).mp hi) e b u hf (hmay e t u hm)
    exact ⟨(hinv u).mpr hu, hguar t u hg, ih b hk⟩

theorem wp_layer {ρ₁ ρ₂ ρ : Rules ε σ} {p : Prog ε σ α} {Q₁ Q₂ : α → σ → Prop} {s : σ}
    (hmay₁ : ∀ e s t, ρ.may e s t → ρ₁.may e s t)
    (hmay₂ : ∀ e s t, ρ.may e s t → ρ₁.inv s → ρ₁.inv t → ρ₁.guar s t → ρ₂.may e s t)
    (hinv : ∀ s, ρ.inv s ↔ ρ₁.inv s ∧ ρ₂.inv s)
    (hrely : ∀ s t, ρ.rely s t → ρ₁.rely s t ∧ ρ₂.rely s t)
    (hguar : ∀ s t, ρ₁.guar s t → ρ₂.guar s t → ρ.guar s t)
    (h₁ : wp ρ₁ p Q₁ s) (h₂ : wp ρ₂ p Q₂ s) : wp ρ p (fun a s => Q₁ a s ∧ Q₂ a s) s := by
  induction p generalizing s with
  | ret a => exact ⟨h₁, h₂⟩
  | act f k ih =>
    intro t hr hi e b u hf hm
    obtain ⟨hi₁, hi₂⟩ := (hinv t).mp hi
    obtain ⟨hr₁, hr₂⟩ := hrely s t hr
    obtain ⟨hu₁, hg₁, hk₁⟩ := h₁ t hr₁ hi₁ e b u hf (hmay₁ e t u hm)
    obtain ⟨hu₂, hg₂, hk₂⟩ := h₂ t hr₂ hi₂ e b u hf (hmay₂ e t u hm hi₁ hu₁ hg₁)
    exact ⟨(hinv u).mpr ⟨hu₁, hu₂⟩, hguar t u hg₁ hg₂, ih b hk₁ hk₂⟩

/-! ## Programs that may fail -/

/-- The postcondition of a program that is followed by `Q` on success and ends on an error. -/
def andThen (Q : α → σ → Prop) (R : Except E β → σ → Prop) : Except E α → σ → Prop
  | .ok a, s => Q a s
  | .error x, s => R (.error x) s

@[simp] theorem andThen_ok (Q : α → σ → Prop) (R : Except E β → σ → Prop) (a : α) (s : σ) :
    andThen Q R (.ok a) s = Q a s := rfl

@[simp] theorem andThen_error (Q : α → σ → Prop) (R : Except E β → σ → Prop) (x : E) (s : σ) :
    andThen Q R (.error x) s = R (.error x) s := rfl

theorem wpE_bind {x : ExceptT E (Prog ε σ) α} {k : α → ExceptT E (Prog ε σ) β}
    {Q : Except E β → σ → Prop} {s : σ}
    (h : wp ρ x.run (andThen (fun a s => wp ρ (k a).run Q s) Q) s) : wp ρ (x >>= k).run Q s := by
  refine wp_bind (wp_mono ?_ h)
  intro r t hr
  cases r with
  | ok a => exact hr
  | error y => exact hr

theorem wpE_pure {a : α} {Q : Except E α → σ → Prop} {s : σ} (h : Q (.ok a) s) :
    wp ρ (pure a : ExceptT E (Prog ε σ) α).run Q s := h

theorem wpE_throw {x : E} {Q : Except E α → σ → Prop} {s : σ} (h : Q (.error x) s) :
    wp ρ (throw x : ExceptT E (Prog ε σ) α).run Q s := h

theorem wpE_lift {p : Prog ε σ α} {Q : Except E α → σ → Prop} {s : σ}
    (h : wp ρ p (fun a s => Q (.ok a) s) s) :
    wp ρ (liftM p : ExceptT E (Prog ε σ) α).run Q s :=
  wp_bind (wp_mono (fun _ _ h => h) h)

theorem wpE_foldlM {f : β → α → ExceptT E (Prog ε σ) β} {Q : Except E β → σ → Prop}
    (I : β → List α → σ → Prop)
    (hstep : ∀ b x xs s, I b (x :: xs) s →
      wp ρ (f b x).run (andThen (fun b' s => I b' xs s) Q) s)
    (hdone : ∀ b s, I b [] s → Q (.ok b) s) :
    ∀ (l : List α) (b : β) (s : σ), I b l s → wp ρ (l.foldlM f b).run Q s := by
  intro l
  induction l with
  | nil => intro b s h; exact hdone b s h
  | cons x xs ih =>
    intro b s h
    rw [List.foldlM_cons]
    refine wpE_bind (wp_mono ?_ (hstep b x xs s h))
    intro r t hr
    cases r with
    | ok b' => exact ih b' t hr
    | error y => exact hr

/-! ## Programs whose steps all lie in one relation -/

def Within (R : σ → σ → Prop) : Prog ε σ α → Prop
  | .ret _ => True
  | .act f k => (∀ e s b u, f e s = some (b, u) → R s u) ∧ ∀ b, Within R (k b)

namespace Within

variable {R : σ → σ → Prop}

theorem ret (a : α) : Within R (pure a : Prog ε σ α) := True.intro

theorem pureE (a : α) : Within R (pure a : ExceptT E (Prog ε σ) α).run := True.intro

theorem throwE (x : E) : Within R (throw x : ExceptT E (Prog ε σ) α).run := True.intro

theorem await {f : ε → σ → Option (α × σ)} (h : ∀ e s b u, f e s = some (b, u) → R s u) :
    Within R (Prog.await f) := ⟨h, fun _ => True.intro⟩

theorem atomic {f : ε → σ → α × σ} (h : ∀ e s, R s (f e s).2) : Within R (Prog.atomic f) := by
  refine await fun e s b u hf => ?_
  have hb : f e s = (b, u) := Option.some.inj hf
  have hR := h e s
  rwa [hb] at hR

theorem stuck : Within R (Prog.stuck : Prog ε σ α) := await (by simp)

theorem bind {p : Prog ε σ α} {k : α → Prog ε σ β} (hp : Within R p) (hk : ∀ a, Within R (k a)) :
    Within R (p >>= k) := by
  rw [Prog.bind_eq]
  induction p with
  | ret a => exact hk a
  | act f g ih => exact ⟨hp.1, fun b => ih b (hp.2 b)⟩

theorem bindE {x : ExceptT E (Prog ε σ) α} {k : α → ExceptT E (Prog ε σ) β}
    (hx : Within R x.run) (hk : ∀ a, Within R (k a).run) : Within R (x >>= k).run := by
  refine bind hx fun r => ?_
  cases r with
  | ok a => exact hk a
  | error y => exact True.intro

theorem foldlM {f : β → α → Prog ε σ β} (hf : ∀ b a, Within R (f b a)) (l : List α) (b : β) :
    Within R (l.foldlM f b) := by
  induction l generalizing b with
  | nil => exact True.intro
  | cons a l ih =>
    rw [List.foldlM_cons]
    exact Within.bind (hf b a) fun b' => ih b'

theorem foldlME {f : β → α → ExceptT E (Prog ε σ) β} (hf : ∀ b a, Within R (f b a).run)
    (l : List α) (b : β) : Within R (l.foldlM f b).run := by
  induction l generalizing b with
  | nil => exact True.intro
  | cons x xs ih =>
    rw [List.foldlM_cons]
    exact bindE (hf b x) fun b' => ih b'

theorem mono {R' : σ → σ → Prop} {p : Prog ε σ α} (hR : ∀ s u, R s u → R' s u)
    (h : Within R p) : Within R' p := by
  induction p with
  | ret a => exact True.intro
  | act f k ih => exact ⟨fun e s b u hf => hR s u (h.1 e s b u hf), fun b => ih b (h.2 b)⟩

theorem any (p : Prog ε σ α) : Within (fun _ _ => True) p := by
  induction p with
  | ret a => exact True.intro
  | act f k ih => exact ⟨fun _ _ _ _ _ => True.intro, ih⟩

theorem wp {p : Prog ε σ α} {P : σ → Prop} {s : σ} (h : Within R p) (hP : Stable ρ P) (hs : P s)
    (hR : ∀ e s u, ρ.inv s → P s → ρ.may e s u → R s u → ρ.inv u ∧ ρ.guar s u ∧ P u) :
    Conc.wp ρ p (fun _ s => P s) s := by
  induction p generalizing s with
  | ret a => exact hs
  | act f k ih =>
    intro t hr hi e b u hf hm
    obtain ⟨hu, hg, hPu⟩ := hR e t u hi (hP s t hs hr hi) hm (h.1 e t b u hf)
    exact ⟨hu, hg, ih b (h.2 b) hPu⟩

theorem frame {p : Prog ε σ α} {P : σ → Prop} {Q : α → σ → Prop} {s : σ} (h : Within R p)
    (hP : Stable ρ P) (hR : ∀ s u, R s u → P s → P u) (hs : P s) (hp : Conc.wp ρ p Q s) :
    Conc.wp ρ p (fun a s => Q a s ∧ P s) s := by
  induction p generalizing s with
  | ret a => exact ⟨hp, hs⟩
  | act f k ih =>
    intro t hr hi e b u hf hm
    obtain ⟨hu, hg, hk⟩ := hp t hr hi e b u hf hm
    exact ⟨hu, hg, ih b (h.2 b) (hR t u (h.1 e t b u hf) (hP s t hs hr hi)) hk⟩

end Within

/-! ## Programs that keep an assertion -/

def Preserves (ρ : Rules ε σ) (F : σ → Prop) (p : Prog ε σ α) : Prop :=
  ∀ s, F s → wp ρ p (fun _ => F) s

namespace Preserves

variable {F : σ → Prop}

theorem ret (a : α) : Preserves ρ F (pure a : Prog ε σ α) := fun _ hs => wp_ret hs

theorem pureE (a : α) : Preserves ρ F (pure a : ExceptT E (Prog ε σ) α).run :=
  fun _ hs => wpE_pure hs

theorem throwE (x : E) : Preserves ρ F (throw x : ExceptT E (Prog ε σ) α).run :=
  fun _ hs => wpE_throw hs

theorem bind {p : Prog ε σ α} {k : α → Prog ε σ β} (hp : Preserves ρ F p)
    (hk : ∀ a, Preserves ρ F (k a)) : Preserves ρ F (p >>= k) :=
  fun s hs => wp_bind (wp_mono (fun a t ht => hk a t ht) (hp s hs))

theorem bindE {x : ExceptT E (Prog ε σ) α} {k : α → ExceptT E (Prog ε σ) β}
    (hx : Preserves ρ F x.run) (hk : ∀ a, Preserves ρ F (k a).run) :
    Preserves ρ F (x >>= k).run := by
  refine bind hx fun r => ?_
  cases r with
  | ok a => exact hk a
  | error y => exact ret _

theorem foldlME_mem {f : β → α → ExceptT E (Prog ε σ) β} {l : List α}
    (hf : ∀ b, ∀ a ∈ l, Preserves ρ F (f b a).run) (b : β) :
    Preserves ρ F (l.foldlM f b).run := by
  induction l generalizing b with
  | nil => exact pureE b
  | cons x xs ih =>
    rw [List.foldlM_cons]
    obtain ⟨hx, hxs⟩ : (∀ b, Preserves ρ F (f b x).run) ∧
        ∀ b, ∀ a ∈ xs, Preserves ρ F (f b a).run :=
      ⟨fun b => hf b x List.mem_cons_self, fun b a ha => hf b a (List.mem_cons_of_mem x ha)⟩
    exact bindE (hx b) fun b' => ih hxs b'

theorem of_within {R : σ → σ → Prop} {p : Prog ε σ α} (h : Within R p) (hF : Stable ρ F)
    (hR : ∀ e s u, ρ.inv s → F s → ρ.may e s u → R s u → ρ.inv u ∧ ρ.guar s u ∧ F u) :
    Preserves ρ F p := fun _ hs => h.wp hF hs hR

end Preserves

end Conc
