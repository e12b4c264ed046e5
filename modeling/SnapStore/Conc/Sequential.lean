import SnapStore.Conc.Logic

/-!
# Total correctness of a program that runs alone

`twp may p Q s` says that `p`, started in `s` with nobody else at work, is never blocked, comes to
its end and ends in a state with `Q`, whatever the environment supplies to its actions within
`may`.  A program that may fail also has an exceptional postcondition.
-/

namespace Conc

variable {ε σ α β E : Type} {may : ε → Prop}

def twp (may : ε → Prop) : Prog ε σ α → (α → σ → Prop) → σ → Prop
  | .ret a, Q, s => Q a s
  | .act f k, Q, s => ∀ e, may e → ∃ b u, f e s = some (b, u) ∧ twp may (k b) Q u

theorem twp_mono {p : Prog ε σ α} {Q Q' : α → σ → Prop} {s : σ} (hQ : ∀ a t, Q a t → Q' a t)
    (h : twp may p Q s) : twp may p Q' s := by
  induction p generalizing s with
  | ret a => exact hQ a s h
  | act f k ih =>
    intro e he
    obtain ⟨b, u, hf, hk⟩ := h e he
    exact ⟨b, u, hf, ih b hk⟩

theorem twp_ret {a : α} {Q : α → σ → Prop} {s : σ} (h : Q a s) :
    twp may (pure a : Prog ε σ α) Q s := h

theorem twp_bind {p : Prog ε σ α} {k : α → Prog ε σ β} {Q : β → σ → Prop} {s : σ}
    (h : twp may p (fun a t => twp may (k a) Q t) s) : twp may (p >>= k) Q s := by
  rw [Prog.bind_eq]
  induction p generalizing s with
  | ret a => exact h
  | act f g ih =>
    intro e he
    obtain ⟨b, u, hf, hk⟩ := h e he
    exact ⟨b, u, hf, ih b hk⟩

theorem twp_await {f : ε → σ → Option (α × σ)} {Q : α → σ → Prop} {s : σ}
    (h : ∀ e, may e → ∃ a u, f e s = some (a, u) ∧ Q a u) : twp may (Prog.await f) Q s := h

theorem twp_atomic {f : ε → σ → α × σ} {Q : α → σ → Prop} {s : σ}
    (h : ∀ e, may e → Q (f e s).1 (f e s).2) : twp may (Prog.atomic f) Q s := by
  intro e he
  exact ⟨_, _, rfl, h e he⟩

/-- The rule for a loop over a list: `I` relates the accumulator, what is left of the list and the
state. -/
theorem twp_foldlM {f : β → α → Prog ε σ β} (I : β → List α → σ → Prop)
    (hstep : ∀ b a l t, I b (a :: l) t → twp may (f b a) (fun b' u => I b' l u) t)
    (l : List α) (b : β) (s : σ) (h : I b l s) :
    twp may (l.foldlM f b) (fun b' u => I b' [] u) s := by
  induction l generalizing b s with
  | nil => exact h
  | cons a l ih =>
    rw [List.foldlM_cons]
    exact twp_bind (twp_mono (fun b' t ht => ih b' t ht) (hstep b a l s h))

/-! ## Complete runs -/

inductive Ends (may : ε → Prop) {α : Type} : Prog ε σ α → σ → α → σ → Prop where
  | ret (a : α) (s : σ) : Ends may (.ret a) s a s
  | act {γ : Type} {f : ε → σ → Option (γ × σ)} {k : γ → Prog ε σ α} {e : ε} {b : γ} {a : α}
      {s t u : σ} (he : may e) (hf : f e s = some (b, u)) (hk : Ends may (k b) u a t) :
      Ends may (.act f k) s a t

namespace Ends

variable {p : Prog ε σ α} {a : α} {s t : σ}

theorem of_twp {Q : α → σ → Prop} (h : Ends may p s a t) (hp : twp may p Q s) : Q a t := by
  induction h with
  | ret a s => exact hp
  | act he hf _ ih =>
    obtain ⟨b', u', hf', hk⟩ := hp _ he
    obtain ⟨rfl, rfl⟩ : _ = b' ∧ _ = u' := Prod.mk.inj (Option.some.inj (hf.symm.trans hf'))
    exact ih hk

theorem mono {may' : ε → Prop} (hmay : ∀ e, may e → may' e) (h : Ends may p s a t) :
    Ends may' p s a t := by
  induction h with
  | ret a s => exact .ret a s
  | act he hf _ ih => exact .act (hmay _ he) hf ih

theorem exists_of_twp {Q : α → σ → Prop} {e : ε} (he : may e) (h : twp may p Q s) :
    ∃ a t, Ends may p s a t ∧ Q a t := by
  induction p generalizing s with
  | ret a => exact ⟨a, s, .ret a s, h⟩
  | act f k ih =>
    obtain ⟨b, u, hf, hk⟩ := h e he
    obtain ⟨a, t, hends, hQ⟩ := ih b hk
    exact ⟨a, t, .act he hf hends, hQ⟩

theorem of_await {f : ε → σ → Option (α × σ)} (h : Ends may (Prog.await f) s a t) :
    ∃ e, may e ∧ f e s = some (a, t) := by
  cases h with
  | act he hf hk =>
    cases hk
    exact ⟨_, he, hf⟩

theorem of_atomic {f : ε → σ → α × σ} (h : Ends may (Prog.atomic f) s a t) :
    ∃ e, may e ∧ f e s = (a, t) := by
  obtain ⟨e, he, hf⟩ := of_await h
  exact ⟨e, he, Option.some.inj hf⟩

theorem of_bind {k : α → Prog ε σ β} {b : β} {u : σ} (h : Ends may (p >>= k) s b u) :
    ∃ a t, Ends may p s a t ∧ Ends may (k a) t b u := by
  rw [Prog.bind_eq] at h
  induction p generalizing s with
  | ret a => exact ⟨a, s, .ret a s, h⟩
  | act f g ih =>
    cases h with
    | act he hf hk =>
      obtain ⟨a, t, hp, hrest⟩ := ih _ hk
      exact ⟨a, t, .act he hf hp, hrest⟩

theorem cases_bindE {x : ExceptT E (Prog ε σ) α} {k : α → ExceptT E (Prog ε σ) β} {r : Except E β}
    {u : σ} (h : Ends may (x >>= k).run s r u) :
    (∃ y, r = .error y ∧ Ends may x.run s (.error y) u) ∨
      ∃ a t, Ends may x.run s (.ok a) t ∧ Ends may (k a).run t r u := by
  obtain ⟨r', t, hx, hk⟩ := of_bind h
  cases r' with
  | ok a => exact .inr ⟨a, t, hx, hk⟩
  | error y =>
    cases hk
    exact .inl ⟨y, rfl, hx⟩

theorem of_bindE {x : ExceptT E (Prog ε σ) α} {k : α → ExceptT E (Prog ε σ) β} {b : β} {u : σ}
    (h : Ends may (x >>= k).run s (.ok b) u) :
    ∃ a t, Ends may x.run s (.ok a) t ∧ Ends may (k a).run t (.ok b) u := by
  rcases cases_bindE h with ⟨y, hy, -⟩ | hrun
  · cases hy
  · exact hrun

theorem of_lift (h : Ends may (liftM p : ExceptT E (Prog ε σ) α).run s (.ok a) t) :
    Ends may p s a t := by
  obtain ⟨b, u, hp, hret⟩ := of_bind h
  cases hret
  exact hp

theorem within {R : σ → σ → Prop} (h : Ends may p s a t) (hp : Within R p) (hrefl : ∀ s, R s s)
    (htrans : ∀ s t u, R s t → R t u → R s u) : R s t := by
  induction h with
  | ret a s => exact hrefl s
  | act he hf _ ih => exact htrans _ _ _ (hp.1 _ _ _ _ hf) (ih (hp.2 _))

theorem of_run {e : ε} (he : may e) {n : Nat} (h : p.run e n s = some (a, t)) :
    Ends may p s a t := by
  induction n generalizing p s with
  | zero =>
    cases p with
    | ret b =>
      cases h
      exact .ret _ _
    | act f k => cases h
  | succ n ih =>
    cases p with
    | ret b =>
      cases h
      exact .ret _ _
    | act f k =>
      rw [Prog.run] at h
      split at h
      · cases h
      · next hf => exact .act he hf (ih h)

end Ends

/-! ## Programs that may fail -/

def okOr (bad : E → σ → Prop) (Q : α → σ → Prop) : Except E α → σ → Prop
  | .ok a, s => Q a s
  | .error x, s => bad x s

/-- The weakest precondition of a program that ends with `Q`, or with an error as `bad` says. -/
def twpE (may : ε → Prop) (bad : E → σ → Prop) (x : ExceptT E (Prog ε σ) α) (Q : α → σ → Prop)
    (s : σ) : Prop := twp may x.run (okOr bad Q) s

variable {bad : E → σ → Prop} {x : ExceptT E (Prog ε σ) α} {k : α → ExceptT E (Prog ε σ) β} {s : σ}

theorem twpE_mono {Q Q' : α → σ → Prop} (hQ : ∀ a t, Q a t → Q' a t) (h : twpE may bad x Q s) :
    twpE may bad x Q' s := by
  refine twp_mono (fun r t hr => ?_) h
  cases r with
  | ok a => exact hQ a t hr
  | error y => exact hr

theorem twpE_bind {Q : β → σ → Prop}
    (h : twpE may bad x (fun a t => twpE may bad (k a) Q t) s) : twpE may bad (x >>= k) Q s := by
  refine twp_bind (twp_mono (fun r t hr => ?_) h)
  cases r with
  | ok a => exact hr
  | error y => exact hr

theorem twpE_seq {R : α → σ → Prop} {Q : β → σ → Prop} (h : twpE may bad x R s)
    (hk : ∀ a t, R a t → twpE may bad (k a) Q t) : twpE may bad (x >>= k) Q s :=
  twpE_bind (twpE_mono hk h)

theorem twp_seqE {R : α → σ → Prop} {Q : Except E β → σ → Prop}
    (h : twpE may (fun _ _ => False) x R s) (hk : ∀ a t, R a t → twp may (k a).run Q t) :
    twp may (x >>= k).run Q s := by
  refine twp_bind (twp_mono (fun r t hr => ?_) h)
  cases r with
  | ok a => exact hk a t hr
  | error y => exact hr.elim

theorem twpE_pure {a : α} {Q : α → σ → Prop} (h : Q a s) :
    twpE may bad (pure a : ExceptT E (Prog ε σ) α) Q s := h

theorem twpE_foldlM {f : β → α → ExceptT E (Prog ε σ) β} (I : β → List α → σ → Prop)
    (hstep : ∀ b a l t, I b (a :: l) t → twpE may bad (f b a) (fun b' u => I b' l u) t)
    (l : List α) (b : β) (s : σ) (h : I b l s) :
    twpE may bad (l.foldlM f b) (fun b' u => I b' [] u) s := by
  induction l generalizing b s with
  | nil => exact h
  | cons a l ih =>
    rw [List.foldlM_cons]
    exact twpE_seq (hstep b a l s h) fun b' t ht => ih b' t ht

/-! ## Programs that may fail, among others -/

variable {ρ : Rules ε σ}

def wpOr (ρ : Rules ε σ) (bad : E → σ → Prop) (x : ExceptT E (Prog ε σ) α) (Q : α → σ → Prop)
    (s : σ) : Prop := wp ρ x.run (okOr bad Q) s

theorem wpOr_mono {Q Q' : α → σ → Prop} (h : wpOr ρ bad x Q s) (hQ : ∀ a t, Q a t → Q' a t) :
    wpOr ρ bad x Q' s := by
  refine wp_mono (fun r t hr => ?_) h
  cases r with
  | ok a => exact hQ a t hr
  | error y => exact hr

theorem wpOr_and_inv {Q : α → σ → Prop} (hi : ρ.inv s) (h : wpOr ρ bad x Q s) :
    wpOr ρ bad x (fun a t => Q a t ∧ ρ.inv t) s := by
  refine wp_mono (fun r t hr => ?_) (wp_and_inv hi h)
  cases r with
  | ok a => exact hr
  | error y => exact hr.1

theorem wpOr_bind {R : α → σ → Prop} {Q : β → σ → Prop} (h : wpOr ρ bad x R s)
    (hk : ∀ a t, R a t → wpOr ρ bad (k a) Q t) : wpOr ρ bad (x >>= k) Q s := by
  refine wp_bind (wp_mono (fun r t hr => ?_) h)
  cases r with
  | ok a => exact hk a t hr
  | error y => exact hr

theorem wpOr_pure {a : α} {Q : α → σ → Prop} (h : Q a s) :
    wpOr ρ bad (pure a : ExceptT E (Prog ε σ) α) Q s := h

theorem wpOr_throw {y : E} {Q : α → σ → Prop} (h : bad y s) :
    wpOr ρ bad (throw y : ExceptT E (Prog ε σ) α) Q s := h

theorem wpOr_frame {R : σ → σ → Prop} {P : σ → Prop} {Q : α → σ → Prop} (hx : Within R x.run)
    (hP : Stable ρ P) (hR : ∀ s u, R s u → P s → P u) (hs : P s) (h : wpOr ρ bad x Q s) :
    wpOr ρ bad x (fun a t => Q a t ∧ P t) s := by
  refine wp_mono (fun r t hr => ?_) (hx.frame hP hR hs h)
  cases r with
  | ok a => exact hr
  | error y => exact hr.1

theorem wpOr_foldlM {f : β → α → ExceptT E (Prog ε σ) β} (I : β → List α → σ → Prop)
    (hstep : ∀ b a l t, I b (a :: l) t → wpOr ρ bad (f b a) (fun b' u => I b' l u) t)
    (l : List α) (b : β) (s : σ) (h : I b l s) :
    wpOr ρ bad (l.foldlM f b) (fun b' u => I b' [] u) s := by
  induction l generalizing b s with
  | nil => exact h
  | cons a l ih =>
    rw [List.foldlM_cons]
    exact wpOr_bind (hstep b a l s h) fun b' t ht => ih b' t ht

theorem preserves_iff {F : σ → Prop} :
    Preserves ρ F x.run ↔ ∀ s, F s → wpOr ρ (fun _ => F) x (fun _ => F) s := by
  have hpost : ∀ (r : Except E α) t, F t ↔ okOr (fun _ => F) (fun _ => F) r t := by
    intro r t
    cases r with
    | ok a => exact Iff.rfl
    | error y => exact Iff.rfl
  exact ⟨fun h s hs => wp_mono (fun r t => (hpost r t).mp) (h s hs),
    fun h s hs => wp_mono (fun r t => (hpost r t).mpr) (h s hs)⟩

/-! ## Partial correctness of a program that runs alone -/

/-- Nobody else changes the state; `may` says what the environment supplies in which state. -/
def alone (may : ε → σ → Prop) : Rules ε σ :=
  ⟨fun e s _ => may e s, fun _ => True, Eq, fun _ _ => True, fun _ => rfl, fun _ _ _ => Eq.trans⟩

theorem stable_alone {may : ε → σ → Prop} (P : σ → Prop) : Stable (alone may) P := by
  intro s t h hr _
  subst hr
  exact h

theorem wp_alone_atomic {may : ε → σ → Prop} {f : ε → σ → α × σ} {Q : α → σ → Prop} {s : σ}
    (h : ∀ e, may e s → Q (f e s).1 (f e s).2) : wp (alone may) (Prog.atomic f) Q s := by
  refine wp_atomic (stable_alone (· = s)) rfl fun e t _ ht hm => ⟨trivial, trivial, ?_⟩
  subst ht
  exact h e hm

theorem Ends.of_wp {p : Prog ε σ α} {Q : α → σ → Prop} {s t : σ} {a : α} (h : Ends may p s a t)
    (hw : wp (alone fun e _ => may e) p Q s) : Q a t := by
  induction h with
  | ret a s => exact hw
  | act he hf _ ih => exact ih (hw _ rfl trivial _ _ _ hf he).2.2

theorem twp_of_wp {p : Prog ε σ α} {Q : α → σ → Prop} {s : σ} (ht : twp may p (fun _ _ => True) s)
    (hw : wp (alone fun e _ => may e) p Q s) : twp may p Q s := by
  induction p generalizing s with
  | ret a => exact hw
  | act f k ih =>
    intro e he
    obtain ⟨b, u, hf, hk⟩ := ht e he
    exact ⟨b, u, hf, ih b hk (hw s rfl trivial e b u hf he).2.2⟩

end Conc
