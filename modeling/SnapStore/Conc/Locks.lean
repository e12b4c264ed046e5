import SnapStore.Conc.Machine
import SnapStore.Conc.Sequential

/-!
# Calls that always return

Threads that take their locks in ascending order and give all of them back never block each other.
A program is a well-founded tree, so the threads of a configuration can only take finitely many
steps, and then all of them have returned.
-/

namespace Conc

variable {ε σ α β E L : Type}

structure Locks (L σ : Type) where
  rank : L → Nat
  size : Nat
  rank_lt : ∀ l, rank l < size
  owner : L → σ → Option Tid
  inv : σ → Prop

namespace Locks

variable (Λ : Locks L σ)

def Owns (t : Tid) (held : List L) (s : σ) : Prop := ∀ l, Λ.owner l s = some t ↔ l ∈ held

def Still (s s' : σ) : Prop := (Λ.inv s → Λ.inv s') ∧ ∀ l, Λ.owner l s' = Λ.owner l s

def Apart (t : Tid) (s s' : σ) : Prop :=
  ∀ u, u ≠ t → ∀ l, Λ.owner l s' = some u ↔ Λ.owner l s = some u

/-- The program waits only for locks above those it holds; `Q` is what it holds at its end. -/
def Orderly (t : Tid) : Prog ε σ α → List L → (α → List L) → Prop
  | .ret a, held, Q => held = Q a
  | .act f k, held, Q =>
    (∀ e s, Λ.inv s → f e s = none →
      ∃ l u, Λ.owner l s = some u ∧ ∀ l' ∈ held, Λ.rank l' < Λ.rank l) ∧
    ∃ next : _ → List L,
      (∀ e s b s', Λ.inv s → Λ.Owns t held s → f e s = some (b, s') →
        Λ.inv s' ∧ Λ.Owns t (next b) s' ∧ Λ.Apart t s s') ∧
      ∀ b, Orderly t (k b) (next b) Q

variable {Λ} {t : Tid} {held : List L}

theorem Owns.apart {u : Tid} {s s' : σ} (h : Λ.Owns u held s) (ha : Λ.Apart t s s') (hne : u ≠ t) :
    Λ.Owns u held s' := fun l => (ha u hne l).trans (h l)

theorem Owns.still {s s' : σ} (h : Λ.Owns t held s) (hs : ∀ l, Λ.owner l s' = Λ.owner l s) :
    Λ.Owns t held s' ∧ Λ.Apart t s s' := by
  refine ⟨fun l => ?_, fun u _ l => ?_⟩
  · rw [hs l]
    exact h l
  · rw [hs l]

theorem Owns.take {s s' : σ} {l : L} (h : Λ.Owns t held s) (hfree : Λ.owner l s = none)
    (hmine : Λ.owner l s' = some t) (hrest : ∀ l', l' ≠ l → Λ.owner l' s' = Λ.owner l' s) :
    Λ.Owns t (l :: held) s' ∧ Λ.Apart t s s' := by
  refine ⟨fun l' => ?_, fun u hne l' => ?_⟩ <;> by_cases hl : l' = l
  · subst hl
    simp [hmine]
  · rw [hrest l' hl, h l', List.mem_cons, or_iff_right hl]
  · subst hl
    simp [hmine, hfree, hne.symm]
  · rw [hrest l' hl]

theorem Owns.give {s s' : σ} {l : L} (h : Λ.Owns t (l :: held) s) (hfresh : l ∉ held)
    (hfree : Λ.owner l s' = none) (hrest : ∀ l', l' ≠ l → Λ.owner l' s' = Λ.owner l' s) :
    Λ.Owns t held s' ∧ Λ.Apart t s s' := by
  have hmine := (h l).mpr List.mem_cons_self
  refine ⟨fun l' => ?_, fun u hne l' => ?_⟩ <;> by_cases hl : l' = l
  · subst hl
    simp [hfree, hfresh]
  · rw [hrest l' hl, h l', List.mem_cons, or_iff_right hl]
  · subst hl
    simp [hmine, hfree, hne.symm]
  · rw [hrest l' hl]

namespace Orderly

theorem await {f : ε → σ → Option (α × σ)} {Q : α → List L}
    (hwait : ∀ e s, Λ.inv s → f e s = none →
      ∃ l u, Λ.owner l s = some u ∧ ∀ l' ∈ held, Λ.rank l' < Λ.rank l)
    (hstep : ∀ e s b s', Λ.inv s → Λ.Owns t held s → f e s = some (b, s') →
      Λ.inv s' ∧ Λ.Owns t (Q b) s' ∧ Λ.Apart t s s') : Λ.Orderly t (Prog.await f) held Q :=
  ⟨hwait, Q, hstep, fun _ => rfl⟩

theorem atomic {f : ε → σ → α × σ} (h : ∀ e s, Λ.Still s (f e s).2) :
    Λ.Orderly t (Prog.atomic f) held fun _ => held := by
  refine await (fun e s _ hf => by simp at hf) fun e s b s' hi ho hf => ?_
  have hb : f e s = (b, s') := Option.some.inj hf
  have hstill := h e s
  rw [hb] at hstill
  exact ⟨hstill.1 hi, ho.still hstill.2⟩

theorem acquire {f : ε → σ → Option (α × σ)} (l : L)
    (hlow : ∀ l' ∈ held, Λ.rank l' < Λ.rank l)
    (hwait : ∀ e s, Λ.inv s → f e s = none → ∃ u, Λ.owner l s = some u)
    (hstep : ∀ e s b s', Λ.inv s → f e s = some (b, s') → Λ.inv s' ∧ Λ.owner l s = none ∧
      Λ.owner l s' = some t ∧ ∀ l', l' ≠ l → Λ.owner l' s' = Λ.owner l' s) :
    Λ.Orderly t (Prog.await f) held fun _ => l :: held := by
  refine await (fun e s hi hf => ?_) fun e s b s' hi ho hf => ?_
  · obtain ⟨u, hu⟩ := hwait e s hi hf
    exact ⟨l, u, hu, hlow⟩
  · obtain ⟨hinv, hfree, hmine, hrest⟩ := hstep e s b s' hi hf
    exact ⟨hinv, ho.take hfree hmine hrest⟩

theorem release {f : σ → σ} {l : L} (hfresh : l ∉ held)
    (hstep : ∀ s, Λ.inv s → Λ.inv (f s) ∧ Λ.owner l (f s) = none ∧
      ∀ l', l' ≠ l → Λ.owner l' (f s) = Λ.owner l' s) :
    Λ.Orderly t (Prog.update f : Prog ε σ Unit) (l :: held) fun _ => held := by
  refine await (fun e s _ hf => by simp at hf) fun e s b s' hi ho hf => ?_
  simp only [Option.some.injEq, Prod.mk.injEq] at hf
  obtain ⟨-, rfl⟩ := hf
  obtain ⟨hinv, hfree, hrest⟩ := hstep s hi
  exact ⟨hinv, ho.give hfresh hfree hrest⟩

theorem bind {p : Prog ε σ α} {k : α → Prog ε σ β} {Q : α → List L} {R : β → List L}
    (hp : Λ.Orderly t p held Q) (hk : ∀ a, Λ.Orderly t (k a) (Q a) R) :
    Λ.Orderly t (p >>= k) held R := by
  rw [Prog.bind_eq]
  induction p generalizing held with
  | ret a =>
    have hq : held = Q a := hp
    rw [hq]
    exact hk a
  | act f g ih =>
    obtain ⟨hwait, next, hstep, hnext⟩ := hp
    exact ⟨hwait, next, hstep, fun b => ih b (hnext b)⟩

theorem bindE {x : ExceptT E (Prog ε σ) α} {k : α → ExceptT E (Prog ε σ) β}
    (hx : Λ.Orderly t x.run held fun _ => held)
    (hk : ∀ a, Λ.Orderly t (k a).run held fun _ => held) :
    Λ.Orderly t (x >>= k).run held fun _ => held := by
  refine bind hx fun r => ?_
  cases r with
  | ok a => exact hk a
  | error y => exact rfl

theorem throwE (x : E) :
    Λ.Orderly t (throw x : ExceptT E (Prog ε σ) α).run held fun _ => held := rfl

end Orderly

/-! ## Programs that are never blocked -/

end Locks

def Prompt (R : σ → σ → Prop) : Prog ε σ α → Prop
  | .ret _ => True
  | .act f k => (∀ e s, ∃ b u, f e s = some (b, u) ∧ R s u) ∧ ∀ b, Prompt R (k b)

namespace Prompt

variable {R : σ → σ → Prop}

theorem ret (a : α) : Prompt R (pure a : Prog ε σ α) := True.intro

theorem pureE (a : α) : Prompt R (pure a : ExceptT E (Prog ε σ) α).run := True.intro

theorem throwE (x : E) : Prompt R (throw x : ExceptT E (Prog ε σ) α).run := True.intro

theorem atomic {f : ε → σ → α × σ} (h : ∀ e s, R s (f e s).2) : Prompt R (Prog.atomic f) :=
  ⟨fun e s => ⟨_, _, rfl, h e s⟩, fun _ => True.intro⟩

theorem bind {p : Prog ε σ α} {k : α → Prog ε σ β} (hp : Prompt R p) (hk : ∀ a, Prompt R (k a)) :
    Prompt R (p >>= k) := by
  rw [Prog.bind_eq]
  induction p with
  | ret a => exact hk a
  | act f g ih => exact ⟨hp.1, fun b => ih b (hp.2 b)⟩

theorem bindE {x : ExceptT E (Prog ε σ) α} {k : α → ExceptT E (Prog ε σ) β}
    (hx : Prompt R x.run) (hk : ∀ a, Prompt R (k a).run) : Prompt R (x >>= k).run := by
  refine bind hx fun r => ?_
  cases r with
  | ok a => exact hk a
  | error y => exact True.intro

theorem foldlME {f : β → α → ExceptT E (Prog ε σ) β} (hf : ∀ b a, Prompt R (f b a).run)
    (l : List α) (b : β) : Prompt R (l.foldlM f b).run := by
  induction l generalizing b with
  | nil => exact True.intro
  | cons x xs ih =>
    rw [List.foldlM_cons]
    exact bindE (hf b x) fun b' => ih b'

theorem mono {R' : σ → σ → Prop} {p : Prog ε σ α} (hR : ∀ s u, R s u → R' s u)
    (h : Prompt R p) : Prompt R' p := by
  induction p with
  | ret a => exact True.intro
  | act f k ih =>
    refine ⟨fun e s => ?_, fun b => ih b (h.2 b)⟩
    obtain ⟨b, u, hf, hu⟩ := h.1 e s
    exact ⟨b, u, hf, hR s u hu⟩

theorem of_eq {p : Prog ε σ α} (hR : ∀ s, R s s) (h : Prompt Eq p) : Prompt R p :=
  h.mono fun s u (heq : s = u) => by
    rw [← heq]
    exact hR s

theorem within {p : Prog ε σ α} (h : Prompt R p) : Within R p := by
  induction p with
  | ret a => exact True.intro
  | act f k ih =>
    refine ⟨fun e s b u hf => ?_, fun b => ih b (h.2 b)⟩
    obtain ⟨b', u', hf', hR⟩ := h.1 e s
    cases hf.symm.trans hf'
    exact hR

theorem wp_of_twp {ρ : Rules ε σ} {p : Prog ε σ α} {Q : α → σ → Prop} {s : σ} (h : Prompt Eq p)
    (hrely : ∀ s t, ρ.rely s t → s = t) (hguar : ∀ s, ρ.guar s s)
    (hp : Conc.twp (fun _ => True) p Q s) : wp ρ p Q s := by
  induction p generalizing s with
  | ret a => exact hp
  | act f k ih =>
    intro t ht hi e b u hf _
    obtain rfl := hrely s t ht
    obtain ⟨b', u', hf', rfl⟩ := h.1 e s
    obtain ⟨b₁, u₁, hf₁, hk⟩ := hp e trivial
    cases hf.symm.trans hf'
    cases hf.symm.trans hf₁
    exact ⟨hi, hguar s, ih b (h.2 b) hk⟩

theorem twp {may : ε → Prop} {p : Prog ε σ α} {P : σ → Prop} {s : σ} (h : Prompt R p)
    (hR : ∀ s u, R s u → P s → P u) (hs : P s) : Conc.twp may p (fun _ t => P t) s := by
  induction p generalizing s with
  | ret a => exact hs
  | act f k ih =>
    intro e _
    obtain ⟨b, u, hf, hu⟩ := h.1 e s
    exact ⟨b, u, hf, ih b (h.2 b) (hR s u hu hs)⟩

theorem orderly {Λ : Locks L σ} {t : Tid} {held : List L} {p : Prog ε σ α}
    (h : Prompt Λ.Still p) : Λ.Orderly t p held fun _ => held := by
  induction p with
  | ret a => exact rfl
  | act f k ih =>
    refine ⟨fun e s _ hnone => ?_, fun _ => held, fun e s b u hi ho hf => ?_, fun b => ih b (h.2 b)⟩
    · obtain ⟨b, u, hf, -⟩ := h.1 e s
      rw [hnone] at hf
      cases hf
    · obtain ⟨b', u', hf', hstill⟩ := h.1 e s
      rw [hf] at hf'
      cases hf'
      exact ⟨hstill.1 hi, ho.still hstill.2⟩

end Prompt

/-- The program waits at most once, and then only until `free` holds; after that it is never
blocked. -/
def WaitsOnce (free : σ → Prop) : Prog ε σ α → Prop
  | .ret _ => True
  | .act f k =>
    ((∀ e s, (f e s).isSome = true) ∧ ∀ b, WaitsOnce free (k b)) ∨
    ((∀ e s, free s → (f e s).isSome = true) ∧ ∀ b, Prompt (fun _ _ => True) (k b))

namespace WaitsOnce

variable {R : σ → σ → Prop} {free : σ → Prop}

theorem of_prompt {p : Prog ε σ α} (h : Prompt R p) : WaitsOnce free p := by
  induction p with
  | ret a => exact True.intro
  | act f k ih =>
    refine .inl ⟨fun e s => ?_, fun b => ih b (h.2 b)⟩
    obtain ⟨b, u, hf, -⟩ := h.1 e s
    rw [hf]
    rfl

theorem await {f : ε → σ → Option (α × σ)} (h : ∀ e s, free s → (f e s).isSome = true) :
    WaitsOnce free (Prog.await f) := .inr ⟨h, fun _ => True.intro⟩

theorem bind {p : Prog ε σ α} {k : α → Prog ε σ β} (hp : WaitsOnce free p)
    (hk : ∀ a, Prompt R (k a)) : WaitsOnce free (p >>= k) := by
  rw [Prog.bind_eq]
  induction p with
  | ret a => exact of_prompt (hk a)
  | act f g ih =>
    rcases hp with ⟨hf, hg⟩ | ⟨hf, hg⟩
    · exact .inl ⟨hf, fun b => ih b (hg b)⟩
    · exact .inr ⟨hf, fun b => (hg b).bind fun a => (hk a).mono fun _ _ _ => trivial⟩

theorem after {p : Prog ε σ α} {k : α → Prog ε σ β} (hp : Prompt R p)
    (hk : ∀ a, WaitsOnce free (k a)) : WaitsOnce free (p >>= k) := by
  rw [Prog.bind_eq]
  induction p with
  | ret a => exact hk a
  | act f g ih =>
    refine .inl ⟨fun e s => ?_, fun b => ih b (hp.2 b)⟩
    obtain ⟨b, u, hf, -⟩ := hp.1 e s
    rw [hf]
    rfl

theorem bindE {x : ExceptT E (Prog ε σ) α} {k : α → ExceptT E (Prog ε σ) β}
    (hx : WaitsOnce free x.run) (hk : ∀ a, Prompt R (k a).run) :
    WaitsOnce free (x >>= k).run := by
  refine bind (R := R) hx fun r => ?_
  cases r with
  | ok a => exact hk a
  | error y => exact True.intro

theorem afterE {x : ExceptT E (Prog ε σ) α} {k : α → ExceptT E (Prog ε σ) β}
    (hx : Prompt R x.run) (hk : ∀ a, WaitsOnce free (k a).run) :
    WaitsOnce free (x >>= k).run := by
  refine after hx fun r => ?_
  cases r with
  | ok a => exact hk a
  | error y => exact True.intro

theorem step {p p' : Prog ε σ α} {e : ε} {s s' : σ} (h : WaitsOnce free p)
    (hs : p.step e s = some (p', s')) : WaitsOnce free p' := by
  cases p with
  | ret a => simp [Prog.step] at hs
  | act f k =>
    simp only [Prog.step, Option.map_eq_some_iff, Prod.mk.injEq] at hs
    obtain ⟨⟨b, u⟩, -, rfl, rfl⟩ := hs
    rcases h with ⟨-, hk⟩ | ⟨-, hk⟩
    · exact hk b
    · exact of_prompt (hk b)

end WaitsOnce

namespace Locks

variable {Λ : Locks L σ} {t : Tid} {held : List L}

/-! ## No deadlock -/

variable {M : Machine ε σ}

structure Obeyed (Λ : Locks L σ) (s : σ) (ts : List (Thread M)) : Prop where
  inv : Λ.inv s
  threads : ∀ (t : Tid) (c : M.Call) (p : Prog ε σ M.Reply), ts[t]? = some ⟨c, p⟩ →
    ∃ held, Λ.Owns t held s ∧ Λ.Orderly t p held fun _ => []
  absent : ∀ t, ts.length ≤ t → Λ.Owns t [] s

theorem Obeyed.start {s : σ} {ts : List (Thread M)} (h : Λ.Obeyed s ts) (c : M.Call)
    (hc : Λ.Orderly ts.length (M.body ts.length c) [] fun _ => []) :
    Λ.Obeyed s (ts ++ [⟨c, M.body ts.length c⟩]) := by
  refine ⟨h.inv, fun t d p ht => ?_, fun t ht => h.absent t ?_⟩
  · rcases Machine.getElem?_concat_eq_some ht with hold | ⟨rfl, hnew⟩
    · exact h.threads t d p hold
    · cases hnew
      exact ⟨[], h.absent _ (Nat.le_refl _), hc⟩
  · rw [List.length_append] at ht
    omega

theorem Obeyed.act {s s' : σ} {ts : List (Thread M)} {t : Tid} {c : M.Call}
    {p p' : Prog ε σ M.Reply} {e : ε} (h : Λ.Obeyed s ts) (ht : ts[t]? = some ⟨c, p⟩)
    (hp : p.step e s = some (p', s')) : Λ.Obeyed s' (ts.set t ⟨c, p'⟩) := by
  obtain ⟨held, hown, hord⟩ := h.threads t c p ht
  cases p with
  | ret a => simp [Prog.step] at hp
  | act f k =>
    simp only [Prog.step, Option.map_eq_some_iff, Prod.mk.injEq] at hp
    obtain ⟨⟨b, u⟩, hf, rfl, rfl⟩ := hp
    obtain ⟨-, next, hstep, hnext⟩ := hord
    obtain ⟨hinv, hown', hapart⟩ := hstep e s b u h.inv hown hf
    have htlen : t < ts.length := (List.getElem?_eq_some_iff.mp ht).1
    refine ⟨hinv, fun v d q hv => ?_, fun v hv => ?_⟩
    · by_cases hvt : v = t
      · subst hvt
        rw [List.getElem?_set_self htlen, Option.some.injEq, Thread.mk.injEq] at hv
        obtain ⟨rfl, rfl⟩ := hv
        exact ⟨next b, hown', hnext b⟩
      · rw [List.getElem?_set_ne (Ne.symm hvt)] at hv
        obtain ⟨held', hown, hord⟩ := h.threads v d q hv
        exact ⟨held', hown.apart hapart hvt, hord⟩
    · rw [List.length_set] at hv
      exact (h.absent v hv).apart hapart (Nat.ne_of_gt (Nat.lt_of_lt_of_le htlen hv))

def Moves (e : ε) (s : σ) (ts : List (Thread M)) : Prop :=
  ∃ (t : Tid) (c : M.Call) (p p' : Prog ε σ M.Reply) (s' : σ), ts[t]? = some (⟨c, p⟩ : Thread M) ∧ p.step e s = some (p', s')

theorem Obeyed.waits {s : σ} {ts : List (Thread M)} (h : Λ.Obeyed s ts) (e : ε) {t : Tid}
    {c : M.Call} {p : Prog ε σ M.Reply} (ht : ts[t]? = some ⟨c, p⟩) (hrun : p.isDone = false) :
    Moves e s ts ∨ ∃ l u, Λ.owner l s = some u ∧
      ∀ l', Λ.owner l' s = some t → Λ.rank l' < Λ.rank l := by
  obtain ⟨held, hown, hord⟩ := h.threads t c p ht
  cases p with
  | ret a => simp [Prog.isDone] at hrun
  | act f k =>
    cases hf : f e s with
    | some r => exact .inl ⟨t, c, _, k r.1, r.2, ht, by simp [Prog.step, hf]⟩
    | none =>
      obtain ⟨l, u, hu, hlt⟩ := hord.1 e s h.inv hf
      exact .inr ⟨l, u, hu, fun l' hl' => hlt l' ((hown l').mp hl')⟩

theorem Obeyed.running_of_owner {s : σ} {ts : List (Thread M)} (h : Λ.Obeyed s ts) {l : L}
    {u : Tid} (hu : Λ.owner l s = some u) :
    ∃ c p, ts[u]? = some (⟨c, p⟩ : Thread M) ∧ p.isDone = false := by
  by_cases hlt : u < ts.length
  · obtain ⟨c, p, hget⟩ : ∃ c p, ts[u]? = some (⟨c, p⟩ : Thread M) :=
      ⟨ts[u].call, ts[u].prog, List.getElem?_eq_getElem hlt⟩
    obtain ⟨held, hown, hord⟩ := h.threads u c p hget
    cases p with
    | ret a =>
      have hnone : held = [] := hord
      subst hnone
      exact absurd ((hown l).mp hu) List.not_mem_nil
    | act f k => exact ⟨c, _, hget, rfl⟩
  · exact absurd ((h.absent u (Nat.le_of_not_lt hlt) l).mp hu) List.not_mem_nil

theorem Obeyed.moves_of_owner {s : σ} {ts : List (Thread M)} (h : Λ.Obeyed s ts) (e : ε) (n : Nat) :
    ∀ l u, Λ.size - Λ.rank l ≤ n → Λ.owner l s = some u → Moves e s ts := by
  induction n with
  | zero =>
    intro l u hle _
    have hlt := Λ.rank_lt l
    omega
  | succ n ih =>
    intro l u hle hu
    obtain ⟨c, p, hget, hrun⟩ := h.running_of_owner hu
    rcases h.waits e hget hrun with hmoves | ⟨l', u', hu', habove⟩
    · exact hmoves
    · -- the owner waits for a lock above the one it holds
      have hlt := habove l hu
      exact ih l' u' (by omega) hu'

theorem Obeyed.progress {s : σ} {ts : List (Thread M)} (h : Λ.Obeyed s ts) (e : ε) {t : Tid}
    {c : M.Call} {p : Prog ε σ M.Reply} (ht : ts[t]? = some ⟨c, p⟩) (hrun : p.isDone = false) :
    Moves e s ts := by
  rcases h.waits e ht hrun with hmoves | ⟨l, u, hu, -⟩
  · exact hmoves
  · exact h.moves_of_owner e _ l u (Nat.le_refl _) hu

theorem obeyed_of_reach {ok : Label M → σ → σ → Prop}
    (hbody : ∀ t c, Λ.Orderly t (M.body t c) [] fun _ => []) (hcrash : ∀ s s', ¬ M.crash s s')
    {s₀ : σ} (h₀ : Λ.inv s₀) (hfree : ∀ l, Λ.owner l s₀ = none) {c : Config M}
    (h : M.Reach ok ⟨s₀, .up, []⟩ c) : c.mode = .up ∧ Λ.Obeyed c.store c.threads := by
  induction h with
  | refl => exact ⟨rfl, h₀, by simp, fun t _ l => by simp [hfree l]⟩
  | step hr hs hok ih =>
    obtain ⟨hup, hobeyed⟩ := ih
    cases hs with
    | start c hc => exact ⟨rfl, hobeyed.start c (hbody _ c)⟩
    | act t e ht hp => exact ⟨rfl, hobeyed.act ht hp⟩
    | boot e hp => cases hup
    | ready b => cases hup
    | crash hc => exact absurd hc (hcrash _ _)

theorem Obeyed.exists_step {c : Config M} (h : Λ.Obeyed c.store c.threads) (hup : c.mode = .up)
    (e : ε) (hrun : ∃ th ∈ c.threads, th.prog.isDone = false) :
    ∃ t b, M.Step c (.act t e) b := by
  obtain ⟨s, mode, ts⟩ := c
  cases hup
  obtain ⟨th, hth, hrun⟩ := hrun
  obtain ⟨t, ht⟩ := List.mem_iff_getElem?.mp hth
  obtain ⟨u, d, p, p', s', hu, hp⟩ := h.progress e ht hrun
  exact ⟨u, _, .act u e hu hp⟩

end Locks

/-! ## Every run ends -/

namespace Machine

variable {M : Machine ε σ} {ok : Label M → σ → σ → Prop}

/-- However the running threads are scheduled, they take finitely many steps and all return. -/
inductive Settles (M : Machine ε σ) (ok : Label M → σ → σ → Prop) : Config M → Prop where
  | intro (c : Config M)
      (next : ∀ t e b, M.Step c (.act t e) b → ok (.act t e) c.store b.store → Settles M ok b)
      (live : (∃ th ∈ c.threads, th.prog.isDone = false) →
        ∃ t e b, M.Step c (.act t e) b ∧ ok (.act t e) c.store b.store) : Settles M ok c

def Later (ts' ts : List (Thread M)) : Prop :=
  ∃ t c, ∃ β : Type, ∃ (f : ε → σ → Option (β × σ)) (k : β → Prog ε σ M.Reply) (b : β),
    ts[t]? = some (⟨c, .act f k⟩ : Thread M) ∧ ts' = ts.set t ⟨c, k b⟩

theorem acc_later_cons (c : M.Call) {ts : List (Thread M)} (hts : Acc Later ts)
    (p : Prog ε σ M.Reply) : Acc Later (⟨c, p⟩ :: ts) := by
  induction hts generalizing p with
  | intro ts hacc ih =>
    induction p with
    | ret a =>
      refine Acc.intro _ ?_
      intro ts' hlater
      obtain ⟨t, d, β, f, k, b, ht, rfl⟩ := hlater
      cases t with
      | zero => simp at ht
      | succ t => exact ih _ ⟨t, d, β, f, k, b, by simpa using ht, rfl⟩ _
    | act g l ihp =>
      refine Acc.intro _ ?_
      intro ts' hlater
      obtain ⟨t, d, β, f, k, b, ht, rfl⟩ := hlater
      cases t with
      | zero =>
        simp only [List.getElem?_cons_zero, Option.some.injEq, Thread.mk.injEq,
          Prog.act.injEq] at ht
        obtain ⟨rfl, rfl, hf, hk⟩ := ht
        cases hk
        exact ihp b
      | succ t => exact ih _ ⟨t, d, β, f, k, b, by simpa using ht, rfl⟩ _

theorem acc_later (ts : List (Thread M)) : Acc Later ts := by
  induction ts with
  | nil =>
    refine Acc.intro _ ?_
    intro ts' hlater
    obtain ⟨t, c, β, f, k, b, ht, -⟩ := hlater
    simp at ht
  | cons th ts ih => exact acc_later_cons th.call ih th.prog

theorem Step.later {a b : Config M} {t : Tid} {e : ε} (h : M.Step a (.act t e) b) :
    Later b.threads a.threads := by
  cases h with
  | @act s s' ts c p p' _ _ ht hp =>
    cases p with
    | ret a => simp [Prog.step] at hp
    | act f k =>
      simp only [Prog.step, Option.map_eq_some_iff, Prod.mk.injEq] at hp
      obtain ⟨⟨r, u⟩, hf, rfl, rfl⟩ := hp
      exact ⟨t, c, _, f, k, r, ht, rfl⟩

theorem settles_of_live {c₀ c : Config M} (hlive : ∀ c, M.Reach ok c₀ c →
      (∃ th ∈ c.threads, th.prog.isDone = false) →
        ∃ t e b, M.Step c (.act t e) b ∧ ok (.act t e) c.store b.store)
    (h : M.Reach ok c₀ c) : Settles M ok c := by
  obtain ⟨ts, hts⟩ : ∃ ts, ts = c.threads := ⟨_, rfl⟩
  have hacc := acc_later ts
  induction hacc generalizing c with
  | intro ts _ ih =>
    subst hts
    refine .intro c (fun t e b hs hok => ?_) (hlive c h)
    exact ih b.threads hs.later (h.step hs hok) rfl

end Machine

end Conc
