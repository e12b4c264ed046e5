import Mathlib.Data.List.Infix
import Mathlib.Data.List.Nodup

/-!
# Lines of descent

Items of type `ι` are looked up in a store; a stored item may name a parent.  The lineage of an
item lists it, its parent and so on down to an item without a parent.
-/

variable {ι μ : Type*} (find : ι → Option μ) (parent : μ → Option ι)

inductive Lineage : ι → List (ι × μ) → Prop where
  | root {i : ι} {m : μ} (h : find i = some m) (hp : parent m = none) : Lineage i [(i, m)]
  | child {i p : ι} {m : μ} {l : List (ι × μ)} (h : find i = some m) (hp : parent m = some p)
      (hl : Lineage p l) : Lineage i ((i, m) :: l)

namespace Lineage

variable {find find' : ι → Option μ} {parent : μ → Option ι} {i j : ι} {l l' : List (ι × μ)}

theorem mono (hf : ∀ i m, find i = some m → find' i = some m) (h : Lineage find parent i l) :
    Lineage find' parent i l := by
  induction h with
  | root h hp => exact .root (hf _ _ h) hp
  | child h hp _ ih => exact .child (hf _ _ h) hp ih

theorem head (h : Lineage find parent i l) : ∃ m t, l = (i, m) :: t ∧ find i = some m := by
  cases h with
  | root h hp => exact ⟨_, [], rfl, h⟩
  | child h hp hl => exact ⟨_, _, rfl, h⟩

theorem unique (h : Lineage find parent i l) (h' : Lineage find parent i l') : l = l' := by
  induction h generalizing l' with
  | root h hp =>
    cases h' with
    | root h' hp' => rw [Option.some.inj (h.symm.trans h')]
    | child h' hp' hl' =>
      rw [← Option.some.inj (h.symm.trans h'), hp] at hp'
      cases hp'
  | child h hp hl ih =>
    cases h' with
    | root h' hp' =>
      rw [← Option.some.inj (h.symm.trans h'), hp] at hp'
      cases hp'
    | child h' hp' hl' =>
      obtain rfl := Option.some.inj (h.symm.trans h')
      obtain rfl := Option.some.inj (hp.symm.trans hp')
      rw [ih hl']

theorem suffix (h : Lineage find parent i l) {m : μ} (hj : (j, m) ∈ l) :
    ∃ l', Lineage find parent j l' ∧ l' <:+ l := by
  induction h with
  | root h hp =>
    obtain ⟨rfl, rfl⟩ : j = _ ∧ m = _ := by simpa using hj
    exact ⟨_, .root h hp, List.suffix_refl _⟩
  | child h hp hl ih =>
    rcases List.mem_cons.mp hj with heq | hj
    · cases heq
      exact ⟨_, .child h hp hl, List.suffix_refl _⟩
    · obtain ⟨l', hl', hs⟩ := ih hj
      exact ⟨l', hl', hs.trans (List.suffix_cons _ _)⟩

theorem find_of_mem (h : Lineage find parent i l) {m : μ} (hj : (j, m) ∈ l) : find j = some m := by
  induction h with
  | root h hp =>
    obtain ⟨rfl, rfl⟩ : j = _ ∧ m = _ := by simpa using hj
    exact h
  | child h hp hl ih =>
    rcases List.mem_cons.mp hj with heq | hj
    · cases heq
      exact h
    · exact ih hj

theorem nodup (h : Lineage find parent i l) : (l.map (·.1)).Nodup := by
  induction h with
  | root h hp => simp
  | @child i p m l h hp hl ih =>
    rw [List.map_cons, List.nodup_cons]
    refine ⟨fun hmem => ?_, ih⟩
    obtain ⟨⟨j, m'⟩, hj, rfl⟩ := List.mem_map.mp hmem
    obtain ⟨l', hl', hs⟩ := hl.suffix hj
    have heq : (j, m) :: l = l' := (Lineage.child h hp hl).unique hl'
    have hlen := hs.length_le
    rw [← heq, List.length_cons] at hlen
    omega

theorem getLast (h : Lineage find parent i l) :
    ∃ j m, l.getLast? = some (j, m) ∧ parent m = none := by
  induction h with
  | root h hp => exact ⟨_, _, rfl, hp⟩
  | @child i p m l h hp hl ih =>
    obtain ⟨j, m', hlast, hp'⟩ := ih
    refine ⟨j, m', ?_, hp'⟩
    rw [List.getLast?_cons, hlast]
    rfl

/-- The lineage of `i` down to an ancestor `j`, and the lineage of `j`. -/
theorem split (h : Lineage find parent i l) (hj : j ∈ l.map (·.1)) :
    ∃ pre post, l = pre ++ post ∧ Lineage find parent j post ∧ j ∉ pre.map (·.1) ∧
      ∀ e ∈ pre, (parent e.2).isSome = true := by
  induction h with
  | @root i m h hp =>
    obtain rfl : j = i := by simpa using hj
    exact ⟨[], _, rfl, .root h hp, by simp, by simp⟩
  | @child i p m l h hp hl ih =>
    by_cases hij : j = i
    · subst hij
      exact ⟨[], _, rfl, .child h hp hl, by simp, by simp⟩
    · obtain ⟨pre, post, rfl, hpost, hnot, hsome⟩ := ih (by simpa [hij] using hj)
      exact ⟨(i, m) :: pre, post, rfl, hpost, by simpa [hij] using hnot,
        List.forall_mem_cons.mpr ⟨by rw [hp]; rfl, hsome⟩⟩

end Lineage
