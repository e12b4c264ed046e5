import Mathlib.Data.List.Perm.Subperm
import Mathlib.Data.List.Nodup

/-!
# Results delivered into numbered slots

A table has one empty slot for each result that is expected.  Results arrive in any order, each with
the number of its slot.  If no slot is used twice and none is out of range, as many results as there
are slots fill the table.
-/

namespace Scatter

variable {α : Type*} {t : List (Option α)} {rs : List (Nat × α)} {n i : Nat} {a : α}

def fill (t : List (Option α)) (rs : List (Nat × α)) : List (Option α) :=
  rs.foldl (fun t r => t.set r.1 (some r.2)) t

@[simp] theorem fill_nil : fill t [] = t := rfl

@[simp] theorem fill_cons (r : Nat × α) : fill t (r :: rs) = fill (t.set r.1 (some r.2)) rs := rfl

@[simp] theorem length_fill : (fill t rs).length = t.length := by
  induction rs generalizing t with
  | nil => rfl
  | cons r rs ih => rw [fill_cons, ih, List.length_set]

theorem getElem?_fill_of_notMem (h : i ∉ rs.map (·.1)) : (fill t rs)[i]? = t[i]? := by
  induction rs generalizing t with
  | nil => rfl
  | cons r rs ih =>
    rw [List.map_cons, List.mem_cons, not_or] at h
    rw [fill_cons, ih h.2, List.getElem?_set_ne (Ne.symm h.1)]

theorem getElem?_fill_of_mem (hslots : (rs.map (·.1)).Nodup) (hi : i < t.length)
    (h : (i, a) ∈ rs) : (fill t rs)[i]? = some (some a) := by
  induction rs generalizing t with
  | nil => cases h
  | cons r rs ih =>
    rw [List.map_cons, List.nodup_cons] at hslots
    rw [fill_cons]
    rcases List.mem_cons.mp h with rfl | hmem
    · rw [getElem?_fill_of_notMem hslots.1, List.getElem?_set_self hi]
    · exact ih hslots.2 (by rwa [List.length_set]) hmem

theorem perm_range_iff {slots : List Nat} :
    slots.Perm (List.range n) ↔ slots.length = n ∧ slots.Nodup ∧ ∀ s ∈ slots, s < n := by
  constructor
  · intro h
    refine ⟨by rw [h.length_eq, List.length_range], h.nodup_iff.mpr List.nodup_range, ?_⟩
    intro s hs
    exact List.mem_range.mp (h.subset hs)
  · intro ⟨hlen, hnodup, hlt⟩
    have hsub : slots ⊆ List.range n := fun s hs => List.mem_range.mpr (hlt s hs)
    apply (List.subperm_of_subset hnodup hsub).perm_of_length_le
    exact Nat.le_of_eq (List.length_range.trans hlen.symm)

theorem exists_fill_eq (h : (rs.map (·.1)).Perm (List.range t.length)) :
    ∃ as : List α, fill t rs = as.map some ∧ as.length = t.length ∧
      ∀ r ∈ rs, as[r.1]? = some r.2 := by
  obtain ⟨-, hnodup, hlt⟩ := perm_range_iff.mp h
  have hfull : ∀ i, i < t.length → ∃ a, (i, a) ∈ rs := by
    intro i hi
    obtain ⟨r, hr, rfl⟩ := List.mem_map.mp (h.symm.subset (List.mem_range.mpr hi))
    exact ⟨r.2, hr⟩
  have hsome : ∀ x ∈ fill t rs, x.isSome = true := by
    intro x hx
    obtain ⟨i, hi, rfl⟩ := List.mem_iff_getElem.mp hx
    rw [length_fill] at hi
    obtain ⟨a, ha⟩ := hfull i hi
    have hget := getElem?_fill_of_mem hnodup hi ha
    rw [List.getElem?_eq_getElem (by rwa [length_fill])] at hget
    rw [Option.some.inj hget]
    rfl
  obtain ⟨as, has⟩ : ∃ as : List α, fill t rs = as.map some := by
    generalize fill t rs = l at hsome
    induction l with
    | nil => exact ⟨[], rfl⟩
    | cons x l ih =>
      obtain ⟨a, rfl⟩ := Option.isSome_iff_exists.mp (hsome x List.mem_cons_self)
      obtain ⟨as, rfl⟩ := ih fun y hy => hsome y (List.mem_cons_of_mem _ hy)
      exact ⟨a :: as, rfl⟩
  refine ⟨as, has, ?_, fun r hr => ?_⟩
  · have hlen : (fill t rs).length = t.length := length_fill
    rwa [has, List.length_map] at hlen
  · have hget := getElem?_fill_of_mem hnodup (hlt _ (List.mem_map_of_mem hr)) hr
    rw [has, List.getElem?_map] at hget
    cases hx : as[r.1]? with
    | none => simp [hx] at hget
    | some b =>
      rw [hx] at hget
      simpa using hget

end Scatter
