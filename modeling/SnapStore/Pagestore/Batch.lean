import Mathlib.Data.List.NodupEquivFin
import SnapStore.Pagestore.PageStore

/-!
# The pages of a batch

`batch_dedup` keeps each hash of a batch with the index of its first occurrence.
-/

namespace SnapStore

namespace PageStore

def dedupStep (m : List (PageHash × Nat)) (e : PageHash × Nat) : List (PageHash × Nat) :=
  if m.any fun x => x.1 = e.1 then m else m ++ [e]

theorem batchDedup_eq (hashes : List PageHash) :
    batchDedup hashes = hashes.zipIdx.foldl dedupStep [] := rfl

theorem mem_dedupStep {m : List (PageHash × Nat)} {e x : PageHash × Nat} (h : x ∈ dedupStep m e) :
    x ∈ m ∨ x = e := by
  unfold dedupStep at h
  split at h
  · exact .inl h
  · exact (List.mem_append.mp h).imp id List.mem_singleton.mp

theorem mem_dedupStep_of_mem {m : List (PageHash × Nat)} {x : PageHash × Nat} (e : PageHash × Nat)
    (h : x ∈ m) : x ∈ dedupStep m e := by
  unfold dedupStep
  split
  · exact h
  · exact List.mem_append_left _ h

theorem exists_mem_dedupStep (m : List (PageHash × Nat)) (e : PageHash × Nat) :
    ∃ x ∈ dedupStep m e, x.1 = e.1 := by
  unfold dedupStep
  split
  · next hany =>
    obtain ⟨x, hx, heq⟩ := List.any_eq_true.mp hany
    exact ⟨x, hx, of_decide_eq_true heq⟩
  · exact ⟨e, List.mem_append_right _ (List.mem_singleton_self e), rfl⟩

theorem mem_foldl_dedupStep_of_mem {m : List (PageHash × Nat)} {x : PageHash × Nat}
    (l : List (PageHash × Nat)) (h : x ∈ m) : x ∈ l.foldl dedupStep m := by
  induction l generalizing m with
  | nil => exact h
  | cons e l ih => exact ih (mem_dedupStep_of_mem e h)

theorem mem_of_mem_foldl_dedupStep {l m : List (PageHash × Nat)} {x : PageHash × Nat}
    (h : x ∈ l.foldl dedupStep m) : x ∈ m ∨ x ∈ l := by
  induction l generalizing m with
  | nil => exact .inl h
  | cons e l ih =>
    rcases ih h with hm | hl
    · rcases mem_dedupStep hm with hm | rfl
      · exact .inl hm
      · exact .inr List.mem_cons_self
    · exact .inr (List.mem_cons_of_mem e hl)

theorem exists_mem_foldl_dedupStep {l m : List (PageHash × Nat)} {e : PageHash × Nat}
    (h : e ∈ l) : ∃ x ∈ l.foldl dedupStep m, x.1 = e.1 := by
  induction l generalizing m with
  | nil => cases h
  | cons y l ih =>
    rcases List.mem_cons.mp h with rfl | hl
    · obtain ⟨x, hx, heq⟩ := exists_mem_dedupStep m e
      exact ⟨x, mem_foldl_dedupStep_of_mem l hx, heq⟩
    · exact ih hl

theorem getElem?_of_mem_batchDedup {hashes : List PageHash} {e : PageHash × Nat}
    (h : e ∈ batchDedup hashes) : hashes[e.2]? = some e.1 := by
  rw [batchDedup_eq] at h
  rcases mem_of_mem_foldl_dedupStep h with hnil | hmem
  · cases hnil
  · exact List.mem_zipIdx_iff_getElem?.mp hmem

theorem exists_mem_batchDedup {hashes : List PageHash} {h : PageHash} {i : Nat}
    (hi : hashes[i]? = some h) : ∃ j, (h, j) ∈ batchDedup hashes := by
  have hmem : (h, i) ∈ hashes.zipIdx := List.mem_zipIdx_iff_getElem?.mpr hi
  obtain ⟨⟨k, j⟩, hx, rfl⟩ := exists_mem_foldl_dedupStep (m := []) hmem
  exact ⟨j, hx⟩

theorem two_le_count {hashes : List PageHash} {h : PageHash} {i j : Nat} (hne : i ≠ j)
    (hi : hashes[i]? = some h) (hj : hashes[j]? = some h) : 2 ≤ hashes.count h := by
  rw [← List.duplicate_iff_two_le_count, List.duplicate_iff_exists_distinct_get]
  obtain ⟨hilt, hi⟩ := List.getElem?_eq_some_iff.mp hi
  obtain ⟨hjlt, hj⟩ := List.getElem?_eq_some_iff.mp hj
  rcases Nat.lt_or_gt_of_ne hne with hlt | hlt
  · exact ⟨⟨i, hilt⟩, ⟨j, hjlt⟩, hlt, hi.symm, hj.symm⟩
  · exact ⟨⟨j, hjlt⟩, ⟨i, hilt⟩, hlt, hj.symm, hi.symm⟩

end PageStore

end SnapStore
