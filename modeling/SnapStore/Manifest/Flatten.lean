import Mathlib.Data.List.Find
import SnapStore.Manifest

/-!
# Flattening a chain of manifests

`flatten` and `flatten_delta`: the entries of a chain, child first, merged into one page table.
-/

namespace SnapStore

open Disk

inductive FlattenError where
  | emptyChain
  | rootNotFull
  | rootNotDelta
  | ramMismatch
  | coverage
  | panicked
deriving DecidableEq

namespace Manifest

def totalPages (m : Manifest) : Nat := m.guestRamBytes / pageSize

/-- The checks that `flatten` and `flatten_delta` make before they merge; returns the first
manifest. -/
def checkChain (rootDelta : Bool) (wrongRoot : FlattenError) (chain : List Manifest) :
    Except FlattenError Manifest :=
  match chain.head?, chain.getLast? with
  | some first, some root =>
    if root.delta ≠ rootDelta then .error wrongRoot else
    if chain.any fun m => m.guestRamBytes ≠ first.guestRamBytes then .error .ramMismatch else
    .ok first
  | _, _ => .error .emptyChain

def fillSlot (table : List (Option ManifestEntry)) (e : ManifestEntry) :
    Except FlattenError (List (Option ManifestEntry)) :=
  match table[e.pageIndex]? with
  | none => .error .panicked
  | some none => .ok (table.set e.pageIndex (some e))
  | some (some _) => .ok table

def takeSlot : Option ManifestEntry → Except FlattenError ManifestEntry
  | some e => .ok e
  | none => .error .coverage

def flatten (chain : List Manifest) : Except FlattenError (List ManifestEntry) := do
  let first ← checkChain false .rootNotFull chain
  let table ← (chain.flatMap (·.entries)).foldlM fillSlot (List.replicate first.totalPages none)
  table.mapM takeSlot

def pushUnseen (st : List Bool × List ManifestEntry) (e : ManifestEntry) :
    Except FlattenError (List Bool × List ManifestEntry) :=
  match st.1[e.pageIndex]? with
  | none => .error .panicked
  | some true => .ok st
  | some false => .ok (st.1.set e.pageIndex true, st.2 ++ [e])

def flattenDelta (chain : List Manifest) : Except FlattenError (List ManifestEntry) := do
  let first ← checkChain true .rootNotDelta chain
  let st ← (chain.flatMap (·.entries)).foldlM pushUnseen (List.replicate first.totalPages false, [])
  return st.2.mergeSort fun a b => a.pageIndex ≤ b.pageIndex

/-! ## The page table of a chain -/

theorem foldlM_fillSlot (es : List ManifestEntry) (table : List (Option ManifestEntry))
    (hes : ∀ e ∈ es, e.pageIndex < table.length) :
    ∃ table', es.foldlM fillSlot table = .ok table' ∧ table'.length = table.length ∧
      ∀ i (slot : Option ManifestEntry), table[i]? = some slot →
        table'[i]? = some (slot.or (es.find? fun e => e.pageIndex = i)) := by
  induction es generalizing table with
  | nil => exact ⟨table, rfl, rfl, fun i slot h => by simpa using h⟩
  | cons e es ih =>
    have he : e.pageIndex < table.length := hes e List.mem_cons_self
    rw [List.foldlM_cons, fillSlot, List.getElem?_eq_getElem he]
    cases hslot : table[e.pageIndex] with
    | some d =>
      obtain ⟨table', hfold, hlen, hget⟩ := ih table fun x hx => hes x (List.mem_cons_of_mem e hx)
      refine ⟨table', hfold, hlen, fun i slot h => ?_⟩
      rw [hget i slot h, List.find?_cons]
      by_cases hi : e.pageIndex = i
      · subst hi
        rw [List.getElem?_eq_getElem he, hslot] at h
        cases h
        rfl
      · simp [hi]
    | none =>
      obtain ⟨table', hfold, hlen, hget⟩ := ih (table.set e.pageIndex (some e))
        fun x hx => by simpa using hes x (List.mem_cons_of_mem e hx)
      refine ⟨table', hfold, by simpa using hlen, fun i slot h => ?_⟩
      rw [List.find?_cons]
      by_cases hi : e.pageIndex = i
      · subst hi
        rw [List.getElem?_eq_getElem he, hslot] at h
        cases h
        rw [hget _ (some e) (List.getElem?_set_self he)]
        simp
      · rw [hget i slot (by rwa [List.getElem?_set_ne hi])]
        simp [hi]

theorem exists_eq_map_some {table : List (Option ManifestEntry)}
    (h : ∀ slot ∈ table, slot.isSome = true) : ∃ es : List ManifestEntry, table = es.map some := by
  induction table with
  | nil => exact ⟨[], rfl⟩
  | cons slot table ih =>
    obtain ⟨e, rfl⟩ := Option.isSome_iff_exists.mp (h slot List.mem_cons_self)
    obtain ⟨es, rfl⟩ := ih fun x hx => h x (List.mem_cons_of_mem _ hx)
    exact ⟨e :: es, rfl⟩

theorem mapM_takeSlot (es : List ManifestEntry) : (es.map some).mapM takeSlot = .ok es := by
  induction es with
  | nil => rfl
  | cons e es ih =>
    rw [List.map_cons, List.mapM_cons, ih]
    rfl

theorem checkChain_ok {chain : List Manifest} {ram : Nat} {delta : Bool} {wrongRoot : FlattenError}
    (hroot : ∃ m, chain.getLast? = some m ∧ m.delta = delta)
    (hram : ∀ m ∈ chain, m.guestRamBytes = ram) :
    ∃ first, checkChain delta wrongRoot chain = .ok first ∧ first.totalPages = ram / pageSize := by
  obtain ⟨root, hroot, hdelta⟩ := hroot
  cases chain with
  | nil => cases hroot
  | cons first rest =>
    have hfirst : first.guestRamBytes = ram := hram first List.mem_cons_self
    have hsame : ¬ (first :: rest).any (fun m => m.guestRamBytes ≠ first.guestRamBytes) = true := by
      rw [List.any_eq_true]
      intro hany
      obtain ⟨m, hm, hne⟩ := hany
      simp [hram m hm, hfirst] at hne
    refine ⟨first, ?_, by rw [totalPages, hfirst]⟩
    simp only [Manifest.checkChain, List.head?_cons, hroot, hdelta]
    rw [if_neg (not_not_intro rfl), if_neg hsame]

/-- A chain that `flatten` accepts: child first, with a FULL root, one memory size, and entries
within it. -/
structure Flattens (chain : List Manifest) (ram : Nat) : Prop where
  root : ∃ m, chain.getLast? = some m ∧ m.delta = false
  sameRam : ∀ m ∈ chain, m.guestRamBytes = ram
  inRange : ∀ m ∈ chain, ∀ e ∈ m.entries, e.pageIndex < ram / pageSize
  full : ∀ m ∈ chain, m.delta = false → m.entries.map (·.pageIndex) = List.range (ram / pageSize)

namespace Flattens

variable {chain : List Manifest} {ram : Nat}

theorem checkChain (h : Flattens chain ram) :
    ∃ first, checkChain false .rootNotFull chain = .ok first ∧ first.totalPages = ram / pageSize :=
  checkChain_ok h.root h.sameRam

theorem named (h : Flattens chain ram) {i : Nat} (hi : i < ram / pageSize) :
    ∃ e, (chain.flatMap (·.entries)).find? (fun e => e.pageIndex = i) = some e := by
  obtain ⟨root, hroot, hfull⟩ := h.root
  have hmem : root ∈ chain := List.mem_of_getLast? hroot
  have hidx : i ∈ root.entries.map (·.pageIndex) := by
    rw [h.full root hmem hfull]
    exact List.mem_range.mpr hi
  obtain ⟨d, hd, hdi⟩ := List.mem_map.mp hidx
  apply Option.isSome_iff_exists.mp
  rw [List.find?_isSome]
  exact ⟨d, List.mem_flatMap.mpr ⟨root, hmem, hd⟩, by simpa using hdi⟩

end Flattens

theorem flatten_ok {chain : List Manifest} {ram : Nat} (h : Flattens chain ram) :
    ∃ out, flatten chain = .ok out ∧ out.length = ram / pageSize ∧
      ∀ i < ram / pageSize,
        out[i]? = (chain.flatMap (·.entries)).find? (fun e => e.pageIndex = i) := by
  obtain ⟨first, hfirst, htotal⟩ := h.checkChain
  obtain ⟨table, hfold, hlen, hget⟩ := foldlM_fillSlot (chain.flatMap (·.entries))
    (List.replicate (ram / pageSize) none) (by
      intro e he
      obtain ⟨m, hm, he⟩ := List.mem_flatMap.mp he
      simpa using h.inRange m hm e he)
  rw [List.length_replicate] at hlen
  have hslot : ∀ i < ram / pageSize,
      table[i]? = some ((chain.flatMap (·.entries)).find? fun e => e.pageIndex = i) := by
    intro i hi
    rw [hget i none (List.getElem?_replicate_of_lt hi), Option.none_or]
  have hsome : ∀ x ∈ table, x.isSome = true := by
    intro x hx
    obtain ⟨i, hi, rfl⟩ := List.getElem_of_mem hx
    have hx := hslot i (hlen ▸ hi)
    obtain ⟨e, he⟩ := h.named (hlen ▸ hi)
    rw [List.getElem?_eq_getElem hi, he, Option.some.injEq] at hx
    rw [hx]
    rfl
  obtain ⟨out, rfl⟩ := exists_eq_map_some hsome
  rw [List.length_map] at hlen
  refine ⟨out, ?_, hlen, fun i hi => ?_⟩
  · unfold flatten
    rw [hfirst]
    simp only [bind, Except.bind, htotal]
    rw [hfold]
    exact mapM_takeSlot out
  · have hx := hslot i hi
    rw [List.getElem?_map] at hx
    obtain ⟨e, he⟩ := h.named hi
    rw [he] at hx ⊢
    simpa using hx

/-! ## The pages that a run of DELTA manifests changes -/

theorem foldlM_pushUnseen (es : List ManifestEntry) (seen : List Bool) (out : List ManifestEntry)
    (hes : ∀ e ∈ es, e.pageIndex < seen.length) :
    ∃ seen' new, es.foldlM pushUnseen (seen, out) = .ok (seen', out ++ new) ∧
      (new.map (·.pageIndex)).Nodup ∧ ∀ i, new.find? (fun e => e.pageIndex = i) =
        if seen[i]? = some true then none else es.find? fun e => e.pageIndex = i := by
  induction es generalizing seen out with
  | nil => exact ⟨seen, [], by simp; rfl, List.nodup_nil, by simp⟩
  | cons e es ih =>
    have he : e.pageIndex < seen.length := hes e List.mem_cons_self
    rw [List.foldlM_cons, pushUnseen, List.getElem?_eq_getElem he]
    cases hseen : seen[e.pageIndex] with
    | true =>
      obtain ⟨seen', new, hfold, hnodup, hfind⟩ :=
        ih seen out fun x hx => hes x (List.mem_cons_of_mem e hx)
      refine ⟨seen', new, hfold, hnodup, fun i => ?_⟩
      rw [hfind, List.find?_cons]
      by_cases hi : e.pageIndex = i
      · subst hi
        simp [hseen, he]
      · simp [hi]
    | false =>
      obtain ⟨seen', new, hfold, hnodup, hfind⟩ := ih (seen.set e.pageIndex true) (out ++ [e])
        fun x hx => by simpa using hes x (List.mem_cons_of_mem e hx)
      refine ⟨seen', e :: new, hfold.trans (by simp), ?_, fun i => ?_⟩
      · -- the index of `e` is seen from here on
        have hnone := hfind e.pageIndex
        rw [List.getElem?_set_self he, if_pos rfl, List.find?_eq_none] at hnone
        refine List.nodup_cons.mpr ⟨fun hmem => ?_, hnodup⟩
        obtain ⟨d, hd, hdi⟩ := List.mem_map.mp hmem
        exact hnone d hd (by simpa using hdi)
      · rw [List.find?_cons, List.find?_cons, hfind]
        by_cases hi : e.pageIndex = i
        · subst hi
          simp [hseen, he]
        · simp [hi]

theorem flattenDelta_ok {chain : List Manifest} {ram : Nat}
    (hroot : ∃ m, chain.getLast? = some m ∧ m.delta = true)
    (hram : ∀ m ∈ chain, m.guestRamBytes = ram)
    (hrange : ∀ m ∈ chain, ∀ e ∈ m.entries, e.pageIndex < ram / pageSize) :
    ∃ out, flattenDelta chain = .ok out ∧ (out.map (·.pageIndex)).Pairwise (· < ·) ∧
      ∀ i, out.find? (fun e => e.pageIndex = i) =
        (chain.flatMap (·.entries)).find? fun e => e.pageIndex = i := by
  obtain ⟨first, hfirst, htotal⟩ : ∃ first, checkChain true .rootNotDelta chain = .ok first ∧ _ :=
    checkChain_ok hroot hram
  obtain ⟨seen, new, hfold, hnodup, hfind⟩ := foldlM_pushUnseen (chain.flatMap (·.entries))
    (List.replicate (ram / pageSize) false) [] (by
      intro e he
      obtain ⟨m, hm, he⟩ := List.mem_flatMap.mp he
      simpa using hrange m hm e he)
  have hperm := new.mergeSort_perm fun a b => a.pageIndex ≤ b.pageIndex
  refine ⟨new.mergeSort fun a b => a.pageIndex ≤ b.pageIndex, ?_, ?_, fun i => ?_⟩
  · unfold flattenDelta
    rw [hfirst]
    simp only [bind, Except.bind, htotal]
    rw [hfold]
    rfl
  · have hsorted := @List.pairwise_mergeSort _ (fun a b : ManifestEntry => a.pageIndex ≤ b.pageIndex)
      (by simp; omega) (by simp; omega) new
    have hnodup' := (hperm.map (·.pageIndex)).nodup_iff.mpr hnodup
    rw [List.pairwise_map]
    refine (hsorted.and (List.pairwise_map.mp hnodup')).imp fun h => ?_
    exact lt_of_le_of_ne (of_decide_eq_true h.1) h.2
  · rw [← List.find?_eq_find?_of_perm hperm.symm, hfind]
    · exact if_neg (by simp [List.getElem?_replicate])
    · rintro a ⟨ha, hai⟩ b ⟨hb, hbi⟩
      refine List.inj_on_of_nodup_map hnodup ha hb ?_
      rw [of_decide_eq_true hai, of_decide_eq_true hbi]

end Manifest

end SnapStore
