import SnapStore.Pagestore.PackFormat
import Mathlib.Data.List.Sort

/-!
# The page index and its sidecar files

The index maps a page hash to a location.  The 256 shards of the source are one finite map here;
an operation that visits the shards one after another is a loop over `shardFor`.  A sidecar file
lists the index entries of one pack and is checked by a CRC only.
-/

namespace SnapStore

open Disk

abbrev Index := AList fun _ : PageHash => PageLoc

def shardCount : Nat := 256

def shardFor (hash : PageHash) : Nat := (hash.bytes.getD 0 0).toNat

namespace Index

def get (ix : Index) (hash : PageHash) : Option PageLoc := ix.lookup hash

def insert (ix : Index) (hash : PageHash) (loc : PageLoc) : Index :=
  match ix.get hash with
  | some _ => ix
  | none => AList.insert hash loc ix

def repointIfInPack (ix : Index) (hash : PageHash) (expectedPack : PackId) (newLoc : PageLoc) :
    Index :=
  match ix.get hash with
  | some loc => if loc.pack = expectedPack then AList.insert hash newLoc ix else ix
  | none => ix

def removeIfInPack (ix : Index) (hash : PageHash) (expectedPack : PackId) : Index :=
  match ix.get hash with
  | some loc => if loc.pack = expectedPack then AList.erase hash ix else ix
  | none => ix

def shardEntriesForPack (ix : Index) (shard : Nat) (pack : PackId) : List (PageHash × PageLoc) :=
  (ix.entries.filter fun e => shardFor e.1 = shard ∧ e.2.pack = pack).map fun e => (e.1, e.2)

def insertBatch (ix : Index) (es : List (PageHash × PageLoc)) : Index :=
  es.foldl (fun ix e => ix.insert e.1 e.2) ix

variable (ix : Index) (h k : PageHash) (loc l : PageLoc) (p : PackId)

theorem get_insert : (ix.insert k loc).get h =
    if h = k ∧ ix.get k = none then some loc else ix.get h := by
  unfold insert
  cases hk : ix.get k with
  | some l => simp
  | none =>
    by_cases hh : h = k
    · subst hh
      simp [get]
    · simp [hh, get, AList.lookup_insert_ne hh]

theorem get_repoint : (ix.repointIfInPack k p loc).get h =
    if h = k ∧ ∃ l, ix.get k = some l ∧ l.pack = p then some loc else ix.get h := by
  unfold repointIfInPack
  cases hk : ix.get k with
  | none => simp
  | some l =>
    by_cases hp : l.pack = p
    · by_cases hh : h = k
      · subst hh
        simp [get, hp]
      · simp [hh, hp, get, AList.lookup_insert_ne hh]
    · simp [hp]

theorem get_remove : (ix.removeIfInPack k p).get h =
    if h = k ∧ ∃ l, ix.get k = some l ∧ l.pack = p then none else ix.get h := by
  unfold removeIfInPack
  cases hk : ix.get k with
  | none => simp
  | some l =>
    by_cases hp : l.pack = p
    · by_cases hh : h = k
      · subst hh
        simp [get, hp]
      · simp [hh, hp, get, AList.lookup_erase_ne hh]
    · simp [hp]

variable {ix h k loc l p}

theorem get_eq_some_iff : ix.get h = some loc ↔ (⟨h, loc⟩ : Sigma fun _ => PageLoc) ∈ ix.entries :=
  AList.mem_lookup_iff

theorem mem_shardEntriesForPack {shard : Nat} : (h, loc) ∈ ix.shardEntriesForPack shard p ↔
    shardFor h = shard ∧ ix.get h = some loc ∧ loc.pack = p := by
  simp only [shardEntriesForPack, List.mem_map, List.mem_filter, decide_eq_true_eq, Prod.mk.injEq,
    get_eq_some_iff]
  constructor
  · rintro ⟨e, ⟨he, hs, hp⟩, rfl, rfl⟩
    exact ⟨hs, he, hp⟩
  · rintro ⟨hs, he, hp⟩
    exact ⟨⟨h, loc⟩, ⟨he, hs, hp⟩, rfl, rfl⟩

theorem shardFor_lt : shardFor h < shardCount := by
  unfold shardFor shardCount
  exact UInt8.toNat_lt _

def firstLoc (es : List (PageHash × PageLoc)) (h : PageHash) : Option PageLoc :=
  (es.find? fun e => e.1 = h).map (·.2)

theorem firstLoc_cons (e : PageHash × PageLoc) (es : List (PageHash × PageLoc)) :
    firstLoc (e :: es) h = if e.1 = h then some e.2 else firstLoc es h := by
  unfold firstLoc
  rw [List.find?_cons]
  by_cases he : e.1 = h <;> simp [he]

theorem get_insertBatch (es : List (PageHash × PageLoc)) :
    (ix.insertBatch es).get h = (ix.get h).or (firstLoc es h) := by
  induction es generalizing ix with
  | nil => exact (Option.or_none).symm
  | cons e es ih =>
    show ((ix.insert e.1 e.2).insertBatch es).get h = _
    rw [ih, get_insert, firstLoc_cons]
    by_cases he : e.1 = h
    · subst he
      cases hg : ix.get e.1 <;> simp
    · simp [he, Ne.symm he]

theorem mem_of_firstLoc {es : List (PageHash × PageLoc)} (hl : firstLoc es h = some loc) :
    (h, loc) ∈ es := by
  obtain ⟨e, he, rfl⟩ := Option.map_eq_some_iff.mp hl
  obtain rfl : e.1 = h := by simpa using List.find?_some he
  exact List.mem_of_find?_eq_some he

theorem get_insertBatch_of_some (es : List (PageHash × PageLoc)) (hg : ix.get h = some loc) :
    (ix.insertBatch es).get h = some loc := by
  rw [get_insertBatch, hg, Option.some_or]

theorem get_insertBatch_cases {es : List (PageHash × PageLoc)}
    (hg : (ix.insertBatch es).get h = some loc) : ix.get h = some loc ∨ (h, loc) ∈ es := by
  rw [get_insertBatch] at hg
  exact (Option.or_eq_some_iff.mp hg).imp id fun h' => mem_of_firstLoc h'.2

theorem isSome_get_insertBatch {es : List (PageHash × PageLoc)} (hm : (h, loc) ∈ es) :
    ((ix.insertBatch es).get h).isSome := by
  have hfirst : (firstLoc es h).isSome := by
    rw [firstLoc, Option.isSome_map, List.find?_isSome]
    exact ⟨_, hm, decide_eq_true rfl⟩
  rw [get_insertBatch, Option.isSome_or, hfirst, Bool.or_true]

end Index

/-! ## Sidecar files -/

inductive IndexError where
  | io (e : IoError)
  | badCrc
  | truncated
  | pack (e : PackError)
deriving DecidableEq

def sidecarEntrySize : Nat := 44

def sidecarEntry (e : PageHash × PageLoc) : Bytes :=
  e.1.bytes ++ (leBytes 4 e.2.pack ++ leBytes 8 e.2.offset)

def bytesLe : Bytes → Bytes → Bool
  | [], _ => true
  | _ :: _, [] => false
  | a :: as, b :: bs => a < b || (a == b && bytesLe as bs)

def sortByHash (es : List (PageHash × PageLoc)) : List (PageHash × PageLoc) :=
  es.insertionSort fun a b => bytesLe a.1.bytes b.1.bytes = true

def sidecarPayload (es : List (PageHash × PageLoc)) : Bytes :=
  leBytes 4 es.length ++ es.flatMap sidecarEntry

def withCrc [Primitives] (b : Bytes) : Bytes := b ++ leBytes 4 (crc32 b).toNat

def encodeSidecar [Primitives] (es : List (PageHash × PageLoc)) : Bytes :=
  withCrc (sidecarPayload (sortByHash es))

def sidecarEntryAt (b : Bytes) (base : Nat) : PageHash × PageLoc :=
  (Digest.ofBytes (slice b base 32),
    ⟨leNat (slice b (base + 32) 4), leNat (slice b (base + 36) 8)⟩)

/-- The entries a sidecar's bytes stand for, as `load_sidecar` reads them. -/
def decodeSidecar [Primitives] (data : Bytes) : Except IndexError (List (PageHash × PageLoc)) :=
  if data.length < 8 then .error .truncated else
  let payload := data.take (data.length - 4)
  let storedCrc := leNat (data.drop (data.length - 4))
  if storedCrc ≠ (crc32 payload).toNat then .error .badCrc else
  let entryCount := leNat (slice payload 0 4)
  let entriesBytes := payload.drop 4
  if entriesBytes.length < entryCount * sidecarEntrySize then .error .truncated else
  .ok ((List.range entryCount).map fun i => sidecarEntryAt entriesBytes (i * sidecarEntrySize))

structure SidecarFits (es : List (PageHash × PageLoc)) : Prop where
  count : es.length < 2 ^ 32
  entry : ∀ e ∈ es, e.2.pack < 2 ^ 32 ∧ e.2.offset < 2 ^ 64

theorem length_sidecarEntry (e : PageHash × PageLoc) :
    (sidecarEntry e).length = sidecarEntrySize := by
  simp [sidecarEntry, e.1.length_bytes, sidecarEntrySize]

theorem length_flatMap_sidecarEntry (es : List (PageHash × PageLoc)) :
    (es.flatMap sidecarEntry).length = es.length * sidecarEntrySize := by
  induction es with
  | nil => simp
  | cons e es ih =>
    rw [List.flatMap_cons, List.length_append, length_sidecarEntry, ih, List.length_cons,
      Nat.succ_mul]
    omega

theorem sidecarEntryAt_head {e : PageHash × PageLoc} (b : Bytes) (hp : e.2.pack < 2 ^ 32)
    (ho : e.2.offset < 2 ^ 64) : sidecarEntryAt (sidecarEntry e ++ b) 0 = e := by
  have hl : e.1.bytes.length + 0 = 0 + 32 := by simp [e.1.length_bytes]
  have hl' : (e.1.bytes ++ leBytes 4 e.2.pack).length + 0 = 0 + 36 := by simp [e.1.length_bytes]
  have h₁ : Digest.ofBytes (slice (sidecarEntry e ++ b) 0 32) = e.1 := by
    rw [sidecarEntry, List.append_assoc, slice_zero_append e.1.length_bytes, Digest.ofBytes_bytes]
  have h₂ : leNat (slice (sidecarEntry e ++ b) (0 + 32) 4) = e.2.pack := by
    rw [sidecarEntry, List.append_assoc, ← hl, slice_append_right, List.append_assoc,
      slice_zero_append (length_leBytes 4 _)]
    exact leNat_leBytes (by simpa using hp)
  have h₃ : leNat (slice (sidecarEntry e ++ b) (0 + 36) 8) = e.2.offset := by
    have hassoc : sidecarEntry e ++ b =
        (e.1.bytes ++ leBytes 4 e.2.pack) ++ (leBytes 8 e.2.offset ++ b) := by
      simp [sidecarEntry]
    rw [hassoc, ← hl', slice_append_right, slice_zero_append (length_leBytes 8 _)]
    exact leNat_leBytes (by simpa using ho)
  rw [sidecarEntryAt, h₁, h₂, h₃]

theorem sidecarEntryAt_flatMap {es : List (PageHash × PageLoc)}
    (hf : ∀ e ∈ es, e.2.pack < 2 ^ 32 ∧ e.2.offset < 2 ^ 64) (i : Nat) (hi : i < es.length) :
    sidecarEntryAt (es.flatMap sidecarEntry) (i * sidecarEntrySize) = es[i] := by
  induction es generalizing i with
  | nil => simp at hi
  | cons e es ih =>
    have he := hf e List.mem_cons_self
    cases i with
    | zero =>
      rw [Nat.zero_mul, List.flatMap_cons, sidecarEntryAt_head _ he.1 he.2]
      rfl
    | succ i =>
      have hshift : ∀ k n, slice ((e :: es).flatMap sidecarEntry)
          ((i + 1) * sidecarEntrySize + k) n =
            slice (es.flatMap sidecarEntry) (i * sidecarEntrySize + k) n := by
        intro k n
        have hoff : (i + 1) * sidecarEntrySize + k =
            (sidecarEntry e).length + (i * sidecarEntrySize + k) := by
          rw [length_sidecarEntry, Nat.succ_mul]
          omega
        rw [List.flatMap_cons, hoff, slice_append_right]
      have h0 := hshift 0
      simp only [Nat.add_zero] at h0
      have htail := ih (fun x hx => hf x (List.mem_cons_of_mem _ hx)) i (by simpa using hi)
      rw [List.getElem_cons_succ, ← htail, sidecarEntryAt, sidecarEntryAt, h0, hshift, hshift]

theorem sortByHash_perm (es : List (PageHash × PageLoc)) : (sortByHash es).Perm es :=
  List.perm_insertionSort _ es

@[simp] theorem mem_sortByHash {es : List (PageHash × PageLoc)} {e : PageHash × PageLoc} :
    e ∈ sortByHash es ↔ e ∈ es := (sortByHash_perm es).mem_iff

theorem decodeSidecar_encodeSidecar [Primitives] {es : List (PageHash × PageLoc)}
    (hf : SidecarFits es) : decodeSidecar (encodeSidecar es) = .ok (sortByHash es) := by
  have hlen : (sortByHash es).length = es.length := (sortByHash_perm es).length_eq
  have hfit : ∀ e ∈ sortByHash es, e.2.pack < 2 ^ 32 ∧ e.2.offset < 2 ^ 64 := by
    intro e he
    exact hf.entry e (mem_sortByHash.mp he)
  rw [encodeSidecar]
  generalize sortByHash es = ss at hlen hfit ⊢
  have hP : (sidecarPayload ss).length = 4 + ss.length * sidecarEntrySize := by
    rw [sidecarPayload, List.length_append, length_leBytes, length_flatMap_sidecarEntry]
  have hD : (withCrc (sidecarPayload ss)).length = (sidecarPayload ss).length + 4 := by
    simp [withCrc]
  have h₁ : ¬ (withCrc (sidecarPayload ss)).length < 8 := by omega
  have htake : (withCrc (sidecarPayload ss)).take ((withCrc (sidecarPayload ss)).length - 4) =
      sidecarPayload ss := by
    rw [hD, Nat.add_sub_cancel, withCrc, List.take_left]
  have hdrop : (withCrc (sidecarPayload ss)).drop ((withCrc (sidecarPayload ss)).length - 4) =
      leBytes 4 (crc32 (sidecarPayload ss)).toNat := by
    rw [hD, Nat.add_sub_cancel, withCrc, List.drop_left]
  have hcrc : leNat (leBytes 4 (crc32 (sidecarPayload ss)).toNat) =
      (crc32 (sidecarPayload ss)).toNat :=
    leNat_leBytes (by simpa using UInt32.toNat_lt (crc32 (sidecarPayload ss)))
  have hcount : leNat (slice (sidecarPayload ss) 0 4) = ss.length := by
    rw [sidecarPayload, slice_zero_append (length_leBytes 4 _)]
    exact leNat_leBytes (by simpa [hlen] using hf.count)
  have hbody : (sidecarPayload ss).drop 4 = ss.flatMap sidecarEntry := by
    rw [sidecarPayload, List.drop_left' (length_leBytes 4 _)]
  have h₂ : ¬ (ss.flatMap sidecarEntry).length < ss.length * sidecarEntrySize := by
    rw [length_flatMap_sidecarEntry]
    exact lt_irrefl _
  simp only [decodeSidecar, if_neg h₁, htake, hdrop, hcrc, ne_eq,
    not_true_eq_false, if_false, hcount, hbody, if_neg h₂, Except.ok.injEq]
  apply List.ext_getElem
  · simp
  · intro i hi hi'
    simp only [List.getElem_map, List.getElem_range]
    exact sidecarEntryAt_flatMap hfit i hi'

end SnapStore
