import SnapStore.Checked
import SnapStore.Pagestore.Alone
import SnapStore.System

/-!
# Sidecar files written and loaded

`load_sidecar` as it runs: every slice, product and index can panic, the entries are put in one
bucket for each shard, and the index is changed in place.  The first location of a repeated hash
stays the first because the sort is stable.
-/

namespace SnapStore

open Disk Conc Checked

structure ShardedIndex where
  shards : List Index
  length_shards : shards.length = shardCount

namespace ShardedIndex

abbrev Op (α : Type) := ExceptT (Halt IndexError) (StateM ShardedIndex) α

def liftExcept {α : Type} (x : Except (Halt IndexError) α) : Op α := ExceptT.mk (pure x)

def new : ShardedIndex := ⟨List.replicate shardCount ∅, List.length_replicate⟩

def get (ix : ShardedIndex) (hash : PageHash) : Option PageLoc :=
  ix.shards[shardFor hash]?.bind fun shard => shard.get hash

def writeShard (i : Nat) (f : Index → Index) : Op Unit := ExceptT.mk fun ix =>
  if i < ix.shards.length then
    (.ok (), ⟨ix.shards.modify i f, by rw [List.length_modify, ix.length_shards]⟩)
  else (.error .panic, ix)

def insert (hash : PageHash) (loc : PageLoc) : Op Unit :=
  writeShard (shardFor hash) fun shard => shard.insert hash loc

def insertEach (es : List (PageHash × PageLoc)) : Op Unit := es.forM fun e => insert e.1 e.2

def fillBuckets (es : List (PageHash × PageLoc)) (buckets : List (List (PageHash × PageLoc))) :
    Except (Halt IndexError) (List (List (PageHash × PageLoc))) :=
  es.foldlM (fun buckets e => modifyAt buckets (shardFor e.1) (· ++ [e])) buckets

def insertBucket (i : Nat) (bucket : List (PageHash × PageLoc)) : Op Unit :=
  if bucket.isEmpty then pure () else writeShard i fun shard => shard.insertBatch bucket

def insertBuckets : Nat → List (List (PageHash × PageLoc)) → Op Unit
  | _, [] => pure ()
  | i, bucket :: buckets => do
    insertBucket i bucket
    insertBuckets (i + 1) buckets

def insertBatch (es : List (PageHash × PageLoc)) : Op Unit := do
  let buckets ← liftExcept (fillBuckets es (List.replicate shardCount []))
  insertBuckets 0 buckets

def readEntry (checks : Bool) (entriesBytes : Bytes) (i : Nat) :
    Except (Halt IndexError) (PageHash × PageLoc) := do
  let base ← arith checks (i * sidecarEntrySize)
  let hashBytes ← index entriesBytes base (base + 32)
  let hash ← toArray 32 hashBytes
  let packId ← uintAt 4 entriesBytes (base + 32) (base + 36)
  let offset ← uintAt 8 entriesBytes (base + 36) (base + 44)
  return (Digest.ofBytes hash, ⟨packId, offset⟩)

/-- The entries of the file, or how `load_sidecar` stops before it changes the index. -/
def readEntries [Primitives] (checks : Bool) (data : Checked.ByteSlice) :
    Except (Halt IndexError) (List (PageHash × PageLoc)) :=
  if data.bytes.length < 8 then .error (.error .truncated) else do
  let mid ← minus data.bytes.length 4
  let payload ← index data.bytes 0 mid
  let storedCrc ← uintAt 4 data.bytes mid data.bytes.length
  if storedCrc ≠ (crc32 payload).toNat then .error (.error .badCrc) else
  if payload.length < 4 then .error (.error .truncated) else do
  let entryCount ← uintAt 4 payload 0 4
  let entriesBytes ← index payload 4 payload.length
  let needed ← arith checks (entryCount * sidecarEntrySize)
  if entriesBytes.length < needed then .error (.error .truncated) else do
  -- a hash with its location takes 48 bytes of memory
  withCapacity entryCount 48
  (List.range entryCount).mapM (readEntry checks entriesBytes)

def loadSidecar [Primitives] (checks : Bool) (file : Except IoError Checked.ByteSlice) : Op Nat := do
  let data ← liftExcept (file.mapError fun e => .error (.io e))
  let batch ← liftExcept (readEntries checks data)
  insertBatch batch
  -- `entry_count`: as many entries were pushed to the batch
  return batch.length

/-! ## What the operations do -/

variable {ix : ShardedIndex} {es : List (PageHash × PageLoc)} {h : PageHash} {i : Nat}

theorem exists_shard (ix : ShardedIndex) (h : PageHash) :
    ∃ shard, ix.shards[shardFor h]? = some shard :=
  ⟨_, List.getElem?_eq_getElem (by rw [ix.length_shards]; exact Index.shardFor_lt)⟩

@[simp] theorem get_new (h : PageHash) : new.get h = none := by
  rw [get, new, List.getElem?_replicate, if_pos Index.shardFor_lt]
  rfl

theorem run_bind_ok {α β : Type} {x : Op α} {k : α → Op β} {a : α} {ix' : ShardedIndex}
    (hx : x.run ix = (.ok a, ix')) : (x >>= k).run ix = (k a).run ix' := by
  show (match x.run ix with | (r, s) => ExceptT.bindCont k r s) = _
  rw [hx]
  rfl

theorem run_writeShard (ix : ShardedIndex) (hi : i < shardCount) (f : Index → Index) :
    ∃ ix', (writeShard i f).run ix = (.ok (), ix') ∧ ∀ h, ix'.shards[shardFor h]? =
      if i = shardFor h then ix.shards[shardFor h]?.map f else ix.shards[shardFor h]? := by
  have hlen : i < ix.shards.length := by rwa [ix.length_shards]
  refine ⟨⟨ix.shards.modify i f, by rw [List.length_modify, ix.length_shards]⟩, if_pos hlen, ?_⟩
  intro h
  rw [List.getElem?_modify]
  by_cases hh : i = shardFor h <;> simp [hh]

theorem run_insertBucket (ix : ShardedIndex) (hi : i < shardCount)
    (es : List (PageHash × PageLoc)) :
    ∃ ix', (insertBucket i es).run ix = (.ok (), ix') ∧
      ∀ h, ix'.get h = (ix.get h).or (if i = shardFor h then Index.firstLoc es h else none) := by
  cases hes : es with
  | nil => exact ⟨ix, rfl, fun h => by simp [Index.firstLoc]⟩
  | cons e rest =>
  rw [← hes, insertBucket, if_neg (by simp [hes])]
  obtain ⟨ix', hrun, hget⟩ := run_writeShard ix hi fun shard => shard.insertBatch es
  refine ⟨ix', hrun, fun h => ?_⟩
  obtain ⟨shard, hshard⟩ := ix.exists_shard h
  rw [get, hget, get, hshard]
  by_cases hh : i = shardFor h
  · simp only [if_pos hh, Option.map_some, Option.bind_some, Index.get_insertBatch]
  · simp only [if_neg hh, Option.bind_some, Option.or_none]

theorem run_insertEach (ix : ShardedIndex) (es : List (PageHash × PageLoc)) :
    ∃ ix', (insertEach es).run ix = (.ok (), ix') ∧
      ∀ h, ix'.get h = (ix.get h).or (Index.firstLoc es h) := by
  induction es generalizing ix with
  | nil => exact ⟨ix, rfl, fun h => (Option.or_none).symm⟩
  | cons e es ih =>
    obtain ⟨ix₁, hrun₁, hget₁⟩ := run_insertBucket ix (Index.shardFor_lt (h := e.1)) [e]
    obtain ⟨ix₂, hrun₂, hget₂⟩ := ih ix₁
    refine ⟨ix₂, (run_bind_ok hrun₁).trans hrun₂, fun h => ?_⟩
    rw [hget₂, hget₁, Index.firstLoc_cons, Index.firstLoc_cons]
    by_cases he : e.1 = h
    · subst he
      simp
    · simp [he, Index.firstLoc]

theorem fillBuckets_eq (es : List (PageHash × PageLoc)) (bs : List (List (PageHash × PageLoc)))
    (hlen : bs.length = shardCount) : ∃ bs', fillBuckets es bs = .ok bs' ∧ bs'.length = shardCount ∧
      ∀ i b, bs[i]? = some b → bs'[i]? = some (b ++ es.filter fun e => shardFor e.1 = i) := by
  induction es generalizing bs with
  | nil => exact ⟨bs, rfl, hlen, fun i b hb => by rw [hb, List.filter_nil, List.append_nil]⟩
  | cons e es ih =>
    obtain ⟨bs', hrun, hlen', hget⟩ := ih (bs.modify (shardFor e.1) (· ++ [e]))
      (by rw [List.length_modify, hlen])
    refine ⟨bs', ?_, hlen', fun i b hb => ?_⟩
    · have hin : shardFor e.1 < bs.length := by
        rw [hlen]
        exact Index.shardFor_lt
      rw [fillBuckets, List.foldlM_cons, modifyAt, if_pos hin]
      exact hrun
    · by_cases he : shardFor e.1 = i
      · rw [hget i (b ++ [e]) (by simp [he, hb]), List.append_assoc]
        simp [he]
      · rw [hget i b (by simp [he, hb])]
        simp [he]

theorem run_insertBuckets (ix : ShardedIndex) (i : Nat) (bs : List (List (PageHash × PageLoc)))
    (hi : i + bs.length ≤ shardCount) :
    ∃ ix', (insertBuckets i bs).run ix = (.ok (), ix') ∧ ∀ h, ix'.get h = (ix.get h).or
      (if i ≤ shardFor h then bs[shardFor h - i]?.bind fun b => Index.firstLoc b h else none) := by
  induction bs generalizing i ix with
  | nil => exact ⟨ix, rfl, fun h => by simp⟩
  | cons b bs ih =>
    rw [List.length_cons] at hi
    obtain ⟨ix₁, hrun₁, hget₁⟩ := run_insertBucket ix (i := i) (by omega) b
    obtain ⟨ix₂, hrun₂, hget₂⟩ := ih ix₁ (i + 1) (by omega)
    refine ⟨ix₂, (run_bind_ok hrun₁).trans hrun₂, fun h => ?_⟩
    rw [hget₂, hget₁, Option.or_assoc]
    congr 1
    -- the bucket of the hash is before this one, this one or a later one
    rcases Nat.lt_trichotomy (shardFor h) i with hlt | heq | hgt
    · simp [show ¬ i ≤ shardFor h by omega, show ¬ i = shardFor h by omega,
        show ¬ i + 1 ≤ shardFor h by omega]
    · simp [heq, show ¬ i + 1 ≤ i by omega]
    · obtain ⟨k, hk⟩ : ∃ k, shardFor h - i = k + 1 := ⟨shardFor h - (i + 1), by omega⟩
      have hk' : shardFor h - (i + 1) = k := by omega
      simp [hk, hk', show i ≤ shardFor h by omega, show ¬ i = shardFor h by omega,
        show i + 1 ≤ shardFor h by omega]

theorem run_insertBatch (ix : ShardedIndex) (es : List (PageHash × PageLoc)) :
    ∃ ix', (insertBatch es).run ix = (.ok (), ix') ∧
      ∀ h, ix'.get h = (ix.get h).or (Index.firstLoc es h) := by
  obtain ⟨bs, hfill, hlen, hbs⟩ := fillBuckets_eq es (List.replicate shardCount [])
    List.length_replicate
  obtain ⟨ix', hrun, hget⟩ := run_insertBuckets ix 0 bs (by omega)
  refine ⟨ix', ?_, fun h => ?_⟩
  · rw [insertBatch, hfill]
    exact hrun
  · have hb := hbs (shardFor h) [] (by simp [Index.shardFor_lt])
    have hfilter : Index.firstLoc (es.filter fun e => shardFor e.1 = shardFor h) h =
        Index.firstLoc es h := by
      unfold Index.firstLoc
      rw [List.find?_filter]
      congr 2
      funext e
      by_cases he : e.1 = h <;> simp [he]
    rw [hget, if_pos (Nat.zero_le _), Nat.sub_zero, hb, List.nil_append, Option.bind_some, hfilter]

theorem run_insertBatch_flat {flat : Index} (hix : ∀ h, ix.get h = flat.get h)
    (es : List (PageHash × PageLoc)) : ∃ ix', (insertBatch es).run ix = (.ok (), ix') ∧
      ∀ h, ix'.get h = (flat.insertBatch es).get h := by
  obtain ⟨ix', hrun, hget⟩ := run_insertBatch ix es
  exact ⟨ix', hrun, fun h => by rw [hget, hix, Index.get_insertBatch]⟩

/-! ## The entries of a file -/

theorem readEntry_eq {checks : Bool} {b : Bytes} (hb : (i + 1) * sidecarEntrySize ≤ b.length)
    (hlt : b.length < usizeBound) :
    readEntry checks b i = .ok (sidecarEntryAt b (i * sidecarEntrySize)) := by
  rw [Nat.succ_mul, sidecarEntrySize] at hb
  unfold readEntry sidecarEntrySize sidecarEntryAt
  generalize i * 44 = base at hb ⊢
  have hhash : (slice b base 32).length = 32 := by
    rw [length_slice]
    omega
  simp only [arith_eq (show base < usizeBound by omega), index_eq (Nat.le_add_right base 32)
    (show base + 32 ≤ b.length by omega), Nat.add_sub_cancel_left, toArray_eq hhash,
    uintAt_eq (show base + 32 + 4 = base + 36 from rfl) (show base + 36 ≤ b.length by omega),
    uintAt_eq (show base + 36 + 8 = base + 44 from rfl) hb, bind, Except.bind, pure, Except.pure]

variable [Primitives]

theorem readEntries_eq (checks : Bool) (data : Checked.ByteSlice) :
    readEntries checks data = (decodeSidecar data.bytes).mapError .error := by
  unfold readEntries decodeSidecar
  refine ite_mapError fun hlen => ?_
  have hmid : data.bytes.length - 4 ≤ data.bytes.length := Nat.sub_le _ _
  have hpayload : (data.bytes.take (data.bytes.length - 4)).length = data.bytes.length - 4 := by
    rw [List.length_take, Nat.min_eq_left hmid]
  have hcrc : slice data.bytes (data.bytes.length - 4) 4 = data.bytes.drop (data.bytes.length - 4) :=
    List.take_of_length_le (by rw [List.length_drop]; omega)
  simp only [minus, if_pos (show 4 ≤ data.bytes.length by omega), index_take hmid,
    uintAt_eq (show data.bytes.length - 4 + 4 = data.bytes.length by omega) (Nat.le_refl _), hcrc,
    bind, Except.bind]
  generalize data.bytes.take (data.bytes.length - 4) = payload at hpayload ⊢
  refine ite_mapError fun _ => ?_
  have hlt : data.bytes.length < 2 ^ 63 := data.length_lt
  have hfour : 4 ≤ payload.length := by omega
  have hcount : leNat (slice payload 0 4) < 256 ^ 4 := leNat_slice_lt _ _ 4
  have hmul : leNat (slice payload 0 4) * sidecarEntrySize < usizeBound := by
    simp only [sidecarEntrySize, usizeBound]
    omega
  rw [if_neg (Nat.not_lt.mpr hfour)]
  simp only [uintAt_eq (show 0 + 4 = 4 from rfl) hfour, index_suffix hfour, arith_eq hmul]
  refine ite_mapError fun hfit => ?_
  rw [withCapacity_eq (by simp only [isizeBound]; omega)]
  refine mapM_eq_ok fun i hi => ?_
  have hi' : (i + 1) * sidecarEntrySize ≤ (payload.drop 4).length :=
    (Nat.mul_le_mul_right _ (List.mem_range.mp hi)).trans (Nat.not_lt.mp hfit)
  refine readEntry_eq hi' ?_
  rw [List.length_drop, usizeBound]
  omega

theorem run_loadSidecar_ok (ix : ShardedIndex) (checks : Bool) {data : Checked.ByteSlice}
    (hd : decodeSidecar data.bytes = .ok es) :
    ∃ ix', (loadSidecar checks (.ok data)).run ix = (.ok es.length, ix') ∧
      ∀ h, ix'.get h = (ix.get h).or (Index.firstLoc es h) := by
  obtain ⟨ix', hrun, hget⟩ := run_insertBatch ix es
  refine ⟨ix', ?_, hget⟩
  have hbatch : (liftExcept (readEntries checks data)).run ix = (.ok es, ix) := by
    rw [readEntries_eq, hd]
    rfl
  exact (run_bind_ok (show (liftExcept (Except.ok data)).run ix = _ from rfl)).trans
    ((run_bind_ok hbatch).trans (run_bind_ok hrun))

theorem run_loadSidecar_error {checks : Bool} {data : Checked.ByteSlice} {e : IndexError}
    (hd : decodeSidecar data.bytes = .error e) :
    (loadSidecar checks (.ok data)).run ix = (.error (.error e), ix) := by
  show (liftExcept (readEntries checks data) >>= _ : Op Nat).run ix = _
  rw [readEntries_eq, hd]
  rfl

end ShardedIndex

theorem firstLoc_sortByHash (es : List (PageHash × PageLoc)) (h : PageHash) :
    Index.firstLoc (sortByHash es) h = Index.firstLoc es h := by
  have hrefl : ∀ b : Bytes, bytesLe b b = true := by
    intro b
    induction b with
    | nil => rfl
    | cons x b ih => simp [bytesLe, ih]
  have hsame : (es.filter fun e => e.1 = h).Pairwise
      fun a b => bytesLe a.1.bytes b.1.bytes = true := by
    refine List.pairwise_of_forall_mem_list fun a ha b hb => ?_
    rw [of_decide_eq_true (List.mem_filter.mp ha).2, of_decide_eq_true (List.mem_filter.mp hb).2]
    exact hrefl _
  have hsub := (List.sublist_insertionSort hsame List.filter_sublist).filter fun e => e.1 = h
  rw [List.filter_filter] at hsub
  simp only [Bool.and_self] at hsub
  have heq : es.filter (fun e => e.1 = h) = (sortByHash es).filter fun e => e.1 = h :=
    hsub.eq_of_length ((sortByHash_perm es).filter _).length_eq.symm
  unfold Index.firstLoc
  rw [← List.head?_filter, ← List.head?_filter, heq]

def TmpHolds (p : PackId) (b : Bytes) (f : Ino) (u : World) : Prop :=
  u.pages.lookup (.idxTmp p) = some f ∧ u.pages.content f = b

theorem twpE_writeSidecarEntries [Primitives] {may : Oracle → Prop} {s : World} (p : PackId)
    (es : List (PageHash × PageLoc)) :
    twpE may (fun _ _ => ∃ o op n, may o ∧ o.fault .sidecar op = some n)
      (PageStore.writeSidecarEntries p es)
      (fun _ u => u.pages.readName (.idx p) = some (encodeSidecar es)) s := by
  refine twpE_withError (twpE_seq (R := TmpHolds p []) ?_ fun f u hu =>
    twpE_seq (R := fun _ => TmpHolds p (encodeSidecar es) f) ?_ fun _ v hv =>
    twpE_seq (R := fun _ => TmpHolds p (encodeSidecar es) f) ?_ fun _ w hw => ?_)
  · refine twpE_attempt_fault .sidecar .openFile
      (fun o n ho hf => ⟨_, by rw [hf], o, _, n, ho, hf⟩) fun o ho hf => ⟨_, _, by rw [hf], ?_⟩
    exact FileSys.Unaliased.lookup_openTruncate s.pages (.idxTmp p)
  · refine twp_atomic fun o ho => ?_
    cases hf : o.fault .sidecar .write with
    | some n => exact ⟨o, _, n, ho, hf⟩
    | none =>
      refine ⟨hu.1, ?_⟩
      rw [FileSys.content_write, if_pos rfl, hu.2, writeAt_nil_zero]
  · refine twpE_attempt_fault .sidecar .sync
      (fun o n ho hf => ⟨_, by rw [hf], o, _, n, ho, hf⟩) fun o ho hf => ⟨_, _, by rw [hf], ?_⟩
    exact ⟨hv.1, (FileSys.content_fdatasync _ _ _).trans hv.2⟩
  · refine twpE_attempt_fault .sidecar .rename
      (fun o n ho hf => ⟨_, by rw [hf], o, _, n, ho, hf⟩) fun o ho hf => ⟨_, _, by rw [hf, hw.1], ?_⟩
    rw [FileSys.readName, FileSys.lookup_rename, if_pos rfl, FileSys.content_rename]
    exact congrArg some hw.2

theorem length_encodeSidecar_lt [Primitives] {es : List (PageHash × PageLoc)}
    (hcount : es.length < 2 ^ 32) : (encodeSidecar es).length < isizeBound := by
  have hlen : (sortByHash es).length = es.length := (sortByHash_perm es).length_eq
  rw [encodeSidecar, withCrc, sidecarPayload, List.length_append, List.length_append,
    length_leBytes, length_leBytes, length_flatMap_sidecarEntry, hlen, sidecarEntrySize, isizeBound]
  omega

/-- A sidecar that was written and is loaded into an index changes it as the entries would one by
one.  Whatever a file holds, loading it does not panic, and an error leaves the index as it was. -/
theorem sidecar_round_trip [Primitives] :
    (∀ (es : List (PageHash × PageLoc)) (p : PackId) (s : World) (may : Oracle → Prop),
      SidecarFits es →
      twpE may (fun _ _ => ∃ o op n, may o ∧ o.fault .sidecar op = some n)
        (PageStore.writeSidecarEntries p es)
        (fun _ u => ∃ file : Checked.ByteSlice, u.pages.readName (.idx p) = some file.bytes ∧
          ∀ (checks : Bool) (ix : ShardedIndex), ∃ loaded each : ShardedIndex,
            (ShardedIndex.loadSidecar checks (.ok file)).run ix = (.ok es.length, loaded) ∧
            (ShardedIndex.insertEach es).run ix = (.ok (), each) ∧
            ∀ h, loaded.get h = each.get h ∧ loaded.get h = (ix.get h).or (Index.firstLoc es h)) s) ∧
    ∀ (checks : Bool) (file : Except IoError Checked.ByteSlice) (ix : ShardedIndex),
      ((ShardedIndex.loadSidecar checks file).run ix).1 ≠ .error .panic ∧
      ∀ e, ((ShardedIndex.loadSidecar checks file).run ix).1 = .error e →
        ((ShardedIndex.loadSidecar checks file).run ix).2 = ix := by
  constructor
  · intro es p s may hfits
    refine twpE_mono (fun _ u hu => ?_) (twpE_writeSidecarEntries p es)
    refine ⟨⟨_, length_encodeSidecar_lt hfits.count⟩, hu, fun checks ix => ?_⟩
    have hdecode : decodeSidecar (Checked.ByteSlice.mk _ (length_encodeSidecar_lt hfits.count)).bytes =
      .ok (sortByHash es) := decodeSidecar_encodeSidecar hfits
    obtain ⟨loaded, hload, hloaded⟩ := ShardedIndex.run_loadSidecar_ok ix checks hdecode
    obtain ⟨each, heach, hget⟩ := ShardedIndex.run_insertEach ix es
    rw [(sortByHash_perm es).length_eq] at hload
    refine ⟨loaded, each, hload, heach, fun h => ?_⟩
    rw [hloaded, hget, firstLoc_sortByHash]
    exact ⟨rfl, rfl⟩
  · intro checks file ix
    cases file with
    | error e => exact ⟨by rintro ⟨⟩, fun _ _ => rfl⟩
    | ok data =>
      cases hd : decodeSidecar data.bytes with
      | error e =>
        rw [ShardedIndex.run_loadSidecar_error hd]
        exact ⟨by rintro ⟨⟩, fun _ _ => rfl⟩
      | ok es =>
        obtain ⟨ix', hrun, -⟩ := ShardedIndex.run_loadSidecar_ok ix checks hd
        rw [hrun]
        exact ⟨by rintro ⟨⟩, by rintro _ ⟨⟩⟩

namespace Sample

attribute [local instance] primitives

theorem sidecar_read_back :
    twpE Oracle.Quiet (fun _ _ => ∃ o op n, Oracle.Quiet o ∧ o.fault .sidecar op = some n)
      (PageStore.writeSidecarEntries 0 [(hash 7, ⟨0, 20⟩), (hash 7, ⟨0, 4156⟩)])
      (fun _ u => ∃ file : Checked.ByteSlice, u.pages.readName (.idx 0) = some file.bytes ∧
        ∃ ix, (ShardedIndex.loadSidecar true (.ok file)).run .new = (.ok 2, ix) ∧
          ix.get (hash 7) = some ⟨0, 20⟩) World.empty := by
  have hfits : SidecarFits [(hash 7, ⟨0, 20⟩), (hash 7, ⟨0, 4156⟩)] :=
    ⟨by simp, by simp⟩
  refine twpE_mono (fun _ u hu => ?_) (sidecar_round_trip.1 _ 0 World.empty Oracle.Quiet hfits)
  obtain ⟨file, hfile, hload⟩ := hu
  obtain ⟨ix, _, hrun, _, hget⟩ := hload true .new
  refine ⟨file, hfile, ix, hrun, ?_⟩
  rw [(hget _).2, ShardedIndex.get_new, Index.firstLoc_cons, if_pos rfl]
  rfl

end Sample

end SnapStore
