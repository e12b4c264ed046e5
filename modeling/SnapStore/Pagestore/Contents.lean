import SnapStore.Pagestore.Index
import SnapStore.Pagestore.Writer

/-!
# What a store directory holds

The records of every pack, and what the files say of them: a closed pack lists its records to the
recovery, a sidecar lists the same records by their hashes, and a read at the offset of a record
returns its page.
-/

namespace SnapStore

open Disk

abbrev Packs := PackId → List Entry

def Packs.At (recs : Packs) (h : PageHash) (l : PageLoc) : Prop :=
  (l.offset, h) ∈ entriesAt packHeaderSize (recs l.pack)

/-! ## Positions of records -/

@[simp] theorem length_entriesAt (n : Nat) (rs : List Entry) :
    (entriesAt n rs).length = rs.length := by
  induction rs generalizing n with
  | nil => rfl
  | cons r rs ih => rw [entriesAt, List.length_cons, ih, List.length_cons]

theorem entriesAt_bounds {n off : Nat} {h : PageHash} {rs : List Entry}
    (hm : (off, h) ∈ entriesAt n rs) : n ≤ off ∧ off < n + recordSize * rs.length := by
  induction rs generalizing n with
  | nil => simp [entriesAt] at hm
  | cons r rs ih =>
    have hpos : 0 < recordSize := by decide
    rw [List.length_cons, Nat.mul_succ]
    rcases List.mem_cons.mp hm with heq | htail
    · obtain ⟨rfl, rfl⟩ := Prod.mk.inj heq
      omega
    · have hb := ih htail
      omega

theorem nodup_entriesAt (n : Nat) (rs : List Entry) : (entriesAt n rs).Nodup := by
  induction rs generalizing n with
  | nil => exact List.nodup_nil
  | cons r rs ih =>
    refine List.nodup_cons.mpr ⟨fun hm => ?_, ih _⟩
    have hb := (entriesAt_bounds hm).1
    have hpos : 0 < recordSize := by decide
    omega

theorem mem_entriesAt_append {off : Nat} {h : PageHash} {rs : List Entry} {r : Entry} :
    (off, h) ∈ entriesAt packHeaderSize (rs ++ [r]) ↔
      (off, h) ∈ entriesAt packHeaderSize rs ∨ off = recordOffset rs.length ∧ h = r.1 := by
  simp [entriesAt_append, entriesAt, recordOffset]

/-! ## Lists of records by their hashes -/

theorem Index.nodup_shardEntriesForPack (ix : Index) (shard : Nat) (p : PackId) :
    (ix.shardEntriesForPack shard p).Nodup := by
  have hinj : Function.Injective fun e : Sigma fun _ : PageHash => PageLoc => (e.1, e.2) := by
    intro ⟨h, l⟩ ⟨h', l'⟩ heq
    obtain ⟨rfl, rfl⟩ := Prod.mk.inj heq
    rfl
  exact (ix.nodupKeys.nodup.filter _).map hinj

structure Lists (recs : Packs) (p : PackId) (es : List (PageHash × PageLoc)) : Prop where
  mem : ∀ h l, (h, l) ∈ es ↔ l.pack = p ∧ recs.At h l
  nodup : es.Nodup

namespace Lists

variable {recs : Packs} {p : PackId} {es : List (PageHash × PageLoc)}

theorem scan (recs : Packs) (p : PackId) :
    Lists recs p ((entriesAt packHeaderSize (recs p)).map fun r => (r.2, ⟨p, r.1⟩)) := by
  constructor
  · intro h l
    obtain ⟨pack, offset⟩ := l
    simp only [List.mem_map, Prod.mk.injEq, PageLoc.mk.injEq, Packs.At]
    constructor
    · intro ⟨r, hr, hh, hp, ho⟩
      subst hh hp ho
      exact ⟨rfl, hr⟩
    · intro ⟨hp, hm⟩
      subst hp
      exact ⟨(offset, h), hm, rfl, rfl, rfl⟩
  · refine (nodup_entriesAt _ _).map fun r r' heq => ?_
    obtain ⟨hh, hl⟩ := Prod.mk.inj heq
    exact Prod.ext (PageLoc.mk.inj hl).2 hh

theorem sortByHash (hl : Lists recs p es) : Lists recs p (sortByHash es) :=
  ⟨fun h l => mem_sortByHash.trans (hl.mem h l), (sortByHash_perm es).nodup_iff.mpr hl.nodup⟩

theorem length_le (hl : Lists recs p es) : es.length ≤ (recs p).length := by
  have hinj : ∀ e ∈ es, ∀ e' ∈ es, (e.2.offset, e.1) = (e'.2.offset, e'.1) → e = e' := by
    intro e he e' he' heq
    obtain ⟨ho, hh⟩ := Prod.mk.inj heq
    have hp := ((hl.mem e.1 e.2).mp he).1
    have hp' := ((hl.mem e'.1 e'.2).mp he').1
    obtain ⟨h, pack, offset⟩ := e
    obtain ⟨h', pack', offset'⟩ := e'
    simp_all
  have hnodup : (es.map fun e => (e.2.offset, e.1)).Nodup :=
    (List.nodup_map_iff_inj_on hl.nodup).mpr hinj
  have hsub : (es.map fun e => (e.2.offset, e.1)) ⊆ entriesAt packHeaderSize (recs p) := by
    intro x hx
    obtain ⟨e, he, rfl⟩ := List.mem_map.mp hx
    obtain ⟨hp, hat⟩ := (hl.mem e.1 e.2).mp he
    exact hp ▸ hat
  have hle := (List.subperm_of_subset hnodup hsub).length_le
  rwa [List.length_map, length_entriesAt] at hle

theorem fits (hl : Lists recs p es) (hp : p < 2 ^ 32) (hn : (recs p).length < 2 ^ 32) :
    SidecarFits es := by
  refine ⟨lt_of_le_of_lt hl.length_le hn, fun e he => ?_⟩
  obtain ⟨hpack, hat⟩ := (hl.mem e.1 e.2).mp he
  have hb := (entriesAt_bounds hat).2
  rw [hpack] at hb ⊢
  refine ⟨hp, ?_⟩
  simp only [packHeaderSize, recordSize, recordHeaderSize, pageSize] at hb
  omega

end Lists

namespace Index

theorem get_insertBatch_iff {ix : Index} {es : List (PageHash × PageLoc)}
    {A B : PageHash → PageLoc → Prop} (hA : ∀ h l, ix.get h = some l ↔ A h l)
    (hB : ∀ h l, (h, l) ∈ es ↔ B h l)
    (hone : ∀ h l l', A h l ∨ B h l → A h l' ∨ B h l' → l = l') (h : PageHash) (l : PageLoc) :
    (ix.insertBatch es).get h = some l ↔ A h l ∨ B h l := by
  have hsound : ∀ l, (ix.insertBatch es).get h = some l → A h l ∨ B h l := by
    intro l hg
    rcases get_insertBatch_cases hg with hold | hnew
    · exact .inl ((hA h l).mp hold)
    · exact .inr ((hB h l).mp hnew)
  refine ⟨hsound l, fun hAB => ?_⟩
  have hsome : ((ix.insertBatch es).get h).isSome := by
    rcases hAB with hold | hnew
    · rw [get_insertBatch_of_some es ((hA h l).mpr hold)]
      rfl
    · exact isSome_get_insertBatch ((hB h l).mpr hnew)
  obtain ⟨l', hl'⟩ := Option.isSome_iff_exists.mp hsome
  rw [hl', hone h l' l (hsound l' hl') hAB]

end Index

/-! ## Packs -/

theorem hasRecord_of_entriesAt {hdr post : Bytes} (hh : IsHeader hdr) {rs : List Entry} {off : Nat}
    {h : PageHash} (hm : (off, h) ∈ entriesAt packHeaderSize rs) :
    ∃ p, (h, p) ∈ rs ∧ HasRecord (hdr ++ (encodeRecords rs ++ post)) off h p :=
  mem_entriesAt rfl (by rwa [hh.length])

variable [Primitives]

/-- The bytes of a pack with records `rs` that nobody appends to any more.  A pack that was never
sealed counts if its last page ends like a footer: recovery takes it for a sealed one. -/
structure Closed (b : Bytes) (rs : List Entry) : Prop where
  shape : ∃ hdr, IsHeader hdr ∧
    (b = sealedPack hdr rs ∨ b = openPack hdr rs ∧ ∃ e, PackReader.openSealed b = .ok e)

namespace Closed

variable {b : Bytes} {rs : List Entry}

theorem bytes (hc : Closed b rs) :
    ∃ hdr post, IsHeader hdr ∧ b = hdr ++ (encodeRecords rs ++ post) := by
  obtain ⟨hdr, hh, rfl | ⟨rfl, -⟩⟩ := hc.shape
  · exact ⟨hdr, _, hh, rfl⟩
  · exact ⟨hdr, [], hh, by simp [openPack]⟩

theorem hasRecord (hc : Closed b rs) {off : Nat} {h : PageHash}
    (hm : (off, h) ∈ entriesAt packHeaderSize rs) : ∃ p, (h, p) ∈ rs ∧ HasRecord b off h p := by
  obtain ⟨hdr, post, hh, rfl⟩ := hc.bytes
  exact hasRecord_of_entriesAt hh hm

theorem header_le (hc : Closed b rs) : ¬ b.length < packHeaderSize := by
  obtain ⟨hdr, post, hh, rfl⟩ := hc.bytes
  rw [List.length_append, hh.length]
  omega

theorem scan (hc : Closed b rs) (hn : rs.length < 2 ^ 64) :
    ∃ e, PackReader.openSealed b = .ok e ∧
      PackReader.scan b e = .ok (entriesAt packHeaderSize rs) := by
  obtain ⟨hdr, hh, rfl | ⟨rfl, e, he⟩⟩ := hc.shape
  · have ho := openSealed_sealedPack hh hn
    exact ⟨_, ho, scan_of_openSealed hh (.inr rfl) ho⟩
  · exact ⟨e, he, scan_of_openSealed hh (.inl rfl) he⟩

end Closed

end SnapStore
