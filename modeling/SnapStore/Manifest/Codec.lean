import SnapStore.Manifest

/-!
# What the manifest codec accepts

A container that decodes has its entries within the memory of the guest; the canonical bytes of a
well-formed manifest decode to it.
-/

namespace SnapStore

open Disk

namespace Manifest

theorem decodeParent_entries {isDelta : Bool} {ph : Bytes} {es : List ManifestEntry} {n : Nat}
    {r : Option SnapshotRef} (h : decodeParent isDelta ph es n = .ok r) :
    (∀ e ∈ es, e.pageIndex < n) ∧ (isDelta = false → es.map (·.pageIndex) = List.range n) := by
  unfold decodeParent at h
  cases isDelta with
  | true =>
    simp only [if_true] at h
    split at h
    · cases h
    · split at h
      · cases h
      · next hfind =>
        refine ⟨fun e he => ?_, by simp⟩
        simpa using List.find?_eq_none.mp hfind e he
  | false =>
    simp only [Bool.false_eq_true, if_false, ite_error_eq_ok, not_not] at h
    obtain ⟨-, hlen, hidx, -⟩ := h
    rw [hlen] at hidx
    refine ⟨fun e he => ?_, fun _ => hidx⟩
    have hmem : e.pageIndex ∈ es.map (·.pageIndex) := List.mem_map_of_mem he
    rw [hidx] at hmem
    exact List.mem_range.mp hmem

/-! ## The fields of a container -/

def flagBits (m : Manifest) : Nat :=
  (if m.delta then flagDelta else 0) + (if m.deviceBlob.zstd then flagDevZstd else 0)

def parentBytes (m : Manifest) : Bytes :=
  match m.parent with
  | some r => r.bytes
  | none => zeroHash

theorem flagBits_lt (m : Manifest) : m.flagBits < 256 ^ 2 := by
  unfold flagBits flagDelta flagDevZstd
  split <;> split <;> decide

theorem flagBits_delta (m : Manifest) : m.flagBits % 2 = 1 ↔ m.delta = true := by
  unfold flagBits flagDelta flagDevZstd
  cases m.delta <;> cases m.deviceBlob.zstd <;> decide

theorem flagBits_zstd (m : Manifest) : m.flagBits / 2 = 1 ↔ m.deviceBlob.zstd = true := by
  unfold flagBits flagDelta flagDevZstd
  cases m.delta <;> cases m.deviceBlob.zstd <;> decide

theorem flagBits_known (m : Manifest) : m.flagBits / 4 = 0 := by
  unfold flagBits flagDelta flagDevZstd
  cases m.delta <;> cases m.deviceBlob.zstd <;> decide

theorem length_parentBytes (m : Manifest) : m.parentBytes.length = 32 := by
  unfold parentBytes
  split
  · next r _ => exact r.length_bytes
  · simp [zeroHash]

theorem length_entryBytes (e : ManifestEntry) : (entryBytes e).length = entrySize := by
  simp [entryBytes, entrySize, e.pageHash.length_bytes]

theorem length_flatMap_entryBytes (es : List ManifestEntry) :
    (es.flatMap entryBytes).length = es.length * entrySize := by
  induction es with
  | nil => simp
  | cons e es ih =>
    rw [List.flatMap_cons, List.length_append, ih, length_entryBytes, List.length_cons,
      Nat.succ_mul, Nat.add_comm]

theorem slice_flatMap_entryBytes {es : List ManifestEntry} {i : Nat} {e : ManifestEntry}
    (h : es[i]? = some e) (post : Bytes) :
    slice (es.flatMap entryBytes ++ post) (i * entrySize) entrySize = entryBytes e := by
  induction es generalizing i with
  | nil => simp at h
  | cons d es ih =>
    rw [List.flatMap_cons, List.append_assoc]
    cases i with
    | zero =>
      obtain rfl : d = e := by simpa using h
      rw [Nat.zero_mul]
      exact slice_zero_append (length_entryBytes d)
    | succ i =>
      rw [slice_skip (length_entryBytes d) (by rw [Nat.succ_mul]; omega), Nat.succ_mul,
        Nat.add_sub_cancel]
      exact ih (by simpa using h)

def header (m : Manifest) : Bytes :=
  magic ++ (leBytes 2 wireVersion ++ (leBytes 2 m.flagBits ++ (leBytes 4 headerLen ++
    (m.parentBytes ++ (leBytes 8 m.guestRamBytes ++ (leBytes 8 pageSize ++
    (leBytes 8 m.entries.length ++ (leBytes 8 m.deviceBlob.bytes.length ++
    (leBytes 8 m.deviceBlob.rawLen ++ (leBytes 4 m.deviceBlob.format ++ leBytes 4 0))))))))))

theorem length_header (m : Manifest) : m.header.length = headerLen := by
  simp only [header, List.length_append, length_leBytes, length_parentBytes]
  rfl

def tail (m : Manifest) : Bytes := m.entries.flatMap entryBytes ++ m.deviceBlob.bytes

theorem body_eq (m : Manifest) : m.body = m.header ++ m.tail := by
  unfold body header tail
  simp only [List.append_assoc]
  rfl

theorem length_body (m : Manifest) : m.body.length =
    headerLen + m.entries.length * entrySize + m.deviceBlob.bytes.length := by
  rw [body_eq, tail, List.length_append, List.length_append, length_header,
    length_flatMap_entryBytes, Nat.add_assoc]

structure Fields (m : Manifest) (buf : Bytes) : Prop where
  magic : slice buf 0 8 = magic
  version : leNat (slice buf 8 2) = wireVersion
  flags : leNat (slice buf 10 2) = m.flagBits
  headerLen : leNat (slice buf 12 4) = headerLen
  parent : slice buf 16 32 = m.parentBytes
  ram : leNat (slice buf 48 8) = m.guestRamBytes
  pageSize : leNat (slice buf 56 8) = pageSize
  count : leNat (slice buf 64 8) = m.entries.length
  blobLen : leNat (slice buf 72 8) = m.deviceBlob.bytes.length
  rawLen : leNat (slice buf 80 8) = m.deviceBlob.rawLen
  format : leNat (slice buf 88 4) = m.deviceBlob.format
  reserved : leNat (slice buf 92 4) = 0
  rest : ∃ post, ∀ off n, slice buf (Manifest.headerLen + off) n = slice (m.tail ++ post) off n

structure Fits (m : Manifest) : Prop where
  ram : m.guestRamBytes < 256 ^ 8
  count : m.entries.length < 256 ^ 8
  blobLen : m.deviceBlob.bytes.length < 256 ^ 8
  rawLen : m.deviceBlob.rawLen < 256 ^ 8
  format : m.deviceBlob.format < 256 ^ 4
  index : ∀ e ∈ m.entries, e.pageIndex < 256 ^ 8

theorem fields_body {m : Manifest} (h : m.Fits) (post : Bytes) : Fields m (m.body ++ post) := by
  have hmagic : magic.length = 8 := rfl
  have h2 (n : Nat) : (leBytes 2 n).length = 2 := length_leBytes 2 n
  have h4 (n : Nat) : (leBytes 4 n).length = 4 := length_leBytes 4 n
  have h8 (n : Nat) : (leBytes 8 n).length = 8 := length_leBytes 8 n
  have hpar := m.length_parentBytes
  rw [body_eq, List.append_assoc]
  refine ⟨?_, ?_, ?_, ?_, ?_, ?_, ?_, ?_, ?_, ?_, ?_, ?_, post, fun off n => ?_⟩
  case refine_13 => rw [slice_skip m.length_header (Nat.le_add_right _ _), Nat.add_sub_cancel_left]
  all_goals simp only [header, List.append_assoc]
  · exact slice_zero_append hmagic
  · rw [slice_skip hmagic (by decide)]
    exact leNat_field (by decide) _
  · rw [slice_skip hmagic (by decide), slice_skip (h2 _) (by decide)]
    exact leNat_field m.flagBits_lt _
  · rw [slice_skip hmagic (by decide), slice_skip (h2 _) (by decide),
      slice_skip (h2 _) (by decide)]
    exact leNat_field (by decide) _
  · rw [slice_skip hmagic (by decide), slice_skip (h2 _) (by decide),
      slice_skip (h2 _) (by decide), slice_skip (h4 _) (by decide)]
    exact slice_zero_append hpar
  · rw [slice_skip hmagic (by decide), slice_skip (h2 _) (by decide),
      slice_skip (h2 _) (by decide), slice_skip (h4 _) (by decide), slice_skip hpar (by decide)]
    exact leNat_field h.ram _
  · rw [slice_skip hmagic (by decide), slice_skip (h2 _) (by decide),
      slice_skip (h2 _) (by decide), slice_skip (h4 _) (by decide), slice_skip hpar (by decide),
      slice_skip (h8 _) (by decide)]
    exact leNat_field (by decide) _
  · rw [slice_skip hmagic (by decide), slice_skip (h2 _) (by decide),
      slice_skip (h2 _) (by decide), slice_skip (h4 _) (by decide), slice_skip hpar (by decide),
      slice_skip (h8 _) (by decide), slice_skip (h8 _) (by decide)]
    exact leNat_field h.count _
  · rw [slice_skip hmagic (by decide), slice_skip (h2 _) (by decide),
      slice_skip (h2 _) (by decide), slice_skip (h4 _) (by decide), slice_skip hpar (by decide),
      slice_skip (h8 _) (by decide), slice_skip (h8 _) (by decide), slice_skip (h8 _) (by decide)]
    exact leNat_field h.blobLen _
  · rw [slice_skip hmagic (by decide), slice_skip (h2 _) (by decide),
      slice_skip (h2 _) (by decide), slice_skip (h4 _) (by decide), slice_skip hpar (by decide),
      slice_skip (h8 _) (by decide), slice_skip (h8 _) (by decide),
      slice_skip (h8 _) (by decide), slice_skip (h8 _) (by decide)]
    exact leNat_field h.rawLen _
  · rw [slice_skip hmagic (by decide), slice_skip (h2 _) (by decide),
      slice_skip (h2 _) (by decide), slice_skip (h4 _) (by decide), slice_skip hpar (by decide),
      slice_skip (h8 _) (by decide), slice_skip (h8 _) (by decide),
      slice_skip (h8 _) (by decide), slice_skip (h8 _) (by decide), slice_skip (h8 _) (by decide)]
    exact leNat_field h.format _
  · rw [slice_skip hmagic (by decide), slice_skip (h2 _) (by decide),
      slice_skip (h2 _) (by decide), slice_skip (h4 _) (by decide), slice_skip hpar (by decide),
      slice_skip (h8 _) (by decide), slice_skip (h8 _) (by decide),
      slice_skip (h8 _) (by decide), slice_skip (h8 _) (by decide),
      slice_skip (h8 _) (by decide), slice_skip (h4 _) (by decide)]
    exact leNat_field (by decide) _

variable [Primitives]

theorem decode_entries {buf : Bytes} {m : Manifest} (h : decode buf = .ok m) :
    (∀ e ∈ m.entries, e.pageIndex < m.guestRamBytes / pageSize) ∧
      (m.delta = false → m.entries.map (·.pageIndex) = List.range (m.guestRamBytes / pageSize)) := by
  unfold decode at h
  simp only [bind, Except.bind, pure, Except.pure, throw, throwThe, MonadExceptOf.throw,
    ite_error_eq_ok] at h
  obtain ⟨-, -, -, -, -, -, -, -, -, -, -, -, h⟩ := h
  split at h
  · cases h
  · next parent hp =>
    split at h
    · cases h
    · cases h
      exact decodeParent_entries hp

/-! ## Canonical bytes -/

/-- A manifest that the codec accepts and whose fields fit theirs in the container. -/
structure WellFormed (m : Manifest) : Prop where
  fits : m.Fits
  version : m.version = wireVersion
  aligned : m.guestRamBytes % pageSize = 0
  ascending : ascending m.entries = true
  delta : m.delta = true → ∃ p, m.parent = some p ∧ p.bytes ≠ zeroHash
  full : m.delta = false → m.parent = none
  inRange : ∀ e ∈ m.entries, e.pageIndex < m.guestRamBytes / pageSize
  covers : m.delta = false → m.entries.map (·.pageIndex) = List.range (m.guestRamBytes / pageSize)
  blob : checkBlob m.deviceBlob.zstd m.deviceBlob.bytes m.deviceBlob.bytes.length
    m.deviceBlob.rawLen = .ok ()

omit [Primitives] in
theorem entryAt_body {m : Manifest} (h : m.Fits) {buf : Bytes} (hf : Fields m buf) :
    (List.range m.entries.length).map (entryAt buf) = m.entries := by
  obtain ⟨post, hrest⟩ := hf.rest
  apply List.ext_getElem?
  intro i
  by_cases hi : i < m.entries.length
  · have hget := List.getElem?_eq_getElem hi
    have hentry : slice buf (headerLen + i * entrySize) entrySize = entryBytes m.entries[i] := by
      rw [hrest, tail, List.append_assoc]
      exact slice_flatMap_entryBytes hget _
    have hidx : slice buf (headerLen + i * entrySize) 8 = leBytes 8 m.entries[i].pageIndex := by
      have hs : slice (slice buf (headerLen + i * entrySize) entrySize) 0 8 =
          slice buf (headerLen + i * entrySize + 0) 8 := slice_slice (by decide)
      rw [Nat.add_zero] at hs
      rw [← hs, hentry]
      exact slice_zero_append (length_leBytes _ _)
    have hhash : slice buf (headerLen + i * entrySize + 8) 32 = m.entries[i].pageHash.bytes := by
      have hs : slice (slice buf (headerLen + i * entrySize) entrySize) 8 32 =
          slice buf (headerLen + i * entrySize + 8) 32 := slice_slice (by decide)
      rw [← hs, hentry, entryBytes, slice_skip (length_leBytes _ _) (by decide)]
      exact slice_self m.entries[i].pageHash.length_bytes
    rw [List.getElem?_map, List.getElem?_range hi, hget, Option.map_some, entryAt, hidx, hhash,
      leNat_leBytes (h.index _ (List.getElem_mem hi)), Digest.ofBytes_bytes]
  · rw [List.getElem?_eq_none (by simpa using hi), List.getElem?_eq_none (by simpa using hi)]

theorem decodeParent_of_wellFormed {m : Manifest} (h : m.WellFormed) :
    decodeParent m.delta m.parentBytes m.entries (m.guestRamBytes / pageSize) = .ok m.parent := by
  unfold decodeParent
  cases hd : m.delta with
  | true =>
    obtain ⟨p, hp, hne⟩ := h.delta hd
    have hbytes : m.parentBytes = p.bytes := by rw [parentBytes, hp]
    have hfind : m.entries.find? (fun e => decide (m.guestRamBytes / pageSize ≤ e.pageIndex)) =
        none := by
      rw [List.find?_eq_none]
      intro e he
      simpa using h.inRange e he
    rw [if_pos rfl, hbytes, if_neg hne, hfind, hp, Digest.ofBytes_bytes]
  | false =>
    have hbytes : m.parentBytes = zeroHash := by rw [parentBytes, h.full hd]
    have hlen : m.entries.length = m.guestRamBytes / pageSize := by
      have hl := congrArg List.length (h.covers hd)
      simpa using hl
    have hidx : m.entries.map (·.pageIndex) = List.range m.entries.length := by
      rw [hlen]
      exact h.covers hd
    rw [if_neg (by decide), hbytes, if_neg (not_not.mpr rfl), if_neg (not_not.mpr hlen),
      if_neg (not_not.mpr hidx), h.full hd]

theorem decode_encode {m : Manifest} (h : m.WellFormed) : decode m.encode = .ok m := by
  have hlen : m.encode.length = m.body.length + footerLen := by
    rw [encode, List.length_append, (blake3 m.body).length_bytes, footerLen]
  have hbody : m.encode.length - footerLen = m.body.length := by
    rw [hlen, Nat.add_sub_cancel]
  have hf : Fields m m.encode := fields_body h.fits _
  have hfooter : (blake3 (m.encode.take m.body.length)).bytes = m.encode.drop m.body.length := by
    rw [encode, List.take_left, List.drop_left]
  obtain ⟨post, hrest⟩ := hf.rest
  have hblob : slice m.encode (headerLen + m.entries.length * entrySize)
      m.deviceBlob.bytes.length = m.deviceBlob.bytes := by
    rw [hrest, tail, List.append_assoc,
      slice_skip (length_flatMap_entryBytes m.entries) (Nat.le_refl _), Nat.sub_self]
    exact slice_zero_append rfl
  have hdelta : decide (m.flagBits % 2 = 1) = m.delta := by
    rw [Bool.eq_iff_iff, decide_eq_true_iff]
    exact m.flagBits_delta
  have hzstd : decide (m.flagBits / 2 = 1) = m.deviceBlob.zstd := by
    rw [Bool.eq_iff_iff, decide_eq_true_iff]
    exact m.flagBits_zstd
  unfold decode
  simp only [bind, Except.bind, pure, Except.pure, throw, throwThe, MonadExceptOf.throw,
    ite_error_eq_ok, hbody, hfooter, hf.magic, hf.version, hf.flags, hf.headerLen, hf.parent, hf.ram,
    hf.pageSize, hf.count, hf.blobLen, hf.rawLen, hf.format, hf.reserved, entryAt_body h.fits hf,
    hblob, hdelta, hzstd, decodeParent_of_wellFormed h, h.blob, h.ascending]
  have hsize := m.length_body
  refine ⟨by omega, not_not.mpr rfl, not_not.mpr rfl, not_not.mpr rfl, not_not.mpr m.flagBits_known,
    not_not.mpr rfl, not_not.mpr rfl, not_not.mpr rfl, not_not.mpr h.aligned,
    Nat.not_lt.mpr hsize.ge, Nat.not_lt.mpr hsize.le, by decide, ?_⟩
  rw [← h.version]

end Manifest

end SnapStore
