import SnapStore.Manifest.Codec

/-!
# The manifest codec is exact

`Manifest::decode` once more, with everything that could stop it short of a result: slices out of
range, conversions to an array of another length and `usize` arithmetic that overflows.  It never
panics, and it accepts exactly the canonical bytes of the well-formed manifests.
-/

namespace SnapStore

open Disk

namespace Manifest

variable [Primitives]

/-! ## What a container that decodes looks like -/

structure Accepted (buf : Bytes) (m : Manifest) : Prop where
  length : headerLen + footerLen ≤ buf.length
  footer : (blake3 (buf.take (buf.length - footerLen))).bytes = buf.drop (buf.length - footerLen)
  magic : slice buf 0 8 = magic
  wireVersion : leNat (slice buf 8 2) = wireVersion
  flags : leNat (slice buf 10 2) / 4 = 0
  headerLen : leNat (slice buf 12 4) = headerLen
  reserved : leNat (slice buf 92 4) = 0
  pageSize : leNat (slice buf 56 8) = pageSize
  aligned : leNat (slice buf 48 8) % SnapStore.pageSize = 0
  size : buf.length - footerLen =
    Manifest.headerLen + leNat (slice buf 64 8) * entrySize + leNat (slice buf 72 8)
  ascending : ascending m.entries = true
  parent : decodeParent m.delta (slice buf 16 32) m.entries (m.guestRamBytes / SnapStore.pageSize) =
    .ok m.parent
  blob : checkBlob m.deviceBlob.zstd m.deviceBlob.bytes (leNat (slice buf 72 8))
    m.deviceBlob.rawLen = .ok ()
  version : m.version = leNat (slice buf 8 2)
  delta : m.delta = decide (leNat (slice buf 10 2) % 2 = 1)
  zstd : m.deviceBlob.zstd = decide (leNat (slice buf 10 2) / 2 = 1)
  ram : m.guestRamBytes = leNat (slice buf 48 8)
  entries : m.entries = (List.range (leNat (slice buf 64 8))).map (entryAt buf)
  bytes : m.deviceBlob.bytes = slice buf (Manifest.headerLen + leNat (slice buf 64 8) * entrySize)
    (leNat (slice buf 72 8))
  rawLen : m.deviceBlob.rawLen = leNat (slice buf 80 8)
  format : m.deviceBlob.format = leNat (slice buf 88 4)

theorem accepted_of_decode {buf : Bytes} {m : Manifest} (h : decode buf = .ok m) :
    Accepted buf m := by
  unfold decode at h
  simp only [bind, Except.bind, pure, Except.pure, throw, throwThe, MonadExceptOf.throw,
    ite_error_eq_ok, not_not, Nat.not_lt, Bool.not_eq_true, Bool.not_eq_false'] at h
  obtain ⟨hlen, hfooter, hmagic, hversion, hflags, hheader, hreserved, hpage, haligned, hle, hge,
    hascending, h⟩ := h
  split at h
  · cases h
  · next parent hparent =>
    split at h
    · cases h
    · next hblob =>
      cases h
      exact ⟨hlen, hfooter, hmagic, hversion, hflags, hheader, hreserved, hpage, haligned,
        Nat.le_antisymm hge hle, hascending, hparent, hblob, rfl, rfl, rfl, rfl, rfl, rfl, rfl, rfl⟩

namespace Accepted

variable {buf : Bytes} {m : Manifest}

theorem length_field (h : Accepted buf m) {off n : Nat} (hoff : off + n ≤ Manifest.headerLen) :
    (slice buf off n).length = n := by
  have hlen := h.length
  rw [length_slice]
  omega

theorem leBytes_field (h : Accepted buf m) {off n : Nat} (hoff : off + n ≤ Manifest.headerLen) :
    leBytes n (leNat (slice buf off n)) = slice buf off n := leBytes_leNat (h.length_field hoff)

theorem field_lt (h : Accepted buf m) {off n : Nat} (hoff : off + n ≤ Manifest.headerLen) :
    leNat (slice buf off n) < 256 ^ n := by
  have hlt := leNat_lt (slice buf off n)
  rwa [h.length_field hoff] at hlt

theorem length_entries (h : Accepted buf m) : m.entries.length = leNat (slice buf 64 8) := by
  rw [h.entries, List.length_map, List.length_range]

theorem length_bytes (h : Accepted buf m) : m.deviceBlob.bytes.length = leNat (slice buf 72 8) := by
  have hsize := h.size
  rw [h.bytes, length_slice]
  omega

theorem flagBits_eq (h : Accepted buf m) : m.flagBits = leNat (slice buf 10 2) := by
  have hflags := h.flags
  unfold flagBits flagDelta flagDevZstd
  rw [h.delta, h.zstd]
  simp only [decide_eq_true_eq]
  split_ifs <;> omega

theorem parentBytes_eq (h : Accepted buf m) : m.parentBytes = slice buf 16 32 := by
  have hparent := h.parent
  have hlen : (slice buf 16 32).length = 32 := h.length_field (by decide)
  unfold decodeParent at hparent
  split at hparent
  · rw [ite_error_eq_ok] at hparent
    obtain ⟨-, hsome⟩ := hparent
    split at hsome
    · cases hsome
    · rw [parentBytes, ← Except.ok.inj hsome]
      exact Digest.bytes_ofBytes hlen
  · simp only [ite_error_eq_ok, not_not] at hparent
    obtain ⟨hzero, -, -, hnone⟩ := hparent
    rw [parentBytes, ← Except.ok.inj hnone, hzero]

theorem header_eq (h : Accepted buf m) : m.header = buf.take Manifest.headerLen := by
  have hfield {off n v : Nat} (hoff : off + n ≤ Manifest.headerLen)
      (hv : v = leNat (slice buf off n)) :
      buf.take off ++ leBytes n v = buf.take (off + n) := by
    rw [hv, h.leBytes_field hoff, take_add_slice]
  have hmagic : Manifest.magic = buf.take 8 := by
    rw [← h.magic]
    rfl
  have hparent : buf.take 16 ++ m.parentBytes = buf.take 48 := by
    rw [h.parentBytes_eq, ← take_add_slice]
  unfold header
  simp only [← List.append_assoc]
  rw [hmagic, hfield (by decide) h.wireVersion.symm, hfield (by decide) h.flagBits_eq,
    hfield (by decide) h.headerLen.symm, hparent, hfield (by decide) h.ram,
    hfield (by decide) h.pageSize.symm, hfield (by decide) h.length_entries,
    hfield (by decide) h.length_bytes, hfield (by decide) h.rawLen, hfield (by decide) h.format,
    hfield (by decide) h.reserved.symm]
  rfl

omit [Primitives] in
theorem flatMap_entryAt {n : Nat} (hn : Manifest.headerLen + n * entrySize ≤ buf.length) :
    ((List.range n).map (entryAt buf)).flatMap entryBytes =
      slice buf Manifest.headerLen (n * entrySize) := by
  induction n with
  | zero => simp [slice]
  | succ n ih =>
    have hrow : Manifest.headerLen + n * entrySize + entrySize ≤ buf.length := by
      rw [Nat.succ_mul] at hn
      omega
    have hlen8 : (slice buf (Manifest.headerLen + n * entrySize) 8).length = 8 := by
      rw [length_slice]
      unfold entrySize at hrow ⊢
      omega
    have hlen32 : (slice buf (Manifest.headerLen + n * entrySize + 8) 32).length = 32 := by
      rw [length_slice]
      unfold entrySize at hrow ⊢
      omega
    have hentry : entryBytes (entryAt buf n) =
        slice buf (Manifest.headerLen + n * entrySize) entrySize := by
      rw [entryBytes, entryAt, leBytes_leNat hlen8, Digest.bytes_ofBytes hlen32, ← slice_add]
      rfl
    rw [List.range_succ, List.map_append, List.flatMap_append, ih (by omega), Nat.succ_mul,
      slice_add, List.map_singleton, List.flatMap_singleton, hentry]

theorem body_eq (h : Accepted buf m) : m.body = buf.take (buf.length - footerLen) := by
  have hsize := h.size
  have hlen := h.length
  rw [Manifest.body_eq, h.header_eq, tail, h.bytes, h.entries, flatMap_entryAt (by omega),
    ← List.append_assoc, ← take_add_slice, ← take_add_slice, ← hsize]

theorem encode_eq (h : Accepted buf m) : m.encode = buf := by
  rw [encode, h.body_eq, h.footer, List.take_append_drop]

theorem fits (h : Accepted buf m) : m.Fits where
  ram := by
    rw [h.ram]
    exact h.field_lt (by decide)
  count := by
    rw [h.length_entries]
    exact h.field_lt (by decide)
  blobLen := by
    rw [h.length_bytes]
    exact h.field_lt (by decide)
  rawLen := by
    rw [h.rawLen]
    exact h.field_lt (by decide)
  format := by
    rw [h.format]
    exact h.field_lt (by decide)
  index := by
    intro e he
    rw [h.entries] at he
    obtain ⟨i, -, rfl⟩ := List.mem_map.mp he
    calc leNat (slice buf (Manifest.headerLen + i * entrySize) 8)
        < 256 ^ (slice buf (Manifest.headerLen + i * entrySize) 8).length := leNat_lt _
      _ ≤ 256 ^ 8 := Nat.pow_le_pow_right (by decide) (by rw [length_slice]; omega)

end Accepted

/-! ## Well-formed manifests -/

omit [Primitives] in
theorem ascending_iff (es : List ManifestEntry) :
    ascending es = true ↔ es.Pairwise fun a b => a.pageIndex < b.pageIndex := by
  have htrans : IsTrans ManifestEntry fun a b => a.pageIndex < b.pageIndex :=
    ⟨fun _ _ _ => Nat.lt_trans⟩
  rw [← List.isChain_iff_pairwise]
  induction es with
  | nil => simp [ascending]
  | cons a es ih =>
    cases es with
    | nil => simp [ascending]
    | cons b es =>
      rw [ascending, Bool.and_eq_true, decide_eq_true_iff, List.isChain_cons_cons]
      exact and_congr_right fun _ => ih

/-- What a manifest has to satisfy, as the format describes it. -/
structure Valid (m : Manifest) : Prop where
  version : m.version = 1
  aligned : m.guestRamBytes % 4096 = 0
  ascending : m.entries.Pairwise fun a b => a.pageIndex < b.pageIndex
  full : m.delta = false →
    m.parent = none ∧ m.entries.map (·.pageIndex) = List.range (m.guestRamBytes / 4096)
  delta : m.delta = true →
    (∃ p, m.parent = some p ∧ p.bytes ≠ List.replicate 32 0) ∧
      ∀ e ∈ m.entries, e.pageIndex < m.guestRamBytes / 4096
  plain : m.deviceBlob.zstd = false → m.deviceBlob.rawLen = m.deviceBlob.bytes.length
  compressed : m.deviceBlob.zstd = true →
    ∃ raw, zstdDecodeAll m.deviceBlob.bytes = some raw ∧ m.deviceBlob.rawLen = raw.length

theorem checkBlob_eq_ok {isZstd : Bool} {blob : Bytes} {n rawLen : Nat} :
    checkBlob isZstd blob n rawLen = .ok () ↔
      (isZstd = false → rawLen = n) ∧
        (isZstd = true → ∃ raw, zstdDecodeAll blob = some raw ∧ rawLen = raw.length) := by
  unfold checkBlob
  cases isZstd with
  | false => simp
  | true =>
    cases hraw : zstdDecodeAll blob with
    | none => simp
    | some raw =>
      simp only [if_true, ite_error_eq_ok, not_not]
      grind

theorem wellFormed_iff (m : Manifest) : m.WellFormed ↔ m.Fits ∧ m.Valid := by
  constructor
  · intro h
    obtain ⟨hplain, hzstd⟩ := checkBlob_eq_ok.mp h.blob
    exact ⟨h.fits, h.version, h.aligned, (ascending_iff _).mp h.ascending,
      fun hd => ⟨h.full hd, h.covers hd⟩, fun hd => ⟨h.delta hd, h.inRange⟩, hplain, hzstd⟩
  · intro ⟨hfits, h⟩
    refine ⟨hfits, h.version, h.aligned, (ascending_iff _).mpr h.ascending,
      fun hd => (h.delta hd).1, fun hd => (h.full hd).1, ?_, fun hd => (h.full hd).2,
      checkBlob_eq_ok.mpr ⟨h.plain, h.compressed⟩⟩
    intro e he
    cases hd : m.delta with
    | true => exact (h.delta hd).2 e he
    | false =>
      have hmem : e.pageIndex ∈ m.entries.map (·.pageIndex) := List.mem_map_of_mem he
      rw [(h.full hd).2] at hmem
      exact List.mem_range.mp hmem

theorem Accepted.valid {buf : Bytes} {m : Manifest} (h : Accepted buf m) : m.Valid := by
  obtain ⟨hrange, hcover⟩ := decodeParent_entries h.parent
  obtain ⟨hplain, hzstd⟩ := checkBlob_eq_ok.mp h.blob
  refine ⟨h.version.trans h.wireVersion, ?_, (ascending_iff _).mp h.ascending, ?_, ?_, ?_, hzstd⟩
  · rw [h.ram]
    exact h.aligned
  · intro hd
    refine ⟨?_, hcover hd⟩
    have hp := decodeParent_delta h.parent
    rw [hd] at hp
    simpa using hp
  · intro hd
    refine ⟨?_, hrange⟩
    have hparent := h.parent
    rw [hd, decodeParent, if_pos rfl, ite_error_eq_ok] at hparent
    obtain ⟨hne, hsome⟩ := hparent
    split at hsome
    · cases hsome
    · refine ⟨_, (Except.ok.inj hsome).symm, ?_⟩
      rw [Digest.bytes_ofBytes (h.length_field (by decide))]
      exact hne
  · intro hz
    rw [h.length_bytes]
    exact hplain hz

theorem decode_eq_ok_iff {buf : Bytes} {m : Manifest} :
    decode buf = .ok m ↔ m.Fits ∧ m.Valid ∧ buf = m.encode := by
  constructor
  · intro h
    have ha := accepted_of_decode h
    exact ⟨ha.fits, ha.valid, ha.encode_eq.symm⟩
  · intro ⟨hfits, hvalid, hbuf⟩
    rw [hbuf]
    exact decode_encode ((wellFormed_iff m).mpr ⟨hfits, hvalid⟩)

/-! ## The decoder on a 64-bit machine -/

inductive Stop where
  | error (e : ManifestError)
  | panic
deriving DecidableEq

def usizeBound : Nat := 2 ^ 64

def isizeBound : Nat := 2 ^ 63

structure ByteSlice where
  bytes : Bytes
  length_lt : bytes.length < isizeBound

namespace Machine

def index (buf : Bytes) (a b : Nat) : Except Stop Bytes :=
  if a ≤ b ∧ b ≤ buf.length then .ok (slice buf a (b - a)) else .error .panic

def toArray (n : Nat) (b : Bytes) : Except Stop Bytes :=
  if b.length = n then .ok b else .error .panic

def uintAt (n : Nat) (buf : Bytes) (a b : Nat) : Except Stop Nat := do
  let s ← index buf a b
  let bytes ← toArray n s
  return leNat bytes

def usize (n : Nat) : Except Stop Nat := if n < usizeBound then .ok n else .error .panic

/-- `checked_mul` and `checked_add`, whose overflow the decoder reports as a truncated input. -/
def checked (n : Nat) : Except Stop Nat :=
  if n < usizeBound then .ok n else .error (.error .truncated)

def withCapacity (n size : Nat) : Except Stop Unit :=
  if n * size < isizeBound then .ok () else .error .panic

def parseEntry (buf : Bytes) (entriesStart i : Nat) : Except Stop ManifestEntry := do
  let row ← usize (i * entrySize)
  let off ← usize (entriesStart + row)
  let hashAt ← usize (off + 8)
  let rowEnd ← usize (off + 40)
  let pageIndex ← uintAt 8 buf off hashAt
  let hash ← index buf hashAt rowEnd
  let hashBytes ← toArray 32 hash
  return { pageIndex := pageIndex, pageHash := Digest.ofBytes hashBytes }

/-- `Manifest::decode`, with every slice, conversion and machine operation it makes. -/
def decode (buf : Bytes) : Except Stop Manifest := do
  if buf.length < headerLen + footerLen then throw (.error .truncated)
  let footerStart := buf.length - footerLen
  let body ← index buf 0 footerStart
  let footer ← index buf footerStart buf.length
  let storedHash ← toArray 32 footer
  if (blake3 body).bytes ≠ storedHash then throw (.error .footerMismatch)
  let magicBytes ← index buf 0 8
  if magicBytes ≠ magic then throw (.error .badMagic)
  let version ← uintAt 2 buf 8 10
  if version ≠ wireVersion then throw (.error (.unsupportedVersion version))
  let flags ← uintAt 2 buf 10 12
  if flags / 4 ≠ 0 then throw (.error (.unknownFlags (flags / 4 * 4)))
  let hdrLen ← uintAt 4 buf 12 16
  if hdrLen ≠ headerLen then throw (.error (.badHeaderLen hdrLen))
  let parentField ← index buf 16 48
  let parentHash ← toArray 32 parentField
  let guestRamBytes ← uintAt 8 buf 48 56
  let pageSz ← uintAt 8 buf 56 64
  let entryCount ← uintAt 8 buf 64 72
  let blobLen ← uintAt 8 buf 72 80
  let rawLen ← uintAt 8 buf 80 88
  let format ← uintAt 4 buf 88 92
  let reserved ← uintAt 4 buf 92 96
  if reserved ≠ 0 then throw (.error .reservedNonZero)
  if pageSz ≠ pageSize then throw (.error (.badPageSize pageSz))
  if guestRamBytes % pageSize ≠ 0 then throw (.error (.guestRamNotAligned guestRamBytes))
  let entriesBytes ← checked (entryCount * entrySize)
  let tableEnd ← checked (headerLen + entriesBytes)
  let expectedBody ← checked (tableEnd + blobLen)
  if body.length < expectedBody then throw (.error .truncated)
  if expectedBody < body.length then throw (.error .trailingBytes)
  let entriesEnd ← usize (headerLen + entriesBytes)
  withCapacity entryCount entrySize
  let entries ← (List.range entryCount).mapM (parseEntry buf headerLen)
  if !ascending entries then throw (.error .entriesNotAscending)
  let isDelta := flags % 2 = 1
  let isZstd := flags / 2 = 1
  let parent ← (decodeParent isDelta parentHash entries (guestRamBytes / pageSize)).mapError .error
  let blobEnd ← usize (entriesEnd + blobLen)
  let blob ← index buf entriesEnd blobEnd
  (checkBlob isZstd blob blobLen rawLen).mapError .error
  return {
    version := version
    delta := isDelta
    parent := parent
    guestRamBytes := guestRamBytes
    entries := entries
    deviceBlob := { format := format, zstd := isZstd, bytes := blob, rawLen := rawLen } }

section Steps

omit [Primitives]

variable {buf : Bytes}

theorem index_eq {a b : Nat} (hab : a ≤ b) (hb : b ≤ buf.length) :
    index buf a b = .ok (slice buf a (b - a)) := if_pos ⟨hab, hb⟩

theorem toArray_eq {n : Nat} (h : buf.length = n) : toArray n buf = .ok buf := if_pos h

theorem uintAt_eq {n a b : Nat} (hab : a + n = b) (hb : b ≤ buf.length) :
    uintAt n buf a b = .ok (leNat (slice buf a n)) := by
  have hn : b - a = n := by omega
  have hlen : (slice buf a n).length = n := by
    rw [length_slice]
    omega
  simp only [uintAt, index_eq (by omega : a ≤ b) hb, hn, toArray_eq hlen, bind, Except.bind, pure,
    Except.pure]

theorem usize_eq {n : Nat} (h : n < usizeBound) : usize n = .ok n := if_pos h

theorem checked_eq {n : Nat} (h : n < usizeBound) : checked n = .ok n := if_pos h

theorem withCapacity_eq {n size : Nat} (h : n * size < isizeBound) :
    withCapacity n size = .ok () := if_pos h

theorem parseEntry_eq {i : Nat} (hlt : buf.length < isizeBound)
    (hrow : headerLen + i * entrySize + entrySize ≤ buf.length) :
    parseEntry buf headerLen i = .ok (entryAt buf i) := by
  have hbound : isizeBound < usizeBound := by decide
  have hsize : entrySize = 40 := rfl
  have hlen : (slice buf (headerLen + i * entrySize + 8) 32).length = 32 := by
    rw [length_slice]
    omega
  have hwidth : headerLen + i * entrySize + 40 - (headerLen + i * entrySize + 8) = 32 := by omega
  have hat : uintAt 8 buf (headerLen + i * entrySize) (headerLen + i * entrySize + 8) =
      .ok (leNat (slice buf (headerLen + i * entrySize) 8)) := uintAt_eq rfl (by omega)
  have hhash : index buf (headerLen + i * entrySize + 8) (headerLen + i * entrySize + 40) =
      .ok (slice buf (headerLen + i * entrySize + 8) 32) := by
    rw [index_eq (by omega) (by omega), hwidth]
  simp only [parseEntry, usize_eq (by omega : i * entrySize < usizeBound),
    usize_eq (by omega : headerLen + i * entrySize < usizeBound),
    usize_eq (by omega : headerLen + i * entrySize + 8 < usizeBound),
    usize_eq (by omega : headerLen + i * entrySize + 40 < usizeBound), hat, hhash, toArray_eq hlen,
    bind, Except.bind, pure, Except.pure]
  rfl

theorem mapM_eq_ok {α β ε : Type} {f : α → Except ε β} {g : α → β} {l : List α}
    (h : ∀ a ∈ l, f a = .ok (g a)) : l.mapM f = .ok (l.map g) := by
  induction l with
  | nil => rfl
  | cons a l ih =>
    rw [List.mapM_cons, h a List.mem_cons_self, ih fun b hb => h b (List.mem_cons_of_mem a hb)]
    rfl

theorem ite_mapError {α : Type} {c : Prop} [Decidable c] {e : ManifestError}
    {x : Except ManifestError α} {y : Except Stop α} (h : ¬ c → y = x.mapError .error) :
    (if c then .error (.error e) else y) = (if c then .error e else x).mapError Stop.error := by
  by_cases hc : c
  · rw [if_pos hc, if_pos hc]
    rfl
  · rw [if_neg hc, if_neg hc, h hc]

theorem checked_cases (n : Nat) :
    checked n = .ok n ∨ checked n = .error (.error .truncated) := by
  by_cases h : n < usizeBound
  · exact Or.inl (if_pos h)
  · exact Or.inr (if_neg h)

end Steps

theorem decode_eq {buf : Bytes} (hlt : buf.length < isizeBound) :
    decode buf = (Manifest.decode buf).mapError .error := by
  have hbound : isizeBound < usizeBound := by decide
  have hheader : headerLen = 96 := rfl
  have hfooterLen : footerLen = 32 := rfl
  unfold decode Manifest.decode
  simp only [bind, Except.bind, pure, Except.pure, throw, throwThe, MonadExceptOf.throw]
  refine ite_mapError fun hlen => ?_
  have hbody : (slice buf 0 (buf.length - footerLen - 0)) = buf.take (buf.length - footerLen) := rfl
  have hfooter : slice buf (buf.length - footerLen) (buf.length - (buf.length - footerLen)) =
      buf.drop (buf.length - footerLen) := by
    rw [slice, List.take_of_length_le (by rw [List.length_drop])]
  have hfootLen : (buf.drop (buf.length - footerLen)).length = 32 := by
    rw [List.length_drop]
    omega
  have hparLen : (slice buf 16 32).length = 32 := by
    rw [length_slice]
    omega
  have hbodyLen : (buf.take (buf.length - footerLen)).length = buf.length - footerLen := by
    rw [List.length_take]
    omega
  simp only [index_eq (Nat.zero_le _) (by omega : buf.length - footerLen ≤ buf.length), hbody,
    index_eq (by omega : buf.length - footerLen ≤ buf.length) (Nat.le_refl _), hfooter,
    toArray_eq hfootLen, hbodyLen, index_eq (by omega : 0 ≤ 8) (by omega : 8 ≤ buf.length),
    uintAt_eq (rfl : 8 + 2 = 10) (by omega : 10 ≤ buf.length),
    uintAt_eq (rfl : 10 + 2 = 12) (by omega : 12 ≤ buf.length),
    uintAt_eq (rfl : 12 + 4 = 16) (by omega : 16 ≤ buf.length),
    index_eq (by omega : 16 ≤ 48) (by omega : 48 ≤ buf.length), toArray_eq hparLen,
    uintAt_eq (rfl : 48 + 8 = 56) (by omega : 56 ≤ buf.length),
    uintAt_eq (rfl : 56 + 8 = 64) (by omega : 64 ≤ buf.length),
    uintAt_eq (rfl : 64 + 8 = 72) (by omega : 72 ≤ buf.length),
    uintAt_eq (rfl : 72 + 8 = 80) (by omega : 80 ≤ buf.length),
    uintAt_eq (rfl : 80 + 8 = 88) (by omega : 88 ≤ buf.length),
    uintAt_eq (rfl : 88 + 4 = 92) (by omega : 92 ≤ buf.length),
    uintAt_eq (rfl : 92 + 4 = 96) (by omega : 96 ≤ buf.length)]
  refine ite_mapError fun _ => ite_mapError fun _ => ite_mapError fun _ => ite_mapError fun _ =>
    ite_mapError fun _ => ite_mapError fun _ => ite_mapError fun _ => ite_mapError fun _ => ?_
  generalize hcount : leNat (slice buf 64 8) = count
  generalize leNat (slice buf 72 8) = blobLen
  by_cases hfit : buf.length - footerLen < headerLen + count * entrySize + blobLen
  · rw [if_pos hfit]
    rcases checked_cases (count * entrySize) with h | h <;> simp only [h]
    · rcases checked_cases (headerLen + count * entrySize) with h | h <;> simp only [h]
      · rcases checked_cases (headerLen + count * entrySize + blobLen) with h | h <;> simp only [h]
        · rw [if_pos hfit]
          rfl
        · rfl
      · rfl
    · rfl
  · simp only [checked_eq (by omega : count * entrySize < usizeBound),
      checked_eq (by omega : headerLen + count * entrySize < usizeBound),
      checked_eq (by omega : headerLen + count * entrySize + blobLen < usizeBound),
      usize_eq (by omega : headerLen + count * entrySize < usizeBound),
      usize_eq (by omega : headerLen + count * entrySize + blobLen < usizeBound),
      withCapacity_eq (by omega : count * entrySize < isizeBound)]
    refine ite_mapError fun _ => ite_mapError fun _ => ?_
    have hentries : (List.range count).mapM (parseEntry buf headerLen) =
        .ok ((List.range count).map (entryAt buf)) := by
      apply mapM_eq_ok
      intro i hi
      have hrow : (i + 1) * entrySize ≤ count * entrySize :=
        Nat.mul_le_mul_right _ (List.mem_range.mp hi)
      rw [Nat.succ_mul] at hrow
      exact parseEntry_eq hlt (by omega)
    simp only [hentries]
    refine ite_mapError fun _ => ?_
    rw [index_eq (by omega) (by omega), Nat.add_sub_cancel_left]
    cases decodeParent (decide (leNat (slice buf 10 2) % 2 = 1)) (slice buf 16 32)
        ((List.range count).map (entryAt buf)) (leNat (slice buf 48 8) / pageSize) with
    | error e => rfl
    | ok parent =>
      simp only [Except.mapError]
      cases checkBlob (decide (leNat (slice buf 10 2) / 2 = 1))
          (slice buf (headerLen + count * entrySize) blobLen) blobLen (leNat (slice buf 80 8)) with
      | error e => rfl
      | ok => rfl

end Machine

/-! ## Exactness -/

/-- The decoder never panics, and it returns a manifest exactly on the canonical bytes of that
manifest, which is then well-formed.  So two containers of one manifest have the same bytes and
the same reference. -/
theorem codec_exact (b : ByteSlice) :
    Machine.decode b.bytes ≠ .error .panic ∧
      (∀ m, Machine.decode b.bytes = .ok m ↔ m.Fits ∧ m.Valid ∧ b.bytes = m.encode) ∧
      ∀ b' : ByteSlice, ∀ m, Machine.decode b.bytes = .ok m → Machine.decode b'.bytes = .ok m →
        b.bytes = b'.bytes ∧ snapshotRef b.bytes = snapshotRef b'.bytes := by
  have hok (c : ByteSlice) (m : Manifest) : Machine.decode c.bytes = .ok m ↔
      m.Fits ∧ m.Valid ∧ c.bytes = m.encode := by
    rw [Machine.decode_eq c.length_lt, ← decode_eq_ok_iff]
    cases Manifest.decode c.bytes <;> simp [Except.mapError]
  refine ⟨?_, hok b, ?_⟩
  · rw [Machine.decode_eq b.length_lt]
    cases Manifest.decode b.bytes <;> simp [Except.mapError]
  · intro b' m hb hb'
    have heq : b.bytes = b'.bytes := by
      rw [((hok b m).mp hb).2.2, ((hok b' m).mp hb').2.2]
    exact ⟨heq, by rw [heq]⟩

end Manifest

end SnapStore
