import SnapStore.Types

/-!
# The wire codec of the page channel

A datagram is a 24-byte header and a body.  Five kinds of messages; the pages themselves travel in
a memfd beside the datagram.
-/

namespace SnapStore.PageChannel

open Disk

def pcMagic : Nat := 0x50434831

def hdrSize : Nat := 24

def getReqSize : Nat := 40

def putOkSize : Nat := 40

def errPrefixSize : Nat := 8

def putBatchMaxPages : Nat := 8192

def getBatchMaxPerDatagram : Nat := 1500

def datagramMax : Nat := 64 * 1024

inductive MsgKind where
  | putBatch
  | putBatchOk
  | getBatch
  | getBatchData
  | error
deriving DecidableEq

def MsgKind.toNat : MsgKind → Nat
  | .putBatch => 1
  | .putBatchOk => 2
  | .getBatch => 3
  | .getBatchData => 4
  | .error => 5

def MsgKind.fromU16 : Nat → Option MsgKind
  | 1 => some .putBatch
  | 2 => some .putBatchOk
  | 3 => some .getBatch
  | 4 => some .getBatchData
  | 5 => some .error
  | _ => none

def MsgKind.debug : MsgKind → String
  | .putBatch => "PutBatch"
  | .putBatchOk => "PutBatchOk"
  | .getBatch => "GetBatch"
  | .getBatchData => "GetBatchData"
  | .error => "Error"

inductive ErrorCode where
  | notFound
  | invalid
  | overload
deriving DecidableEq

def ErrorCode.toNat : ErrorCode → Nat
  | .notFound => 1
  | .invalid => 2
  | .overload => 3

def ErrorCode.fromU32 : Nat → Option ErrorCode
  | 1 => some .notFound
  | 2 => some .invalid
  | 3 => some .overload
  | _ => none

structure PcHdr where
  msg : MsgKind
  flags : UInt16
  seq : UInt64
  count : UInt32
deriving DecidableEq

structure PutOkBody where
  pagesNew : UInt32
  pagesDeduped : UInt32
  batchBlake3 : Digest
deriving DecidableEq

structure GetReq where
  pageHash : PageHash
  dstSlot : UInt64
deriving DecidableEq

structure ErrBody where
  code : ErrorCode
  detail : String
deriving DecidableEq

inductive WireError where
  | truncated (len : Nat)
  | badMagic (magic : Nat)
  | unknownMsg (msg : Nat)
  | nonZeroFlags (flags : Nat)
  | nonZeroReserved (reserved : Nat)
  | countOutOfRange (ctx : String) (count : Nat)
  | bodyLenMismatch (expected got : Nat)
  | unknownErrorCode (code : Nat)
  | detailNotUtf8
  | detailTooLong (len : Nat)
deriving DecidableEq

def hex (b : Bytes) : String :=
  String.ofList (b.flatMap fun x => [Nat.digitChar (x.toNat / 16), Nat.digitChar (x.toNat % 16)])

/-- The format `{:#0w$x}` of an integer of `w` bytes. -/
def hexInt (w n : Nat) : String := "0x" ++ hex (leBytes w n).reverse

def WireError.toString : WireError → String
  | .truncated len => s!"datagram shorter than header ({len} bytes)"
  | .badMagic magic => s!"bad magic {hexInt 4 magic}"
  | .unknownMsg msg => s!"unknown msg kind {msg}"
  | .nonZeroFlags flags => s!"nonzero flags {hexInt 2 flags}"
  | .nonZeroReserved reserved => s!"nonzero reserved {hexInt 4 reserved}"
  | .countOutOfRange ctx count => s!"count {count} out of range for {ctx}"
  | .bodyLenMismatch expected got =>
    s!"body length {got} does not match header count (expected {expected})"
  | .unknownErrorCode code => s!"unknown error code {code}"
  | .detailNotUtf8 => "error detail is not valid UTF-8"
  | .detailTooLong len => s!"error detail length {len} exceeds datagram cap"

/-! ## Header -/

def putHdr (hdr : PcHdr) : Bytes :=
  leBytes 4 pcMagic ++ leBytes 2 hdr.msg.toNat ++ leBytes 2 hdr.flags.toNat ++
    leBytes 8 hdr.seq.toNat ++ leBytes 4 hdr.count.toNat ++ leBytes 4 0

def decodeHdr (datagram : Bytes) : Except WireError (PcHdr × Bytes) := do
  if datagram.length < hdrSize then
    throw (.truncated datagram.length)
  let magic := leNat (slice datagram 0 4)
  if magic ≠ pcMagic then
    throw (.badMagic magic)
  let msgRaw := leNat (slice datagram 4 2)
  let msg ← (MsgKind.fromU16 msgRaw).elim (throw (.unknownMsg msgRaw)) pure
  let flags := leNat (slice datagram 6 2)
  if flags ≠ 0 then
    throw (.nonZeroFlags flags)
  let seq := leNat (slice datagram 8 8)
  let count := leNat (slice datagram 16 4)
  let reserved := leNat (slice datagram 20 4)
  if reserved ≠ 0 then
    throw (.nonZeroReserved reserved)
  return (⟨msg, .ofNat flags, .ofNat seq, .ofNat count⟩, datagram.drop hdrSize)

/-! ## Messages -/

def encodePutBatch (seq : UInt64) (count : UInt32) : Bytes := putHdr ⟨.putBatch, 0, seq, count⟩

def encodePutBatchOk (seq : UInt64) (count : UInt32) (body : PutOkBody) : Bytes :=
  putHdr ⟨.putBatchOk, 0, seq, count⟩ ++ leBytes 4 body.pagesNew.toNat ++
    leBytes 4 body.pagesDeduped.toNat ++ body.batchBlake3.bytes

def encodeGetReq (r : GetReq) : Bytes := r.pageHash.bytes ++ leBytes 8 r.dstSlot.toNat

def encodeGetBatch (seq : UInt64) (reqs : List GetReq) : Bytes :=
  putHdr ⟨.getBatch, 0, seq, .ofNat reqs.length⟩ ++ reqs.flatMap encodeGetReq

def encodeGetBatchData (seq : UInt64) (reqs : List GetReq) : Bytes :=
  writeAt (encodeGetBatch seq reqs) 4 (leBytes 2 MsgKind.getBatchData.toNat)

def utf8 (s : String) : Bytes := s.toUTF8.data.toList

def encodeError (seq : UInt64) (code : ErrorCode) (detail : String) : Bytes :=
  putHdr ⟨.error, 0, seq, 0⟩ ++ leBytes 4 code.toNat ++ leBytes 4 (utf8 detail).length ++
    utf8 detail

def decodePutBatch (hdr : PcHdr) (body : Bytes) : Except WireError UInt32 := do
  if hdr.count.toNat = 0 ∨ hdr.count.toNat > putBatchMaxPages then
    throw (.countOutOfRange "PUT_BATCH" hdr.count.toNat)
  if body ≠ [] then
    throw (.bodyLenMismatch 0 body.length)
  return hdr.count

def decodePutBatchOk (body : Bytes) : Except WireError PutOkBody := do
  if body.length ≠ putOkSize then
    throw (.bodyLenMismatch putOkSize body.length)
  return ⟨.ofNat (leNat (slice body 0 4)), .ofNat (leNat (slice body 4 4)),
    Digest.ofBytes (slice body 8 32)⟩

/-- `as_chunks::<n>`: the whole chunks of `n` bytes. -/
def asChunks (n : Nat) (b : Bytes) : List Bytes :=
  (List.range (b.length / n)).map fun i => slice b (n * i) n

def decodeGetReqs (hdr : PcHdr) (body : Bytes) (ctx : String) :
    Except WireError (List GetReq) := do
  if hdr.count.toNat = 0 ∨ hdr.count.toNat > getBatchMaxPerDatagram then
    throw (.countOutOfRange ctx hdr.count.toNat)
  let expected := hdr.count.toNat * getReqSize
  if body.length ≠ expected then
    throw (.bodyLenMismatch expected body.length)
  return (asChunks getReqSize body).map fun chunk =>
    ⟨Digest.ofBytes (slice chunk 0 32), .ofNat (leNat (slice chunk 32 8))⟩

def decodeGetBatch (hdr : PcHdr) (body : Bytes) : Except WireError (List GetReq) :=
  decodeGetReqs hdr body "GET_BATCH"

def decodeGetBatchData (hdr : PcHdr) (body : Bytes) : Except WireError (List GetReq) :=
  decodeGetReqs hdr body "GET_BATCH_DATA"

def decodeError (body : Bytes) : Except WireError ErrBody := do
  if body.length < errPrefixSize then
    throw (.bodyLenMismatch errPrefixSize body.length)
  let codeRaw := leNat (slice body 0 4)
  let code ← (ErrorCode.fromU32 codeRaw).elim (throw (.unknownErrorCode codeRaw)) pure
  let detailLen := leNat (slice body 4 4)
  if detailLen > datagramMax - hdrSize - errPrefixSize then
    throw (.detailTooLong detailLen)
  let detailBytes := body.drop errPrefixSize
  if detailBytes.length ≠ detailLen then
    throw (.bodyLenMismatch (errPrefixSize + detailLen) body.length)
  match String.fromUTF8? ⟨⟨detailBytes⟩⟩ with
  | some detail => return ⟨code, detail⟩
  | none => throw .detailNotUtf8

def batchCrossCheck [Primitives] (hashes : List PageHash) : Digest :=
  blake3 (hashes.flatMap (·.bytes))

/-! ## Decoding what was encoded -/

@[simp] theorem length_putHdr (hdr : PcHdr) : (putHdr hdr).length = hdrSize := by
  simp [putHdr, hdrSize]

@[simp] theorem MsgKind.fromU16_toNat (k : MsgKind) : MsgKind.fromU16 k.toNat = some k := by
  cases k <;> rfl

@[simp] theorem ErrorCode.fromU32_toNat (c : ErrorCode) : ErrorCode.fromU32 c.toNat = some c := by
  cases c <;> rfl

theorem MsgKind.toNat_lt (k : MsgKind) : k.toNat < 256 ^ 2 := by
  cases k <;> decide

theorem ErrorCode.toNat_lt (c : ErrorCode) : c.toNat < 256 ^ 4 := by
  cases c <;> decide

theorem decodeHdr_putHdr (hdr : PcHdr) (hflags : hdr.flags = 0) (body : Bytes) :
    decodeHdr (putHdr hdr ++ body) = .ok (hdr, body) := by
  have hskip : ∀ {w n off m : Nat} (b : Bytes), w ≤ off →
      slice (leBytes w n ++ b) off m = slice b (off - w) m :=
    fun b h => slice_skip (length_leBytes _ _) h
  have hmagic : leNat (slice (putHdr hdr ++ body) 0 4) = pcMagic := by
    simp only [putHdr, List.append_assoc]
    exact leNat_field (by decide) _
  have hmsg : leNat (slice (putHdr hdr ++ body) 4 2) = hdr.msg.toNat := by
    simp only [putHdr, List.append_assoc]
    rw [hskip _ (by decide)]
    exact leNat_field hdr.msg.toNat_lt _
  have hfl : leNat (slice (putHdr hdr ++ body) 6 2) = hdr.flags.toNat := by
    simp only [putHdr, List.append_assoc]
    rw [hskip _ (by decide), hskip _ (by decide)]
    exact leNat_field hdr.flags.toNat_lt _
  have hseq : leNat (slice (putHdr hdr ++ body) 8 8) = hdr.seq.toNat := by
    simp only [putHdr, List.append_assoc]
    rw [hskip _ (by decide), hskip _ (by decide), hskip _ (by decide)]
    exact leNat_field hdr.seq.toNat_lt _
  have hcount : leNat (slice (putHdr hdr ++ body) 16 4) = hdr.count.toNat := by
    simp only [putHdr, List.append_assoc]
    rw [hskip _ (by decide), hskip _ (by decide), hskip _ (by decide), hskip _ (by decide)]
    exact leNat_field hdr.count.toNat_lt _
  have hres : leNat (slice (putHdr hdr ++ body) 20 4) = 0 := by
    simp only [putHdr, List.append_assoc]
    rw [hskip _ (by decide), hskip _ (by decide), hskip _ (by decide), hskip _ (by decide),
      hskip _ (by decide)]
    exact leNat_field (by decide) _
  have hdrop : (putHdr hdr ++ body).drop hdrSize = body := by
    rw [← length_putHdr hdr, List.drop_left]
  obtain ⟨msg, flags, seq, count⟩ := hdr
  simp only at hflags
  subst hflags
  simp [decodeHdr, hmagic, hmsg, hfl, hseq, hcount, hres, hdrop, bind, Except.bind, pure,
    Except.pure]

theorem decodeHdr_encodePutBatch (seq : UInt64) (count : UInt32) :
    decodeHdr (encodePutBatch seq count) = .ok (⟨.putBatch, 0, seq, count⟩, []) := by
  have h := decodeHdr_putHdr ⟨.putBatch, 0, seq, count⟩ rfl []
  rwa [List.append_nil] at h

theorem decodePutBatch_ok {hdr : PcHdr} (hpos : 0 < hdr.count.toNat)
    (hmax : hdr.count.toNat ≤ putBatchMaxPages) : decodePutBatch hdr [] = .ok hdr.count := by
  have hrange : ¬ (hdr.count.toNat = 0 ∨ hdr.count.toNat > putBatchMaxPages) := by omega
  simp [decodePutBatch, hrange, pure, Except.pure]

def putOkBytes (body : PutOkBody) : Bytes :=
  leBytes 4 body.pagesNew.toNat ++ leBytes 4 body.pagesDeduped.toNat ++ body.batchBlake3.bytes

theorem decodeHdr_encodePutBatchOk (seq : UInt64) (count : UInt32) (body : PutOkBody) :
    decodeHdr (encodePutBatchOk seq count body) =
      .ok (⟨.putBatchOk, 0, seq, count⟩, putOkBytes body) := by
  have h := decodeHdr_putHdr ⟨.putBatchOk, 0, seq, count⟩ rfl (putOkBytes body)
  simpa only [encodePutBatchOk, putOkBytes, List.append_assoc] using h

theorem decodePutBatchOk_putOkBytes (body : PutOkBody) :
    decodePutBatchOk (putOkBytes body) = .ok body := by
  have hlen : (putOkBytes body).length = putOkSize := by
    simp [putOkBytes, putOkSize, body.batchBlake3.length_bytes]
  have hnew : leNat (slice (putOkBytes body) 0 4) = body.pagesNew.toNat := by
    simp only [putOkBytes, List.append_assoc]
    exact leNat_field body.pagesNew.toNat_lt _
  have hold : leNat (slice (putOkBytes body) 4 4) = body.pagesDeduped.toNat := by
    simp only [putOkBytes, List.append_assoc]
    rw [slice_skip (length_leBytes _ _) (by decide)]
    exact leNat_field body.pagesDeduped.toNat_lt _
  have hcheck : slice (putOkBytes body) 8 32 = body.batchBlake3.bytes := by
    simp only [putOkBytes, List.append_assoc]
    rw [slice_skip (length_leBytes _ _) (by decide), slice_skip (length_leBytes _ _) (by decide)]
    exact slice_self body.batchBlake3.length_bytes
  simp [decodePutBatchOk, hlen, hnew, hold, hcheck, Digest.ofBytes_bytes, pure, Except.pure]

@[simp] theorem length_encodeGetReq (r : GetReq) : (encodeGetReq r).length = getReqSize := by
  simp [encodeGetReq, r.pageHash.length_bytes, getReqSize]

@[simp] theorem length_encodeGetReqs (reqs : List GetReq) :
    (reqs.flatMap encodeGetReq).length = reqs.length * getReqSize := by
  induction reqs with
  | nil => simp
  | cons r reqs ih =>
    rw [List.flatMap_cons, List.length_append, ih, length_encodeGetReq, List.length_cons,
      Nat.succ_mul]
    omega

theorem asChunks_flatMap {α : Type} {n : Nat} (hn : 0 < n) (f : α → Bytes) (l : List α)
    (hf : ∀ a, (f a).length = n) : asChunks n (l.flatMap f) = l.map f := by
  have hcount : ∀ l : List α, (l.flatMap f).length / n = l.length := by
    intro l
    have hlen : (l.flatMap f).length = n * l.length := by
      induction l with
      | nil => simp
      | cons a l ih =>
        rw [List.flatMap_cons, List.length_append, hf, ih, List.length_cons, Nat.mul_succ]
        omega
    rw [hlen]
    exact Nat.mul_div_cancel_left _ hn
  rw [asChunks, hcount]
  induction l with
  | nil => rfl
  | cons a l ih =>
    have htail : ∀ i, slice ((a :: l).flatMap f) (n * (i + 1)) n =
        slice (l.flatMap f) (n * i) n := by
      intro i
      rw [List.flatMap_cons, slice_skip (hf a) (by rw [Nat.mul_succ]; omega), Nat.mul_succ,
        Nat.add_sub_cancel]
    rw [List.length_cons, List.range_succ_eq_map, List.map_cons, List.map_map, List.map_cons, ← ih]
    congr 1
    · rw [Nat.mul_zero, List.flatMap_cons, slice_zero_append (hf a)]
    · exact List.map_congr_left fun i _ => htail i

theorem decodeGetReqs_ok {hdr : PcHdr} {reqs : List GetReq} (ctx : String)
    (hcount : hdr.count.toNat = reqs.length) (hpos : 0 < reqs.length)
    (hmax : reqs.length ≤ getBatchMaxPerDatagram) :
    decodeGetReqs hdr (reqs.flatMap encodeGetReq) ctx = .ok reqs := by
  have hrange : ¬ (reqs.length = 0 ∨ reqs.length > getBatchMaxPerDatagram) := by omega
  have hone : ∀ r : GetReq, (⟨Digest.ofBytes (slice (encodeGetReq r) 0 32),
      .ofNat (leNat (slice (encodeGetReq r) 32 8))⟩ : GetReq) = r := by
    intro r
    have hhash : slice (encodeGetReq r) 0 32 = r.pageHash.bytes :=
      slice_zero_append r.pageHash.length_bytes
    have hslot : leNat (slice (encodeGetReq r) 32 8) = r.dstSlot.toNat := by
      rw [encodeGetReq, slice_skip r.pageHash.length_bytes (by decide),
        slice_self (length_leBytes _ _), leNat_leBytes r.dstSlot.toNat_lt]
    rw [hhash, hslot, Digest.ofBytes_bytes, UInt64.ofNat_toNat]
  simp only [decodeGetReqs, hcount, hrange, length_encodeGetReqs,
    asChunks_flatMap (by decide : 0 < getReqSize) encodeGetReq reqs length_encodeGetReq,
    List.map_map, Function.comp_def, hone, List.map_id', ne_eq, not_true_eq_false, if_false]
  rfl

theorem decodeHdr_encodeGetBatch (seq : UInt64) (reqs : List GetReq) :
    decodeHdr (encodeGetBatch seq reqs) =
      .ok (⟨.getBatch, 0, seq, .ofNat reqs.length⟩, reqs.flatMap encodeGetReq) :=
  decodeHdr_putHdr _ rfl _

theorem encodeGetBatchData_eq (seq : UInt64) (reqs : List GetReq) : encodeGetBatchData seq reqs =
    putHdr ⟨.getBatchData, 0, seq, .ofNat reqs.length⟩ ++ reqs.flatMap encodeGetReq := by
  simp [encodeGetBatchData, encodeGetBatch, writeAt, padTo, putHdr, leBytes]

theorem decodeHdr_encodeGetBatchData (seq : UInt64) (reqs : List GetReq) :
    decodeHdr (encodeGetBatchData seq reqs) =
      .ok (⟨.getBatchData, 0, seq, .ofNat reqs.length⟩, reqs.flatMap encodeGetReq) := by
  rw [encodeGetBatchData_eq]
  exact decodeHdr_putHdr _ rfl _

def errBytes (body : ErrBody) : Bytes :=
  leBytes 4 body.code.toNat ++ leBytes 4 (utf8 body.detail).length ++ utf8 body.detail

theorem decodeHdr_encodeError (seq : UInt64) (code : ErrorCode) (detail : String) :
    decodeHdr (encodeError seq code detail) =
      .ok (⟨.error, 0, seq, 0⟩, errBytes ⟨code, detail⟩) := by
  have h := decodeHdr_putHdr ⟨.error, 0, seq, 0⟩ rfl (errBytes ⟨code, detail⟩)
  simpa only [encodeError, errBytes, List.append_assoc] using h

theorem fromUTF8_utf8 (s : String) : String.fromUTF8? ⟨⟨utf8 s⟩⟩ = some s := by
  have hbytes : (⟨⟨utf8 s⟩⟩ : ByteArray) = s.toUTF8 := rfl
  rw [hbytes, String.fromUTF8?]
  exact dif_pos s.isValidUTF8

theorem decodeError_errBytes {body : ErrBody}
    (hmax : (utf8 body.detail).length ≤ datagramMax - hdrSize - errPrefixSize) :
    decodeError (errBytes body) = .ok body := by
  have hlen : ¬ (errBytes body).length < errPrefixSize := by
    simp only [errBytes, List.length_append, length_leBytes, errPrefixSize]
    omega
  have hcode : leNat (slice (errBytes body) 0 4) = body.code.toNat := by
    simp only [errBytes, List.append_assoc]
    exact leNat_field body.code.toNat_lt _
  have hdetail : leNat (slice (errBytes body) 4 4) = (utf8 body.detail).length := by
    simp only [errBytes, List.append_assoc]
    rw [slice_skip (length_leBytes _ _) (by decide)]
    refine leNat_field (lt_of_le_of_lt hmax (by decide)) _
  have hdrop : (errBytes body).drop errPrefixSize = utf8 body.detail := by
    rw [errBytes, List.drop_append_of_le_length (by simp [errPrefixSize])]
    simp [errPrefixSize]
  simp only [decodeError, hlen, hcode, hdetail, hdrop, ErrorCode.fromU32_toNat, not_lt.mpr hmax,
    fromUTF8_utf8, ne_eq, not_true_eq_false, if_false]
  rfl

end SnapStore.PageChannel
