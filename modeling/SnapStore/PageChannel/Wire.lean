import SnapStore.Checked
import SnapStore.PageChannel.Proto

/-!
# The wire codec is exact

Each decoder accepts exactly the bytes that the encoder of its kind writes.  An error datagram is
the exception: its header has a count that no decoder looks at.  The decoders are run here with
their slices, conversions and assertions.
-/

namespace SnapStore.PageChannel

open Disk

/-! ## Accepted bytes -/

theorem leBytes_field {b : Bytes} {off n : Nat} (h : off + n ≤ b.length) :
    leBytes n (leNat (slice b off n)) = slice b off n := by
  apply leBytes_leNat
  rw [length_slice]
  omega

theorem MsgKind.toNat_of_fromU16 {n : Nat} {k : MsgKind} (h : MsgKind.fromU16 n = some k) :
    k.toNat = n := by
  unfold MsgKind.fromU16 at h
  split at h <;> cases h <;> rfl

theorem ErrorCode.toNat_of_fromU32 {n : Nat} {c : ErrorCode} (h : ErrorCode.fromU32 n = some c) :
    c.toNat = n := by
  unfold ErrorCode.fromU32 at h
  split at h <;> cases h <;> rfl

theorem take_hdrSize {b : Bytes} (hlen : hdrSize ≤ b.length) :
    b.take hdrSize = leBytes 4 (leNat (slice b 0 4)) ++ leBytes 2 (leNat (slice b 4 2)) ++
      leBytes 2 (leNat (slice b 6 2)) ++ leBytes 8 (leNat (slice b 8 8)) ++
      leBytes 4 (leNat (slice b 16 4)) ++ leBytes 4 (leNat (slice b 20 4)) := by
  have hsize : hdrSize = 24 := rfl
  rw [leBytes_field (by omega), leBytes_field (by omega), leBytes_field (by omega),
    leBytes_field (by omega), leBytes_field (by omega), leBytes_field (by omega)]
  have hzero : slice b 0 4 = b.take 4 := rfl
  rw [hzero, ← take_add_slice, ← take_add_slice, ← take_add_slice, ← take_add_slice,
    ← take_add_slice]
  rfl

theorem decodeHdr_eq_ok_iff {b body : Bytes} {hdr : PcHdr} :
    decodeHdr b = .ok (hdr, body) ↔ hdr.flags = 0 ∧ b = putHdr hdr ++ body := by
  constructor
  · intro h
    unfold decodeHdr at h
    simp only [bind, Except.bind, pure, Except.pure, throw, throwThe, MonadExceptOf.throw,
      ite_error_eq_ok, not_not] at h
    obtain ⟨hlen, hmagic, h⟩ := h
    cases hmsg : MsgKind.fromU16 (leNat (slice b 4 2)) with
    | none =>
      rw [hmsg] at h
      cases h
    | some msg =>
      simp only [hmsg, Option.elim, Except.pure, ite_error_eq_ok, not_not] at h
      obtain ⟨hflags, hreserved, h⟩ := h
      cases h
      have hseq : leNat (slice b 8 8) < 2 ^ 64 := leNat_slice_lt _ _ _
      have hcount : leNat (slice b 16 4) < 2 ^ 32 := leNat_slice_lt _ _ _
      refine ⟨by rw [hflags]; rfl, ?_⟩
      rw [putHdr, MsgKind.toNat_of_fromU16 hmsg, UInt64.toNat_ofNat_of_lt' hseq,
        UInt32.toNat_ofNat_of_lt' hcount, hflags]
      have htake := take_hdrSize (Nat.not_lt.mp hlen)
      rw [hmagic, hflags, hreserved] at htake
      exact (List.take_append_drop hdrSize b).symm.trans (congrArg (· ++ _) htake)
  · rintro ⟨hflags, hb⟩
    rw [hb]
    exact decodeHdr_putHdr hdr hflags body

theorem decodePutBatch_eq_ok_iff {hdr : PcHdr} {body : Bytes} {n : UInt32} :
    decodePutBatch hdr body = .ok n ↔
      (0 < n.toNat ∧ n.toNat ≤ putBatchMaxPages) ∧ hdr.count = n ∧ body = [] := by
  constructor
  · intro h
    unfold decodePutBatch at h
    simp only [bind, Except.bind, pure, Except.pure, throw, throwThe, MonadExceptOf.throw,
      ite_error_eq_ok, not_not] at h
    obtain ⟨hrange, hbody, h⟩ := h
    cases h
    exact ⟨by omega, rfl, hbody⟩
  · rintro ⟨hrange, rfl, rfl⟩
    exact decodePutBatch_ok hrange.1 hrange.2

theorem decodePutBatchOk_eq_ok_iff {body : Bytes} {x : PutOkBody} :
    decodePutBatchOk body = .ok x ↔ body = putOkBytes x := by
  constructor
  · intro h
    unfold decodePutBatchOk at h
    simp only [bind, Except.bind, pure, Except.pure, throw, throwThe, MonadExceptOf.throw,
      ite_error_eq_ok, not_not] at h
    obtain ⟨hlen, h⟩ := h
    cases h
    have hsize : putOkSize = 40 := rfl
    have hnew : leNat (slice body 0 4) < 2 ^ 32 := leNat_slice_lt _ _ _
    have hold : leNat (slice body 4 4) < 2 ^ 32 := leNat_slice_lt _ _ _
    have hcheck : (slice body 8 32).length = 32 := by
      rw [length_slice]
      omega
    have hzero : slice body 0 4 = body.take 4 := rfl
    rw [putOkBytes, UInt32.toNat_ofNat_of_lt' hnew, UInt32.toNat_ofNat_of_lt' hold,
      leBytes_field (by omega), leBytes_field (by omega), Digest.bytes_ofBytes hcheck, hzero,
      ← take_add_slice, ← take_add_slice, List.take_of_length_le (by omega)]
  · rintro rfl
    exact decodePutBatchOk_putOkBytes x

theorem flatMap_asChunks {n k : Nat} {b : Bytes} (hn : 0 < n) (h : b.length = k * n) :
    (asChunks n b).flatMap id = b := by
  have hcount : b.length / n = k := by rw [h, Nat.mul_div_cancel _ hn]
  have hfirst : ∀ m, (List.range m).flatMap (fun i => slice b (n * i) n) = b.take (n * m) := by
    intro m
    induction m with
    | zero => rw [Nat.mul_zero, List.take_zero]; rfl
    | succ m ih =>
      rw [List.range_succ, List.flatMap_append, ih, List.flatMap_singleton, ← take_add_slice]
      rfl
  rw [asChunks, List.flatMap_map, hcount]
  exact (hfirst k).trans (List.take_of_length_le (by rw [h, Nat.mul_comm]))

def getReqOf (chunk : Bytes) : GetReq :=
  ⟨Digest.ofBytes (slice chunk 0 32), .ofNat (leNat (slice chunk 32 8))⟩

theorem encodeGetReq_getReqOf {chunk : Bytes} (h : chunk.length = getReqSize) :
    encodeGetReq (getReqOf chunk) = chunk := by
  have hsize : getReqSize = 40 := rfl
  have hhash : (slice chunk 0 32).length = 32 := by
    rw [length_slice]
    omega
  have hslot : leNat (slice chunk 32 8) < 2 ^ 64 := leNat_slice_lt _ _ _
  have hzero : slice chunk 0 32 = chunk.take 32 := rfl
  rw [encodeGetReq, getReqOf, Digest.bytes_ofBytes hhash, UInt64.toNat_ofNat_of_lt' hslot,
    leBytes_field (by omega), hzero, ← take_add_slice, List.take_of_length_le (by omega)]

theorem length_of_mem_asChunks {n : Nat} {b chunk : Bytes} (h : chunk ∈ asChunks n b) :
    chunk.length = n := by
  obtain ⟨i, hi, rfl⟩ := List.mem_map.mp h
  have hle : n * (i + 1) ≤ b.length :=
    (Nat.mul_le_mul_left n (List.mem_range.mp hi)).trans (Nat.mul_div_le b.length n)
  rw [Nat.mul_succ] at hle
  rw [length_slice]
  omega

theorem decodeGetReqs_eq_ok_iff {hdr : PcHdr} {body : Bytes} {ctx : String} {reqs : List GetReq} :
    decodeGetReqs hdr body ctx = .ok reqs ↔
      (0 < reqs.length ∧ reqs.length ≤ getBatchMaxPerDatagram) ∧
        hdr.count.toNat = reqs.length ∧ body = reqs.flatMap encodeGetReq := by
  constructor
  · intro h
    unfold decodeGetReqs at h
    simp only [bind, Except.bind, pure, Except.pure, throw, throwThe, MonadExceptOf.throw,
      ite_error_eq_ok, not_not] at h
    obtain ⟨hrange, hlen, h⟩ := h
    cases h
    have hcount : (asChunks getReqSize body).length = hdr.count.toNat := by
      rw [asChunks, List.length_map, List.length_range, hlen, Nat.mul_div_cancel _ (by decide)]
    rw [List.length_map, hcount, List.flatMap_map]
    refine ⟨by omega, rfl, ?_⟩
    have hsame : (asChunks getReqSize body).flatMap (fun c => encodeGetReq (getReqOf c)) =
        (asChunks getReqSize body).flatMap id :=
      List.flatMap_congr fun c hc => encodeGetReq_getReqOf (length_of_mem_asChunks hc)
    exact (flatMap_asChunks (by decide) hlen).symm.trans hsame.symm
  · rintro ⟨hrange, hcount, rfl⟩
    exact decodeGetReqs_ok ctx hcount hrange.1 hrange.2

theorem utf8_of_fromUTF8 {d : Bytes} {s : String} (h : String.fromUTF8? ⟨⟨d⟩⟩ = some s) :
    utf8 s = d := by
  rw [String.fromUTF8?] at h
  split at h
  · cases h
    rfl
  · cases h

theorem decodeError_eq_ok_iff {body : Bytes} {x : ErrBody} : decodeError body = .ok x ↔
    (utf8 x.detail).length ≤ datagramMax - hdrSize - errPrefixSize ∧ body = errBytes x := by
  constructor
  · intro h
    unfold decodeError at h
    simp only [bind, Except.bind, pure, Except.pure, throw, throwThe, MonadExceptOf.throw,
      ite_error_eq_ok, not_not] at h
    obtain ⟨hlen, h⟩ := h
    cases hcode : ErrorCode.fromU32 (leNat (slice body 0 4)) with
    | none =>
      rw [hcode] at h
      cases h
    | some code =>
      simp only [hcode, Option.elim, Except.pure, ite_error_eq_ok, not_not] at h
      obtain ⟨hmax, hdetail, h⟩ := h
      split at h
      · rename_i detail hutf
        cases h
        have hsize : errPrefixSize = 8 := rfl
        have hzero : slice body 0 4 = body.take 4 := rfl
        refine ⟨by rw [utf8_of_fromUTF8 hutf]; omega, ?_⟩
        rw [errBytes, ErrorCode.toNat_of_fromU32 hcode, utf8_of_fromUTF8 hutf, hdetail,
          leBytes_field (by omega), leBytes_field (by omega), hzero, ← take_add_slice]
        exact (List.take_append_drop 8 body).symm
      · cases h
  · rintro ⟨hmax, hbody⟩
    rw [hbody]
    exact decodeError_errBytes hmax

/-! ## The codec with its slices, conversions and assertions -/

inductive Message where
  | putBatch (count : UInt32)
  | putBatchOk (count : UInt32) (body : PutOkBody)
  | getBatch (reqs : List GetReq)
  | getBatchData (reqs : List GetReq)
  | error (body : ErrBody)

namespace Message

def header (seq : UInt64) : Message → PcHdr
  | .putBatch count => ⟨.putBatch, 0, seq, count⟩
  | .putBatchOk count _ => ⟨.putBatchOk, 0, seq, count⟩
  | .getBatch reqs => ⟨.getBatch, 0, seq, .ofNat reqs.length⟩
  | .getBatchData reqs => ⟨.getBatchData, 0, seq, .ofNat reqs.length⟩
  | .error _ => ⟨.error, 0, seq, 0⟩

def body : Message → Bytes
  | .putBatch _ => []
  | .putBatchOk _ x => putOkBytes x
  | .getBatch reqs | .getBatchData reqs => reqs.flatMap encodeGetReq
  | .error x => errBytes x

def WithinLimits : Message → Prop
  | .putBatch count => 0 < count.toNat ∧ count.toNat ≤ putBatchMaxPages
  | .putBatchOk _ _ => True
  | .getBatch reqs | .getBatchData reqs =>
    0 < reqs.length ∧ reqs.length ≤ getBatchMaxPerDatagram
  | .error body => hdrSize + errPrefixSize + (utf8 body.detail).length ≤ datagramMax

end Message

namespace Machine

open Checked

def decodeHdr (datagram : Bytes) : Except (Halt WireError) (PcHdr × Bytes) := do
  if datagram.length < hdrSize then throw (.error (.truncated datagram.length))
  let magic ← uintAt 4 datagram 0 4
  if magic ≠ pcMagic then throw (.error (.badMagic magic))
  let msgRaw ← uintAt 2 datagram 4 6
  let msg ← (MsgKind.fromU16 msgRaw).elim (throw (.error (.unknownMsg msgRaw))) pure
  let flags ← uintAt 2 datagram 6 8
  if flags ≠ 0 then throw (.error (.nonZeroFlags flags))
  let seq ← uintAt 8 datagram 8 16
  let count ← uintAt 4 datagram 16 20
  let reserved ← uintAt 4 datagram 20 24
  if reserved ≠ 0 then throw (.error (.nonZeroReserved reserved))
  let body ← index datagram hdrSize datagram.length
  return (⟨msg, .ofNat flags, .ofNat seq, .ofNat count⟩, body)

def decodePutBatch (debug : Bool) (hdr : PcHdr) (body : Bytes) :
    Except (Halt WireError) UInt32 := do
  debugAssert debug (hdr.msg = .putBatch)
  if hdr.count.toNat = 0 ∨ hdr.count.toNat > putBatchMaxPages then
    throw (.error (.countOutOfRange "PUT_BATCH" hdr.count.toNat))
  if body ≠ [] then throw (.error (.bodyLenMismatch 0 body.length))
  return hdr.count

def decodePutBatchOk (debug : Bool) (hdr : PcHdr) (body : Bytes) :
    Except (Halt WireError) PutOkBody := do
  debugAssert debug (hdr.msg = .putBatchOk)
  if body.length ≠ putOkSize then throw (.error (.bodyLenMismatch putOkSize body.length))
  let pagesNew ← uintAt 4 body 0 4
  let pagesDeduped ← uintAt 4 body 4 8
  let check ← index body 8 40
  let check ← toArray 32 check
  return ⟨.ofNat pagesNew, .ofNat pagesDeduped, Digest.ofBytes check⟩

def decodeGetReq (chunk : Bytes) : Except (Halt WireError) GetReq := do
  let hash ← index chunk 0 32
  let hash ← toArray 32 hash
  let slot ← uintAt 8 chunk 32 40
  return ⟨Digest.ofBytes hash, .ofNat slot⟩

def decodeGetReqs (hdr : PcHdr) (body : Bytes) (ctx : String) :
    Except (Halt WireError) (List GetReq) := do
  if hdr.count.toNat = 0 ∨ hdr.count.toNat > getBatchMaxPerDatagram then
    throw (.error (.countOutOfRange ctx hdr.count.toNat))
  let expected ← usize (hdr.count.toNat * getReqSize)
  if body.length ≠ expected then throw (.error (.bodyLenMismatch expected body.length))
  withCapacity hdr.count.toNat getReqSize
  (asChunks getReqSize body).mapM decodeGetReq

def decodeGetBatch (debug : Bool) (hdr : PcHdr) (body : Bytes) :
    Except (Halt WireError) (List GetReq) := do
  debugAssert debug (hdr.msg = .getBatch)
  decodeGetReqs hdr body "GET_BATCH"

def decodeGetBatchData (debug : Bool) (hdr : PcHdr) (body : Bytes) :
    Except (Halt WireError) (List GetReq) := do
  debugAssert debug (hdr.msg = .getBatchData)
  decodeGetReqs hdr body "GET_BATCH_DATA"

def decodeError (debug : Bool) (hdr : PcHdr) (body : Bytes) :
    Except (Halt WireError) ErrBody := do
  debugAssert debug (hdr.msg = .error)
  if body.length < errPrefixSize then
    throw (.error (.bodyLenMismatch errPrefixSize body.length))
  let codeRaw ← uintAt 4 body 0 4
  let code ← (ErrorCode.fromU32 codeRaw).elim (throw (.error (.unknownErrorCode codeRaw))) pure
  let detailLen ← uintAt 4 body 4 8
  if detailLen > datagramMax - hdrSize - errPrefixSize then
    throw (.error (.detailTooLong detailLen))
  let detailBytes ← index body errPrefixSize body.length
  if detailBytes.length ≠ detailLen then
    let expected ← usize (errPrefixSize + detailLen)
    throw (.error (.bodyLenMismatch expected body.length))
  match String.fromUTF8? ⟨⟨detailBytes⟩⟩ with
  | some detail => return ⟨code, detail⟩
  | none => throw (.error .detailNotUtf8)

def decodeBody (debug : Bool) (hdr : PcHdr) (body : Bytes) : Except (Halt WireError) Message :=
  match hdr.msg with
  | .putBatch => (decodePutBatch debug hdr body).map .putBatch
  | .putBatchOk => (decodePutBatchOk debug hdr body).map (.putBatchOk hdr.count)
  | .getBatch => (decodeGetBatch debug hdr body).map .getBatch
  | .getBatchData => (decodeGetBatchData debug hdr body).map .getBatchData
  | .error => (decodeError debug hdr body).map .error

/-- `decode_hdr`, then the body decoder of the kind. -/
def decode (debug : Bool) (datagram : Bytes) : Except (Halt WireError) (PcHdr × Message) := do
  let (hdr, body) ← decodeHdr datagram
  let message ← decodeBody debug hdr body
  return (hdr, message)

def encode (debug : Bool) (seq : UInt64) : Message → Except (Halt WireError) Bytes
  | .putBatch count => .ok (encodePutBatch seq count)
  | .putBatchOk count body => .ok (encodePutBatchOk seq count body)
  | .getBatch reqs => do
    debugAssert debug (reqs.length ≤ getBatchMaxPerDatagram)
    return encodeGetBatch seq reqs
  | .getBatchData reqs => do
    debugAssert debug (reqs.length ≤ getBatchMaxPerDatagram)
    return encodeGetBatchData seq reqs
  | .error body => do
    debugAssert debug (hdrSize + errPrefixSize + (utf8 body.detail).length ≤ datagramMax)
    return encodeError seq body.code body.detail

/-! ## No decoder panics -/

theorem decodeHdr_eq (b : Bytes) : decodeHdr b = (PageChannel.decodeHdr b).mapError .error := by
  have hsize : hdrSize = 24 := rfl
  unfold decodeHdr PageChannel.decodeHdr
  simp only [bind, Except.bind, pure, Except.pure, throw, throwThe, MonadExceptOf.throw]
  refine ite_mapError fun hlen => ?_
  simp only [uintAt_eq (rfl : 0 + 4 = 4) (by omega : 4 ≤ b.length),
    uintAt_eq (rfl : 4 + 2 = 6) (by omega : 6 ≤ b.length),
    uintAt_eq (rfl : 6 + 2 = 8) (by omega : 8 ≤ b.length),
    uintAt_eq (rfl : 8 + 8 = 16) (by omega : 16 ≤ b.length),
    uintAt_eq (rfl : 16 + 4 = 20) (by omega : 20 ≤ b.length),
    uintAt_eq (rfl : 20 + 4 = 24) (by omega : 24 ≤ b.length),
    index_suffix (by omega : hdrSize ≤ b.length)]
  refine ite_mapError fun _ => ?_
  cases MsgKind.fromU16 (leNat (slice b 4 2)) with
  | none => rfl
  | some msg => exact ite_mapError fun _ => ite_mapError fun _ => rfl

variable {debug : Bool} {hdr : PcHdr} {body : Bytes}

theorem decodePutBatch_eq (h : debug = true → hdr.msg = .putBatch) :
    decodePutBatch debug hdr body = (PageChannel.decodePutBatch hdr body).mapError .error := by
  unfold decodePutBatch PageChannel.decodePutBatch
  simp only [debugAssert_eq h, bind, Except.bind, pure, Except.pure, throw, throwThe,
    MonadExceptOf.throw]
  exact ite_mapError fun _ => ite_mapError fun _ => rfl

theorem decodePutBatchOk_eq (h : debug = true → hdr.msg = .putBatchOk) :
    decodePutBatchOk debug hdr body = (PageChannel.decodePutBatchOk body).mapError .error := by
  have hsize : putOkSize = 40 := rfl
  unfold decodePutBatchOk PageChannel.decodePutBatchOk
  simp only [debugAssert_eq h, bind, Except.bind, pure, Except.pure, throw, throwThe,
    MonadExceptOf.throw]
  refine ite_mapError fun hlen => ?_
  have hcheck : (slice body 8 (40 - 8)).length = 32 := by
    rw [length_slice]
    omega
  simp only [uintAt_eq (rfl : 0 + 4 = 4) (by omega : 4 ≤ body.length),
    uintAt_eq (rfl : 4 + 4 = 8) (by omega : 8 ≤ body.length),
    index_eq (by omega : 8 ≤ 40) (by omega : 40 ≤ body.length), toArray_eq hcheck]
  rfl

theorem decodeGetReq_eq {chunk : Bytes} (h : chunk.length = getReqSize) :
    decodeGetReq chunk = .ok (getReqOf chunk) := by
  have hsize : getReqSize = 40 := rfl
  have hhash : (slice chunk 0 (32 - 0)).length = 32 := by
    rw [length_slice]
    omega
  simp only [decodeGetReq, index_eq (by omega : 0 ≤ 32) (by omega : 32 ≤ chunk.length),
    toArray_eq hhash, uintAt_eq (rfl : 32 + 8 = 40) (by omega : 40 ≤ chunk.length), bind,
    Except.bind, pure, Except.pure]
  rfl

theorem decodeGetReqs_eq (ctx : String) :
    decodeGetReqs hdr body ctx = (PageChannel.decodeGetReqs hdr body ctx).mapError .error := by
  have hsize : getReqSize = 40 := rfl
  have hmax : getBatchMaxPerDatagram = 1500 := rfl
  unfold decodeGetReqs PageChannel.decodeGetReqs
  simp only [bind, Except.bind, pure, Except.pure, throw, throwThe, MonadExceptOf.throw]
  refine ite_mapError fun hrange => ?_
  have hfits : hdr.count.toNat * getReqSize < isizeBound := by
    rw [isizeBound, hsize]
    omega
  rw [usize_eq (hfits.trans (by decide))]
  refine ite_mapError fun _ => ?_
  rw [withCapacity_eq hfits]
  exact mapM_eq_ok fun chunk hc => decodeGetReq_eq (length_of_mem_asChunks hc)

theorem decodeGetBatch_eq (h : debug = true → hdr.msg = .getBatch) :
    decodeGetBatch debug hdr body = (PageChannel.decodeGetBatch hdr body).mapError .error := by
  rw [decodeGetBatch, debugAssert_eq h]
  exact decodeGetReqs_eq "GET_BATCH"

theorem decodeGetBatchData_eq (h : debug = true → hdr.msg = .getBatchData) :
    decodeGetBatchData debug hdr body =
      (PageChannel.decodeGetBatchData hdr body).mapError .error := by
  rw [decodeGetBatchData, debugAssert_eq h]
  exact decodeGetReqs_eq "GET_BATCH_DATA"

theorem decodeError_eq (h : debug = true → hdr.msg = .error) :
    decodeError debug hdr body = (PageChannel.decodeError body).mapError .error := by
  have hsize : errPrefixSize = 8 := rfl
  have hmax : datagramMax - hdrSize - errPrefixSize = 65504 := rfl
  unfold decodeError PageChannel.decodeError
  simp only [debugAssert_eq h, bind, Except.bind, pure, Except.pure, throw, throwThe,
    MonadExceptOf.throw]
  refine ite_mapError fun hlen => ?_
  simp only [uintAt_eq (rfl : 0 + 4 = 4) (by omega : 4 ≤ body.length),
    uintAt_eq (rfl : 4 + 4 = 8) (by omega : 8 ≤ body.length),
    index_suffix (by omega : errPrefixSize ≤ body.length)]
  cases ErrorCode.fromU32 (leNat (slice body 0 4)) with
  | none => rfl
  | some code =>
    refine ite_mapError fun hdetail => ?_
    rw [usize_eq (by rw [usizeBound]; omega)]
    refine ite_mapError fun _ => ?_
    cases String.fromUTF8? ⟨⟨body.drop errPrefixSize⟩⟩ with
    | none => rfl
    | some detail => rfl

/-! ## Both directions -/

variable {b : Bytes} {m : Message} {seq : UInt64}

theorem encode_eq (h : m.WithinLimits) :
    encode debug seq m = .ok (putHdr (m.header seq) ++ m.body) := by
  cases m with
  | putBatch count => exact congrArg Except.ok (List.append_nil _).symm
  | putBatchOk count x =>
    rw [encode, encodePutBatchOk, List.append_assoc, List.append_assoc]
    simp only [Message.body, Message.header, putOkBytes, List.append_assoc]
  | getBatch reqs =>
    rw [encode, debugAssert_eq fun _ => h.2]
    rfl
  | getBatchData reqs =>
    rw [encode, debugAssert_eq fun _ => h.2, encodeGetBatchData_eq]
    rfl
  | error x =>
    have hfits : hdrSize + errPrefixSize + (utf8 x.detail).length ≤ datagramMax := h
    rw [encode, debugAssert_eq fun _ => hfits, encodeError]
    simp only [Message.body, Message.header, errBytes, List.append_assoc]
    rfl

theorem count_header {reqs : List GetReq} (h : reqs.length ≤ getBatchMaxPerDatagram) :
    (UInt32.ofNat reqs.length).toNat = reqs.length :=
  UInt32.toNat_ofNat_of_lt' (h.trans_lt (by decide))

theorem decodeBody_header (h : m.WithinLimits) :
    decodeBody debug (m.header seq) m.body = .ok m := by
  cases m with
  | putBatch count =>
    have hread : PageChannel.decodePutBatch ⟨.putBatch, 0, seq, count⟩ [] = .ok count :=
      decodePutBatch_eq_ok_iff.mpr ⟨h, rfl, rfl⟩
    simp only [decodeBody, Message.header, Message.body]
    rw [decodePutBatch_eq, hread]
    · rfl
    · exact fun _ => rfl
  | putBatchOk count x =>
    simp only [decodeBody, Message.header, Message.body]
    rw [decodePutBatchOk_eq, decodePutBatchOk_putOkBytes]
    · rfl
    · exact fun _ => rfl
  | getBatch reqs =>
    have hread : PageChannel.decodeGetBatch ⟨.getBatch, 0, seq, .ofNat reqs.length⟩
        (reqs.flatMap encodeGetReq) = .ok reqs :=
      decodeGetReqs_eq_ok_iff.mpr ⟨h, count_header h.2, rfl⟩
    simp only [decodeBody, Message.header, Message.body]
    rw [decodeGetBatch_eq, hread]
    · rfl
    · exact fun _ => rfl
  | getBatchData reqs =>
    have hread : PageChannel.decodeGetBatchData ⟨.getBatchData, 0, seq, .ofNat reqs.length⟩
        (reqs.flatMap encodeGetReq) = .ok reqs :=
      decodeGetReqs_eq_ok_iff.mpr ⟨h, count_header h.2, rfl⟩
    simp only [decodeBody, Message.header, Message.body]
    rw [decodeGetBatchData_eq, hread]
    · rfl
    · exact fun _ => rfl
  | error x =>
    have hfits : hdrSize + errPrefixSize + (utf8 x.detail).length ≤ datagramMax := h
    have hread : PageChannel.decodeError (errBytes x) = .ok x :=
      decodeError_eq_ok_iff.mpr ⟨by omega, rfl⟩
    simp only [decodeBody, Message.header, Message.body]
    rw [decodeError_eq, hread]
    · rfl
    · exact fun _ => rfl

theorem map_eq_ok {α β : Type} {x : Except (Halt WireError) α} {f : α → β} {y : β} :
    x.map f = .ok y ↔ ∃ a, x = .ok a ∧ f a = y := by
  cases x <;> simp [Except.map]

theorem header_of_decodeGetReqs {k : MsgKind} {ctx : String} {reqs : List GetReq}
    (hdr : PcHdr) (hmsg : hdr.msg = k) (hflags : hdr.flags = 0)
    (h : PageChannel.decodeGetReqs hdr body ctx = .ok reqs) :
    hdr = ⟨k, 0, hdr.seq, .ofNat reqs.length⟩ ∧ body = reqs.flatMap encodeGetReq ∧
      0 < reqs.length ∧ reqs.length ≤ getBatchMaxPerDatagram := by
  obtain ⟨hrange, hcount, hbody⟩ := decodeGetReqs_eq_ok_iff.mp h
  refine ⟨?_, hbody, hrange⟩
  obtain ⟨msg, flags, seq, count⟩ := hdr
  have hofNat : UInt32.ofNat reqs.length = count := by
    rw [← hcount]
    exact UInt32.ofNat_toNat
  simp only at hmsg hflags
  rw [hmsg, hflags, hofNat]

theorem header_of_decodeBody (hflags : hdr.flags = 0) (hm : ∀ x, m ≠ .error x)
    (h : decodeBody debug hdr body = .ok m) :
    hdr = m.header hdr.seq ∧ body = m.body ∧ m.WithinLimits := by
  unfold decodeBody at h
  split at h
  · rename_i hmsg
    rw [decodePutBatch_eq fun _ => hmsg] at h
    obtain ⟨n, hn, rfl⟩ := map_eq_ok.mp h
    obtain ⟨hrange, hcount, hbody⟩ := decodePutBatch_eq_ok_iff.mp (mapError_eq_ok.mp hn)
    refine ⟨?_, hbody, hrange⟩
    rw [Message.header, ← hmsg, ← hflags, ← hcount]
  · rename_i hmsg
    rw [decodePutBatchOk_eq fun _ => hmsg] at h
    obtain ⟨x, hx, rfl⟩ := map_eq_ok.mp h
    have hbody := decodePutBatchOk_eq_ok_iff.mp (mapError_eq_ok.mp hx)
    refine ⟨?_, hbody, trivial⟩
    rw [Message.header, ← hmsg, ← hflags]
  · rename_i hmsg
    rw [decodeGetBatch_eq fun _ => hmsg] at h
    obtain ⟨reqs, hreqs, rfl⟩ := map_eq_ok.mp h
    exact header_of_decodeGetReqs hdr hmsg hflags (mapError_eq_ok.mp hreqs)
  · rename_i hmsg
    rw [decodeGetBatchData_eq fun _ => hmsg] at h
    obtain ⟨reqs, hreqs, rfl⟩ := map_eq_ok.mp h
    exact header_of_decodeGetReqs hdr hmsg hflags (mapError_eq_ok.mp hreqs)
  · obtain ⟨x, -, rfl⟩ := map_eq_ok.mp h
    exact absurd rfl (hm x)

end Machine

open Checked in
/-- Every message within the limits of the protocol is read back with its header; what a decoder
accepts, other than an error, is the encoding of what it returns; and no decoder panics.  A build
with debug assertions asserts that the decoder is the one of the header's kind. -/
theorem wire_codec_exact (debug : Bool) :
    (∀ seq (m : Message), m.WithinLimits → ∃ b, Machine.encode debug seq m = .ok b ∧
      Machine.decode debug b = .ok (m.header seq, m)) ∧
    (∀ b hdr (m : Message), Machine.decode debug b = .ok (hdr, m) → (∀ x, m ≠ .error x) →
      hdr = m.header hdr.seq ∧ Machine.encode debug hdr.seq m = .ok b) ∧
    (∀ b, Machine.decodeHdr b ≠ .error .panic) ∧
    ∀ (hdr : PcHdr) body,
      ((debug = true → hdr.msg = .putBatch) →
        Machine.decodePutBatch debug hdr body ≠ .error .panic) ∧
      ((debug = true → hdr.msg = .putBatchOk) →
        Machine.decodePutBatchOk debug hdr body ≠ .error .panic) ∧
      ((debug = true → hdr.msg = .getBatch) →
        Machine.decodeGetBatch debug hdr body ≠ .error .panic) ∧
      ((debug = true → hdr.msg = .getBatchData) →
        Machine.decodeGetBatchData debug hdr body ≠ .error .panic) ∧
      ((debug = true → hdr.msg = .error) →
        Machine.decodeError debug hdr body ≠ .error .panic) := by
  refine ⟨?_, ?_, ?_, ?_⟩
  · intro seq m h
    refine ⟨_, Machine.encode_eq h, ?_⟩
    have hflags : (m.header seq).flags = 0 := by cases m <;> rfl
    rw [Machine.decode, Machine.decodeHdr_eq, decodeHdr_putHdr _ hflags]
    simp only [Except.mapError, bind, Except.bind, Machine.decodeBody_header h]
    rfl
  · intro b hdr m h hm
    rw [Machine.decode, Machine.decodeHdr_eq] at h
    cases hb : decodeHdr b with
    | error e =>
      rw [hb] at h
      cases h
    | ok x =>
      obtain ⟨hdr', body⟩ := x
      rw [hb] at h
      simp only [Except.mapError, bind, Except.bind] at h
      obtain ⟨hflags, rfl⟩ := decodeHdr_eq_ok_iff.mp hb
      split at h
      · cases h
      · rename_i m' hbody
        cases h
        obtain ⟨hhdr, hbytes, hlimits⟩ := Machine.header_of_decodeBody hflags hm hbody
        refine ⟨hhdr, ?_⟩
        rw [Machine.encode_eq hlimits, ← hhdr, hbytes]
  · intro b
    rw [Machine.decodeHdr_eq]
    exact ne_panic_of_mapError
  · intro hdr body
    refine ⟨fun h => ?_, fun h => ?_, fun h => ?_, fun h => ?_, fun h => ?_⟩
    · rw [Machine.decodePutBatch_eq h]
      exact ne_panic_of_mapError
    · rw [Machine.decodePutBatchOk_eq h]
      exact ne_panic_of_mapError
    · rw [Machine.decodeGetBatch_eq h]
      exact ne_panic_of_mapError
    · rw [Machine.decodeGetBatchData_eq h]
      exact ne_panic_of_mapError
    · rw [Machine.decodeError_eq h]
      exact ne_panic_of_mapError

namespace Sample

def request : GetReq := ⟨⟨List.replicate 32 9, rfl⟩, 3⟩

theorem one_request_read_back : ∃ b,
    Machine.encode true 5 (.getBatch [request]) = .ok b ∧ b.length = 64 ∧
      Machine.decode true b = .ok (⟨.getBatch, 0, 5, 1⟩, .getBatch [request]) := by
  have hlimits : (Message.getBatch [request]).WithinLimits := ⟨by decide, by decide⟩
  obtain ⟨b, hb, hread⟩ := (wire_codec_exact true).1 5 (.getBatch [request]) hlimits
  refine ⟨b, hb, ?_, hread⟩
  rw [Machine.encode_eq hlimits] at hb
  cases hb
  rfl

end Sample

end SnapStore.PageChannel
