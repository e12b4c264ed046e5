import SnapStore.Checked
import SnapStore.Manifest.InputLog

/-!
# The input-log codec is exact

The containers that `InputLogContainer::decode` accepts are those that `encode` makes.  The decoder
is also given with its slices, conversions and sums as the machine makes them, and none of them is
out of range.
-/

namespace SnapStore

open Disk Checked

namespace InputLogContainer

variable [Primitives] {buf : Bytes} {c : InputLogContainer}

structure Accepted (buf : Bytes) (c : InputLogContainer) : Prop where
  length : hdrLen + footerLen ≤ buf.length
  footer : (blake3 (buf.take (buf.length - footerLen))).bytes = buf.drop (buf.length - footerLen)
  magic : slice buf 0 4 = magic
  containerVersion : leNat (slice buf 4 2) = containerVersion
  flags : leNat (slice buf 6 2) = 0
  reserved : leNat (slice buf 12 4) = 0
  fits : hdrLen + leNat (slice buf 16 8) < 2 ^ 64
  size : buf.length - footerLen = hdrLen + leNat (slice buf 16 8)
  version : c.innerFormatVersion = leNat (slice buf 8 4)
  payload : c.payload = slice buf hdrLen (leNat (slice buf 16 8))

theorem accepted_of_decode (h : decode buf = .ok c) : Accepted buf c := by
  unfold decode at h
  simp only [bind, Except.bind, pure, Except.pure, throw, throwThe, MonadExceptOf.throw,
    ite_error_eq_ok, not_not, Nat.not_lt, Nat.not_le] at h
  obtain ⟨hlen, hfooter, hmagic, hversion, hflags, hreserved, hfits, hle, hge, hc⟩ := h
  cases hc
  exact ⟨hlen, hfooter, hmagic, hversion, hflags, hreserved, hfits, Nat.le_antisymm hge hle, rfl,
    rfl⟩

namespace Accepted

theorem length_payload (h : Accepted buf c) : c.payload.length = leNat (slice buf 16 8) := by
  have hsize := h.size
  rw [h.payload, length_slice]
  omega

theorem version_lt (h : Accepted buf c) : c.innerFormatVersion < 2 ^ 32 := by
  rw [h.version]
  calc leNat (slice buf 8 4) < 256 ^ (slice buf 8 4).length := leNat_lt _
    _ ≤ 256 ^ 4 := Nat.pow_le_pow_right (by decide) (by rw [length_slice]; omega)
    _ = 2 ^ 32 := by decide

theorem header_eq (h : Accepted buf c) : c.header = buf.take hdrLen := by
  have hfield {off n v : Nat} (hoff : off + n ≤ hdrLen) (hv : v = leNat (slice buf off n)) :
      buf.take off ++ leBytes n v = buf.take (off + n) := by
    have hlen : (slice buf off n).length = n := by
      have hle := h.length
      rw [length_slice]
      omega
    rw [hv, leBytes_leNat hlen, take_add_slice]
  have hmagic : InputLogContainer.magic = buf.take 4 := by
    rw [← h.magic]
    rfl
  unfold header
  simp only [← List.append_assoc]
  rw [hmagic, hfield (by decide) h.containerVersion.symm, hfield (by decide) h.flags.symm,
    hfield (by decide) h.version, hfield (by decide) h.reserved.symm,
    hfield (by decide) h.length_payload]
  rfl

theorem encode_eq (h : Accepted buf c) : c.encode = buf := by
  have hbody : c.body = buf.take (buf.length - footerLen) := by
    rw [body, h.header_eq, h.payload, ← take_add_slice, ← h.size]
  rw [encode, hbody, h.footer, List.take_append_drop]

end Accepted

theorem decode_eq_ok_iff :
    decode buf = .ok c ↔
      c.innerFormatVersion < 2 ^ 32 ∧ hdrLen + c.payload.length < 2 ^ 64 ∧ buf = c.encode := by
  constructor
  · intro h
    have ha := accepted_of_decode h
    refine ⟨ha.version_lt, ?_, ha.encode_eq.symm⟩
    rw [ha.length_payload]
    exact ha.fits
  · intro ⟨hversion, hpayload, hbuf⟩
    rw [hbuf]
    exact decode_encode c hversion hpayload

/-! ## The decoder on a 64-bit machine -/

namespace Machine

/-- `InputLogContainer::decode`, with every slice, conversion and sum it makes. -/
def decode (buf : Bytes) : Except (Halt InputLogError) InputLogContainer := do
  if buf.length < hdrLen + footerLen then throw (.error .truncated)
  let footerStart := buf.length - footerLen
  let body ← index buf 0 footerStart
  let footer ← index buf footerStart buf.length
  let stored ← toArray 32 footer
  if (blake3 body).bytes ≠ stored then throw (.error .footerMismatch)
  let magicBytes ← index buf 0 4
  if magicBytes ≠ magic then throw (.error .badMagic)
  let version ← uintAt 2 buf 4 6
  if version ≠ containerVersion then throw (.error (.unsupportedVersion version))
  let flags ← uintAt 2 buf 6 8
  if flags ≠ 0 then throw (.error (.nonZeroFlags flags))
  let innerFormatVersion ← uintAt 4 buf 8 12
  let reserved ← uintAt 4 buf 12 16
  if reserved ≠ 0 then throw (.error .reservedNonZero)
  let payloadLen ← uintAt 8 buf 16 24
  let expectedBody ← checkedOr .truncated (hdrLen + payloadLen)
  if body.length < expectedBody then throw (.error (.payloadLenMismatch payloadLen))
  if expectedBody < body.length then throw (.error .trailingBytes)
  let payloadEnd ← usize (hdrLen + payloadLen)
  let payload ← index buf hdrLen payloadEnd
  return ⟨innerFormatVersion, payload⟩

theorem decode_eq (buf : Bytes) : decode buf = (InputLogContainer.decode buf).mapError .error := by
  have hhdr : hdrLen = 24 := rfl
  have hfoot : footerLen = 32 := rfl
  unfold decode InputLogContainer.decode
  simp only [bind, Except.bind, pure, Except.pure, throw, throwThe, MonadExceptOf.throw]
  refine ite_mapError fun hlen => ?_
  have hfooter : (buf.drop (buf.length - footerLen)).length = 32 := by
    rw [List.length_drop]
    omega
  have hbody : (buf.take (buf.length - footerLen)).length = buf.length - footerLen := by
    rw [List.length_take]
    omega
  simp only [index_take (by omega : buf.length - footerLen ≤ buf.length),
    index_suffix (by omega : buf.length - footerLen ≤ buf.length), toArray_eq hfooter, hbody,
    index_eq (by omega : 0 ≤ 4) (by omega : 4 ≤ buf.length),
    uintAt_eq (rfl : 4 + 2 = 6) (by omega : 6 ≤ buf.length),
    uintAt_eq (rfl : 6 + 2 = 8) (by omega : 8 ≤ buf.length),
    uintAt_eq (rfl : 8 + 4 = 12) (by omega : 12 ≤ buf.length),
    uintAt_eq (rfl : 12 + 4 = 16) (by omega : 16 ≤ buf.length),
    uintAt_eq (rfl : 16 + 8 = 24) (by omega : 24 ≤ buf.length)]
  refine ite_mapError fun _ => ite_mapError fun _ => ite_mapError fun _ => ite_mapError fun _ =>
    ite_mapError fun _ => ?_
  generalize leNat (slice buf 16 8) = n
  by_cases hfits : hdrLen + n < 2 ^ 64
  · have husize : hdrLen + n < usizeBound := hfits
    rw [checkedOr, if_pos husize, if_neg (Nat.not_le.mpr hfits)]
    refine ite_mapError fun hle => ite_mapError fun hge => ?_
    rw [usize_eq husize]
    dsimp only
    rw [index_eq (Nat.le_add_right _ _) (by omega), Nat.add_sub_cancel_left]
    rfl
  · have hover : ¬ hdrLen + n < usizeBound := hfits
    rw [checkedOr, if_neg hover, if_pos (Nat.not_lt.mp hfits)]
    rfl

end Machine

theorem machine_decode_iff (b : Checked.ByteSlice) :
    Machine.decode b.bytes ≠ .error .panic ∧
      ∀ v p, Machine.decode b.bytes = .ok ⟨v, p⟩ ↔ v < 2 ^ 32 ∧ b.bytes = encode ⟨v, p⟩ := by
  rw [Machine.decode_eq]
  refine ⟨ne_panic_of_mapError, fun v p => ?_⟩
  rw [mapError_eq_ok, decode_eq_ok_iff]
  refine and_congr_right fun _ => and_iff_right_of_imp fun hbuf => ?_
  -- the slice is longer than its payload
  have hlen : b.bytes.length = hdrLen + p.length + footerLen := by
    rw [hbuf, encode, List.length_append, length_body, Digest.length_bytes]
    rfl
  have hlt := b.length_lt
  have hbound : isizeBound < 2 ^ 64 := by decide
  show hdrLen + p.length < 2 ^ 64
  omega

end InputLogContainer

end SnapStore
