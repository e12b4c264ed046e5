import SnapStore.Manifest

/-!
# Input-log containers

The `SILG` container codec: a 24-byte header, an opaque payload and a BLAKE3 footer.  The id of a log
is the hash of its container without the footer.
-/

namespace SnapStore

open Disk

structure InputLogContainer where
  innerFormatVersion : Nat
  payload : Bytes
deriving DecidableEq

inductive InputLogError where
  | badMagic
  | unsupportedVersion (v : Nat)
  | nonZeroFlags (bits : Nat)
  | reservedNonZero
  | payloadLenMismatch (n : Nat)
  | footerMismatch
  | trailingBytes
  | truncated
deriving DecidableEq

def hex4 (n : Nat) : String :=
  let digits := Nat.toDigits 16 n
  String.ofList (List.replicate (4 - digits.length) '0' ++ digits)

def InputLogError.text : InputLogError → String
  | .badMagic => "bad magic bytes"
  | .unsupportedVersion v => s!"unsupported container version: {v}"
  | .nonZeroFlags bits => s!"flags must be 0, got 0x{hex4 bits}"
  | .reservedNonZero => "reserved field must be 0"
  | .payloadLenMismatch n => s!"payload_len {n} inconsistent with buffer size"
  | .footerMismatch => "footer mismatch"
  | .trailingBytes => "trailing bytes after footer"
  | .truncated => "input truncated"

namespace InputLogContainer

def magic : Bytes := [0x53, 0x49, 0x4c, 0x47]
def containerVersion : Nat := 1
def hdrLen : Nat := 24
def footerLen : Nat := 32

def header (c : InputLogContainer) : Bytes :=
  magic ++ (leBytes 2 containerVersion ++ (leBytes 2 0 ++ (leBytes 4 c.innerFormatVersion ++
    (leBytes 4 0 ++ leBytes 8 c.payload.length))))

def body (c : InputLogContainer) : Bytes := c.header ++ c.payload

theorem length_header (c : InputLogContainer) : c.header.length = hdrLen := by
  simp only [header, List.length_append, length_leBytes]
  rfl

theorem length_body (c : InputLogContainer) : c.body.length = hdrLen + c.payload.length := by
  rw [body, List.length_append, length_header]

variable [Primitives]

def encode (c : InputLogContainer) : Bytes := c.body ++ (blake3 c.body).bytes

def logId (buf : Bytes) : Digest := blake3 (buf.take (buf.length - footerLen))

def decode (buf : Bytes) : Except InputLogError InputLogContainer := do
  if buf.length < hdrLen + footerLen then throw .truncated
  let footerStart := buf.length - footerLen
  if (blake3 (buf.take footerStart)).bytes ≠ buf.drop footerStart then throw .footerMismatch
  if slice buf 0 4 ≠ magic then throw .badMagic
  let version := leNat (slice buf 4 2)
  if version ≠ containerVersion then throw (.unsupportedVersion version)
  let flags := leNat (slice buf 6 2)
  if flags ≠ 0 then throw (.nonZeroFlags flags)
  let innerFormatVersion := leNat (slice buf 8 4)
  if leNat (slice buf 12 4) ≠ 0 then throw .reservedNonZero
  let payloadLen := leNat (slice buf 16 8)
  -- the sum is checked in 64 bits
  if 2 ^ 64 ≤ hdrLen + payloadLen then throw .truncated
  if footerStart < hdrLen + payloadLen then throw (.payloadLenMismatch payloadLen)
  if hdrLen + payloadLen < footerStart then throw .trailingBytes
  return ⟨innerFormatVersion, slice buf hdrLen payloadLen⟩

theorem footer_of_decode {buf : Bytes} {c : InputLogContainer} (h : decode buf = .ok c) :
    hdrLen + footerLen ≤ buf.length ∧ buf.drop (buf.length - footerLen) = (logId buf).bytes := by
  unfold decode at h
  simp only [bind, Except.bind, pure, Except.pure, throw, throwThe, MonadExceptOf.throw,
    ite_error_eq_ok] at h
  obtain ⟨hlen, hfooter, -⟩ := h
  exact ⟨Nat.not_lt.mp hlen, (not_not.mp hfooter).symm⟩

theorem eq_of_body_eq {buf buf' : Bytes} {c c' : InputLogContainer} (h : decode buf = .ok c)
    (h' : decode buf' = .ok c')
    (hbody : buf.take (buf.length - footerLen) = buf'.take (buf'.length - footerLen)) :
    buf = buf' := by
  have hid : logId buf = logId buf' := by rw [logId, hbody, logId]
  rw [← List.take_append_drop (buf.length - footerLen) buf,
    ← List.take_append_drop (buf'.length - footerLen) buf', hbody, (footer_of_decode h).2,
    (footer_of_decode h').2, hid]

theorem decode_encode (c : InputLogContainer) (hversion : c.innerFormatVersion < 2 ^ 32)
    (hpayload : hdrLen + c.payload.length < 2 ^ 64) : decode c.encode = .ok c := by
  have hlen : c.encode.length = c.body.length + footerLen := by
    rw [encode, List.length_append, (blake3 c.body).length_bytes, footerLen]
  have hstart : c.encode.length - footerLen = hdrLen + c.payload.length := by
    rw [hlen, Nat.add_sub_cancel, length_body]
  have hfooter : (blake3 (c.encode.take (hdrLen + c.payload.length))).bytes =
      c.encode.drop (hdrLen + c.payload.length) := by
    rw [← length_body, encode, List.take_left, List.drop_left]
  have henc : c.encode = magic ++ (leBytes 2 containerVersion ++ (leBytes 2 0 ++
      (leBytes 4 c.innerFormatVersion ++ (leBytes 4 0 ++ (leBytes 8 c.payload.length ++
        (c.payload ++ (blake3 c.body).bytes)))))) := by
    simp only [encode, body, header, List.append_assoc]
  have hmagic : slice c.encode 0 4 = magic := by
    rw [henc]
    exact slice_zero_append rfl
  have hvers : leNat (slice c.encode 4 2) = containerVersion := by
    rw [henc, slice_skip (k := 4) rfl (by decide)]
    exact leNat_field (by decide) _
  have hflags : leNat (slice c.encode 6 2) = 0 := by
    rw [henc, slice_skip (k := 4) rfl (by decide), slice_skip (length_leBytes _ _) (by decide)]
    exact leNat_field (by decide) _
  have hinner : leNat (slice c.encode 8 4) = c.innerFormatVersion := by
    rw [henc, slice_skip (k := 4) rfl (by decide), slice_skip (length_leBytes _ _) (by decide),
      slice_skip (length_leBytes _ _) (by decide)]
    exact leNat_field (by omega) _
  have hreserved : leNat (slice c.encode 12 4) = 0 := by
    rw [henc, slice_skip (k := 4) rfl (by decide), slice_skip (length_leBytes _ _) (by decide),
      slice_skip (length_leBytes _ _) (by decide), slice_skip (length_leBytes _ _) (by decide)]
    exact leNat_field (by decide) _
  have hcount : leNat (slice c.encode 16 8) = c.payload.length := by
    rw [henc, slice_skip (k := 4) rfl (by decide), slice_skip (length_leBytes _ _) (by decide),
      slice_skip (length_leBytes _ _) (by decide), slice_skip (length_leBytes _ _) (by decide),
      slice_skip (length_leBytes _ _) (by decide)]
    exact leNat_field (by unfold hdrLen at hpayload; omega) _
  have hdata : slice c.encode hdrLen c.payload.length = c.payload := by
    rw [encode, body, List.append_assoc, slice_skip c.length_header (Nat.le_refl _), Nat.sub_self]
    exact slice_zero_append rfl
  unfold decode
  simp only [bind, Except.bind, pure, Except.pure, throw, throwThe, MonadExceptOf.throw,
    ite_error_eq_ok, hstart, hfooter, hmagic, hvers, hflags, hinner, hreserved, hcount, hdata]
  rw [length_body] at hlen
  refine ⟨by omega, not_not.mpr rfl, not_not.mpr rfl, not_not.mpr rfl, not_not.mpr rfl,
    not_not.mpr rfl, Nat.not_le.mpr hpayload, Nat.lt_irrefl _, Nat.lt_irrefl _, trivial⟩

end InputLogContainer

end SnapStore
