import SnapStore.Types

/-!
# Snapshot manifests

The `.spm` container codec: a 96-byte header, a table of (page index, page hash) entries, the
device blob and a BLAKE3 footer.  The reference of a snapshot is the hash of its container
without the footer.
-/

namespace SnapStore

open Disk

structure ManifestEntry where
  pageIndex : Nat
  pageHash : PageHash
deriving DecidableEq

structure DeviceBlob where
  format : Nat
  zstd : Bool
  bytes : Bytes
  rawLen : Nat
deriving DecidableEq

structure Manifest where
  version : Nat
  delta : Bool
  parent : Option SnapshotRef
  guestRamBytes : Nat
  entries : List ManifestEntry
  deviceBlob : DeviceBlob
deriving DecidableEq

inductive ManifestError where
  | badMagic
  | unsupportedVersion (v : Nat)
  | unknownFlags (bits : Nat)
  | badHeaderLen (n : Nat)
  | reservedNonZero
  | badPageSize (n : Nat)
  | guestRamNotAligned (n : Nat)
  | entriesNotAscending
  | fullCountMismatch (count expected : Nat)
  | fullNotContiguous
  | fullNonZeroParent
  | deltaZeroParent
  | deltaIndexOutOfRange (index max : Nat)
  | footerMismatch
  | trailingBytes
  | truncated
  | zstdRawLenMismatch (len rawLen : Nat)
  | nonZstdRawLenMismatch (rawLen len : Nat)
deriving DecidableEq

namespace Manifest

def magic : Bytes := [0x53, 0x50, 0x53, 0x4d, 0x41, 0x4e, 0x30, 0x31]
def wireVersion : Nat := 1
def headerLen : Nat := 96
def flagDelta : Nat := 1
def flagDevZstd : Nat := 2
def entrySize : Nat := 40
def footerLen : Nat := 32

def entryBytes (e : ManifestEntry) : Bytes := leBytes 8 e.pageIndex ++ e.pageHash.bytes

def zeroHash : Bytes := List.replicate 32 0

def body (m : Manifest) : Bytes :=
  magic ++ leBytes 2 wireVersion ++
  leBytes 2 ((if m.delta then flagDelta else 0) + (if m.deviceBlob.zstd then flagDevZstd else 0)) ++
  leBytes 4 headerLen ++
  (match m.parent with | some r => r.bytes | none => zeroHash) ++
  leBytes 8 m.guestRamBytes ++ leBytes 8 pageSize ++ leBytes 8 m.entries.length ++
  leBytes 8 m.deviceBlob.bytes.length ++ leBytes 8 m.deviceBlob.rawLen ++
  leBytes 4 m.deviceBlob.format ++ leBytes 4 0 ++
  m.entries.flatMap entryBytes ++ m.deviceBlob.bytes

def decodeParent (isDelta : Bool) (parentHash : Bytes) (entries : List ManifestEntry)
    (maxIdx : Nat) : Except ManifestError (Option SnapshotRef) :=
  if isDelta then
    if parentHash = zeroHash then .error .deltaZeroParent else
    match entries.find? fun e => maxIdx ≤ e.pageIndex with
    | some e => .error (.deltaIndexOutOfRange e.pageIndex maxIdx)
    | none => .ok (some (Digest.ofBytes parentHash))
  else
    if parentHash ≠ zeroHash then .error .fullNonZeroParent else
    if entries.length ≠ maxIdx then .error (.fullCountMismatch entries.length maxIdx) else
    if entries.map (·.pageIndex) ≠ List.range entries.length then .error .fullNotContiguous else
    .ok none

theorem decodeParent_delta {isDelta : Bool} {ph : Bytes} {es : List ManifestEntry} {n : Nat}
    {r : Option SnapshotRef} (h : decodeParent isDelta ph es n = .ok r) :
    isDelta = true ↔ r.isSome = true := by
  unfold decodeParent at h
  cases isDelta with
  | true =>
    simp only [if_true] at h
    split at h
    · cases h
    · split at h
      · cases h
      · cases h
        simp
  | false =>
    simp only [Bool.false_eq_true, if_false] at h
    split at h
    · cases h
    · split at h
      · cases h
      · split at h
        · cases h
        · cases h
          simp

variable [Primitives]

def encode (m : Manifest) : Bytes := m.body ++ (blake3 m.body).bytes

def snapshotRef (buf : Bytes) : SnapshotRef := blake3 (buf.take (buf.length - footerLen))

def entryAt (buf : Bytes) (i : Nat) : ManifestEntry where
  pageIndex := leNat (slice buf (headerLen + i * entrySize) 8)
  pageHash := Digest.ofBytes (slice buf (headerLen + i * entrySize + 8) 32)

def ascending : List ManifestEntry → Bool
  | a :: b :: es => a.pageIndex < b.pageIndex && ascending (b :: es)
  | _ => true

def checkBlob (isZstd : Bool) (blob : Bytes) (blobLen rawLen : Nat) :
    Except ManifestError Unit :=
  if isZstd then
    match zstdDecodeAll blob with
    | none => .error (.zstdRawLenMismatch 0 rawLen)
    | some raw => if raw.length ≠ rawLen then .error (.zstdRawLenMismatch raw.length rawLen)
      else .ok ()
  else if rawLen ≠ blobLen then .error (.nonZstdRawLenMismatch rawLen blobLen) else .ok ()

def decode (buf : Bytes) : Except ManifestError Manifest := do
  if buf.length < headerLen + footerLen then throw .truncated
  let bodyLen := buf.length - footerLen
  if (blake3 (buf.take bodyLen)).bytes ≠ buf.drop bodyLen then throw .footerMismatch
  if slice buf 0 8 ≠ magic then throw .badMagic
  let version := leNat (slice buf 8 2)
  if version ≠ wireVersion then throw (.unsupportedVersion version)
  let flags := leNat (slice buf 10 2)
  if flags / 4 ≠ 0 then throw (.unknownFlags (flags / 4 * 4))
  let hdrLen := leNat (slice buf 12 4)
  if hdrLen ≠ headerLen then throw (.badHeaderLen hdrLen)
  let parentHash := slice buf 16 32
  let guestRamBytes := leNat (slice buf 48 8)
  let pageSz := leNat (slice buf 56 8)
  let entryCount := leNat (slice buf 64 8)
  let blobLen := leNat (slice buf 72 8)
  let rawLen := leNat (slice buf 80 8)
  let format := leNat (slice buf 88 4)
  if leNat (slice buf 92 4) ≠ 0 then throw .reservedNonZero
  if pageSz ≠ pageSize then throw (.badPageSize pageSz)
  if guestRamBytes % pageSize ≠ 0 then throw (.guestRamNotAligned guestRamBytes)
  let expectedBody := headerLen + entryCount * entrySize + blobLen
  if bodyLen < expectedBody then throw .truncated
  if expectedBody < bodyLen then throw .trailingBytes
  let entries := (List.range entryCount).map (entryAt buf)
  if !ascending entries then throw .entriesNotAscending
  let isDelta := flags % 2 = 1
  let isZstd := flags / 2 = 1
  let parent ← decodeParent isDelta parentHash entries (guestRamBytes / pageSize)
  let blob := slice buf (headerLen + entryCount * entrySize) blobLen
  checkBlob isZstd blob blobLen rawLen
  return {
    version := version
    delta := isDelta
    parent := parent
    guestRamBytes := guestRamBytes
    entries := entries
    deviceBlob := { format := format, zstd := isZstd, bytes := blob, rawLen := rawLen } }

theorem decode_delta {buf : Bytes} {m : Manifest} (h : decode buf = .ok m) :
    m.delta = true ↔ m.parent.isSome = true := by
  unfold decode at h
  simp only [bind, Except.bind, pure, Except.pure, throw, throwThe, MonadExceptOf.throw,
    ite_error_eq_ok] at h
  obtain ⟨-, -, -, -, -, -, -, -, -, -, -, -, h⟩ := h
  split at h
  · cases h
  · next parent hp =>
    split at h
    · cases h
    · cases h
      exact decodeParent_delta hp

theorem decode_footer {buf : Bytes} {m : Manifest} (h : decode buf = .ok m) :
    footerLen ≤ buf.length ∧ buf.drop (buf.length - footerLen) = (snapshotRef buf).bytes := by
  unfold decode at h
  simp only [bind, Except.bind, pure, Except.pure, throw, throwThe, MonadExceptOf.throw,
    ite_error_eq_ok] at h
  obtain ⟨hlen, hfooter, -⟩ := h
  exact ⟨(Nat.le_add_left _ _).trans (Nat.le_of_not_lt hlen), (not_not.mp hfooter).symm⟩

end Manifest

end SnapStore
