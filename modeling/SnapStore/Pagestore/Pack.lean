import SnapStore.Types

/-!
# Pack files

The on-disk format of a pack (header, records, footer), the writer that appends to one, and the
readers: full validation of a sealed pack, recovery of an unsealed one, single record reads and
the header scan.  The readers are functions of the file's bytes.
-/

namespace SnapStore

open Disk

variable [Primitives]

def packMagic : Bytes := [0x53, 0x50, 0x4b, 0x31]
def footerMagic : Bytes := [0x53, 0x50, 0x4b, 0x46]
def packFormatVersion : Nat := 1
def packMaxBytes : Nat := 2 ^ 30
def recordHeaderSize : Nat := 37
def packHeaderSize : Nat := 20
def packFooterSize : Nat := 44
def writeBufFlushThreshold : Nat := 4 * 1024 * 1024
def recordSize : Nat := recordHeaderSize + pageSize

inductive PackError where
  | io (e : IoError)
  | sealed
  | full
  | badMagic
  | badFooterMagic
  | footerMismatch (expected found : Nat)
  | hashMismatch (offset : Nat)
  | truncatedRecord (offset : Nat)
deriving DecidableEq

/-! ## Format -/

def packHeader (id : PackId) (createdUnix : Nat) : Bytes :=
  packMagic ++ leBytes 4 packFormatVersion ++ leBytes 4 id ++ leBytes 8 createdUnix

def recordBytes (hash : PageHash) (payload : Page) : Bytes :=
  hash.bytes ++ ([0x01] ++ (leBytes 4 pageSize ++ payload.bytes))

def packFooter (recordCount : Nat) (body : Bytes) : Bytes :=
  footerMagic ++ (leBytes 8 recordCount ++ (blake3 body).bytes)

/-! ## PackWriter -/

structure PackWriter where
  file : Ino
  packId : PackId
  pos : Nat
  bodyHasher : Bytes
  writeBuf : Bytes
  writeOffset : Nat
  recordCount : Nat
  sealed : Bool
  maxBytes : Nat

namespace PackWriter

def fresh (file : Ino) (packId : PackId) (maxBytes : Nat) : PackWriter where
  file := file
  packId := packId
  pos := packHeaderSize
  bodyHasher := []
  writeBuf := []
  writeOffset := packHeaderSize
  recordCount := 0
  sealed := false
  maxBytes := maxBytes

def writeAll (o : Oracle) (w : PackWriter) (fs : PagesFs) (bs : Bytes) :
    Except PackError Unit × PackWriter × PagesFs :=
  match o.fault .pack .write with
  | some n =>
    (.error (.io .other), { w with pos := w.pos + (bs.take n).length },
      fs.write w.file w.pos (bs.take n))
  | none => (.ok (), { w with pos := w.pos + bs.length }, fs.write w.file w.pos bs)

def flushBuf (o : Oracle) (w : PackWriter) (fs : PagesFs) :
    Except PackError Unit × PackWriter × PagesFs :=
  if w.writeBuf = [] then (.ok (), w, fs) else
  match w.writeAll o fs w.writeBuf with
  | (.ok (), w', fs') => (.ok (), { w' with writeBuf := [] }, fs')
  | (.error e, w', fs') => (.error e, w', fs')

def wouldExceedCap (w : PackWriter) : Bool :=
  w.writeOffset + recordHeaderSize + pageSize > w.maxBytes

def buffer (w : PackWriter) (hash : PageHash) (payload : Page) : PackWriter :=
  { w with
    writeBuf := w.writeBuf ++ recordBytes hash payload
    bodyHasher := w.bodyHasher ++ recordBytes hash payload
    writeOffset := w.writeOffset + (recordHeaderSize + pageSize)
    recordCount := w.recordCount + 1 }

def append (o : Oracle) (w : PackWriter) (fs : PagesFs) (hash : PageHash) (payload : Page) :
    Except PackError Nat × PackWriter × PagesFs :=
  if w.sealed then (.error .sealed, w, fs) else
  if w.wouldExceedCap then (.error .full, w, fs) else
  let w' := w.buffer hash payload
  if writeBufFlushThreshold ≤ w'.writeBuf.length then
    match w'.flushBuf o fs with
    | (.ok (), w'', fs') => (.ok w.writeOffset, w'', fs')
    | (.error e, w'', fs') => (.error e, w'', fs')
  else (.ok w.writeOffset, w', fs)

def writeFooter (o : Oracle) (w : PackWriter) (fs : PagesFs) :
    Except PackError Unit × PackWriter × PagesFs :=
  w.writeAll o fs (packFooter w.recordCount w.bodyHasher)

def syncData (o : Oracle) (w : PackWriter) (fs : PagesFs) : Except PackError Unit × PagesFs :=
  match o.fault .pack .sync with
  | some _ => (.error (.io .other), fs)
  | none => (.ok (), fs.fdatasync w.file)

def sealNoSync (o : Oracle) (w : PackWriter) (fs : PagesFs) :
    Except PackError Unit × PackWriter × PagesFs :=
  if w.sealed then (.error .sealed, w, fs) else
  match w.flushBuf o fs with
  | (.error e, w, fs) => (.error e, w, fs)
  | (.ok (), w, fs) =>
    match w.writeFooter o fs with
    | (.error e, w, fs) => (.error e, w, fs)
    | (.ok (), w, fs) => (.ok (), { w with sealed := true }, fs)

/-- `seal`: flush, fdatasync record data, write footer, fdatasync again. -/
def sealSync (o : Oracle) (w : PackWriter) (fs : PagesFs) :
    Except PackError Unit × PackWriter × PagesFs :=
  if w.sealed then (.error .sealed, w, fs) else
  match w.flushBuf o fs with
  | (.error e, w, fs) => (.error e, w, fs)
  | (.ok (), w, fs) =>
    match w.syncData o fs with
    | (.error e, fs) => (.error e, w, fs)
    | (.ok (), fs) =>
      match w.writeFooter o fs with
      | (.error e, w, fs) => (.error e, w, fs)
      | (.ok (), w, fs) =>
        match w.syncData o fs with
        | (.error e, fs) => (.error e, w, fs)
        | (.ok (), fs) => (.ok (), { w with sealed := true }, fs)

end PackWriter

/-! ## Records of a file -/

def recordLen (b : Bytes) (offset : Nat) : Nat := leNat (slice b (offset + 33) 4)

def recordHash (b : Bytes) (offset : Nat) : PageHash := Digest.ofBytes (slice b offset 32)

def recordFlags (b : Bytes) (offset : Nat) : UInt8 := b.getD (offset + 32) 0

/-- The scan of `PackWriter::reopen`: bytes fed to the hasher, record count and end offset.  Every
iteration advances, so `fuel` is a bound on the file length. -/
def reopenLoop (b : Bytes) : Nat → Nat → Nat → Bytes → Nat × Nat × Bytes
  | 0, offset, count, hasher => (offset, count, hasher)
  | fuel + 1, offset, count, hasher =>
    if offset < b.length then
      if b.length - offset < recordHeaderSize then (offset, count, hasher) else
      let len := recordLen b offset
      if pageSize * 2 < len then (offset, count, hasher) else
      if b.length < offset + recordHeaderSize + len then (offset, count, hasher) else
      reopenLoop b fuel (offset + (recordHeaderSize + len)) (count + 1)
        (hasher ++ slice b offset (recordHeaderSize + len))
    else (offset, count, hasher)

def PackWriter.reopen (file : Ino) (packId : PackId) (b : Bytes) : Except PackError PackWriter :=
  if b.length < 4 then .error (.io .unexpectedEof) else
  if slice b 0 4 ≠ packMagic then .error .badMagic else
  let (offset, count, hasher) := reopenLoop b b.length packHeaderSize 0 []
  .ok {
    file := file
    packId := packId
    pos := offset
    bodyHasher := hasher
    writeBuf := []
    writeOffset := offset
    recordCount := count
    sealed := false
    maxBytes := packMaxBytes }

/-- Count how many complete records exist between the header and `bodyEnd`, without verifying
hashes. -/
def countRecordsLoop (b : Bytes) (bodyEnd : Nat) : Nat → Nat → Nat → Nat
  | 0, _, count => count
  | fuel + 1, offset, count =>
    if offset < bodyEnd then
      if bodyEnd - offset < recordHeaderSize then count else
      let size := recordHeaderSize + recordLen b offset
      if bodyEnd < offset + size then count else
      countRecordsLoop b bodyEnd fuel (offset + size) (count + 1)
    else count

def countRecordsInFile (b : Bytes) (bodyEnd : Nat) : Nat :=
  countRecordsLoop b bodyEnd bodyEnd packHeaderSize 0

def scanLoop (b : Bytes) (scanEnd : Nat) : Nat → Nat → Except PackError (List (Nat × PageHash))
  | 0, _ => .ok []
  | fuel + 1, offset =>
    if scanEnd ≤ offset then .ok [] else
    if scanEnd - offset < recordHeaderSize then .ok [] else
    if b.length < offset + recordHeaderSize then .error (.truncatedRecord offset) else
    match scanLoop b scanEnd fuel (offset + (recordHeaderSize + recordLen b offset)) with
    | .ok rest => .ok ((offset, recordHash b offset) :: rest)
    | .error e => .error e

/-- The forward scan of `open_unsealed`: the end of the good records, their count, and whether the
file has to be cut there. -/
def openUnsealedLoop (b : Bytes) : Nat → Nat → Nat → Nat × Nat × Bool
  | 0, offset, good => (offset, good, false)
  | fuel + 1, offset, good =>
    let remaining := b.length - offset
    if remaining = 0 then (offset, good, false) else
    if remaining < recordHeaderSize then (offset, good, true) else
    let len := recordLen b offset
    let expectedLen := if recordFlags b offset &&& 0x01 ≠ 0 then pageSize else len
    if len ≠ expectedLen ∨ pageSize * 2 < len then (offset, good, true) else
    if b.length - (offset + recordHeaderSize) < len then (offset, good, true) else
    if blake3 (slice b (offset + recordHeaderSize) len) ≠ recordHash b offset then
      (offset, good, true) else
    openUnsealedLoop b fuel (offset + (recordHeaderSize + len)) (good + 1)

namespace PackReader

/-- Open a sealed pack for reading: validates header and footer; returns `body_end`. -/
def openSealed (b : Bytes) : Except PackError Nat :=
  if b.length < 4 then .error (.io .unexpectedEof) else
  if slice b 0 4 ≠ packMagic then .error .badMagic else
  if b.length < packHeaderSize + packFooterSize then .error .badFooterMagic else
  let bodyEnd := b.length - packFooterSize
  if slice b bodyEnd 4 ≠ footerMagic then .error .badFooterMagic else
  let footerRecordCount := leNat (slice b (bodyEnd + 4) 8)
  let scanned := countRecordsInFile b bodyEnd
  if scanned ≠ footerRecordCount then .error (.footerMismatch footerRecordCount scanned)
  else .ok bodyEnd

def openSealedFast (b : Bytes) : Except PackError Unit :=
  if b.length < 4 then .error (.io .unexpectedEof) else
  if slice b 0 4 ≠ packMagic then .error .badMagic else .ok ()

/-- Read a record at `offset` from a file handle and verify its hash. -/
def readAtFromFile (b : Bytes) (offset : Nat) (expectedHash : PageHash) : Except PackError Bytes :=
  if b.length < offset + (recordHeaderSize + pageSize) then .error (.truncatedRecord offset) else
  if recordLen b offset ≠ pageSize then .error (.truncatedRecord offset) else
  if recordHash b offset ≠ expectedHash then .error (.hashMismatch offset) else
  let payload := slice b (offset + recordHeaderSize) pageSize
  if blake3 payload ≠ recordHash b offset then .error (.hashMismatch offset) else
  .ok payload

/-- Open an unsealed pack: returns the end of its good records, their count, and whether the file
has to be truncated there. -/
def openUnsealed (b : Bytes) : Except PackError (Nat × Nat × Bool) :=
  if b.length < 4 then .error (.io .unexpectedEof) else
  if slice b 0 4 ≠ packMagic then .error .badMagic else
  .ok (openUnsealedLoop b b.length packHeaderSize 0)

def readAt (b : Bytes) (offset : Nat) : Except PackError (PageHash × Bytes) :=
  if b.length < offset + recordHeaderSize then .error (.truncatedRecord offset) else
  let len := recordLen b offset
  if b.length < offset + recordHeaderSize + len then .error (.truncatedRecord offset) else
  .ok (recordHash b offset, slice b (offset + recordHeaderSize) len)

def scan (b : Bytes) (bodyEnd : Nat) : Except PackError (List (Nat × PageHash)) :=
  scanLoop b bodyEnd bodyEnd packHeaderSize

end PackReader

end SnapStore
