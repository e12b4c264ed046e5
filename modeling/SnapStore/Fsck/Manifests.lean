import SnapStore.Checked
import SnapStore.Manifest.Exact
import SnapStore.PageChannel.Proto
import SnapStore.System

/-!
# The manifest check of `fsck`

`fsck` parses `.spm` files on its own: it verifies the footer and the name, and reads the entry table
without the codec.
-/

namespace SnapStore

open Disk Checked

namespace Fsck

inductive Violation where
  | badManifestFooter (path : String)
  | badManifestDecode (snapRefHex error : String)
deriving DecidableEq

def spmMagic : Bytes := [0x53, 0x50, 0x53, 0x4d, 0x41, 0x4e, 0x30, 0x31]

def spmFooterLen : Nat := 32

def spmHeaderLen : Nat := 96

def spmEntrySize : Nat := 40

def badDecode (ref : Digest) (error : String) : Violation :=
  .badManifestDecode (PageChannel.hex ref.bytes) error

def readEntry (checks : Bool) (data : Bytes) (i : Nat) :
    Except (Halt Violation) (PageHash × Nat) := do
  let off ← arith checks (i * spmEntrySize)
  let base ← arith checks (spmHeaderLen + off)
  let pageIndex ← uintAt 8 data base (base + 8)
  let bytes ← index data (base + 8) (base + 40)
  let hash ← toArray 32 bytes
  return (Digest.ofBytes hash, pageIndex)

variable [Primitives]

/-- `verify_spm_and_extract` in a build with overflow checks or without; `read` is what `fs::read`
returns. -/
def verifySpmAndExtract (checks : Bool) (path : String) (read : Except String Bytes)
    (expectedRef : Digest) : Except (Halt Violation) (List (PageHash × Nat)) := do
  let data ← read.mapError fun e => .error (badDecode expectedRef e)
  if data.length < spmFooterLen then throw (.error (.badManifestFooter path))
  let body ← index data 0 (data.length - spmFooterLen)
  let footer ← index data (data.length - spmFooterLen) data.length
  let storedFooter ← toArray 32 footer
  let computed := blake3 body
  if computed.bytes ≠ storedFooter ∨ computed ≠ expectedRef then
    throw (.error (.badManifestFooter path))
  if data.length < 8 then throw (.error (badDecode expectedRef "bad magic"))
  let start ← index data 0 8
  if start ≠ spmMagic then throw (.error (badDecode expectedRef "bad magic"))
  if data.length < spmHeaderLen then throw (.error (badDecode expectedRef "header truncated"))
  let headerLen ← uintAt 4 data 12 16
  if headerLen ≠ spmHeaderLen then
    throw (.error (badDecode expectedRef s!"unexpected header_len {headerLen}"))
  let entryCount ← uintAt 8 data 64 72
  let tableLen ← arith checks (entryCount * spmEntrySize)
  let tableEnd ← arith checks (spmHeaderLen + tableLen)
  if data.length - spmFooterLen < tableEnd then
    throw (.error (badDecode expectedRef "entry table truncated"))
  withCapacity entryCount spmEntrySize
  (List.range entryCount).mapM (readEntry checks data)

/-! ## With unbounded numbers -/

def extract (path : String) (data : Bytes) (expectedRef : Digest) :
    Except Violation (List (PageHash × Nat)) :=
  if data.length < spmFooterLen then .error (.badManifestFooter path) else
  if (blake3 (data.take (data.length - spmFooterLen))).bytes ≠
      data.drop (data.length - spmFooterLen) ∨
      blake3 (data.take (data.length - spmFooterLen)) ≠ expectedRef then
    .error (.badManifestFooter path) else
  if data.length < 8 then .error (badDecode expectedRef "bad magic") else
  if slice data 0 8 ≠ spmMagic then .error (badDecode expectedRef "bad magic") else
  if data.length < spmHeaderLen then .error (badDecode expectedRef "header truncated") else
  if leNat (slice data 12 4) ≠ spmHeaderLen then
    .error (badDecode expectedRef s!"unexpected header_len {leNat (slice data 12 4)}") else
  if data.length - spmFooterLen < spmHeaderLen + leNat (slice data 64 8) * spmEntrySize then
    .error (badDecode expectedRef "entry table truncated") else
  .ok ((List.range (leNat (slice data 64 8))).map fun i =>
    ((Manifest.entryAt data i).pageHash, (Manifest.entryAt data i).pageIndex))

omit [Primitives] in
theorem readEntry_eq {checks : Bool} {data : Bytes} {i : Nat} (hlt : data.length < isizeBound)
    (hi : spmHeaderLen + i * spmEntrySize + 40 ≤ data.length) :
    readEntry checks data i =
      .ok ((Manifest.entryAt data i).pageHash, (Manifest.entryAt data i).pageIndex) := by
  have hbound : isizeBound < usizeBound := by decide
  have hhash : (slice data (spmHeaderLen + i * spmEntrySize + 8) 32).length = 32 := by
    rw [length_slice]
    omega
  have hindex : (uintAt 8 data (spmHeaderLen + i * spmEntrySize)
      (spmHeaderLen + i * spmEntrySize + 8) : Except (Halt Violation) Nat) =
        .ok (Manifest.entryAt data i).pageIndex := uintAt_eq rfl (by omega)
  unfold readEntry
  simp only [arith_eq (by omega : i * spmEntrySize < usizeBound),
    arith_eq (by omega : spmHeaderLen + i * spmEntrySize < usizeBound), hindex,
    index_eq (by omega : spmHeaderLen + i * spmEntrySize + 8 ≤ spmHeaderLen + i * spmEntrySize + 40)
      hi, Nat.add_sub_add_left, toArray_eq hhash, bind, Except.bind, pure, Except.pure]
  rfl

theorem verifySpmAndExtract_eq {checks : Bool} {path : String} {data : Bytes} {ref : Digest}
    (hlt : data.length < isizeBound)
    (hcount : spmHeaderLen + leNat (slice data 64 8) * spmEntrySize < usizeBound) :
    verifySpmAndExtract checks path (.ok data) ref = (extract path data ref).mapError .error := by
  have hfoot : spmFooterLen = 32 := rfl
  have hhdr : spmHeaderLen = 96 := rfl
  have hsize : spmEntrySize = 40 := rfl
  have hbound : isizeBound < usizeBound := by decide
  have hread : (Except.ok data : Except String Bytes).mapError
      (fun e => Halt.error (badDecode ref e)) = .ok data := rfl
  unfold verifySpmAndExtract extract
  simp only [hread, bind, Except.bind, throw, throwThe, MonadExceptOf.throw]
  refine ite_mapError fun hlen => ?_
  have hfooter : (data.drop (data.length - spmFooterLen)).length = 32 := by
    rw [List.length_drop]
    omega
  simp only [index_take (by omega : data.length - spmFooterLen ≤ data.length),
    index_suffix (by omega : data.length - spmFooterLen ≤ data.length), toArray_eq hfooter]
  refine ite_mapError fun _ => ite_mapError fun hmagic => ?_
  simp only [index_eq (Nat.zero_le 8) (Nat.le_of_not_lt hmagic)]
  refine ite_mapError fun _ => ite_mapError fun hheader => ?_
  simp only [uintAt_eq (rfl : 12 + 4 = 16) (by omega : 16 ≤ data.length)]
  refine ite_mapError fun _ => ?_
  simp only [uintAt_eq (rfl : 64 + 8 = 72) (by omega : 72 ≤ data.length)]
  generalize leNat (slice data 64 8) = n at hcount ⊢
  simp only [arith_eq (by omega : n * spmEntrySize < usizeBound), arith_eq hcount]
  refine ite_mapError fun htable => ?_
  simp only [withCapacity_eq (by omega : n * spmEntrySize < isizeBound)]
  refine mapM_eq_ok fun i hi => readEntry_eq hlt ?_
  have hmul : (i + 1) * spmEntrySize ≤ n * spmEntrySize :=
    Nat.mul_le_mul_right _ (List.mem_range.mp hi)
  rw [Nat.succ_mul] at hmul
  omega

/-! ## What `fsck` checks and what it does not -/

structure Passes (data : Bytes) (ref : Digest) : Prop where
  footer : (blake3 (data.take (data.length - spmFooterLen))).bytes =
    data.drop (data.length - spmFooterLen)
  name : blake3 (data.take (data.length - spmFooterLen)) = ref
  magic : slice data 0 8 = spmMagic
  length : spmHeaderLen ≤ data.length
  headerLen : leNat (slice data 12 4) = spmHeaderLen
  table : spmHeaderLen + leNat (slice data 64 8) * spmEntrySize ≤ data.length - spmFooterLen

/-- The rules of the format that `fsck` does not check. -/
structure Structured (data : Bytes) : Prop where
  wireVersion : leNat (slice data 8 2) = Manifest.wireVersion
  flags : leNat (slice data 10 2) / 4 = 0
  reserved : leNat (slice data 92 4) = 0
  pageSize : leNat (slice data 56 8) = pageSize
  aligned : leNat (slice data 48 8) % SnapStore.pageSize = 0
  size : data.length - spmFooterLen =
    spmHeaderLen + leNat (slice data 64 8) * spmEntrySize + leNat (slice data 72 8)
  ascending : Manifest.ascending
    ((List.range (leNat (slice data 64 8))).map (Manifest.entryAt data)) = true
  parent : ∃ parent, Manifest.decodeParent (leNat (slice data 10 2) % 2 = 1) (slice data 16 32)
    ((List.range (leNat (slice data 64 8))).map (Manifest.entryAt data))
    (leNat (slice data 48 8) / SnapStore.pageSize) = .ok parent
  blob : Manifest.checkBlob (leNat (slice data 10 2) / 2 = 1)
    (slice data (spmHeaderLen + leNat (slice data 64 8) * spmEntrySize) (leNat (slice data 72 8)))
    (leNat (slice data 72 8)) (leNat (slice data 80 8)) = .ok ()

theorem extract_eq_ok {path : String} {data : Bytes} {ref : Digest}
    {entries : List (PageHash × Nat)} :
    extract path data ref = .ok entries ↔ Passes data ref ∧
      entries = ((List.range (leNat (slice data 64 8))).map (Manifest.entryAt data)).map
        fun e => (e.pageHash, e.pageIndex) := by
  unfold extract
  simp only [ite_error_eq_ok, not_or, not_not, Nat.not_lt, Except.ok.injEq, List.map_map]
  constructor
  · rintro ⟨-, ⟨hfooter, hname⟩, -, hmagic, hlen, hheader, htable, rfl⟩
    exact ⟨⟨hfooter, hname, hmagic, hlen, hheader, htable⟩, rfl⟩
  · rintro ⟨⟨hfooter, hname, hmagic, hlen, hheader, htable⟩, rfl⟩
    have hhdr : spmHeaderLen = 96 := rfl
    have hfoot : spmFooterLen = 32 := rfl
    exact ⟨by omega, ⟨hfooter, hname⟩, by omega, hmagic, hlen, hheader, htable, rfl⟩

theorem passes_of_accepted {data : Bytes} {m : Manifest} (h : Manifest.Accepted data m) :
    Passes data (Manifest.snapshotRef data) where
  footer := h.footer
  name := rfl
  magic := h.magic
  length := (Nat.le_add_right _ _).trans h.length
  headerLen := h.headerLen
  table := by
    have hsize := h.size
    show Manifest.headerLen + _ * Manifest.entrySize ≤ data.length - Manifest.footerLen
    omega

theorem decode_of_passes {data : Bytes} {ref : Digest} (h : Passes data ref)
    (hs : Structured data) : ∃ m, Manifest.decode data = .ok m ∧
      m.entries = (List.range (leNat (slice data 64 8))).map (Manifest.entryAt data) := by
  obtain ⟨parent, hparent⟩ := hs.parent
  have hlen : ¬ data.length < Manifest.headerLen + Manifest.footerLen := by
    have htable := h.table
    have hlength := h.length
    have hhdr : spmHeaderLen = 96 := rfl
    have hfoot : spmFooterLen = 32 := rfl
    show ¬ data.length < 96 + 32
    omega
  have hsize : data.length - Manifest.footerLen = Manifest.headerLen +
      leNat (slice data 64 8) * Manifest.entrySize + leNat (slice data 72 8) := hs.size
  have hblob : Manifest.checkBlob (leNat (slice data 10 2) / 2 = 1)
      (slice data (Manifest.headerLen + leNat (slice data 64 8) * Manifest.entrySize)
        (leNat (slice data 72 8))) (leNat (slice data 72 8)) (leNat (slice data 80 8)) = .ok () :=
    hs.blob
  have hfooter : (blake3 (data.take (data.length - Manifest.footerLen))).bytes =
      data.drop (data.length - Manifest.footerLen) := h.footer
  have hmagic : slice data 0 8 = Manifest.magic := h.magic
  have hheader : leNat (slice data 12 4) = Manifest.headerLen := h.headerLen
  unfold Manifest.decode
  simp only [bind, Except.bind, pure, Except.pure, throw, throwThe, MonadExceptOf.throw]
  rw [if_neg hlen, if_neg (not_not.mpr hfooter), if_neg (not_not.mpr hmagic),
    if_neg (not_not.mpr hs.wireVersion), if_neg (not_not.mpr hs.flags),
    if_neg (not_not.mpr hheader), if_neg (not_not.mpr hs.reserved),
    if_neg (not_not.mpr hs.pageSize), if_neg (not_not.mpr hs.aligned), hsize,
    if_neg (Nat.lt_irrefl _), if_neg (Nat.lt_irrefl _), hs.ascending, hparent, hblob]
  exact ⟨_, rfl, rfl⟩

end Fsck

namespace Sample

attribute [local instance] primitives

open Fsck

def spmHeader (version entryCount : Nat) : Bytes :=
  spmMagic ++ leBytes 2 version ++ leBytes 2 0 ++ leBytes 4 spmHeaderLen ++ List.replicate 32 0 ++
    leBytes 8 0 ++ leBytes 8 pageSize ++ leBytes 8 entryCount ++ leBytes 8 0 ++ leBytes 8 0 ++
    leBytes 4 0 ++ leBytes 4 0

def spmFile (version entryCount : Nat) : Bytes :=
  spmHeader version entryCount ++ (blake3 (spmHeader version entryCount)).bytes

end Sample

end SnapStore
