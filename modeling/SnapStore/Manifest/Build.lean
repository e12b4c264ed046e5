import SnapStore.Manifest.Exact
import SnapStore.System

/-!
# Building manifests

`new_full` and `new_delta` sort the entries and check them as the decoder does.  Two checks of the
decoder are not made: a DELTA manifest may name the all-zero parent, and the uncompressed length
of a compressed device blob is taken on trust.  These are the only differences.
-/

namespace SnapStore

open Disk

namespace Manifest

def validateDeviceBlob (blob : DeviceBlob) : Except ManifestError Unit :=
  if blob.zstd = false ∧ blob.rawLen ≠ blob.bytes.length then
    .error (.nonZstdRawLenMismatch blob.rawLen blob.bytes.length)
  else .ok ()

def sortEntries (entries : List ManifestEntry) : List ManifestEntry :=
  entries.mergeSort fun a b => a.pageIndex ≤ b.pageIndex

def newFull (guestRamBytes : Nat) (entries : List ManifestEntry) (deviceBlob : DeviceBlob) :
    Except ManifestError Manifest :=
  if guestRamBytes % pageSize ≠ 0 then .error (.guestRamNotAligned guestRamBytes) else
  let entries := sortEntries entries
  let expectedPages := guestRamBytes / pageSize
  if entries.length ≠ expectedPages then
    .error (.fullCountMismatch entries.length expectedPages) else
  if entries.map (·.pageIndex) ≠ List.range entries.length then .error .fullNotContiguous else
  match validateDeviceBlob deviceBlob with
  | .error e => .error e
  | .ok () => .ok {
      version := wireVersion
      delta := false
      parent := none
      guestRamBytes := guestRamBytes
      entries := entries
      deviceBlob := deviceBlob }

def newDelta (parent : SnapshotRef) (guestRamBytes : Nat) (entries : List ManifestEntry)
    (deviceBlob : DeviceBlob) : Except ManifestError Manifest :=
  if guestRamBytes % pageSize ≠ 0 then .error (.guestRamNotAligned guestRamBytes) else
  let entries := sortEntries entries
  if !ascending entries then .error .entriesNotAscending else
  let maxIdx := guestRamBytes / pageSize
  match entries.find? fun e => maxIdx ≤ e.pageIndex with
  | some e => .error (.deltaIndexOutOfRange e.pageIndex maxIdx)
  | none =>
    match validateDeviceBlob deviceBlob with
    | .error e => .error e
    | .ok () => .ok {
        version := wireVersion
        delta := true
        parent := some parent
        guestRamBytes := guestRamBytes
        entries := entries
        deviceBlob := deviceBlob }

/-- The arguments of a constructor; a DELTA manifest has a parent.  The bounds are those of
`u64`, `u32` and of the lengths of vectors. -/
structure Parts where
  parent : Option SnapshotRef
  guestRamBytes : Nat
  entries : List ManifestEntry
  deviceBlob : DeviceBlob
  ram_lt : guestRamBytes < 2 ^ 64
  index_lt : ∀ e ∈ entries, e.pageIndex < 2 ^ 64
  entries_lt : entries.length * entrySize < isizeBound
  format_lt : deviceBlob.format < 2 ^ 32
  bytes_lt : deviceBlob.bytes.length < isizeBound
  rawLen_lt : deviceBlob.rawLen < 2 ^ 64

def Parts.build (a : Parts) : Except ManifestError Manifest :=
  match a.parent with
  | none => newFull a.guestRamBytes a.entries a.deviceBlob
  | some parent => newDelta parent a.guestRamBytes a.entries a.deviceBlob

/-! ## What a constructor returns -/

theorem validateDeviceBlob_eq_ok {blob : DeviceBlob} :
    validateDeviceBlob blob = .ok () ↔ (blob.zstd = false → blob.rawLen = blob.bytes.length) := by
  rw [validateDeviceBlob, ite_error_eq_ok]
  simp

theorem length_sortEntries (es : List ManifestEntry) : (sortEntries es).length = es.length :=
  List.length_mergeSort es

theorem mem_sortEntries {es : List ManifestEntry} {e : ManifestEntry} :
    e ∈ sortEntries es ↔ e ∈ es := List.mem_mergeSort

theorem pairwise_of_map_range {es : List ManifestEntry} {n : Nat}
    (h : es.map (·.pageIndex) = List.range n) :
    es.Pairwise fun a b => a.pageIndex < b.pageIndex := by
  have hrange : (es.map (·.pageIndex)).Pairwise (· < ·) := by
    rw [h]
    exact List.pairwise_lt_range
  exact List.pairwise_map.mp hrange

structure Parts.Built (a : Parts) (m : Manifest) : Prop where
  version : m.version = 1
  delta : m.delta = a.parent.isSome
  parent : m.parent = a.parent
  ram : m.guestRamBytes = a.guestRamBytes
  entries : m.entries = sortEntries a.entries
  blob : m.deviceBlob = a.deviceBlob
  aligned : m.guestRamBytes % 4096 = 0
  ascending : m.entries.Pairwise fun a b => a.pageIndex < b.pageIndex
  inRange : ∀ e ∈ m.entries, e.pageIndex < m.guestRamBytes / 4096
  covers : m.delta = false → m.entries.map (·.pageIndex) = List.range (m.guestRamBytes / 4096)
  plain : m.deviceBlob.zstd = false → m.deviceBlob.rawLen = m.deviceBlob.bytes.length

theorem built_of_newFull {a : Parts} {m : Manifest} (hp : a.parent = none)
    (h : newFull a.guestRamBytes a.entries a.deviceBlob = .ok m) : a.Built m := by
  simp only [newFull, ite_error_eq_ok, not_not] at h
  obtain ⟨haligned, hlen, hidx, h⟩ := h
  rw [hlen] at hidx
  split at h
  · cases h
  · next hblob =>
    cases h
    refine ⟨rfl, by rw [hp]; rfl, hp.symm, rfl, rfl, rfl, haligned, pairwise_of_map_range hidx,
      ?_, fun _ => hidx, validateDeviceBlob_eq_ok.mp hblob⟩
    intro e he
    have hmem : e.pageIndex ∈ (sortEntries a.entries).map (·.pageIndex) := List.mem_map_of_mem he
    rw [hidx] at hmem
    exact List.mem_range.mp hmem

theorem built_of_newDelta {a : Parts} {m : Manifest} {parent : SnapshotRef}
    (hp : a.parent = some parent)
    (h : newDelta parent a.guestRamBytes a.entries a.deviceBlob = .ok m) : a.Built m := by
  simp only [newDelta, ite_error_eq_ok, not_not, Bool.not_eq_true', Bool.not_eq_false] at h
  obtain ⟨haligned, hasc, h⟩ := h
  split at h
  · cases h
  · next hfind =>
    split at h
    · cases h
    · next hblob =>
      cases h
      refine ⟨rfl, by rw [hp]; rfl, hp.symm, rfl, rfl, rfl, haligned, (ascending_iff _).mp hasc,
        ?_, by simp, validateDeviceBlob_eq_ok.mp hblob⟩
      intro e he
      have hlt := List.find?_eq_none.mp hfind e he
      rw [decide_eq_true_eq, not_le] at hlt
      exact hlt

theorem Parts.built {a : Parts} {m : Manifest} (h : a.build = .ok m) : a.Built m := by
  unfold build at h
  split at h
  · next hp => exact built_of_newFull hp h
  · next parent hp => exact built_of_newDelta hp h

theorem Parts.Built.fits {a : Parts} {m : Manifest} (h : a.Built m) : m.Fits where
  ram := by
    rw [h.ram]
    exact a.ram_lt
  count := by
    have hlt := a.entries_lt
    rw [h.entries, length_sortEntries]
    simp only [entrySize, isizeBound] at hlt
    omega
  blobLen := by
    have hlt := a.bytes_lt
    rw [h.blob]
    simp only [isizeBound] at hlt
    omega
  rawLen := by
    rw [h.blob]
    exact a.rawLen_lt
  format := by
    rw [h.blob]
    exact a.format_lt
  index := by
    intro e he
    rw [h.entries] at he
    exact a.index_lt e (mem_sortEntries.mp he)

section

variable [Primitives]

/-- What the constructors leave to their callers: a parent is not the all-zero reference, and a
compressed device blob has the uncompressed length it is given with. -/
structure Parts.Sound (a : Parts) : Prop where
  parent : ∀ p, a.parent = some p → p.bytes ≠ zeroHash
  compressed : a.deviceBlob.zstd = true →
    ∃ raw, zstdDecodeAll a.deviceBlob.bytes = some raw ∧ a.deviceBlob.rawLen = raw.length

theorem Parts.Built.valid {a : Parts} {m : Manifest} (h : a.Built m) (hs : a.Sound) :
    m.Valid := by
  refine ⟨h.version, h.aligned, h.ascending, ?_, ?_, h.plain, ?_⟩
  · intro hd
    refine ⟨?_, h.covers hd⟩
    have hp := h.delta
    rw [hd, ← h.parent] at hp
    simpa using hp.symm
  · intro hd
    have hp := h.delta
    rw [hd] at hp
    obtain ⟨p, hp⟩ := Option.isSome_iff_exists.mp hp.symm
    exact ⟨⟨p, h.parent.trans hp, hs.parent p hp⟩, h.inRange⟩
  · intro hz
    rw [h.blob] at hz ⊢
    exact hs.compressed hz

theorem Parts.Built.sound {a : Parts} {m : Manifest} (h : a.Built m) (hv : m.Valid) :
    a.Sound := by
  constructor
  · intro p hp
    have hd : m.delta = true := by rw [h.delta, hp, Option.isSome_some]
    obtain ⟨⟨q, hq, hne⟩, -⟩ := hv.delta hd
    rw [h.parent, hp] at hq
    rw [Option.some.inj hq]
    exact hne
  · intro hz
    rw [← h.blob] at hz ⊢
    exact hv.compressed hz

/-- A manifest that a constructor returned decodes from its canonical bytes exactly if its
arguments are sound. -/
theorem built_decodes_iff (a : Parts) (m : Manifest) (h : a.build = .ok m) :
    decode m.encode = .ok m ↔ a.Sound := by
  have hbuilt := Parts.built h
  rw [decode_eq_ok_iff]
  constructor
  · intro hd
    exact hbuilt.sound hd.2.1
  · intro hs
    exact ⟨hbuilt.fits, hbuilt.valid hs, rfl⟩

end

end Manifest

namespace Sample

attribute [local instance] primitives

def emptyParts (parent : Option SnapshotRef) (zstd : Bool) : Manifest.Parts where
  parent := parent
  guestRamBytes := 0
  entries := []
  deviceBlob := ⟨0, zstd, [], 0⟩
  ram_lt := by decide
  index_lt := by simp
  entries_lt := by decide
  format_lt := Nat.two_pow_pos 32
  bytes_lt := Nat.two_pow_pos 63
  rawLen_lt := Nat.two_pow_pos 64

def emptyManifest (parent : Option SnapshotRef) (zstd : Bool) : Manifest :=
  ⟨1, parent.isSome, parent, 0, [], ⟨0, zstd, [], 0⟩⟩

theorem build_emptyParts (parent : Option SnapshotRef) (zstd : Bool) :
    (emptyParts parent zstd).build = .ok (emptyManifest parent zstd) := by
  cases parent <;> cases zstd <;>
    simp [emptyParts, Manifest.Parts.build, Manifest.newFull, Manifest.newDelta,
      Manifest.sortEntries, Manifest.ascending, Manifest.validateDeviceBlob, emptyManifest,
      Manifest.wireVersion, pageSize]

def zeroRef : SnapshotRef := Digest.ofBytes []

theorem built_decodes_empty :
    Manifest.decode (emptyManifest none false).encode = .ok (emptyManifest none false) :=
  (Manifest.built_decodes_iff (emptyParts none false) _ (build_emptyParts none false)).mpr
    ⟨by simp [emptyParts], by simp [emptyParts]⟩

/-- Two manifests that their constructors return and the decoder refuses: a DELTA of the all-zero
reference, and one with a compressed device blob that does not decompress. -/
theorem built_and_refused :
    (emptyParts (some zeroRef) false).build = .ok (emptyManifest (some zeroRef) false) ∧
      Manifest.decode (emptyManifest (some zeroRef) false).encode = .error .deltaZeroParent ∧
      (emptyParts none true).build = .ok (emptyManifest none true) ∧
      Manifest.decode (emptyManifest none true).encode = .error (.zstdRawLenMismatch 0 0) := by
  refine ⟨build_emptyParts _ _, ?_, build_emptyParts _ _, ?_⟩
  · decide +kernel
  · decide +kernel

end Sample

end SnapStore
