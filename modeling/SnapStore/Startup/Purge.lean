import SnapStore.Disk.FileName
import SnapStore.Startup.Recovered

/-!
# The purge on the manifests directory

The directory is here what the operating system shows: any names, with files and directories under
them.  A file whose name is that of a reference is checked as the world's purge checks it
(`checkSpm_refToHex`).  A stem that is not 64 bytes of text is a violation; a stem of 64 bytes that
is not hexadecimal is none, as `hex_to_32(stem)?` leaves the check with `None`.
-/

namespace SnapStore

open Disk SnapshotStore

/-- An entry of a shard directory.  A directory can be neither read nor removed as a file. -/
inductive Item where
  | file (bytes : Bytes)
  | dir
deriving DecidableEq

def Item.read : Item → Option Bytes
  | .file bytes => some bytes
  | .dir => none

abbrev ShardDir := Directory Item

/-- An entry that is not a directory is `none`. -/
abbrev ManifestsDir := Directory (Option ShardDir)

/-- `OsStr::to_string_lossy`: U+FFFD replaces what is not UTF-8. -/
structure Lossy where
  text : Bytes → Bytes
  text_of_toStr : ∀ {b s}, toStr b = some s → text b = b
  replaced : ∀ {b}, toStr b = none → [0xef, 0xbf, 0xbd] <:+: text b

namespace ManifestsDir

def spm : Bytes := asBytes "spm"

def hexTo32 (hex : Bytes) : Option Digest :=
  if hex.length ≠ 64 then none else (Hex.decode hex).map Digest.ofBytes

def refToHex (r : SnapshotRef) : Bytes := Hex.encode r.bytes

def entry (d : ManifestsDir) (shard name : Bytes) : Option Item :=
  (d.find shard).bind fun s => s.bind fun s => s.find name

def refOf (lossy : Lossy) (name : Bytes) : Option SnapshotRef :=
  match (dot :: spm).isSuffixOf? (lossy.text name) with
  | some hex => if hex.length = 64 then hexTo32 hex else none
  | none => none

def listManifestRefs (lossy : Lossy) (d : ManifestsDir) : List SnapshotRef :=
  d.entries.flatMap fun
    | (_, some shard) => shard.entries.filterMap fun e => refOf lossy e.1
    | (_, none) => []

section

variable [Primitives]

/-- `check_spm_integrity`: a stem that is not hexadecimal and a file that cannot be read are no
violation. -/
def checkSpm (name : Bytes) (item : Item) : Option String :=
  let stem := ((fileStem name).bind toStr).getD ""
  if (asBytes stem).length ≠ 64 then some s!"filename stem is not 64 hex chars: {stem}" else
  (hexTo32 (asBytes stem)).bind fun expectedRef =>
    item.read.bind fun bytes => Startup.checkSpmIntegrity expectedRef bytes

def keeps (name : Bytes) (item : Item) : Bool :=
  extension name ≠ some spm ∨ checkSpm name item = none ∨ item = .dir

def purgeBadFooterManifests (d : ManifestsDir) : ManifestsDir :=
  d.map fun shard => shard.map fun shard => shard.filter keeps

def readManifestBytes (d : ManifestsDir) (r : SnapshotRef) : Except StoreError Bytes :=
  let hex := refToHex r
  match d.entry (hex.take 2) (hex ++ dot :: spm) with
  | none => .error .notFound
  | some .dir => .error (.io .other)
  | some (.file bytes) => verifyManifest r bytes

/-- The stem is the hash of the contents without the last 32 bytes, and these bytes are it too. -/
structure Genuine (stem bytes : Bytes) : Prop where
  named : stem = refToHex (blake3 (bytes.take (bytes.length - 32)))
  footer : (blake3 (bytes.take (bytes.length - 32))).bytes = bytes.drop (bytes.length - 32)

/-! ## Names of references -/

omit [Primitives] in
theorem length_refToHex (r : SnapshotRef) : (refToHex r).length = 64 := by
  rw [refToHex, Hex.length_encode, r.length_bytes]

omit [Primitives] in
theorem hexTo32_refToHex (r : SnapshotRef) : hexTo32 (refToHex r) = some r := by
  rw [hexTo32, if_neg (not_not.mpr (length_refToHex r)), refToHex, Hex.decode_encode,
    Option.map_some, Digest.ofBytes_bytes]

omit [Primitives] in
theorem refToHex_of_lower {hex : Bytes} (hlen : hex.length = 64) (h : ∀ c ∈ hex, Hex.Lower c) :
    ∃ r, refToHex r = hex := by
  obtain ⟨bs, hdecode, hencode⟩ := Hex.encode_of_decode (by rw [hlen]) h
  have hbs : bs.length = 32 := by
    have := Hex.length_of_decode hdecode
    omega
  exact ⟨⟨bs, hbs⟩, hencode⟩

omit [Primitives] in
theorem toStr_refToHex (r : SnapshotRef) : ∃ s, toStr (refToHex r) = some s :=
  exists_toStr_of_ascii fun _ hc => (Hex.lower_of_mem_encode hc).ascii

omit [Primitives] in
theorem rsplit_spm {stem : Bytes} (h : stem ≠ []) :
    rsplitFileAtDot (stem ++ dot :: spm) = (some stem, some spm) :=
  rsplitFileAtDot_append h (by decide +kernel) (by decide +kernel)

/-! ## The check of one file -/

theorem checkSpm_refToHex {name : Bytes} {r : SnapshotRef} (h : fileStem name = some (refToHex r))
    (b : Bytes) : checkSpm name (.file b) = Startup.checkSpmIntegrity r b := by
  obtain ⟨s, hs⟩ := toStr_refToHex r
  have hbytes := toStr_eq_some.mp hs
  simp only [checkSpm, h, Option.bind_some, hs, Option.getD_some]
  rw [hbytes, if_neg (not_not.mpr (length_refToHex r)), hexTo32_refToHex]
  rfl

theorem checkSpm_of_length {name stem : Bytes} {item : Item} (hstem : fileStem name = some stem)
    (h : toStr stem = none ∨ stem.length ≠ 64) : checkSpm name item ≠ none := by
  simp only [checkSpm, hstem, Option.bind_some]
  cases hs : toStr stem with
  | none =>
    rw [Option.getD_none, if_pos (by decide)]
    exact Option.some_ne_none _
  | some s =>
    have hlen : stem.length ≠ 64 := by
      rcases h with h | h
      · rw [hs] at h
        cases h
      · exact h
    rw [Option.getD_some, toStr_eq_some.mp hs, if_pos hlen]
    exact Option.some_ne_none _

theorem genuine_iff {stem b : Bytes} :
    Genuine stem b ↔ ∃ r, refToHex r = stem ∧ Startup.checkSpmIntegrity r b = none := by
  constructor
  · intro h
    have hlen : ¬ b.length < 32 := by
      have := congrArg List.length h.footer
      rw [Digest.length_bytes, List.length_drop] at this
      omega
    refine ⟨_, h.named.symm, ?_⟩
    rw [Startup.checkSpmIntegrity, if_neg hlen]
    dsimp only
    rw [if_neg (not_not.mpr h.footer), if_neg (not_not.mpr rfl)]
  · rintro ⟨r, hr, hcheck⟩
    rw [Startup.checkSpmIntegrity] at hcheck
    dsimp only at hcheck
    split at hcheck
    · cases hcheck
    · split at hcheck
      · cases hcheck
      · rename_i hfooter
        split at hcheck
        · cases hcheck
        · rename_i href
          exact ⟨by rw [← hr, not_not.mp href], not_not.mp hfooter⟩

/-! ## The purge of the directory -/

variable {d : ManifestsDir} {shard name bytes : Bytes}

omit [Primitives] in
theorem entry_eq_some {item : Item} : d.entry shard name = some item ↔
    ∃ s, d.find shard = some (some s) ∧ s.find name = some item := by
  simp only [entry, Option.bind_eq_some_iff]
  constructor
  · rintro ⟨_, hshard, s, rfl, hname⟩
    exact ⟨s, hshard, hname⟩
  · rintro ⟨s, hshard, hname⟩
    exact ⟨some s, hshard, s, rfl, hname⟩

theorem entry_purge {item : Item} : d.purgeBadFooterManifests.entry shard name = some item ↔
    d.entry shard name = some item ∧ keeps name item = true := by
  rw [entry_eq_some, entry_eq_some]
  constructor
  · rintro ⟨s, hshard, hname⟩
    obtain ⟨x, hx, hs⟩ := Directory.find_map.mp hshard
    obtain ⟨t, rfl, rfl⟩ := Option.map_eq_some_iff.mp hs
    obtain ⟨hname, hkeeps⟩ := Directory.find_filter.mp hname
    exact ⟨⟨t, hx, hname⟩, hkeeps⟩
  · rintro ⟨⟨t, hshard, hname⟩, hkeeps⟩
    exact ⟨t.filter keeps, Directory.find_map.mpr ⟨some t, hshard, rfl⟩,
      Directory.find_filter.mpr ⟨hname, hkeeps⟩⟩

theorem keeps_file (hext : extension name = some spm) :
    keeps name (.file bytes) = true ↔ checkSpm name (.file bytes) = none := by
  simp [keeps, hext]

/-- Every manifest file whose stem is 64 bytes of text has a stem of lower-case digits. -/
def LowerNames (d : ManifestsDir) : Prop :=
  ∀ shard name bytes stem, d.entry shard name = some (.file bytes) → extension name = some spm →
    fileStem name = some stem → toStr stem ≠ none → stem.length = 64 → ∀ c ∈ stem, Hex.Lower c

theorem genuine_of_kept (hd : LowerNames d) {stem : Bytes}
    (hentry : d.purgeBadFooterManifests.entry shard name = some (.file bytes))
    (hext : extension name = some spm) (hstem : fileStem name = some stem) :
    Genuine stem bytes := by
  obtain ⟨hentry, hkeeps⟩ := entry_purge.mp hentry
  have hcheck := (keeps_file hext).mp hkeeps
  have htext : ¬ (toStr stem = none ∨ stem.length ≠ 64) := fun h =>
    checkSpm_of_length hstem h hcheck
  rw [not_or, not_not] at htext
  obtain ⟨r, rfl⟩ := refToHex_of_lower htext.2 (hd _ _ _ _ hentry hext hstem htext.1 htext.2)
  rw [checkSpm_refToHex hstem] at hcheck
  exact genuine_iff.mpr ⟨r, rfl, hcheck⟩

theorem kept_of_genuine {stem : Bytes} (hentry : d.entry shard name = some (.file bytes))
    (hext : extension name = some spm) (hstem : fileStem name = some stem)
    (h : Genuine stem bytes) :
    d.purgeBadFooterManifests.entry shard name = some (.file bytes) := by
  obtain ⟨r, rfl, hcheck⟩ := genuine_iff.mp h
  rw [← checkSpm_refToHex hstem] at hcheck
  exact entry_purge.mpr ⟨hentry, (keeps_file hext).mpr hcheck⟩

/-! ## Listing and reading -/

omit [Primitives] in
theorem name_of_refOf {lossy : Lossy} {r : SnapshotRef} (h : refOf lossy name = some r) :
    ∃ hex, name = hex ++ dot :: spm ∧ hex.length = 64 ∧ hexTo32 hex = some r := by
  rw [refOf] at h
  split at h
  · rename_i hex hsuffix
    rw [List.isSuffixOf?_eq_some_iff_append_eq] at hsuffix
    split at h
    · rename_i hlen
      refine ⟨hex, ?_, hlen, h⟩
      cases hs : toStr name with
      | some s => rw [hsuffix, lossy.text_of_toStr hs]
      | none =>
        exfalso
        have hmark : 0xef ∈ lossy.text name := (lossy.replaced hs).subset List.mem_cons_self
        rw [← hsuffix, List.mem_append] at hmark
        rcases hmark with hmark | hmark
        · rw [hexTo32, if_neg (not_not.mpr hlen)] at h
          obtain ⟨bs, hdecode, -⟩ := Option.map_eq_some_iff.mp h
          exact Hex.nibble_of_decode hdecode hmark (Hex.nibble_of_not_ascii (by decide))
        · revert hmark
          decide +kernel
    · cases h
  · cases h

omit [Primitives] in
theorem mem_listManifestRefs {lossy : Lossy} {r : SnapshotRef} : r ∈ d.listManifestRefs lossy ↔
    ∃ shard name item, d.entry shard name = some item ∧ refOf lossy name = some r := by
  rw [listManifestRefs, List.mem_flatMap]
  constructor
  · rintro ⟨⟨shard, entries⟩, hshard, hr⟩
    cases entries with
    | none => cases hr
    | some s =>
      obtain ⟨e, he, hr⟩ := List.mem_filterMap.mp hr
      exact ⟨shard, e.1, e.2, entry_eq_some.mpr ⟨s, Directory.find_eq_some.mpr hshard,
        Directory.find_eq_some.mpr he⟩, hr⟩
  · rintro ⟨shard, name, item, hentry, hr⟩
    obtain ⟨s, hshard, hname⟩ := entry_eq_some.mp hentry
    exact ⟨(shard, some s), Directory.find_eq_some.mp hshard,
      List.mem_filterMap.mpr ⟨(name, item), Directory.find_eq_some.mp hname, hr⟩⟩

theorem readManifestBytes_of_genuine {r : SnapshotRef}
    (hentry : d.entry ((refToHex r).take 2) (refToHex r ++ dot :: spm) = some (.file bytes))
    (h : Genuine (refToHex r) bytes) : d.readManifestBytes r = .ok bytes := by
  obtain ⟨q, hq, hcheck⟩ := genuine_iff.mp h
  have hrq : some q = some r := by rw [← hexTo32_refToHex, hq, hexTo32_refToHex]
  cases hrq
  rw [readManifestBytes, hentry]
  exact Startup.checkSpmIntegrity_eq_none.mp hcheck

end

end ManifestsDir

namespace Sample

open ManifestsDir

attribute [local instance] primitives

/-- A text with nothing but the replacement character for a name that is not UTF-8. -/
def lossyText : Lossy where
  text b := if toStr b = none then [0xef, 0xbf, 0xbd] else b
  text_of_toStr h := if_neg (by rw [h]; exact Option.some_ne_none _)
  replaced h := by rw [if_pos h]

def tenBytes : Bytes := List.replicate 10 0 ++ (blake3 (List.replicate 10 0)).bytes

def tenRef : SnapshotRef := blake3 (List.replicate 10 0)

def upperStem : Bytes := asBytes "0A" ++ (refToHex tenRef).drop 2

def foreignStem : Bytes := List.replicate 64 0x7a

def foreignDir : ManifestsDir where
  entries := [
    (asBytes "zz", some ⟨[(foreignStem ++ dot :: spm, .file [])], by simp⟩),
    (asBytes "0A", some ⟨[(upperStem ++ dot :: spm, .file tenBytes)], by simp⟩)]
  nodup := by decide +kernel

def tidyDir : ManifestsDir where
  entries := [
    (asBytes "0a", some ⟨[(refToHex tenRef ++ dot :: spm, .file tenBytes),
      (asBytes "short.spm", .file [])], by decide +kernel⟩),
    (asBytes "00", some ⟨[(refToHex (blake3 []) ++ dot :: spm, .file [])], by simp⟩)]
  nodup := by decide +kernel

theorem lowerNames_tidyDir : LowerNames tidyDir := by
  have hall : ∀ e ∈ tidyDir.entries, ∀ f ∈ (e.2.map Directory.entries).getD [],
      ∀ stem ∈ fileStem f.1, stem.length = 64 → ∀ c ∈ stem, Hex.Lower c := by
    decide +kernel
  intro shard name bytes stem hentry _ hstem _ hlen
  obtain ⟨s, hshard, hname⟩ := entry_eq_some.mp hentry
  exact hall (shard, some s) (Directory.find_eq_some.mp hshard) (name, .file bytes)
    (Directory.find_eq_some.mp hname) stem hstem hlen

end Sample

end SnapStore
