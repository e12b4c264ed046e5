import SnapStore.Pagestore.TornTail

/-!
# Telling sealed packs from others

The test for a sealed pack reads the last 44 bytes of the file: the footer magic and a record count
that a scan of the record headers confirms.  In a pack that was never sealed these bytes belong to
a record, that is to guest memory, and a page may well hold a footer with the right count.  This is
the only way an unsealed pack is taken for a sealed one.
-/

namespace SnapStore

open Disk Conc

/-- The bytes at `e` read as the magic and the record count of a footer, in a pack of `count`
records of which some lie below `e`. -/
def FooterAt (b : Bytes) (count e : Nat) : Prop :=
  slice b e 4 = footerMagic ∧ leNat (slice b (e + 4) 8) = wholeRecords count e

def NoImitation (b : Bytes) (count : Nat) : Prop :=
  ∀ e, packHeaderSize ≤ e → e + packFooterSize ≤ b.length → ¬ FooterAt b count e

variable {hdr b : Bytes} {rs : List Entry}

theorem recordLen_part (hh : IsHeader hdr) (hb : b <+: openPack hdr rs) {j : Nat}
    (hj : j < rs.length) (hroom : recordOffset j + recordHeaderSize ≤ b.length) :
    recordLen b (recordOffset j) = pageSize := by
  obtain ⟨r, rest, hdrop⟩ : ∃ r rest, rs.drop j = r :: rest :=
    ⟨_, _, List.drop_eq_getElem_cons hj⟩
  have hsplit : openPack hdr rs = openPack hdr (rs.take j) ++ (encodeRecords (r :: rest) ++ []) := by
    rw [← hdrop, List.append_nil, openPack, openPack, List.append_assoc, ← encodeRecords_append,
      List.take_append_drop]
  have hrec := hasRecord_head (openPack hdr (rs.take j)) [] r rest
  rw [← hsplit, length_openPack hh, List.length_take, Nat.min_eq_left hj.le] at hrec
  rw [← hrec.len, recordLen, recordLen]
  refine congrArg leNat ( slice_prefix hb ?_).symm
  simp only [recordHeaderSize] at hroom
  omega

theorem countRecordsLoop_part (hh : IsHeader hdr) (hb : b <+: openPack hdr rs) {e : Nat}
    (he : e ≤ b.length) (hhdr : packHeaderSize ≤ e) (fuel : Nat) :
    ∀ j count, j ≤ wholeRecords rs.length e → e - recordOffset j ≤ fuel →
      countRecordsLoop b e fuel (recordOffset j) count =
        count + (wholeRecords rs.length e - j) := by
  have hlen := hb.length_le
  rw [length_openPack hh] at hlen
  have hpos : 0 < recordHeaderSize := by decide
  have hsize : recordHeaderSize ≤ recordSize := by decide
  -- at the last whole record the scan stops
  have hlast : ∀ j, j ≤ wholeRecords rs.length e → e < recordOffset (j + 1) →
      wholeRecords rs.length e - j = 0 := fun j _ hlt =>
    Nat.sub_eq_zero_of_le (wholeRecords_le_of_lt hhdr hlt)
  induction fuel with
  | zero =>
    intro j count hj hfuel
    have hsucc := PackWriter.recordOffset_succ j
    rw [hlast j hj (by omega)]
    rfl
  | succ fuel ih =>
    intro j count hj hfuel
    have hsucc := PackWriter.recordOffset_succ j
    by_cases hend : recordOffset j < e
    swap
    · rw [countRecordsLoop, if_neg hend, hlast j hj (by omega)]
      rfl
    rw [countRecordsLoop, if_pos hend]
    by_cases hheader : e - recordOffset j < recordHeaderSize
    · rw [if_pos hheader, hlast j hj (by omega)]
      rfl
    have hjlt : j < rs.length := by
      by_contra hge
      have hmono := recordOffset_mono (Nat.le_of_not_lt hge)
      omega
    rw [if_neg hheader, recordLen_part hh hb hjlt (by omega)]
    show (if e < recordOffset j + recordSize then count
      else countRecordsLoop b e fuel (recordOffset j + recordSize) (count + 1)) = _
    rw [← hsucc]
    by_cases hwhole : e < recordOffset (j + 1)
    · rw [if_pos hwhole, hlast j hj hwhole]
      rfl
    · have hnext := le_wholeRecords hhdr hjlt (not_lt.mp hwhole)
      rw [if_neg hwhole, ih (j + 1) (count + 1) hnext (by omega)]
      omega

theorem openSealed_part (hh : IsHeader hdr) (hb : b <+: openPack hdr rs)
    (hn : packHeaderSize ≤ b.length) :
    (∃ e, PackReader.openSealed b = .ok e) ↔ packHeaderSize + packFooterSize ≤ b.length ∧
      FooterAt b rs.length (b.length - packFooterSize) := by
  have hshort : ¬ b.length < 4 := by
    simp only [packHeaderSize] at hn
    omega
  have hmagic : slice b 0 4 = packMagic := by
    have hpack : slice (openPack hdr rs) 0 4 = packMagic := hh.slice_append _
    rw [← hpack, slice_prefix hb (by omega)]
  rw [PackReader.openSealed, if_neg hshort, if_neg (not_not.mpr hmagic)]
  by_cases hroom : b.length < packHeaderSize + packFooterSize
  · rw [if_pos hroom]
    constructor
    · rintro ⟨e, he⟩
      cases he
    · rintro ⟨hle, -⟩
      exact absurd hroom (Nat.not_lt.mpr hle)
  have hbody : packHeaderSize ≤ b.length - packFooterSize := by omega
  have hcount : countRecordsInFile b (b.length - packFooterSize) =
      wholeRecords rs.length (b.length - packFooterSize) := by
    have h := countRecordsLoop_part hh hb (Nat.sub_le _ _) hbody _ 0 0 (Nat.zero_le _)
      (Nat.sub_le _ _)
    rwa [Nat.zero_add, Nat.sub_zero] at h
  rw [if_neg hroom]
  dsimp only
  rw [hcount, FooterAt]
  by_cases hfooter : slice b (b.length - packFooterSize) 4 = footerMagic
  · rw [if_neg (not_not.mpr hfooter)]
    by_cases hsame : wholeRecords rs.length (b.length - packFooterSize) =
        leNat (slice b (b.length - packFooterSize + 4) 8)
    · rw [if_neg (not_not.mpr hsame)]
      exact ⟨fun _ => ⟨not_lt.mp hroom, hfooter, hsame.symm⟩, fun _ => ⟨_, rfl⟩⟩
    · rw [if_pos hsame]
      constructor
      · rintro ⟨e, he⟩
        cases he
      · exact fun h => absurd h.2.2.symm hsame
  · rw [if_pos hfooter]
    constructor
    · rintro ⟨e, he⟩
      cases he
    · exact fun h => absurd h.2.1 hfooter

theorem NoImitation.not_openSealed (h : NoImitation (openPack hdr rs) rs.length)
    (hh : IsHeader hdr) (hb : b <+: openPack hdr rs) (hn : packHeaderSize ≤ b.length) :
    ¬ ∃ e, PackReader.openSealed b = .ok e := by
  rw [openSealed_part hh hb hn]
  intro ⟨hroom, hmagic, hcount⟩
  have hlen := hb.length_le
  have hsize : 12 ≤ packFooterSize := by decide
  refine h (b.length - packFooterSize) (by omega) (by omega) ⟨?_, ?_⟩
  · rw [ slice_prefix hb (by omega), hmagic]
  · rw [ slice_prefix hb (by omega), hcount]

section

variable [Primitives]

/-- Pages are appended to a new pack that is never sealed, and the file is cut anywhere behind its
header.  If no bytes of the file imitate a footer, the test for a sealed pack fails, and the
recovery of an unsealed pack keeps the records below the cut. -/
theorem cut_pack_is_not_sealed (fs : PagesFs) (id : PackId) (createdUnix maxBytes : Nat)
    (calls : List (Oracle × WriterCall)) (o : Oracle) (n : Nat) (w : Appending) (s : World)
    (hcalls : ∀ c ∈ calls, Honest c) (ho : o.Quiet)
    (hw : w = Appending.flushed fs id createdUnix maxBytes calls o)
    (hno : NoImitation w.file w.records.length) (hn : packHeaderSize ≤ n) (hle : n ≤ w.file.length)
    (hs : s.pages.readName (.spk id) = some (w.file.take n)) :
    PageStore.isPackSealed s id = false ∧
      ∃ cut, PackReader.openUnsealed (w.file.take n) =
        .ok (recordOffset (wholeRecords w.records.length n), wholeRecords w.records.length n, cut) := by
  have hh := isHeader_packHeader id createdUnix
  have hfile : w.file = openPack (packHeader id createdUnix) w.records :=
    hw ▸ Appending.file_flushed hcalls ho
  have hhash : Hashed w.records := hw ▸ Appending.hashed_flushed hcalls
  have hlen : (w.file.take n).length = n := by rw [List.length_take, Nat.min_eq_left hle]
  rw [hfile] at hno hs hlen ⊢
  constructor
  · have hsealed := hno.not_openSealed hh (List.take_prefix n _) (by rw [hlen]; exact hn)
    rw [PageStore.isPackSealed, PageStore.packBytes, hs]
    dsimp only
    split
    · next e he => exact absurd ⟨e, he⟩ hsealed
    · rfl
  · have hrec := openUnsealed_torn hh hhash hn rfl fun hne : ([] : Bytes) ≠ [] => absurd rfl hne
    rw [List.append_nil] at hrec
    exact ⟨_, hrec⟩

end

namespace Sample

attribute [local instance] primitives

def footerPage : Page where
  bytes := List.replicate 4052 0 ++ (footerMagic ++ (leBytes 8 0 ++ List.replicate 32 0))
  length_bytes := by
    rw [List.length_append, List.length_append, List.length_append, List.length_replicate,
      List.length_replicate, length_leBytes]
    rfl

def footerPack : Appending :=
  Appending.flushed .empty 0 0 packMaxBytes
    [(quiet, .append (blake3 footerPage.bytes) footerPage)] quiet

/-- The pack is cut behind its only record, and taken for a sealed pack without records. -/
theorem guest_page_imitates_footer :
    packHeaderSize ≤ recordOffset 1 ∧
      PageStore.isPackSealed (withPack (footerPack.file.take (recordOffset 1))) 0 = true := by
  have hsealed : (PackReader.openSealed (footerPack.file.take (recordOffset 1))).isOk = true := by
    decide +kernel
  refine ⟨by decide, ?_⟩
  rw [PageStore.isPackSealed, PageStore.packBytes, readName_withPack]
  dsimp only
  cases h : PackReader.openSealed (footerPack.file.take (recordOffset 1)) with
  | ok e => rfl
  | error e =>
    rw [h] at hsealed
    cases hsealed

theorem noImitation_onePage : NoImitation onePage.file onePage.records.length := by
  have hbytes : (onePage.file.drop packHeaderSize).all (· != 0x53) = true := by
    decide +kernel
  intro e he _ hfooter
  have hmem : (0x53 : UInt8) ∈ onePage.file.drop packHeaderSize := by
    have hslice : (0x53 : UInt8) ∈ slice onePage.file e 4 := by
      rw [hfooter.1]
      decide
    obtain ⟨d, rfl⟩ := Nat.exists_eq_add_of_le he
    have hdrop := List.mem_of_mem_take hslice
    rw [← List.drop_drop] at hdrop
    exact List.mem_of_mem_drop hdrop
  have hne := List.all_eq_true.mp hbytes _ hmem
  simp at hne

theorem cut_pack_is_not_sealed_one :
    PageStore.isPackSealed (withPack (onePage.file.take 100)) 0 = false := by
  have hlen : 100 ≤ onePage.file.length := by decide +kernel
  exact (cut_pack_is_not_sealed .empty 0 0 packMaxBytes _ quiet 100 onePage _ honest_onePage
    (fun _ _ => rfl) rfl noImitation_onePage (by decide) hlen (readName_withPack _)).1

end Sample

end SnapStore
