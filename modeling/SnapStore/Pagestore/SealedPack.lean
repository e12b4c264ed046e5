import SnapStore.Pagestore.Contents
import SnapStore.Pagestore.TornTail

/-!
# Sealed packs read back

The records of a pack that was written without a failure and sealed, as the readers see them: the
full validation, the header scan, the count, and the reads at the offsets the writer returned.
-/

namespace SnapStore

open Disk

namespace Appending

def appended (calls : List (Oracle × WriterCall)) : List Entry :=
  calls.filterMap fun c => match c.2 with
    | .append h p => some (h, p)
    | .flushBuf => none

structure Tracks (name : PageFile) (maxBytes : Nat) (s : Appending) : Prop where
  holds : s.writer.Holds s.file s.records
  linked : s.pages.lookup name = some s.writer.file
  cap : s.writer.maxBytes = maxBytes
  offsets : (s.acked.map fun r => (r.1, r.2.1)).reverse = entriesAt packHeaderSize s.records
  room : s.records ≠ [] → recordOffset s.records.length ≤ maxBytes

variable {name : PageFile} {maxBytes : Nat} {s : Appending} {calls : List (Oracle × WriterCall)}

theorem Tracks.flushBuf (h : s.Tracks name maxBytes) {o : Oracle} (ho : o.Quiet) :
    (s.step (o, .flushBuf)).Tracks name maxBytes := by
  obtain ⟨fs, hflush, hc, hfs⟩ := PackWriter.flushBuf_end (ho .pack .write) h.holds.pos
  have hstep : s.step (o, .flushBuf) = ⟨s.writer.flushed, fs, s.acked⟩ := by
    simp only [step, hflush]
  have hlookup : fs.lookup = s.pages.lookup := by
    rcases hfs with ⟨rfl, -⟩ | rfl <;> rfl
  rw [hstep]
  refine ⟨?_, hlookup ▸ h.linked, h.cap, h.offsets, h.room⟩
  show s.writer.flushed.Holds (fs.content s.writer.file) s.records
  rw [hc]
  exact h.holds.flush

theorem Tracks.append (h : s.Tracks name maxBytes) {o : Oracle} (ho : o.Quiet) (hash : PageHash)
    (payload : Page) :
    (s.step (o, .append hash payload)).Tracks name maxBytes ∧
      (recordOffset (s.records.length + 1) ≤ maxBytes →
        (s.step (o, .append hash payload)).records = s.records ++ [(hash, payload)]) := by
  cases hcap : s.writer.wouldExceedCap with
  | true =>
    have hstep : s.step (o, .append hash payload) = s := by
      simp [step, PackWriter.append, h.holds.unsealed, hcap]
    have hfull := (PackWriter.wouldExceedCap_iff h.holds).mp hcap
    rw [h.cap] at hfull
    rw [hstep]
    exact ⟨h, fun hle => absurd hle (Nat.not_le.mpr hfull)⟩
  | false =>
    obtain ⟨w, fs, happend, hw, hfile, hmax, -, hfs⟩ :=
      h.holds.append (ho .pack .write) hcap hash payload
    have hstep : s.step (o, .append hash payload) =
        ⟨w, fs, (recordOffset s.records.length, (hash, payload)) :: s.acked⟩ := by
      simp only [step, happend]
    have hrecords : records ⟨w, fs, (recordOffset s.records.length, (hash, payload)) :: s.acked⟩ =
        s.records ++ [(hash, payload)] := by
      simp [records]
    have hlookup : fs.lookup = s.pages.lookup := by
      rcases hfs with rfl | ⟨-, bs, rfl⟩ <;> rfl
    have hroom : recordOffset (s.records.length + 1) ≤ maxBytes := by
      rw [← h.cap, ← Nat.not_lt, ← PackWriter.wouldExceedCap_iff h.holds, hcap]
      exact Bool.false_ne_true
    rw [hstep]
    refine ⟨⟨?_, ?_, hmax.trans h.cap, ?_, fun _ => ?_⟩, fun _ => hrecords⟩
    · rw [hrecords, file, hfile]
      exact hw
    · rw [hlookup, hfile]
      exact h.linked
    · rw [hrecords, entriesAt_append, ← h.offsets]
      simp [entriesAt, recordOffset]
    · rw [hrecords]
      simpa using hroom

theorem Tracks.run (h : s.Tracks name maxBytes) (hc : ∀ c ∈ calls, Calm c) :
    (s.run calls).Tracks name maxBytes ∧
      (recordOffset (s.records.length + (appended calls).length) ≤ maxBytes →
        (s.run calls).records = s.records ++ appended calls) := by
  induction calls generalizing s with
  | nil => exact ⟨h, fun _ => (List.append_nil _).symm⟩
  | cons c calls ih =>
    have hrest : ∀ d ∈ calls, Calm d := fun d hd => hc d (List.mem_cons_of_mem c hd)
    have hhead : c.1.Quiet := hc c List.mem_cons_self
    obtain ⟨o, call⟩ := c
    cases call with
    | flushBuf => exact ih (h.flushBuf hhead) hrest
    | append hash payload =>
      obtain ⟨hstep, hrecords⟩ := h.append hhead hash payload
      obtain ⟨hrun, hall⟩ := ih hstep hrest
      refine ⟨hrun, fun hroom => ?_⟩
      have hlen : s.records.length + (appended ((o, .append hash payload) :: calls)).length =
          s.records.length + 1 + (appended calls).length := by
        simp [appended]
        omega
      rw [hlen] at hroom
      have hone := hrecords ((recordOffset_mono (Nat.le_add_right _ _)).trans hroom)
      show ((s.step (o, .append hash payload)).run calls).records = _
      rw [hall (by rwa [hone, List.length_append]), hone]
      simp [appended]

theorem tracks_created (fs : PagesFs) (id : PackId) (createdUnix maxBytes : Nat) :
    (created fs id createdUnix maxBytes).Tracks (.spk id) maxBytes := by
  refine ⟨?_, ?_, rfl, rfl, fun h => absurd rfl h⟩
  · have hfile : (created fs id createdUnix maxBytes).file = packHeader id createdUnix := by
      rw [← List.append_nil (file _)]
      exact (exact_created fs id createdUnix maxBytes).bytes.trans (List.append_nil _)
    rw [hfile]
    exact PackWriter.holds_fresh _ _ _ _
  · show ((fs.create (.spk id)).write fs.nextIno 0 (packHeader id createdUnix)).lookup (.spk id) = _
    rw [FileSys.lookup_write, FileSys.lookup_create, if_pos rfl]
    rfl

end Appending

inductive Sealing where
  | sync
  | noSync

def PackWriter.sealBy [Primitives] (how : Sealing) (o : Oracle) (w : PackWriter) (fs : PagesFs) :
    Except PackError Unit × PackWriter × PagesFs :=
  match how with
  | .sync => w.sealSync o fs
  | .noSync => w.sealNoSync o fs

section

variable [Primitives]

theorem PackWriter.Holds.sealBy {w : PackWriter} {fs : PagesFs} {rs : List Entry} {o : Oracle}
    (h : w.Holds (fs.content w.file) rs) (ho : o.Quiet) (how : Sealing) :
    ∃ w' fs' hdr, w.sealBy how o fs = (.ok (), w', fs') ∧ fs'.lookup = fs.lookup ∧ IsHeader hdr ∧
      openPack hdr rs = fs.content w.file ++ w.writeBuf ∧
      fs'.content w.file = sealedPack hdr rs := by
  obtain ⟨hdr, hh, hp⟩ := h.pack
  have hfooter : fs.content w.file ++ w.writeBuf ++ packFooter w.recordCount w.bodyHasher =
      sealedPack hdr rs := by
    rw [hp, h.count, h.hasher, sealedPack_eq]
  cases how with
  | sync =>
    obtain ⟨w', fs', hrun, -, hlookup, hc⟩ := PackWriter.sealSync_end ho h.unsealed h.pos
    exact ⟨w', fs', hdr, hrun, hlookup, hh, hp.symm, hc.trans hfooter⟩
  | noSync =>
    obtain ⟨w', fs', hrun, -, hlookup, hc⟩ := PackWriter.sealNoSync_end ho h.unsealed h.pos
    exact ⟨w', fs', hdr, hrun, hlookup, hh, hp.symm, hc.trans hfooter⟩

variable {hdr : Bytes} {rs : List Entry}

theorem openSealedFast_sealedPack (hh : IsHeader hdr) :
    PackReader.openSealedFast (sealedPack hdr rs) = .ok () := by
  have hlen : ¬ (sealedPack hdr rs).length < 4 := by
    rw [length_sealedPack hh, packFooterSize]
    omega
  have hmagic : slice (sealedPack hdr rs) 0 4 = packMagic := hh.slice_append _
  rw [PackReader.openSealedFast, if_neg hlen, if_neg (not_not.mpr hmagic)]

theorem footerHash_sealedPack (hh : IsHeader hdr) :
    slice (sealedPack hdr rs) (recordOffset rs.length + 12) 32 =
      (blake3 (slice (sealedPack hdr rs) packHeaderSize
        (recordOffset rs.length - packHeaderSize))).bytes := by
  have hbody : slice (sealedPack hdr rs) packHeaderSize (recordOffset rs.length - packHeaderSize) =
      encodeRecords rs := by
    have hlen : (encodeRecords rs).length = recordOffset rs.length - packHeaderSize := by
      rw [length_encodeRecords, recordOffset, Nat.add_sub_cancel_left]
    rw [sealedPack, slice_skip hh.length (Nat.le_refl _), Nat.sub_self, slice_zero_append hlen]
  have hmagic : (footerMagic ++ leBytes 8 rs.length).length = 12 := by
    simp [footerMagic]
  rw [hbody, sealedPack_eq, ← length_openPack hh, slice_append_right, packFooter,
    ← List.append_assoc, slice_skip hmagic (Nat.le_refl _), Nat.sub_self]
  exact slice_self (Digest.length_bytes _)

/-- Pages are appended to a new pack with flushes in between, and the pack is sealed: it opens, and
its readers return the records that were appended, at the offsets that were returned. -/
theorem sealed_pack_round_trip (fs : PagesFs) (id : PackId) (createdUnix maxBytes : Nat)
    (calls : List (Oracle × WriterCall)) (o : Oracle) (how : Sealing) (hmax : maxBytes < 2 ^ 64)
    (hcalls : ∀ c ∈ calls, Honest c) (ho : o.Quiet) :
    let s := (Appending.created fs id createdUnix maxBytes).run calls
    (recordOffset (Appending.appended calls).length ≤ maxBytes →
      s.records = Appending.appended calls) ∧
    ∃ w' fs' b e, s.writer.sealBy how o s.pages = (.ok (), w', fs') ∧
      fs'.readName (.spk id) = some b ∧ e + packFooterSize = b.length ∧
      PackReader.openSealed b = .ok e ∧ PackReader.openSealedFast b = .ok () ∧
      PackReader.scan b e = .ok (s.acked.map fun r => (r.1, r.2.1)).reverse ∧
      countRecordsInFile b e = s.acked.length ∧
      (∀ r ∈ s.acked, PackReader.readAt b r.1 = .ok (r.2.1, r.2.2.bytes) ∧
        PackReader.readAtFromFile b r.1 r.2.1 = .ok r.2.2.bytes) ∧
      slice b (e + 12) 32 =
        (blake3 (slice b packHeaderSize (e - packHeaderSize))).bytes := by
  intro s
  have hcalm : ∀ c ∈ calls, Appending.Calm c := fun c hc => (hcalls c hc).1
  obtain ⟨htracks, hall⟩ := (Appending.tracks_created fs id createdUnix maxBytes).run hcalm
  refine ⟨fun hroom => ?_, ?_⟩
  · exact hall (by simpa [Appending.created, Appending.records] using hroom)
  have hlaid := (Appending.exact_created fs id createdUnix maxBytes).laid
  have hhashed : Hashed s.records := Appending.hashed_run hlaid (by intro r hr; cases hr) hcalls
  have hrecords := (hlaid.run fun c hc => (hcalm c hc).allOrNothing).records
  obtain ⟨w', fs', hdr, hseal, hlookup, hh, hopen, hc⟩ := htracks.holds.sealBy ho how
  have hcount : s.records.length = s.acked.length := by
    rw [Appending.records, List.length_reverse, List.length_map]
  have hlt : s.records.length < 2 ^ 64 := by
    by_cases hnil : s.records = []
    · rw [hnil]
      exact Nat.two_pow_pos 64
    · exact ((length_le_recordOffset _).trans (htracks.room hnil)).trans_lt hmax
  have hsealed : PackReader.openSealed (sealedPack hdr s.records) = _ := openSealed_sealedPack hh hlt
  refine ⟨w', fs', sealedPack hdr s.records, recordOffset s.records.length, hseal, ?_, ?_, hsealed,
    ?_, ?_, ?_, fun r hr => ?_, footerHash_sealedPack hh⟩
  · rw [FileSys.readName, hlookup, htracks.linked, Option.map_some, hc]
  · exact (length_sealedPack hh).symm
  · exact openSealedFast_sealedPack hh
  · rw [scan_of_openSealed hh (.inr rfl) hsealed, htracks.offsets]
  · rw [countRecordsInFile_sealedPack hh, hcount]
  · have hrec : HasRecord (sealedPack hdr s.records) r.1 r.2.1 r.2.2 := by
      refine (hrecords r hr).mono ?_
      rw [sealedPack_eq, hopen]
      exact List.prefix_append _ _
    have hmem : r.2 ∈ s.records := List.mem_reverse.mpr (List.mem_map_of_mem hr)
    exact ⟨readAt_of_record hrec, readAtFromFile_of_record hrec (hhashed r.2 hmem)⟩

end

namespace Sample

attribute [local instance] primitives

theorem one_page_sealed :
    ∃ w fs b e, ((Appending.created .empty 0 0 packMaxBytes).run
        [(quiet, .append (hash 7) (page 7)), (quiet, .flushBuf)]).writer.sealBy .noSync quiet
        ((Appending.created .empty 0 0 packMaxBytes).run
          [(quiet, .append (hash 7) (page 7)), (quiet, .flushBuf)]).pages = (.ok (), w, fs) ∧
      fs.readName (.spk 0) = some b ∧ PackReader.openSealed b = .ok e ∧
      countRecordsInFile b e = 1 := by
  have hhonest : ∀ c ∈ [(quiet, WriterCall.append (hash 7) (page 7)), (quiet, .flushBuf)],
      Honest c := by
    intro c hc
    rcases List.mem_cons.mp hc with rfl | hc
    · exact honest_onePage _ List.mem_cons_self
    · rw [List.mem_singleton.mp hc]
      exact ⟨fun _ _ => rfl, fun _ _ heq => by cases heq⟩
  obtain ⟨hrecords, w, fs, b, e, hseal, hread, -, hopen, -, -, hcount, -⟩ :=
    sealed_pack_round_trip .empty 0 0 packMaxBytes _ quiet .noSync (by decide) hhonest
      fun _ _ => rfl
  refine ⟨w, fs, b, e, hseal, hread, hopen, hcount.trans ?_⟩
  have hone := congrArg List.length (hrecords (by decide))
  rwa [Appending.records, List.length_reverse, List.length_map] at hone

end Sample

end SnapStore
