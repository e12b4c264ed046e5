import SnapStore.Pagestore.PackFormat
import SnapStore.Disk.Names

/-!
# The pack writer when no write fails

The contents of the file followed by the write buffer are always the header and the records
appended so far; what is in the buffer and what is in the file makes no difference to the records.
-/

namespace SnapStore

open Disk

structure PackWriter.Holds (w : PackWriter) (c : Bytes) (rs : List Entry) : Prop where
  pack : ∃ hdr, IsHeader hdr ∧ c ++ w.writeBuf = openPack hdr rs
  pos : w.pos = c.length
  offset : w.writeOffset = recordOffset rs.length
  count : w.recordCount = rs.length
  hasher : w.bodyHasher = encodeRecords rs
  unsealed : w.sealed = false

structure PackWriter.Moved (name : PageFile) (w w' : PackWriter) (fs fs' : PagesFs) : Prop where
  file : w'.file = w.file
  maxBytes : w'.maxBytes = w.maxBytes
  lookup : fs'.lookup = fs.lookup
  frame : fs.SameBut (· = name) fs'

structure PackWriter.Wrote (name : PageFile) (w w' : PackWriter) (fs fs' : PagesFs) (new : Bytes) :
    Prop extends PackWriter.Moved name w w' fs fs' where
  bytes : fs'.content w.file ++ w'.writeBuf = (fs.content w.file ++ w.writeBuf) ++ new
  whole : fs' = fs ∨ w'.writeBuf = []

namespace PackWriter

variable {w : PackWriter} {fs : PagesFs} {name : PageFile} {rs : List Entry} {o : Oracle} {c : Bytes}

theorem openPack_append_record (hdr : Bytes) (rs : List Entry) (h : PageHash) (p : Page) :
    openPack hdr rs ++ recordBytes h p = openPack hdr (rs ++ [(h, p)]) := by
  simp [openPack, encodeRecords_append, encodeRecords_singleton]

theorem recordOffset_succ (n : Nat) : recordOffset (n + 1) = recordOffset n + recordSize := by
  simp only [recordOffset, Nat.mul_succ]
  omega

theorem holds_fresh (f : Ino) (id : PackId) (clock maxBytes : Nat) :
    (fresh f id maxBytes).Holds (packHeader id clock) [] := by
  refine ⟨⟨packHeader id clock, isHeader_packHeader id clock, ?_⟩, ?_, rfl, rfl, rfl, rfl⟩
  · simp [fresh, openPack]
  · simp [fresh]

theorem Moved.of_write {w' : PackWriter} {fs' : PagesFs} (hu : fs.Unaliased)
    (hf : fs.lookup name = some w.file) (hfile : w'.file = w.file) (hmax : w'.maxBytes = w.maxBytes)
    (hfs : fs' = fs ∨ ∃ bs, fs' = fs.write w.file w.pos bs) : Moved name w w' fs fs' := by
  rcases hfs with rfl | ⟨bs, rfl⟩
  · exact ⟨hfile, hmax, rfl, .refl hu⟩
  · exact ⟨hfile, hmax, rfl, .write hu hf _ _⟩

theorem writeAll_end (ho : o.fault .pack .write = none) (hpos : w.pos = (fs.content w.file).length)
    (bs : Bytes) :
    ∃ fs', w.writeAll o fs bs = (.ok (), { w with pos := w.pos + bs.length }, fs') ∧
      fs'.content w.file = fs.content w.file ++ bs ∧ fs' = fs.write w.file w.pos bs := by
  refine ⟨fs.write w.file w.pos bs, ?_, ?_, rfl⟩
  · rw [writeAll, ho]
  · rw [FileSys.content_write, if_pos rfl, hpos, writeAt_end]

def flushed (w : PackWriter) : PackWriter :=
  { w with pos := w.pos + w.writeBuf.length, writeBuf := [] }

@[simp] theorem writeBuf_flushed : w.flushed.writeBuf = [] := rfl

theorem flushBuf_end (ho : o.fault .pack .write = none) (hpos : w.pos = (fs.content w.file).length) :
    ∃ fs', w.flushBuf o fs = (.ok (), w.flushed, fs') ∧
      fs'.content w.file = fs.content w.file ++ w.writeBuf ∧
      (fs' = fs ∧ w.writeBuf = [] ∨ fs' = fs.write w.file w.pos w.writeBuf) := by
  by_cases hbuf : w.writeBuf = []
  · refine ⟨fs, ?_, by rw [hbuf, List.append_nil], .inl ⟨rfl, hbuf⟩⟩
    rw [flushBuf, if_pos hbuf]
    cases w
    simp_all [flushed]
  · obtain ⟨fs', hwrite, hc, hfs⟩ := writeAll_end ho hpos w.writeBuf
    refine ⟨fs', ?_, hc, .inr hfs⟩
    rw [flushBuf, if_neg hbuf, hwrite]
    rfl

theorem Holds.flush (hw : w.Holds c rs) : w.flushed.Holds (c ++ w.writeBuf) rs := by
  obtain ⟨hdr, hh, hp⟩ := hw.pack
  refine ⟨⟨hdr, hh, ?_⟩, ?_, hw.offset, hw.count, hw.hasher, hw.unsealed⟩
  · rw [flushed, List.append_nil, hp]
  · rw [flushed, List.length_append, hw.pos]

theorem flushBuf_quiet (ho : o.fault .pack .write = none) (hu : fs.Unaliased)
    (hf : fs.lookup name = some w.file)
    (hw : w.Holds (fs.content w.file) rs) :
    ∃ w' fs', w.flushBuf o fs = (.ok (), w', fs') ∧ w'.Holds (fs'.content w.file) rs ∧
      w'.writeBuf = [] ∧ Wrote name w w' fs fs' [] := by
  obtain ⟨fs', hflush, hc, hfs⟩ := flushBuf_end ho hw.pos
  refine ⟨w.flushed, fs', hflush, hc ▸ hw.flush, rfl, .of_write hu hf rfl rfl (hfs.imp And.left (⟨_, ·⟩)), ?_,
    .inr rfl⟩
  rw [hc, writeBuf_flushed]

theorem Holds.buffer (hw : w.Holds c rs) (h : PageHash) (p : Page) :
    (w.buffer h p).Holds c (rs ++ [(h, p)]) := by
  obtain ⟨hdr, hh, hp⟩ := hw.pack
  have hlen : (rs ++ [(h, p)]).length = rs.length + 1 := by simp
  refine ⟨⟨hdr, hh, ?_⟩, hw.pos, ?_, ?_, ?_, hw.unsealed⟩
  · show c ++ (w.writeBuf ++ recordBytes h p) = _
    rw [← List.append_assoc, hp, openPack_append_record]
  · show w.writeOffset + recordSize = _
    rw [hlen, recordOffset_succ, hw.offset]
  · show w.recordCount + 1 = _
    rw [hlen, hw.count]
  · show w.bodyHasher ++ recordBytes h p = _
    rw [hw.hasher, encodeRecords_append, encodeRecords_singleton]

theorem wouldExceedCap_iff (hw : w.Holds c rs) :
    w.wouldExceedCap = true ↔ w.maxBytes < recordOffset (rs.length + 1) := by
  rw [wouldExceedCap, decide_eq_true_eq, hw.offset, recordOffset_succ]
  simp only [recordSize]
  omega

theorem append_end (ho : o.fault .pack .write = none) (hs : w.sealed = false)
    (hcap : w.wouldExceedCap = false) (hpos : w.pos = (fs.content w.file).length) (h : PageHash)
    (p : Page) :
    ∃ w' fs', w.append o fs h p = (.ok w.writeOffset, w', fs') ∧
      (w' = w.buffer h p ∧ fs' = fs ∨ w' = (w.buffer h p).flushed ∧
        fs'.content w.file = fs.content w.file ++ (w.buffer h p).writeBuf ∧
        (fs' = fs ∨ ∃ bs, fs' = fs.write w.file w.pos bs)) := by
  by_cases hfull : writeBufFlushThreshold ≤ (w.buffer h p).writeBuf.length
  · obtain ⟨fs', hflush, hc, hfs⟩ := flushBuf_end (w := w.buffer h p) ho hpos
    refine ⟨_, fs', ?_, .inr ⟨rfl, hc, hfs.imp And.left (⟨_, ·⟩)⟩⟩
    simp only [PackWriter.append, hs, hcap, if_pos hfull, hflush, Bool.false_eq_true, if_false]
  · refine ⟨_, fs, ?_, .inl ⟨rfl, rfl⟩⟩
    simp only [PackWriter.append, hs, hcap, if_neg hfull, Bool.false_eq_true, if_false]

theorem Holds.append (ho : o.fault .pack .write = none) (hw : w.Holds (fs.content w.file) rs)
    (hcap : w.wouldExceedCap = false) (h : PageHash) (p : Page) :
    ∃ w' fs', w.append o fs h p = (.ok (recordOffset rs.length), w', fs') ∧
      w'.Holds (fs'.content w.file) (rs ++ [(h, p)]) ∧ w'.file = w.file ∧ w'.maxBytes = w.maxBytes ∧
      fs'.content w.file ++ w'.writeBuf = (fs.content w.file ++ w.writeBuf) ++ recordBytes h p ∧
      (fs' = fs ∨ w'.writeBuf = [] ∧ ∃ bs, fs' = fs.write w.file w.pos bs) := by
  have hbuf := hw.buffer h p
  obtain ⟨w', fs', happend, hcases⟩ := append_end ho hw.unsealed hcap hw.pos h p
  rw [hw.offset] at happend
  refine ⟨w', fs', happend, ?_⟩
  rcases hcases with ⟨rfl, rfl⟩ | ⟨rfl, hc, hfs⟩
  · exact ⟨hbuf, rfl, rfl, (List.append_assoc _ _ _).symm, .inl rfl⟩
  · refine ⟨hc ▸ hbuf.flush, rfl, rfl, ?_, hfs.imp id fun h => ⟨rfl, h⟩⟩
    rw [hc, writeBuf_flushed, List.append_nil, List.append_assoc]
    rfl

theorem append_quiet (ho : o.fault .pack .write = none) (hu : fs.Unaliased)
    (hf : fs.lookup name = some w.file)
    (hw : w.Holds (fs.content w.file) rs) (hcap : w.wouldExceedCap = false) (h : PageHash)
    (p : Page) :
    ∃ w' fs', w.append o fs h p = (.ok (recordOffset rs.length), w', fs') ∧
      w'.Holds (fs'.content w.file) (rs ++ [(h, p)]) ∧
      Wrote name w w' fs fs' (recordBytes h p) := by
  obtain ⟨w', fs', happend, hw', hfile, hmax, hbytes, hfs⟩ := hw.append ho hcap h p
  exact ⟨w', fs', happend, hw', .of_write hu hf hfile hmax (hfs.imp id And.right), hbytes,
    hfs.imp id And.left⟩

variable [Primitives]

theorem writeFooter_quiet (ho : o.fault .pack .write = none) (hu : fs.Unaliased)
    (hf : fs.lookup name = some w.file)
    (hw : w.Holds (fs.content w.file) rs) (hbuf : w.writeBuf = []) :
    ∃ w' fs' hdr, w.writeFooter o fs = (.ok (), w', fs') ∧ IsHeader hdr ∧
      fs'.content w.file = sealedPack hdr rs ∧ w'.writeBuf = [] ∧
      Wrote name w w' fs fs' (packFooter w.recordCount w.bodyHasher) := by
  obtain ⟨hdr, hh, hp⟩ := hw.pack
  obtain ⟨fs', hwrite, hc, hfs⟩ := writeAll_end ho hw.pos (packFooter w.recordCount w.bodyHasher)
  refine ⟨_, fs', hdr, hwrite, hh, ?_, hbuf, .of_write hu hf rfl rfl (.inr ⟨_, hfs⟩), ?_, .inr hbuf⟩
  · rw [hbuf, List.append_nil] at hp
    rw [hc, hp, hw.count, hw.hasher, sealedPack_eq]
  · rw [hc, hbuf, List.append_nil, List.append_nil]

theorem writeFooter_end (ho : o.fault .pack .write = none)
    (hpos : w.pos = (fs.content w.file).length) :
    ∃ w' fs', w.writeFooter o fs = (.ok (), w', fs') ∧ w'.file = w.file ∧ fs'.lookup = fs.lookup ∧
      fs'.content w.file = fs.content w.file ++ packFooter w.recordCount w.bodyHasher := by
  obtain ⟨fs', hwrite, hc, rfl⟩ := writeAll_end ho hpos (packFooter w.recordCount w.bodyHasher)
  exact ⟨_, _, hwrite, rfl, rfl, hc⟩

theorem sealNoSync_end (ho : o.Quiet) (hs : w.sealed = false)
    (hpos : w.pos = (fs.content w.file).length) :
    ∃ w' fs', w.sealNoSync o fs = (.ok (), w', fs') ∧ w'.file = w.file ∧ fs'.lookup = fs.lookup ∧
      fs'.content w.file =
        fs.content w.file ++ w.writeBuf ++ packFooter w.recordCount w.bodyHasher := by
  obtain ⟨fs₁, hflush, hc₁, hfs⟩ := flushBuf_end (ho .pack .write) hpos
  have hlookup : fs₁.lookup = fs.lookup := by
    rcases hfs with ⟨rfl, -⟩ | rfl <;> rfl
  have hpos₁ : w.flushed.pos = (fs₁.content w.file).length := by
    rw [flushed, hc₁, List.length_append, hpos]
  obtain ⟨w₂, fs₂, hfooter, hfile, hlook₂, hc₂⟩ :=
    writeFooter_end (w := w.flushed) (ho .pack .write) hpos₁
  refine ⟨{ w₂ with sealed := true }, fs₂, ?_, hfile, hlook₂.trans hlookup,
    hc₂.trans (congrArg (· ++ _) hc₁)⟩
  rw [sealNoSync, hs, if_neg Bool.false_ne_true, hflush]
  dsimp only
  rw [hfooter]

theorem sealSync_end (ho : o.Quiet) (hs : w.sealed = false)
    (hpos : w.pos = (fs.content w.file).length) :
    ∃ w' fs', w.sealSync o fs = (.ok (), w', fs') ∧ w'.file = w.file ∧ fs'.lookup = fs.lookup ∧
      fs'.content w.file =
        fs.content w.file ++ w.writeBuf ++ packFooter w.recordCount w.bodyHasher := by
  obtain ⟨fs₁, hflush, hc₁, hfs⟩ := flushBuf_end (ho .pack .write) hpos
  have hlookup : fs₁.lookup = fs.lookup := by
    rcases hfs with ⟨rfl, -⟩ | rfl <;> rfl
  have hsync : (fs₁.fdatasync w.file).content w.file = fs.content w.file ++ w.writeBuf := by
    rw [FileSys.content_fdatasync, hc₁]
  have hpos₁ : w.flushed.pos = ((fs₁.fdatasync w.file).content w.file).length := by
    rw [flushed, hsync, List.length_append, hpos]
  obtain ⟨w₂, fs₂, hfooter, hfile, hlook₂, hc₂⟩ :=
    writeFooter_end (w := w.flushed) (ho .pack .write) hpos₁
  refine ⟨{ w₂ with sealed := true }, fs₂.fdatasync w₂.file, ?_, hfile, hlook₂.trans hlookup, ?_⟩
  · rw [sealSync, hs, if_neg Bool.false_ne_true, hflush]
    simp only [syncData, ho .pack .sync, flushed] at hfooter ⊢
    rw [hfooter]
  · rw [FileSys.content_fdatasync]
    exact hc₂.trans (congrArg (· ++ _) hsync)

end PackWriter

end SnapStore
