import SnapStore.Pagestore.TornTail

/-!
# Packs whose writing was interrupted

A pack is written by a sequence of writers: one creates it, and the recovery opens each later one
after its predecessor was lost with its buffer.  However the count and the body hash of the footer
are obtained, the sealed pack has the bytes that a writer without interruptions gives it.
-/

namespace SnapStore

open Disk Conc

variable {hdr c : Bytes} {w w' : PackWriter} {fs fs' : PagesFs} {safe buffered : List Entry}
  {o : Oracle}

structure PackWriter.Writes (hdr : Bytes) (w : PackWriter) (c : Bytes)
    (safe buffered : List Entry) : Prop where
  file : c = openPack hdr safe
  buf : w.writeBuf = encodeRecords buffered
  pos : w.pos = c.length
  offset : w.writeOffset = recordOffset (safe ++ buffered).length
  count : w.recordCount = (safe ++ buffered).length
  hasher : w.bodyHasher = encodeRecords (safe ++ buffered)
  unsealed : w.sealed = false
  cap : w.maxBytes = packMaxBytes
  room : recordOffset (safe ++ buffered).length ≤ packMaxBytes

namespace PackWriter.Writes

theorem buf_eq_nil (h : w.Writes hdr c safe buffered) : w.writeBuf = [] ↔ buffered = [] := by
  rw [h.buf, ← List.length_eq_zero_iff, length_encodeRecords, Nat.mul_eq_zero,
    List.length_eq_zero_iff]
  exact or_iff_right (by decide)

theorem file_append_buf (h : w.Writes hdr c safe buffered) :
    c ++ w.writeBuf = openPack hdr (safe ++ buffered) := by
  rw [h.file, h.buf, openPack, openPack, List.append_assoc, encodeRecords_append]

theorem flushBuf (h : w.Writes hdr (fs.content w.file) safe buffered) (ho : o.Quiet) :
    ∃ w' fs', w.flushBuf o fs = (.ok (), w', fs') ∧ w'.file = w.file ∧ fs'.lookup = fs.lookup ∧
      w'.Writes hdr (fs'.content w.file) (safe ++ buffered) [] := by
  obtain ⟨fs', hflush, hc, hfs⟩ := flushBuf_end (ho .pack .write) h.pos
  have hlookup : fs'.lookup = fs.lookup := by
    rcases hfs with ⟨rfl, -⟩ | rfl <;> rfl
  refine ⟨w.flushed, fs', hflush, rfl, hlookup, ?_⟩
  have hpos : w.flushed.pos = (fs'.content w.file).length := by
    rw [hc, List.length_append, flushed, h.pos]
  have happend : safe ++ buffered = (safe ++ buffered) ++ [] := (List.append_nil _).symm
  exact ⟨hc.trans h.file_append_buf, rfl, hpos, happend ▸ h.offset, happend ▸ h.count,
    happend ▸ h.hasher, h.unsealed, h.cap, happend ▸ h.room⟩

theorem buffer (h : w.Writes hdr c safe buffered) (hcap : w.wouldExceedCap = false) (r : Entry) :
    (w.buffer r.1 r.2).Writes hdr c safe (buffered ++ [r]) := by
  have happend : safe ++ (buffered ++ [r]) = (safe ++ buffered) ++ [r] :=
    (List.append_assoc _ _ _).symm
  have hlen : ((safe ++ buffered) ++ [r]).length = (safe ++ buffered).length + 1 :=
    List.length_append
  refine ⟨h.file, ?_, h.pos, ?_, ?_, ?_, h.unsealed, h.cap, ?_⟩
  · show w.writeBuf ++ recordBytes r.1 r.2 = _
    rw [h.buf, encodeRecords_append, encodeRecords_singleton]
  · show w.writeOffset + recordSize = _
    rw [happend, hlen, recordOffset_succ, h.offset]
  · show w.recordCount + 1 = _
    rw [happend, hlen, h.count]
  · show w.bodyHasher ++ recordBytes r.1 r.2 = _
    rw [happend, h.hasher, encodeRecords_append (safe ++ buffered), encodeRecords_singleton]
  · rw [happend, hlen, recordOffset_succ]
    rw [wouldExceedCap, decide_eq_false_iff_not, h.offset, h.cap, not_lt] at hcap
    simp only [recordSize]
    omega

theorem append (h : w.Writes hdr (fs.content w.file) safe buffered) (ho : o.Quiet)
    (hcap : w.wouldExceedCap = false) (r : Entry) :
    ∃ off w' fs', w.append o fs r.1 r.2 = (.ok off, w', fs') ∧ w'.file = w.file ∧
      fs'.lookup = fs.lookup ∧
      (w'.writeBuf = [] ∧ w'.Writes hdr (fs'.content w.file) (safe ++ (buffered ++ [r])) [] ∨
        w'.writeBuf ≠ [] ∧ w'.Writes hdr (fs'.content w.file) safe (buffered ++ [r])) := by
  have hbuf : (w.buffer r.1 r.2).Writes hdr (fs.content (w.buffer r.1 r.2).file) safe
    (buffered ++ [r]) := h.buffer hcap r
  by_cases hfull : writeBufFlushThreshold ≤ (w.buffer r.1 r.2).writeBuf.length
  · obtain ⟨w', fs', hflush, hfile, hlookup, hw'⟩ := hbuf.flushBuf ho
    refine ⟨w.writeOffset, w', fs', ?_, hfile, hlookup, .inl ⟨hw'.buf_eq_nil.mpr rfl, hw'⟩⟩
    simp only [PackWriter.append, h.unsealed, hcap, if_pos hfull, hflush, Bool.false_eq_true,
      if_false]
  · refine ⟨w.writeOffset, w.buffer r.1 r.2, fs, ?_, rfl, rfl, .inr ⟨?_, hbuf⟩⟩
    · simp only [PackWriter.append, h.unsealed, hcap, if_neg hfull, Bool.false_eq_true, if_false]
    · intro hnil
      have hempty := hbuf.buf_eq_nil.mp hnil
      simp at hempty

section

variable [Primitives]

theorem file_seal (h : w.Writes hdr c safe buffered) :
    c ++ w.writeBuf ++ packFooter w.recordCount w.bodyHasher =
      sealedPack hdr (safe ++ buffered) := by
  rw [h.file_append_buf, h.count, h.hasher, sealedPack_eq]

theorem sealNoSync (h : w.Writes hdr (fs.content w.file) safe buffered) (ho : o.Quiet) :
    ∃ w' fs', w.sealNoSync o fs = (.ok (), w', fs') ∧ w'.file = w.file ∧
      fs'.lookup = fs.lookup ∧ fs'.content w.file = sealedPack hdr (safe ++ buffered) := by
  rw [← h.file_seal]
  exact sealNoSync_end ho h.unsealed h.pos

theorem sealSync (h : w.Writes hdr (fs.content w.file) safe buffered) (ho : o.Quiet) :
    ∃ w' fs', w.sealSync o fs = (.ok (), w', fs') ∧ w'.file = w.file ∧
      fs'.lookup = fs.lookup ∧ fs'.content w.file = sealedPack hdr (safe ++ buffered) := by
  rw [← h.file_seal]
  exact sealSync_end ho h.unsealed h.pos

end

end PackWriter.Writes

section

variable [Primitives]

/-! ## The recovery -/

variable {bad : PageStoreError → World → Prop} {s : World} {id : PackId} {f : Ino}
  {rs : List Entry}

omit [Primitives] in
theorem twpE_scanFile (hh : IsHeader hdr) (hf : s.pages.lookup (.spk id) = some f)
    (hc : s.pages.content f = openPack hdr rs) :
    twpE Oracle.Quiet bad (PageStore.scanFile id (recordOffset rs.length))
      (fun r t => r = entriesAt packHeaderSize rs ∧ t = s) s := by
  have hbytes : PageStore.packBytes s id = some (openPack hdr rs) := by
    rw [PageStore.packBytes, FileSys.readName, hf, Option.map_some, hc]
  refine twpE_observe fun o ho => ⟨entriesAt packHeaderSize rs, ?_, rfl, rfl⟩
  simp only [ho .pack .read, hbytes, scan_openPack hh]
  rfl

theorem twpE_openUnsealed_whole (hh : IsHeader hdr) (hhash : Hashed rs)
    (hf : s.pages.lookup (.spk id) = some f) (hc : s.pages.content f = openPack hdr rs) :
    twpE Oracle.Quiet bad (PageStore.openUnsealed id)
      (fun e t => e = recordOffset rs.length ∧ t = s) s := by
  have hscan := openUnsealed_openPack hh hhash
  rw [← hc] at hscan
  exact twpE_openUnsealed hf hscan

theorem twpE_reopenPackForAppend (hh : IsHeader hdr) (hhash : Hashed rs)
    (hf : s.pages.lookup (.spk id) = some f) (hc : s.pages.content f = openPack hdr rs)
    (hroom : recordOffset rs.length ≤ packMaxBytes) (ix : Index) :
    twpE Oracle.Quiet bad (PageStore.reopenPackForAppend ix id)
      (fun r t => t = s ∧ r.1.file = f ∧ r.1.Writes hdr (s.pages.content f) rs []) s := by
  have hopen : PackWriter.reopen f id (s.pages.content f) = .ok ⟨f, id, recordOffset rs.length,
      encodeRecords rs, [], recordOffset rs.length, rs.length, false, packMaxBytes⟩ := by
    rw [hc]
    exact reopen_openPack hh hhash
  refine twpE_seq (twpE_openUnsealed_whole hh hhash hf hc) fun e t ⟨he, ht⟩ => ?_
  subst he ht
  refine twpE_seq (twpE_scanFile hh hf hc) fun records t ⟨_, ht⟩ => ?_
  subst ht
  refine twpE_bind (twpE_observe fun o ho => ⟨_, by simp only [ho .pack .openFile, hf, hopen]; rfl,
    ?_⟩)
  refine twpE_pure ⟨rfl, rfl, hc, rfl, ?_, ?_, ?_, ?_, rfl, rfl, ?_⟩
  · rw [hc, length_openPack hh]
  · rw [List.append_nil]
  · rw [List.append_nil]
  · rw [List.append_nil]
  · rw [List.append_nil]
    exact hroom

omit [Primitives] in
theorem foldlM_recoveredBody {b : Bytes} (rs : List Entry) :
    ∀ (pre post acc : Bytes), b = pre ++ (encodeRecords rs ++ post) →
      (entriesAt pre.length rs).foldlM (fun body r => do
        let (_, payload) ← PackReader.readAt b r.1
        return body ++ (r.2.bytes ++ [0x01] ++ leBytes 4 payload.length ++ payload)) acc =
        (.ok (acc ++ encodeRecords rs) : Except PackError Bytes) := by
  induction rs with
  | nil =>
    intro pre post acc _
    simp [entriesAt]
    rfl
  | cons r rs ih =>
    intro pre post acc hb
    have hrec : HasRecord b pre.length r.1 r.2 := hb ▸ hasRecord_head pre post r rs
    have hpre : (pre ++ recordBytes r.1 r.2).length = pre.length + recordSize := by simp
    have htail := ih (pre ++ recordBytes r.1 r.2) post (acc ++ recordBytes r.1 r.2)
      (by rw [hb, append_encodeRecords_cons])
    have hbytes : r.1.bytes ++ [0x01] ++ leBytes 4 r.2.bytes.length ++ r.2.bytes =
        recordBytes r.1 r.2 := by
      rw [r.2.length_bytes]
      simp [recordBytes]
    rw [hpre, List.append_assoc, ← encodeRecords_cons] at htail
    rw [entriesAt, List.foldlM_cons, readAt_of_record hrec, ← htail, ← hbytes]
    rfl

omit [Primitives] in
theorem recoveredBody_openPack (hh : IsHeader hdr) (rs : List Entry) :
    PageStore.recoveredBody (openPack hdr rs) (entriesAt packHeaderSize rs) =
      .ok (encodeRecords rs) := by
  have hb : openPack hdr rs = hdr ++ (encodeRecords rs ++ []) := by rw [List.append_nil]; rfl
  have h := foldlM_recoveredBody rs hdr [] [] hb
  rw [hh.length, List.nil_append] at h
  exact h

theorem twpE_sealExistingPack (hh : IsHeader hdr) (hhash : Hashed rs)
    (hf : s.pages.lookup (.spk id) = some f) (hc : s.pages.content f = openPack hdr rs) :
    twpE Oracle.Quiet bad (PageStore.sealExistingPack id)
      (fun _ t => t.pages.lookup = s.pages.lookup ∧
        t.pages.content f = sealedPack hdr rs) s := by
  have hbytes : PageStore.packBytes s id = some (openPack hdr rs) := by
    rw [PageStore.packBytes, FileSys.readName, hf, Option.map_some, hc]
  have hbody : (PageStore.recoveredBody (openPack hdr rs) (entriesAt packHeaderSize rs)).mapError
      PageStoreError.pack = .ok (encodeRecords rs) := by
    rw [recoveredBody_openPack hh]
    rfl
  refine twpE_seq (twpE_openUnsealed_whole hh hhash hf hc) fun e t ht => ?_
  obtain ⟨rfl, rfl⟩ := ht
  refine twpE_seq (twpE_scanFile hh hf hc) fun records t ht => ?_
  obtain ⟨rfl, rfl⟩ := ht
  refine twpE_bind (twpE_observe fun o ho => ⟨encodeRecords rs, ?_, ?_⟩)
  · simp only [ho .pack .read, hbytes, hbody]
  rw [length_entriesAt]
  refine twpE_bind (twpE_action fun o ho => ⟨f, _, by simp only [ho .pack .write, hf]; rfl, ?_⟩)
  refine twpE_bind (twpE_attempt fun o ho => ⟨(), _, by simp only [ho .pack .sync]; rfl, ?_⟩)
  refine twpE_pure ⟨rfl, ?_⟩
  rw [FileSys.content_fdatasync, FileSys.content_write, if_pos rfl, writeAt_end, hc, sealedPack_eq]

/-! ## Interrupted writing -/

def QuietAt (createdUnix : Nat) (o : Oracle) : Prop := o.Quiet ∧ o.clock = createdUnix

/-- The store and the writer of a pack, after it was created and appended to by writers that may
have been lost.  `safe` are the records that were handed to the file, `buffered` those in the
buffer, which are lost with the writer. -/
inductive Session (id : PackId) (createdUnix : Nat) :
    World → Option PackWriter → List Entry → List Entry → Prop where
  | create {s t : World} {w : PackWriter} {opts : StoreOptions}
      (hcap : opts.maxPackBytes = packMaxBytes) (hnew : s.pages.lookup (.spk id) = none)
      (hrun : Ends (QuietAt createdUnix) (PageStore.createActive opts id).run s (.ok w) t) :
      Session id createdUnix t (some w) [] []
  | append {s : World} {w w' : PackWriter} {safe buffered : List Entry} {o : Oracle} {off : Nat}
      {fs : PagesFs} (h : Session id createdUnix s (some w) safe buffered) (ho : o.Quiet)
      (page : Page) (hrun : w.append o s.pages (blake3 page.bytes) page = (.ok off, w', fs)) :
      Session id createdUnix { s with pages := fs } (some w')
        (if w'.writeBuf = [] then safe ++ (buffered ++ [(blake3 page.bytes, page)]) else safe)
        (if w'.writeBuf = [] then [] else buffered ++ [(blake3 page.bytes, page)])
  | flushBuf {s : World} {w w' : PackWriter} {safe buffered : List Entry} {o : Oracle}
      {fs : PagesFs} (h : Session id createdUnix s (some w) safe buffered) (ho : o.Quiet)
      (hrun : w.flushBuf o s.pages = (.ok (), w', fs)) :
      Session id createdUnix { s with pages := fs } (some w') (safe ++ buffered) []
  | abandon {s : World} {w : PackWriter} {safe buffered : List Entry}
      (h : Session id createdUnix s (some w) safe buffered) : Session id createdUnix s none safe []
  | recover {s t : World} {w : PackWriter} {safe : List Entry} {ix ix' : Index}
      (h : Session id createdUnix s none safe [])
      (hrun : Ends Oracle.Quiet (PageStore.reopenPackForAppend ix id).run s (.ok (w, ix')) t) :
      Session id createdUnix t (some w) safe []

structure Session.Kept (id : PackId) (hdr : Bytes) (s : World) (w : Option PackWriter)
    (safe buffered : List Entry) (f : Ino) : Prop where
  linked : s.pages.lookup (.spk id) = some f
  hashed : Hashed (safe ++ buffered)
  file : s.pages.content f = openPack hdr safe
  room : recordOffset (safe ++ buffered).length ≤ packMaxBytes
  writer : ∀ w₀, w = some w₀ → w₀.file = f ∧ w₀.Writes hdr (s.pages.content f) safe buffered
  lost : w = none → buffered = []

omit [Primitives] in
theorem twpE_createActive {opts : StoreOptions} {createdUnix : Nat}
    (hnew : s.pages.lookup (.spk id) = none) :
    twpE (QuietAt createdUnix) bad (PageStore.createActive opts id)
      (fun w t => w = .fresh s.pages.nextIno id opts.maxPackBytes ∧
        t.pages.lookup (.spk id) = some s.pages.nextIno ∧
        t.pages.content s.pages.nextIno = packHeader id createdUnix) s := by
  refine twpE_bind (twpE_attempt fun o ho =>
    ⟨_, _, by simp only [ho.1 .pack .create, hnew]; rfl, ?_⟩)
  refine twpE_bind (twpE_action fun o ho =>
    ⟨(), _, by simp only [ho.1 .pack .write, ho.2]; rfl, ?_⟩)
  refine twpE_pure ⟨rfl, ?_, ?_⟩
  · rw [FileSys.lookup_write, FileSys.lookup_create, if_pos rfl]
  · rw [FileSys.content_write, if_pos rfl, FileSys.content_create, if_pos rfl]
    exact writeAt_nil_zero _

namespace Session

variable {createdUnix : Nat} {ow : Option PackWriter}

theorem Kept.of_writer (hlinked : s.pages.lookup (.spk id) = some f)
    (hhash : Hashed (safe ++ buffered)) (hfile : w.file = f)
    (hw : w.Writes hdr (s.pages.content f) safe buffered) :
    Kept id hdr s (some w) safe buffered f := by
  refine ⟨hlinked, hhash, hw.file, hw.room, ?_, by simp⟩
  intro w₀ hw₀
  cases hw₀
  exact ⟨hfile, hw⟩

omit [Primitives] in
theorem writes_fresh (ino : Ino) (id : PackId) (createdUnix : Nat) :
    (PackWriter.fresh ino id packMaxBytes).Writes (packHeader id createdUnix)
      (packHeader id createdUnix) [] [] :=
  ⟨(List.append_nil _).symm, rfl, (length_packHeader _ _).symm, rfl, rfl, rfl, rfl, rfl, by decide⟩

theorem Kept.append (hk : Kept id hdr s (some w) safe buffered f) (ho : o.Quiet) {off : Nat}
    (page : Page) (hrun : w.append o s.pages (blake3 page.bytes) page = (.ok off, w', fs)) :
    Kept id hdr { s with pages := fs } (some w')
      (if w'.writeBuf = [] then safe ++ (buffered ++ [(blake3 page.bytes, page)]) else safe)
      (if w'.writeBuf = [] then [] else buffered ++ [(blake3 page.bytes, page)]) f := by
  obtain ⟨rfl, hw⟩ := hk.writer w rfl
  have hcap : w.wouldExceedCap = false := by
    by_contra hfull
    rw [Bool.not_eq_false] at hfull
    simp [PackWriter.append, hw.unsealed, hfull] at hrun
  have hhash : Hashed (safe ++ (buffered ++ [(blake3 page.bytes, page)])) := by
    rw [← List.append_assoc]
    refine hk.hashed.append fun r hr => ?_
    rw [List.mem_singleton.mp hr]
  obtain ⟨off', v, fs', happend, hfile, hlookup, hv⟩ := hw.append ho hcap (blake3 page.bytes, page)
  obtain ⟨-, rfl, rfl⟩ : off' = off ∧ v = w' ∧ fs' = fs := by
    have heq := happend.symm.trans hrun
    simpa using heq
  have hlinked : fs'.lookup (.spk id) = some w.file := (congrFun hlookup _).trans hk.linked
  rcases hv with ⟨hnil, hv⟩ | ⟨hne, hv⟩
  · rw [if_pos hnil, if_pos hnil]
    refine .of_writer hlinked ?_ hfile hv
    rw [List.append_nil]
    exact hhash
  · rw [if_neg hne, if_neg hne]
    exact .of_writer hlinked hhash hfile hv

theorem Kept.flushBuf (hk : Kept id hdr s (some w) safe buffered f) (ho : o.Quiet)
    (hrun : w.flushBuf o s.pages = (.ok (), w', fs)) :
    Kept id hdr { s with pages := fs } (some w') (safe ++ buffered) [] f := by
  obtain ⟨rfl, hw⟩ := hk.writer w rfl
  obtain ⟨v, fs', hflush, hfile, hlookup, hv⟩ := hw.flushBuf ho
  obtain ⟨rfl, rfl⟩ : v = w' ∧ fs' = fs := by
    have heq := hflush.symm.trans hrun
    simpa using heq
  refine .of_writer ((congrFun hlookup _).trans hk.linked) ?_ hfile hv
  rw [List.append_nil]
  exact hk.hashed

theorem Kept.abandon (hk : Kept id hdr s (some w) safe buffered f) :
    Kept id hdr s none safe [] f := by
  have hle : recordOffset safe.length ≤ packMaxBytes := by
    refine (recordOffset_mono ?_).trans hk.room
    rw [List.length_append]
    exact Nat.le_add_right _ _
  refine ⟨hk.linked, ?_, hk.file, ?_, by simp, fun _ => rfl⟩
  · rw [List.append_nil]
    exact fun r hr => hk.hashed r (List.mem_append_left _ hr)
  · rw [List.append_nil]
    exact hle

theorem Kept.recover (hk : Kept id hdr s none safe [] f) (hh : IsHeader hdr) {ix ix' : Index}
    {t : World}
    (hrun : Ends Oracle.Quiet (PageStore.reopenPackForAppend ix id).run s (.ok (w, ix')) t) :
    Kept id hdr t (some w) safe [] f := by
  have hhash := hk.hashed
  have hroom := hk.room
  rw [List.append_nil] at hhash hroom
  have hspec : twpE Oracle.Quiet (fun _ _ => False) (PageStore.reopenPackForAppend ix id) _ s :=
    twpE_reopenPackForAppend hh hhash hk.linked hk.file hroom ix
  obtain ⟨rfl, hfile, hw⟩ := hrun.of_twp hspec
  exact .of_writer hk.linked hk.hashed hfile hw

theorem kept (h : Session id createdUnix s ow safe buffered) :
    ∃ f, Kept id (packHeader id createdUnix) s ow safe buffered f := by
  have hh := isHeader_packHeader id createdUnix
  induction h with
  | @create s t w opts hcap hnew hrun =>
    have hspec : twpE (QuietAt createdUnix) (fun _ _ => False) (PageStore.createActive opts id) _ s :=
      twpE_createActive hnew
    obtain ⟨rfl, hlinked, hc⟩ := hrun.of_twp hspec
    refine ⟨s.pages.nextIno, .of_writer hlinked (by intro r hr; cases hr) rfl ?_⟩
    rw [hc, hcap]
    exact writes_fresh _ _ _
  | append _ ho page hrun ih =>
    obtain ⟨f, hk⟩ := ih
    exact ⟨f, hk.append ho page hrun⟩
  | flushBuf _ ho hrun ih =>
    obtain ⟨f, hk⟩ := ih
    exact ⟨f, hk.flushBuf ho hrun⟩
  | abandon _ ih =>
    obtain ⟨f, hk⟩ := ih
    exact ⟨f, hk.abandon⟩
  | recover _ hrun ih =>
    obtain ⟨f, hk⟩ := ih
    exact ⟨f, hk.recover hh hrun⟩

end Session

/-! ## Uninterrupted writing -/

def uninterrupted (o : Oracle) (id : PackId) (createdUnix : Nat) (rs : List Entry) :
    Option Bytes :=
  let a := (Appending.created .empty id createdUnix packMaxBytes).run
    (rs.map fun r => (o, .append r.1 r.2))
  match a.writer.sealSync o a.pages with
  | (.ok (), w, fs) => some (fs.content w.file)
  | (.error _, _, _) => none

omit [Primitives] in
theorem PackWriter.Writes.not_full {safe buffered rest : List Entry} {r : Entry}
    (h : w.Writes hdr c safe buffered)
    (hroom : recordOffset (safe ++ buffered ++ r :: rest).length ≤ packMaxBytes) :
    w.wouldExceedCap = false := by
  have hle : recordOffset ((safe ++ buffered).length + 1) ≤ packMaxBytes := by
    have hlen : (safe ++ buffered ++ r :: rest).length =
      (safe ++ buffered).length + (r :: rest).length := List.length_append
    refine (recordOffset_mono ?_).trans hroom
    rw [hlen, List.length_cons]
    omega
  rw [PackWriter.recordOffset_succ] at hle
  rw [wouldExceedCap, decide_eq_false_iff_not, h.offset, h.cap, not_lt]
  simp only [recordSize] at hle
  omega

omit [Primitives] in
theorem writes_appends (ho : o.Quiet) (rs : List Entry) :
    ∀ (a : Appending) (safe buffered : List Entry), a.writer.Writes hdr a.file safe buffered →
      recordOffset (safe ++ buffered ++ rs).length ≤ packMaxBytes →
      ∃ safe' buffered', safe' ++ buffered' = safe ++ buffered ++ rs ∧
        (a.run (rs.map fun r => (o, .append r.1 r.2))).writer.Writes hdr
          (a.run (rs.map fun r => (o, .append r.1 r.2))).file safe' buffered' := by
  induction rs with
  | nil =>
    intro a safe buffered hw _
    exact ⟨safe, buffered, (List.append_nil _).symm, hw⟩
  | cons r rs ih =>
    intro a safe buffered hw hroom
    obtain ⟨off, w', fs', happend, hfile, -, hw'⟩ := hw.append ho (hw.not_full hroom) r
    have hstep : a.step (o, .append r.1 r.2) = ⟨w', fs', (off, r) :: a.acked⟩ := by
      simp only [Appending.step, happend]
    have hsplit : safe ++ buffered ++ r :: rs = safe ++ (buffered ++ [r]) ++ rs := by simp
    rw [hsplit] at hroom
    rw [hsplit, List.map_cons, Appending.run, List.foldl_cons, hstep]
    rw [← hfile] at hw'
    rcases hw' with ⟨-, hw'⟩ | ⟨-, hw'⟩
    · have h := ih ⟨w', fs', (off, r) :: a.acked⟩ (safe ++ (buffered ++ [r])) [] hw'
      rw [List.append_nil] at h
      exact h hroom
    · exact ih ⟨w', fs', (off, r) :: a.acked⟩ safe (buffered ++ [r]) hw' hroom

theorem uninterrupted_eq {createdUnix : Nat} (ho : o.Quiet)
    (hroom : recordOffset rs.length ≤ packMaxBytes) :
    uninterrupted o id createdUnix rs = some (sealedPack (packHeader id createdUnix) rs) := by
  have hfile : (Appending.created .empty id createdUnix packMaxBytes).file =
      packHeader id createdUnix := by
    have h := (Appending.exact_created .empty id createdUnix packMaxBytes).bytes
    simpa [Appending.bytes, Appending.created, openPack, Appending.records, PackWriter.fresh] using h
  have hfresh : (Appending.created .empty id createdUnix packMaxBytes).writer.Writes
      (packHeader id createdUnix) (Appending.created .empty id createdUnix packMaxBytes).file
      [] [] := by
    rw [hfile]
    exact Session.writes_fresh _ _ _
  obtain ⟨safe, buffered, hrs, hw⟩ := writes_appends ho rs _ [] [] hfresh hroom
  obtain ⟨w', fs', hseal, hfile', -, hc⟩ := hw.sealSync ho
  simp only [uninterrupted, hseal]
  rw [hfile', hc, hrs]
  rfl

/-- The pack after an interrupted session, sealed by its writer or by the recovery, has the bytes
that one uninterrupted writer of the surviving records leaves. -/
theorem interrupted_pack_is_identical (id : PackId) (createdUnix : Nat) (s : World)
    (ow : Option PackWriter) (safe buffered : List Entry)
    (h : Session id createdUnix s ow safe buffered) (o o' : Oracle) (ho : o.Quiet)
    (ho' : o'.Quiet) :
    (∀ w, ow = some w → ∃ w' fs b, w.sealSync o s.pages = (.ok (), w', fs) ∧
      fs.readName (.spk id) = some b ∧
      uninterrupted o' id createdUnix (safe ++ buffered) = some b) ∧
    (∀ w, ow = some w → ∃ w' fs b, w.sealNoSync o s.pages = (.ok (), w', fs) ∧
      fs.readName (.spk id) = some b ∧
      uninterrupted o' id createdUnix (safe ++ buffered) = some b) ∧
    (ow = none → twpE Oracle.Quiet (fun _ _ => False) (PageStore.sealExistingPack id)
      (fun _ t => ∃ b, t.pages.readName (.spk id) = some b ∧
        uninterrupted o' id createdUnix safe = some b) s) := by
  obtain ⟨f, hk⟩ := h.kept
  have hseal : uninterrupted o' id createdUnix (safe ++ buffered) = _ :=
    uninterrupted_eq ho' hk.room
  refine ⟨?_, ?_, ?_⟩
  · intro w hw
    obtain ⟨rfl, hwrites⟩ := hk.writer w hw
    obtain ⟨w', fs', hrun, -, hlookup, hc⟩ := hwrites.sealSync ho
    refine ⟨w', fs', _, hrun, ?_, hseal⟩
    rw [FileSys.readName, hlookup, hk.linked, Option.map_some, hc]
  · intro w hw
    obtain ⟨rfl, hwrites⟩ := hk.writer w hw
    obtain ⟨w', fs', hrun, -, hlookup, hc⟩ := hwrites.sealNoSync ho
    refine ⟨w', fs', _, hrun, ?_, hseal⟩
    rw [FileSys.readName, hlookup, hk.linked, Option.map_some, hc]
  · intro hnone
    obtain rfl := hk.lost hnone
    have hhash := hk.hashed
    rw [List.append_nil] at hseal hhash
    refine twpE_mono ?_ (twpE_sealExistingPack (isHeader_packHeader id createdUnix) hhash hk.linked
      hk.file)
    rintro _ t ⟨hlookup, hc⟩
    refine ⟨_, ?_, hseal⟩
    rw [FileSys.readName, hlookup, hk.linked, Option.map_some, hc]

end

namespace Sample

attribute [local instance] primitives

theorem quiet_quiet : quiet.Quiet := fun _ _ => rfl

variable {id : PackId} {createdUnix : Nat} {s : World} {w : PackWriter} {safe : List Entry}

theorem exists_created (id : PackId) : ∃ s w, Session id 0 s (some w) [] [] := by
  have hspec : twpE (QuietAt 0) (fun _ _ => False)
      (PageStore.createActive ⟨packMaxBytes, 4⟩ id) _ World.empty := twpE_createActive rfl
  obtain ⟨r, s, hrun, hr⟩ := Ends.exists_of_twp (e := quiet) ⟨quiet_quiet, rfl⟩ hspec
  cases r with
  | ok w => exact ⟨s, w, .create rfl rfl hrun⟩
  | error e => exact hr.elim

theorem exists_appended (h : Session id createdUnix s (some w) safe []) (page : Page)
    (hroom : recordOffset (safe.length + 1) ≤ packMaxBytes) :
    ∃ s w, Session id createdUnix s (some w) (safe ++ [(blake3 page.bytes, page)]) [] := by
  obtain ⟨f, hk⟩ := h.kept
  obtain ⟨rfl, hw⟩ := hk.writer w rfl
  have hlen : (safe ++ [] ++ [(blake3 page.bytes, page)]).length = safe.length + 1 := by simp
  obtain ⟨off, w', fs, hrun, -, -, hw'⟩ :=
    hw.append quiet_quiet (hw.not_full (hlen ▸ hroom)) (blake3 page.bytes, page)
  have happend := h.append quiet_quiet page hrun
  obtain ⟨f', hk'⟩ := happend.kept
  obtain ⟨rfl, hwrites⟩ := hk'.writer w' rfl
  obtain ⟨w'', fs', hflush, -⟩ := hwrites.flushBuf quiet_quiet
  have hflushed := happend.flushBuf quiet_quiet hflush
  refine ⟨{ s with pages := fs' }, w'', ?_⟩
  by_cases hnil : w'.writeBuf = []
  · simpa only [if_pos hnil, List.nil_append, List.append_nil] using hflushed
  · simpa only [if_neg hnil, List.nil_append, List.append_nil] using hflushed

theorem exists_recovered (h : Session id createdUnix s none safe []) :
    ∃ s w, Session id createdUnix s (some w) safe [] := by
  obtain ⟨f, hk⟩ := h.kept
  have hhash := hk.hashed
  have hroom := hk.room
  rw [List.append_nil] at hhash hroom
  have hspec : twpE Oracle.Quiet (fun _ _ => False) (PageStore.reopenPackForAppend ∅ id) _ s :=
    twpE_reopenPackForAppend (isHeader_packHeader id createdUnix) hhash hk.linked hk.file hroom ∅
  obtain ⟨r, t, hrun, hr⟩ := Ends.exists_of_twp (e := quiet) quiet_quiet hspec
  cases r with
  | ok w => exact ⟨t, w.1, h.recover hrun⟩
  | error e => exact hr.elim

/-- Two pages with an interruption between them, and another one before the recovery seals the
pack. -/
theorem interrupted_pack_is_identical_twice :
    ∃ s, Session 0 0 s none [(blake3 (page 7).bytes, page 7), (blake3 (page 8).bytes, page 8)] [] ∧
      twpE Oracle.Quiet (fun _ _ => False) (PageStore.sealExistingPack 0)
        (fun _ t => ∃ b, t.pages.readName (.spk 0) = some b ∧
          uninterrupted quiet 0 0
            [(blake3 (page 7).bytes, page 7), (blake3 (page 8).bytes, page 8)] = some b) s := by
  obtain ⟨s₀, w₀, h₀⟩ := exists_created 0
  obtain ⟨s₁, w₁, h₁⟩ := exists_appended h₀ (page 7) (by decide)
  obtain ⟨s₂, w₂, h₂⟩ := exists_recovered h₁.abandon
  obtain ⟨s₃, w₃, h₃⟩ := exists_appended h₂ (page 8) (by decide)
  exact ⟨s₃, h₃.abandon, (interrupted_pack_is_identical 0 0 s₃ none _ [] h₃.abandon quiet quiet
    quiet_quiet quiet_quiet).2.2 rfl⟩

end Sample

end SnapStore
