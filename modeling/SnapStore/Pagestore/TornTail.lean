import SnapStore.Pagestore.Flushes
import SnapStore.Pagestore.Alone
import SnapStore.Pagestore.Open

/-!
# Recovery of a torn pack

A pack that was written without a failure is its header and the records that were appended.  Cut at
any length, the recovery keeps exactly the records that lie below the cut.
-/

namespace SnapStore

open Disk Conc

/-! ## The bytes a writer leaves -/

namespace Appending

def records (s : Appending) : List Entry := (s.acked.map Prod.snd).reverse

def bytes (s : Appending) : Bytes := s.file ++ s.writer.writeBuf

def Calm (c : Oracle × WriterCall) : Prop := c.1.Quiet

theorem Calm.allOrNothing {c : Oracle × WriterCall} (h : Calm c) : AllOrNothing c.1 := by
  intro n hn
  rw [h .pack .write] at hn
  cases hn

theorem flushBuf_calm {s : Appending} {o : Oracle} (h : s.Laid) (ho : o.Quiet) :
    (s.step (o, .flushBuf)).bytes = s.bytes ∧ (s.step (o, .flushBuf)).writer.writeBuf = [] := by
  obtain ⟨fs, hflush, hc, -⟩ := PackWriter.flushBuf_end (ho .pack .write) h.pos
  have hstep : s.step (o, .flushBuf) = ⟨s.writer.flushed, fs, s.acked⟩ := by
    simp only [step, hflush]
  rw [hstep]
  exact ⟨(List.append_nil _).trans hc, rfl⟩

theorem append_calm {s : Appending} {o : Oracle} (h : s.Laid) (ho : o.Quiet) (hash : PageHash)
    (payload : Page) :
    (s.step (o, .append hash payload)).records = s.records ∧
        (s.step (o, .append hash payload)).bytes = s.bytes ∨
      (s.step (o, .append hash payload)).records = s.records ++ [(hash, payload)] ∧
        (s.step (o, .append hash payload)).bytes = s.bytes ++ recordBytes hash payload := by
  cases hsealed : s.writer.sealed with
  | true =>
    left
    simp [step, PackWriter.append, hsealed, records, bytes, file]
  | false =>
    cases hcap : s.writer.wouldExceedCap with
    | true =>
      left
      simp [step, PackWriter.append, hsealed, hcap, records, bytes, file]
    | false =>
      right
      obtain ⟨w, fs, happend, hcases⟩ :=
        PackWriter.append_end (ho .pack .write) hsealed hcap h.pos hash payload
      have hstep : s.step (o, .append hash payload) =
          ⟨w, fs, (s.writer.writeOffset, (hash, payload)) :: s.acked⟩ := by
        simp only [step, happend]
      rw [hstep]
      refine ⟨by simp [records], ?_⟩
      rcases hcases with ⟨rfl, rfl⟩ | ⟨rfl, hc, -⟩
      · exact (List.append_assoc _ _ _).symm
      · exact ((List.append_nil _).trans hc).trans (List.append_assoc _ _ _).symm

structure Exact (hdr : Bytes) (s : Appending) : Prop where
  laid : s.Laid
  bytes : s.bytes = openPack hdr s.records

theorem Exact.step {hdr : Bytes} {s : Appending} {c : Oracle × WriterCall} (h : Exact hdr s)
    (hc : Calm c) : Exact hdr (s.step c) := by
  refine ⟨h.laid.step hc.allOrNothing, ?_⟩
  obtain ⟨o, call⟩ := c
  cases call with
  | flushBuf => rw [(flushBuf_calm h.laid hc).1, h.bytes]; rfl
  | append hash payload =>
    rcases append_calm h.laid hc hash payload with ⟨hrec, hb⟩ | ⟨hrec, hb⟩
    · rw [hrec, hb, h.bytes]
    · rw [hrec, hb, h.bytes, PackWriter.openPack_append_record]

theorem Exact.run {hdr : Bytes} {s : Appending} {calls : List (Oracle × WriterCall)}
    (h : Exact hdr s) (hc : ∀ c ∈ calls, Calm c) : Exact hdr (s.run calls) := by
  induction calls generalizing s with
  | nil => exact h
  | cons c calls ih =>
    exact ih (h.step (hc c List.mem_cons_self)) fun d hd => hc d (List.mem_cons_of_mem c hd)

def created (fs : PagesFs) (id : PackId) (createdUnix maxBytes : Nat) : Appending :=
  ⟨.fresh fs.nextIno id maxBytes,
    (fs.create (.spk id)).write fs.nextIno 0 (packHeader id createdUnix), []⟩

theorem exact_created (fs : PagesFs) (id : PackId) (createdUnix maxBytes : Nat) :
    Exact (packHeader id createdUnix) (created fs id createdUnix maxBytes) := by
  refine ⟨(Start.created fs id createdUnix maxBytes).laid, ?_⟩
  show ((fs.create (.spk id)).write fs.nextIno 0 (packHeader id createdUnix)).content fs.nextIno
    ++ [] = packHeader id createdUnix ++ []
  rw [FileSys.content_write, if_pos rfl, FileSys.content_create, if_pos rfl, writeAt_nil_zero]

end Appending

/-! ## A cut file -/

def wholeRecords (count n : Nat) : Nat := min count ((n - packHeaderSize) / recordSize)

theorem recordOffset_mono {j k : Nat} (h : j ≤ k) : recordOffset j ≤ recordOffset k :=
  Nat.add_le_add_left (Nat.mul_le_mul_left _ h) _

theorem recordOffset_le_iff {k n : Nat} (hn : packHeaderSize ≤ n) :
    recordOffset k ≤ n ↔ k ≤ (n - packHeaderSize) / recordSize := by
  rw [Nat.le_div_iff_mul_le (by decide), recordOffset, Nat.mul_comm]
  omega

theorem wholeRecords_le (count n : Nat) : wholeRecords count n ≤ count := Nat.min_le_left _ _

theorem recordOffset_wholeRecords_le {n : Nat} (hn : packHeaderSize ≤ n) (count : Nat) :
    recordOffset (wholeRecords count n) ≤ n :=
  (recordOffset_le_iff hn).mpr (Nat.min_le_right _ _)

theorem le_wholeRecords {count j n : Nat} (hn : packHeaderSize ≤ n) (hj : j ≤ count)
    (hoff : recordOffset j ≤ n) : j ≤ wholeRecords count n :=
  Nat.le_min.mpr ⟨hj, (recordOffset_le_iff hn).mp hoff⟩

theorem wholeRecords_le_of_lt {count j n : Nat} (hn : packHeaderSize ≤ n)
    (h : n < recordOffset (j + 1)) : wholeRecords count n ≤ j := by
  by_contra hlt
  have hmono := recordOffset_mono (Nat.lt_of_not_le hlt)
  have hle := recordOffset_wholeRecords_le hn count
  exact absurd (hmono.trans hle) (Nat.not_le.mpr h)

def tornBytes (rs : List Entry) (n : Nat) : Bytes :=
  (encodeRecords (rs.drop (wholeRecords rs.length n))).take
    (n - recordOffset (wholeRecords rs.length n))

theorem take_openPack {hdr : Bytes} (hh : IsHeader hdr) (rs : List Entry) {n : Nat}
    (hn : packHeaderSize ≤ n) :
    (openPack hdr rs).take n =
      openPack hdr (rs.take (wholeRecords rs.length n)) ++ tornBytes rs n := by
  have hsplit : openPack hdr rs = openPack hdr (rs.take (wholeRecords rs.length n)) ++
      encodeRecords (rs.drop (wholeRecords rs.length n)) := by
    rw [openPack, openPack, List.append_assoc, ← encodeRecords_append, List.take_append_drop]
  have hlen : (openPack hdr (rs.take (wholeRecords rs.length n))).length =
      recordOffset (wholeRecords rs.length n) := by
    rw [length_openPack hh, List.length_take, Nat.min_eq_left (wholeRecords_le _ _)]
  rw [hsplit, List.take_append, hlen,
    List.take_of_length_le (hlen.le.trans (recordOffset_wholeRecords_le hn _))]
  rfl

theorem length_tornBytes_lt {n : Nat} (hn : packHeaderSize ≤ n) (rs : List Entry) :
    (tornBytes rs n).length < recordSize := by
  have hpos : 0 < recordSize := by decide
  rw [tornBytes, List.length_take, length_encodeRecords, List.length_drop]
  by_cases hall : wholeRecords rs.length n = rs.length
  · rw [hall, Nat.sub_self, Nat.mul_zero, Nat.min_zero]
    exact hpos
  · have hlt : wholeRecords rs.length n < rs.length :=
      lt_of_le_of_ne (wholeRecords_le _ _) hall
    have hnext : ¬ recordOffset (wholeRecords rs.length n + 1) ≤ n :=
      fun hle => absurd (le_wholeRecords hn hlt hle) (Nat.not_succ_le_self _)
    rw [PackWriter.recordOffset_succ] at hnext
    omega

section

variable [Primitives]

def CarriesHash (b : Bytes) (off : Nat) : Prop :=
  off + (recordHeaderSize + recordLen b off) ≤ b.length ∧
    blake3 (slice b (off + recordHeaderSize) (recordLen b off)) = recordHash b off

theorem GoodRecord.carriesHash {b : Bytes} {off : Nat} (h : GoodRecord b off) :
    CarriesHash b off := by
  have hheader := h.header
  have hroom := h.room
  have hpos : 0 < recordHeaderSize := by decide
  exact ⟨by omega, h.hash⟩

theorem not_good_of_part {pre : Bytes} {rs : List Entry} {m : Nat}
    (hm : ((encodeRecords rs).take m).length < recordSize) :
    ¬ GoodRecord (pre ++ (encodeRecords rs).take m) pre.length := by
  intro hgood
  have hheader := hgood.header
  have hroom := hgood.room
  rw [List.length_append, Nat.add_sub_cancel_left] at hheader
  cases rs with
  | nil =>
    simp [encodeRecords, recordHeaderSize] at hheader
  | cons r rs =>
    rw [List.length_take, length_encodeRecords, List.length_cons, Nat.mul_succ] at hm hheader
    have hm' : m < recordSize := by omega
    have hlen : recordLen (pre ++ (encodeRecords (r :: rs)).take m) pre.length = pageSize := by
      have hrec : HasRecord (pre ++ (encodeRecords (r :: rs) ++ [])) pre.length r.1 r.2 :=
        hasRecord_head pre [] r rs
      rw [← hrec.len, recordLen, recordLen, slice_append_right, slice_append_right, List.append_nil]
      refine congrArg leNat ( slice_prefix (List.take_prefix _ _) ?_).symm
      rw [List.length_take, length_encodeRecords, List.length_cons, Nat.mul_succ]
      simp only [recordHeaderSize] at hheader
      omega
    rw [hlen, List.length_append, List.length_take, length_encodeRecords] at hroom
    simp only [recordSize, recordHeaderSize, pageSize] at hroom hm'
    omega

theorem openUnsealed_tail {hdr tail : Bytes} {rs : List Entry} (hh : IsHeader hdr)
    (hhash : Hashed rs)
    (hbad : tail ≠ [] → ¬ GoodRecord (openPack hdr rs ++ tail) (recordOffset rs.length)) :
    PackReader.openUnsealed (openPack hdr rs ++ tail) =
      .ok (recordOffset rs.length, rs.length, decide (tail ≠ [])) := by
  have hlen : (openPack hdr rs ++ tail).length = recordOffset rs.length + tail.length := by
    rw [List.length_append, length_openPack hh]
  have hshort : ¬ (openPack hdr rs ++ tail).length < 4 := by
    rw [hlen]
    simp only [recordOffset, packHeaderSize]
    omega
  have hmagic : slice (openPack hdr rs ++ tail) 0 4 = packMagic := by
    rw [openPack, List.append_assoc]
    exact hh.slice_append _
  have hb : openPack hdr rs ++ tail = hdr ++ (encodeRecords rs ++ tail) := List.append_assoc _ _ _
  obtain ⟨fuel, hfuel⟩ := Nat.exists_eq_add_of_le (length_le_recordOffset rs.length)
  have hloop : openUnsealedLoop (openPack hdr rs ++ tail) (openPack hdr rs ++ tail).length
      packHeaderSize 0 = (recordOffset rs.length, rs.length, decide (tail ≠ [])) := by
    have hsum : recordOffset rs.length + tail.length = rs.length + (fuel + tail.length) := by omega
    rw [← hh.length, hlen, hsum, openUnsealedLoop_append rs hdr (fuel + tail.length) 0 hhash hb,
      hh.length, Nat.zero_add]
    show openUnsealedLoop _ _ (recordOffset rs.length) _ = _
    by_cases htail : tail = []
    · rw [openUnsealedLoop_of_end (by rw [hlen, htail]; simp)]
      simp [htail]
    · have hpos : 0 < tail.length := List.length_pos_iff.mpr htail
      obtain ⟨m, hm⟩ := Nat.exists_eq_add_one_of_ne_zero hpos.ne'
      rw [hm, ← Nat.add_assoc, openUnsealedLoop_of_bad (by omega) (hbad htail)]
      simp [htail]
  rw [PackReader.openUnsealed, if_neg hshort, if_neg (not_not.mpr hmagic), hloop]

theorem hashed_take {rs : List Entry} (h : Hashed rs) (k : Nat) : Hashed (rs.take k) :=
  fun r hr => h r (List.mem_of_mem_take hr)

theorem openUnsealed_torn {hdr garbage : Bytes} {rs : List Entry} {n k : Nat} (hh : IsHeader hdr)
    (hhash : Hashed rs) (hn : packHeaderSize ≤ n) (hk : k = wholeRecords rs.length n)
    (hg : garbage ≠ [] →
      ¬ CarriesHash ((openPack hdr rs).take n ++ garbage) (recordOffset k)) :
    PackReader.openUnsealed ((openPack hdr rs).take n ++ garbage) =
      .ok (recordOffset k, k, decide (tornBytes rs n ++ garbage ≠ [])) := by
  have hlen : (rs.take k).length = k := by
    rw [List.length_take, Nat.min_eq_left (hk ▸ wholeRecords_le _ _)]
  have hb : (openPack hdr rs).take n ++ garbage =
      openPack hdr (rs.take k) ++ (tornBytes rs n ++ garbage) := by
    rw [take_openPack hh rs hn, List.append_assoc, hk]
  have hkept := hashed_take hhash k
  have hbad : ¬ GoodRecord ((openPack hdr rs).take n ++ garbage) (recordOffset k) → _ :=
    fun h => openUnsealed_tail hh hkept fun _ : tornBytes rs n ++ garbage ≠ [] => by
      rw [hlen, ← hb]
      exact h
  rw [hlen, ← hb] at hbad
  apply hbad
  by_cases hnone : garbage = []
  · have hpre : (openPack hdr (rs.take k)).length = recordOffset k := by
      rw [length_openPack hh, hlen]
    subst hnone
    simp only [List.append_nil] at hb ⊢
    rw [hb, ← hpre]
    exact not_good_of_part (length_tornBytes_lt hn rs)
  · exact fun hgood => hg hnone hgood.carriesHash

/-! ## The recovery in a directory -/

variable {bad : PageStoreError → World → Prop}

theorem twpE_openUnsealed {s : World} {id : PackId} {f : Ino} {e n : Nat} {cut : Bool}
    (hf : s.pages.lookup (.spk id) = some f)
    (hscan : PackReader.openUnsealed (s.pages.content f) = .ok (e, n, cut)) :
    twpE Oracle.Quiet bad (PageStore.openUnsealed id)
      (fun r t => r = e ∧
        t = if cut then { s with pages := s.pages.truncate f e } else s) s := by
  have hbytes : PageStore.packBytes s id = some (s.pages.content f) := by
    rw [PageStore.packBytes, FileSys.readName, hf]
    rfl
  refine twpE_bind (twpE_observe fun o ho => ⟨(e, n, cut), ?_, ?_⟩)
  · simp only [ho .pack .openFile, hbytes, hscan]
    rfl
  cases cut with
  | false => exact twpE_pure ⟨rfl, rfl⟩
  | true =>
    refine twpE_bind (twpE_attempt fun o ho => ⟨(), { s with pages := s.pages.truncate f e }, ?_, ?_⟩)
    · rw [ho .pack .write, hf]
    · exact twpE_pure ⟨rfl, rfl⟩

/-! ## The main result -/

def Honest (c : Oracle × WriterCall) : Prop :=
  c.1.Quiet ∧ ∀ h p, c.2 = .append h p → blake3 p.bytes = h

namespace Appending

theorem hashed_step {a : Appending} {c : Oracle × WriterCall} (h : a.Laid) (hr : Hashed a.records)
    (hc : Honest c) : Hashed (a.step c).records := by
  obtain ⟨o, call⟩ := c
  cases call with
  | flushBuf => exact hr
  | append hash payload =>
    rcases append_calm h hc.1 hash payload with ⟨hrec, -⟩ | ⟨hrec, -⟩
    · rw [hrec]
      exact hr
    · rw [hrec]
      refine hr.append fun r hmem => ?_
      rw [List.mem_singleton.mp hmem]
      exact hc.2 hash payload rfl

theorem hashed_run {a : Appending} {calls : List (Oracle × WriterCall)} (h : a.Laid)
    (hr : Hashed a.records) (hc : ∀ c ∈ calls, Honest c) : Hashed (a.run calls).records := by
  induction calls generalizing a with
  | nil => exact hr
  | cons c calls ih =>
    have hhead := hc c List.mem_cons_self
    exact ih (h.step (Calm.allOrNothing hhead.1)) (hashed_step h hr hhead)
      fun d hd => hc d (List.mem_cons_of_mem c hd)

def flushed (fs : PagesFs) (id : PackId) (createdUnix maxBytes : Nat)
    (calls : List (Oracle × WriterCall)) (o : Oracle) : Appending :=
  ((created fs id createdUnix maxBytes).run calls).step (o, .flushBuf)

variable {fs : PagesFs} {id : PackId} {createdUnix maxBytes : Nat}
  {calls : List (Oracle × WriterCall)} {o : Oracle}

theorem file_flushed (hcalls : ∀ c ∈ calls, Honest c) (ho : o.Quiet) :
    (flushed fs id createdUnix maxBytes calls o).file = openPack (packHeader id createdUnix)
      (flushed fs id createdUnix maxBytes calls o).records := by
  have hrun := (exact_created fs id createdUnix maxBytes).run fun c hc => (hcalls c hc).1
  have hexact : Exact _ (flushed fs id createdUnix maxBytes calls o) := hrun.step ho
  have hbuf : (flushed fs id createdUnix maxBytes calls o).writer.writeBuf = [] :=
    (flushBuf_calm hrun.laid ho).2
  rw [← hexact.bytes, bytes, hbuf, List.append_nil]

theorem hashed_flushed (hcalls : ∀ c ∈ calls, Honest c) :
    Hashed (flushed fs id createdUnix maxBytes calls o).records := by
  have hlaid := (exact_created fs id createdUnix maxBytes).laid
  exact hashed_run hlaid (by intro r hr; cases hr) hcalls

end Appending

/-- Pages are appended to a new pack and flushed, the file is cut at `n`, and bytes may follow whose
first record does not carry a matching hash.  The recovery returns the maximal prefix of the
records that lies below the cut, the file ends after them, and a second recovery returns the same
and changes nothing. -/
theorem torn_tail_recovers (fs : PagesFs) (id : PackId) (createdUnix maxBytes : Nat)
    (calls : List (Oracle × WriterCall)) (o : Oracle) (n k : Nat) (rs : List Entry)
    (garbage : Bytes) (s : World) (f : Ino)
    (hcalls : ∀ c ∈ calls, Honest c) (ho : o.Quiet)
    (hrs : rs = (Appending.flushed fs id createdUnix maxBytes calls o).records)
    (hn : packHeaderSize ≤ n) (hk : k = wholeRecords rs.length n)
    (hf : s.pages.lookup (.spk id) = some f)
    (hfile : s.pages.content f =
      (Appending.flushed fs id createdUnix maxBytes calls o).file.take n ++ garbage)
    (hg : garbage ≠ [] → ¬ CarriesHash (s.pages.content f) (recordOffset k)) :
    (k ≤ rs.length ∧ recordOffset k ≤ n ∧ ∀ j, j ≤ rs.length → recordOffset j ≤ n → j ≤ k) ∧
    (∃ cut, PackReader.openUnsealed (s.pages.content f) = .ok (recordOffset k, k, cut)) ∧
    twpE Oracle.Quiet (fun _ _ => False) (PageStore.openUnsealed id) (fun e t =>
      e = recordOffset k ∧
      t.pages.content f = openPack (packHeader id createdUnix) (rs.take k) ∧
      PackReader.scan (t.pages.content f) e = .ok (entriesAt packHeaderSize (rs.take k)) ∧
      (∃ pages, t = { s with pages := pages } ∧ pages.lookup = s.pages.lookup ∧
        ∀ g, g ≠ f → pages.content g = s.pages.content g) ∧
      twpE Oracle.Quiet (fun _ _ => False) (PageStore.openUnsealed id)
        (fun e' t' => e' = e ∧ t' = t) t) s := by
  have hh := isHeader_packHeader id createdUnix
  have hhash : Hashed rs := hrs ▸ Appending.hashed_flushed hcalls
  rw [Appending.file_flushed hcalls ho, ← hrs] at hfile
  have hle : k ≤ rs.length := hk ▸ wholeRecords_le _ _
  have hlen : (rs.take k).length = k := by rw [List.length_take, Nat.min_eq_left hle]
  have hscan : PackReader.openUnsealed (s.pages.content f) =
      .ok (recordOffset k, k, decide (tornBytes rs n ++ garbage ≠ [])) := by
    rw [hfile] at hg ⊢
    exact openUnsealed_torn hh hhash hn hk hg
  refine ⟨⟨hle, hk ▸ recordOffset_wholeRecords_le hn _, ?_⟩, ⟨_, hscan⟩, ?_⟩
  · intro j hj hoff
    rw [hk]
    exact le_wholeRecords hn hj hoff
  -- the file after the recovery, cut or not
  have hcontent : s.pages.content f =
      openPack (packHeader id createdUnix) (rs.take k) ++ (tornBytes rs n ++ garbage) := by
    rw [hfile, take_openPack hh rs hn, List.append_assoc, hk]
  have hpre : (openPack (packHeader id createdUnix) (rs.take k)).length = recordOffset k := by
    rw [length_openPack hh, hlen]
  refine twpE_mono ?_ (twpE_openUnsealed hf hscan)
  intro e t ⟨he, ht⟩
  obtain ⟨pages, rfl, hfile', hlookup, hother⟩ : ∃ pages, t = { s with pages := pages } ∧
      pages.content f = openPack (packHeader id createdUnix) (rs.take k) ∧
      pages.lookup = s.pages.lookup ∧ ∀ g, g ≠ f → pages.content g = s.pages.content g := by
    by_cases htail : tornBytes rs n ++ garbage = []
    · refine ⟨s.pages, ?_, ?_, rfl, fun g _ => rfl⟩
      · rw [ht]
        simp [htail]
      · rw [hcontent, htail, List.append_nil]
    · refine ⟨s.pages.truncate f (recordOffset k), ?_, ?_, rfl, ?_⟩
      · rw [ht]
        simp [htail]
      · rw [FileSys.content_truncate, if_pos rfl, hcontent, ← hpre, List.take_left]
      · intro g hne
        rw [FileSys.content_truncate, if_neg hne]
  have hscan' : PackReader.scan (openPack (packHeader id createdUnix) (rs.take k))
    (recordOffset (rs.take k).length) = _ := scan_openPack hh
  have hagain := openUnsealed_openPack hh (hashed_take hhash k)
  rw [hlen] at hscan' hagain
  refine ⟨he, hfile', ?_, ⟨pages, rfl, hlookup, hother⟩, ?_⟩
  · rw [he, hfile']
    exact hscan'
  · rw [← hfile'] at hagain
    refine twpE_mono ?_ (twpE_openUnsealed (s := { s with pages := pages })
      ((congrFun hlookup _).trans hf) hagain)
    intro e' t' ⟨he', ht'⟩
    exact ⟨he'.trans he.symm, ht'⟩

end

namespace Sample

attribute [local instance] primitives

def onePage : Appending :=
  Appending.flushed .empty 0 0 packMaxBytes [(quiet, .append (hash 7) (page 7))] quiet

theorem honest_onePage :
    ∀ c ∈ [(quiet, WriterCall.append (hash 7) (page 7))], Honest c := by
  intro c hc
  rw [List.mem_singleton.mp hc]
  refine ⟨fun _ _ => rfl, ?_⟩
  intro h p heq
  cases heq
  rfl

def tornFile : Bytes := onePage.file.take 100 ++ [1, 2, 3]

def withPack (b : Bytes) : World :=
  { World.empty with pages := (FileSys.empty.create (.spk 0)).write 0 0 b }

theorem content_withPack (b : Bytes) : (withPack b).pages.content 0 = b := by
  show FileSys.content ((FileSys.empty.create (.spk 0)).write 0 0 b) 0 = b
  rw [FileSys.content_write, if_pos rfl]
  exact writeAt_nil_zero b

theorem readName_withPack (b : Bytes) : (withPack b).pages.readName (.spk 0) = some b :=
  congrArg some (content_withPack b)

theorem torn_tail_recovers_one :
    twpE Oracle.Quiet (fun _ _ => False) (PageStore.openUnsealed 0)
      (fun e _ => e = recordOffset (wholeRecords onePage.records.length 100))
      (withPack tornFile) := by
  have hshort : ¬ recordOffset 0 + (recordHeaderSize + recordLen tornFile (recordOffset 0)) ≤
      tornFile.length := by
    decide +kernel
  have hwhole : wholeRecords onePage.records.length 100 = 0 := by
    decide +kernel
  have hg : ¬ CarriesHash ((withPack tornFile).pages.content 0)
      (recordOffset (wholeRecords onePage.records.length 100)) := by
    rw [content_withPack, hwhole]
    exact fun h => hshort h.1
  exact twpE_mono (fun e t h => h.1) (torn_tail_recovers .empty 0 0 packMaxBytes _ quiet 100 _
    onePage.records [1, 2, 3] (withPack tornFile) 0 honest_onePage (fun _ _ => rfl) rfl (by decide) rfl rfl
    (content_withPack tornFile) fun _ => hg).2.2

end Sample

end SnapStore
