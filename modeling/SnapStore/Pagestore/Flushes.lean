import SnapStore.Pagestore.Writer
import SnapStore.System

/-!
# The pack writer when writes fail

A write that fails may have transferred a part of the buffer.  The writer keeps the whole buffer
while the file cursor has moved, so the next flush repeats that part, and every record of the buffer
lies behind the offset it was given.  If failed writes transfer nothing, the offsets stay right.
-/

namespace SnapStore

open Disk

inductive WriterCall where
  | append (hash : PageHash) (payload : Page)
  | flushBuf

/-- A writer and its directory, with the offsets and records of the appends that returned. -/
structure Appending where
  writer : PackWriter
  pages : PagesFs
  acked : List (Nat × Entry)

namespace Appending

def file (s : Appending) : Bytes := s.pages.content s.writer.file

def step (s : Appending) (c : Oracle × WriterCall) : Appending :=
  match c.2 with
  | .append h p =>
    match s.writer.append c.1 s.pages h p with
    | (.ok off, w, fs) => ⟨w, fs, (off, (h, p)) :: s.acked⟩
    | (.error _, w, fs) => ⟨w, fs, s.acked⟩
  | .flushBuf =>
    match s.writer.flushBuf c.1 s.pages with
    | (_, w, fs) => ⟨w, fs, s.acked⟩

theorem acked_step_flushBuf (s : Appending) (o : Oracle) :
    (s.step (o, .flushBuf)).acked = s.acked := rfl

def run (s : Appending) (calls : List (Oracle × WriterCall)) : Appending := calls.foldl step s

/-- The writers a caller can get: that of a new pack, and that of a pack in which the recovery has
nothing to cut. -/
inductive Start : Appending → Prop where
  | created (fs : PagesFs) (id : PackId) (createdUnix maxBytes : Nat) :
      Start ⟨.fresh fs.nextIno id maxBytes,
        (fs.create (.spk id)).write fs.nextIno 0 (packHeader id createdUnix), []⟩
  | reopened [Primitives] (fs : PagesFs) (f : Ino) (id : PackId) (w : PackWriter) (e n : Nat)
      (hlen : packHeaderSize ≤ (fs.content f).length)
      (hscan : PackReader.openUnsealed (fs.content f) = .ok (e, n, false))
      (hopen : PackWriter.reopen f id (fs.content f) = .ok w) : Start ⟨w, fs, []⟩

structure Laid (s : Appending) : Prop where
  pos : s.writer.pos = s.file.length
  offset : s.writer.writeOffset = s.file.length + s.writer.writeBuf.length
  records : ∀ r ∈ s.acked, HasRecord (s.file ++ s.writer.writeBuf) r.1 r.2.1 r.2.2

/-! ## One call -/

def AllOrNothing (o : Oracle) : Prop := ∀ n, o.fault .pack .write = some n → n = 0

theorem Laid.flushBuf {s : Appending} {o : Oracle} (h : s.Laid) (ho : AllOrNothing o)
    {r : Except PackError Unit × PackWriter × PagesFs}
    (hr : s.writer.flushBuf o s.pages = r) : Laid ⟨r.2.1, r.2.2, s.acked⟩ := by
  subst hr
  have hwrite : ∀ bs, (s.pages.write s.writer.file s.writer.pos bs).content s.writer.file =
      s.file ++ bs := by
    intro bs
    rw [FileSys.content_write, if_pos rfl, h.pos]
    exact writeAt_end _ _
  by_cases hbuf : s.writer.writeBuf = []
  · rw [PackWriter.flushBuf, if_pos hbuf]
    exact h
  rw [PackWriter.flushBuf, if_neg hbuf, PackWriter.writeAll]
  cases hfault : o.fault .pack .write with
  | none =>
    refine ⟨?_, ?_, ?_⟩
    · show s.writer.pos + s.writer.writeBuf.length = _
      rw [file, hwrite, List.length_append, h.pos]
    · show s.writer.writeOffset = _
      rw [file, hwrite, List.length_append, h.offset]
      rfl
    · intro r hr
      show HasRecord (_ ++ []) _ _ _
      rw [file, hwrite, List.append_nil]
      exact h.records r hr
  | some n =>
    rw [ho n hfault]
    have hnil : (s.pages.write s.writer.file s.writer.pos []).content s.writer.file = s.file := by
      rw [hwrite, List.append_nil]
    refine ⟨?_, ?_, ?_⟩
    · show s.writer.pos + 0 = List.length (FileSys.content _ _)
      exact h.pos.trans (congrArg List.length hnil.symm)
    · exact h.offset.trans (congrArg (fun b => List.length b + _) hnil.symm)
    · intro r hr
      show HasRecord (file _ ++ s.writer.writeBuf) _ _ _
      have hrec := h.records r hr
      rw [← hnil] at hrec
      exact hrec

theorem Laid.buffer {s : Appending} (h : s.Laid) (hash : PageHash) (payload : Page) :
    Laid ⟨s.writer.buffer hash payload, s.pages,
      (s.writer.writeOffset, (hash, payload)) :: s.acked⟩ := by
  have hbuf : s.file ++ (s.writer.buffer hash payload).writeBuf =
      (s.file ++ s.writer.writeBuf) ++ recordBytes hash payload := (List.append_assoc _ _ _).symm
  refine ⟨h.pos, ?_, ?_⟩
  · show s.writer.writeOffset + recordSize = s.file.length + (s.writer.writeBuf ++ _).length
    rw [List.length_append, length_recordBytes, h.offset, Nat.add_assoc]
  · intro r hr
    show HasRecord (s.file ++ _) _ _ _
    rw [hbuf]
    rcases List.mem_cons.mp hr with rfl | hr
    · have hoff : s.writer.writeOffset = (s.file ++ s.writer.writeBuf).length + 0 := by
        rw [h.offset, List.length_append, Nat.add_zero]
      rw [HasRecord, hoff, slice_append_right]
      exact slice_self (length_recordBytes _ _)
    · exact (h.records r hr).mono (List.prefix_append _ _)

theorem Laid.forget {w : PackWriter} {fs : PagesFs} {r : Nat × Entry} {acked : List (Nat × Entry)}
    (h : Laid ⟨w, fs, r :: acked⟩) : Laid ⟨w, fs, acked⟩ :=
  ⟨h.pos, h.offset, fun x hx => h.records x (List.mem_cons_of_mem r hx)⟩

theorem Laid.append {s : Appending} {o : Oracle} (h : s.Laid) (ho : AllOrNothing o)
    (hash : PageHash) (payload : Page) : Laid (s.step (o, .append hash payload)) := by
  have hbuf := h.buffer hash payload
  unfold step
  dsimp only
  unfold PackWriter.append
  by_cases hsealed : s.writer.sealed = true
  · rw [if_pos hsealed]
    exact h
  by_cases hcap : s.writer.wouldExceedCap = true
  · rw [if_neg hsealed, if_pos hcap]
    exact h
  rw [if_neg hsealed, if_neg hcap]
  by_cases hfull : writeBufFlushThreshold ≤ (s.writer.buffer hash payload).writeBuf.length
  · dsimp only
    rw [if_pos hfull]
    cases hflush : (s.writer.buffer hash payload).flushBuf o s.pages with
    | mk r p =>
      have hlaid := hbuf.flushBuf ho hflush
      cases r with
      | ok => exact hlaid
      -- the record stays in the buffer, but the caller is not told its offset
      | error => exact hlaid.forget
  · dsimp only
    rw [if_neg hfull]
    exact hbuf

theorem Laid.step {s : Appending} {c : Oracle × WriterCall} (h : s.Laid) (ho : AllOrNothing c.1) :
    Laid (s.step c) := by
  obtain ⟨o, call⟩ := c
  cases call with
  | append hash payload => exact h.append ho hash payload
  | flushBuf => exact h.flushBuf ho rfl

/-! ## Whole runs -/

theorem Laid.run {s : Appending} {calls : List (Oracle × WriterCall)} (h : s.Laid)
    (ho : ∀ c ∈ calls, AllOrNothing c.1) : Laid (s.run calls) := by
  induction calls generalizing s with
  | nil => exact h
  | cons c calls ih =>
    exact ih (h.step (ho c List.mem_cons_self)) fun d hd => ho d (List.mem_cons_of_mem c hd)

theorem Start.laid {s : Appending} (h : Start s) : s.Laid := by
  cases h with
  | created fs id createdUnix maxBytes =>
    have hfile : file ⟨.fresh fs.nextIno id maxBytes,
        (fs.create (.spk id)).write fs.nextIno 0 (packHeader id createdUnix), []⟩ =
        packHeader id createdUnix := by
      show FileSys.content _ fs.nextIno = _
      rw [FileSys.content_write, if_pos rfl, FileSys.content_create, if_pos rfl]
      exact writeAt_nil_zero _
    refine ⟨?_, ?_, by simp⟩
    · rw [hfile, length_packHeader]
      rfl
    · rw [hfile, length_packHeader]
      rfl
  | reopened fs f id w e n hlen hscan hopen =>
    unfold PackReader.openUnsealed at hscan
    unfold PackWriter.reopen at hopen
    split at hopen
    · cases hopen
    split at hopen
    · cases hopen
    next h₁ h₂ =>
    rw [if_neg h₁, if_neg h₂] at hscan
    obtain ⟨-, -, huncut, k, -, hwhole⟩ :=
      whole_of_openUnsealedLoop _ _ _ (Nat.sub_le _ _) hlen (Except.ok.inj hscan)
    rw [huncut rfl, List.take_length] at hwhole
    have hend := congrArg Prod.fst (hwhole.reopenLoop_eq _ 0 [] (Nat.sub_le _ _))
    cases hopen
    refine ⟨hend, ?_, by simp⟩
    show _ = (fs.content f).length + 0
    exact hend

/-- In every run of appends and flushes whose failed writes transfer nothing, every offset that an
append returned is the offset of its record in the file followed by the buffer, and the next
offset is their length. -/
theorem offsets_survive (s : Appending) (calls : List (Oracle × WriterCall)) (hs : Start s)
    (ho : ∀ c ∈ calls, AllOrNothing c.1) :
    (∀ r ∈ (s.run calls).acked,
      HasRecord ((s.run calls).file ++ (s.run calls).writer.writeBuf) r.1 r.2.1 r.2.2) ∧
    (s.run calls).writer.writeOffset =
      (s.run calls).file.length + (s.run calls).writer.writeBuf.length := by
  have hlaid := hs.laid.run ho
  exact ⟨hlaid.records, hlaid.offset⟩

end Appending

namespace Sample

attribute [local instance] primitives

def newPack : Appending :=
  ⟨.fresh 0 0 packMaxBytes, (FileSys.empty.create (.spk 0)).write 0 0 (packHeader 0 0), []⟩

theorem start_newPack : newPack.Start := .created .empty 0 0 packMaxBytes

def shortWrites (n : Nat) : Oracle := ⟨fun _ _ => some n, 0, 0⟩

def failedFlush (n : Nat) : List (Oracle × WriterCall) :=
  [(quiet, .append (hash 7) (page 7)), (shortWrites n, .flushBuf)]

theorem step_append_newPack (o : Oracle) (h : PageHash) (p : Page) :
    newPack.step (o, .append h p) =
      ⟨newPack.writer.buffer h p, newPack.pages, [(packHeaderSize, (h, p))]⟩ := by
  have hcap : newPack.writer.wouldExceedCap = false := by decide
  have hbuf : ¬ writeBufFlushThreshold ≤ (newPack.writer.buffer h p).writeBuf.length := by
    show ¬ _ ≤ ([] ++ recordBytes h p).length
    rw [List.nil_append, length_recordBytes]
    decide
  simp only [Appending.step, PackWriter.append, hcap, if_neg hbuf]
  rfl

theorem acked_newPack (o o' : Oracle) (h : PageHash) (p : Page) :
    (newPack.run [(o, .append h p), (o', .flushBuf)]).acked = [(packHeaderSize, (h, p))] := by
  rw [Appending.run, List.foldl_cons, List.foldl_cons, List.foldl_nil,
    Appending.acked_step_flushBuf, step_append_newPack]

theorem offsets_survive_failed_flush :
    HasRecord ((newPack.run (failedFlush 0)).file ++ (newPack.run (failedFlush 0)).writer.writeBuf)
      packHeaderSize (hash 7) (page 7) := by
  have hcalls : ∀ c ∈ failedFlush 0, Appending.AllOrNothing c.1 := by
    intro c hc
    simp only [failedFlush, List.mem_cons, List.not_mem_nil, or_false] at hc
    intro n hn
    rcases hc with rfl | rfl
    · cases hn
    · exact (Option.some.inj hn).symm
  apply (Appending.offsets_survive newPack (failedFlush 0) start_newPack hcalls).1
    (packHeaderSize, (hash 7, page 7))
  rw [failedFlush, acked_newPack]
  exact List.mem_cons_self

/-- One byte of the buffer has been transferred when the flush fails: the record is no longer at
the offset the append returned, and the next offset is not the end of the file and the buffer. -/
theorem offset_is_lost :
    newPack.Start ∧
      (newPack.run (failedFlush 1)).acked = [(packHeaderSize, (hash 7, page 7))] ∧
      ¬ HasRecord
        ((newPack.run (failedFlush 1)).file ++ (newPack.run (failedFlush 1)).writer.writeBuf)
        packHeaderSize (hash 7) (page 7) ∧
      (newPack.run (failedFlush 1)).writer.writeOffset ≠
        (newPack.run (failedFlush 1)).file.length +
          (newPack.run (failedFlush 1)).writer.writeBuf.length := by
  refine ⟨start_newPack, acked_newPack _ _ _ _, ?_, ?_⟩
  · unfold HasRecord
    decide +kernel
  · decide +kernel

end Sample

end SnapStore
