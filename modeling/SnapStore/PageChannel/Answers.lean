import Mathlib.Data.List.Forall2
import SnapStore.PageChannel.Channel

/-!
# What the connection loop answers

Every reply carries the sequence number of the datagram it answers.
-/

namespace SnapStore.PageChannel

open Disk Conc

def seqOf (d : Datagram) : Option UInt64 := (decodeHdr d.bytes).toOption.map (·.1.seq)

theorem seqOf_eq {b : Bytes} {hdr : PcHdr} {body : Bytes} (h : decodeHdr b = .ok (hdr, body))
    (fd : Option Memfd) : seqOf ⟨b, fd⟩ = some hdr.seq := by
  simp [seqOf, h, Except.toOption]

theorem seqOf_errorReply (seq : UInt64) (code : ErrorCode) (detail : String) :
    seqOf (errorReply seq code detail) = some seq := by
  rw [errorReply, seqOf_eq (decodeHdr_encodeError seq code detail)]

theorem length_flatMap_bytes (pages : List Page) :
    (pages.flatMap (·.bytes)).length = pages.length * pageSize := by
  induction pages with
  | nil => simp
  | cons p pages ih =>
    rw [List.flatMap_cons, List.length_append, ih, p.length_bytes, List.length_cons, Nat.succ_mul]
    omega

variable [Primitives]

theorem handlePutBatch_cases (cfg : ServerConfig) (env : ServerEnv) (hdr : PcHdr) (body : Bytes)
    (fd : Option Memfd) :
    (∃ code detail, (handlePutBatch cfg env hdr body fd).1 = errorReply hdr.seq code detail) ∨
    ∃ count ok, (handlePutBatch cfg env hdr body fd).1 =
      ⟨encodePutBatchOk hdr.seq count ok, none⟩ := by
  unfold handlePutBatch
  dsimp only
  repeat' split
  all_goals first
    | exact .inl ⟨_, _, by with_reducible rfl⟩
    | exact .inr ⟨_, _, rfl⟩

def Pages (reqs : List GetReq) (pages : List Page) : Prop :=
  List.Forall₂ (fun req p => blake3 p.bytes = req.pageHash) reqs pages

theorem pages_of_found {reqs : List GetReq} {results : List (Option Page)}
    (h : List.Forall₂ (fun h r => ∀ p, r = some p → blake3 p.bytes = h)
      (reqs.map (·.pageHash)) results)
    (hfound : ((reqs.map (·.pageHash)).zip results).find? (·.2.isNone) = none) :
    Pages reqs (results.filterMap id) := by
  induction reqs generalizing results with
  | nil =>
    obtain rfl : results = [] := by simpa using h
    exact .nil
  | cons req reqs ih =>
    rw [List.map_cons] at h
    cases h with
    | @cons _ r _ rest hr hrest =>
      rw [List.map_cons, List.zip_cons_cons, List.find?_cons] at hfound
      cases r with
      | none => simp at hfound
      | some p => exact .cons (hr p rfl) (ih hrest (by simpa using hfound))

theorem handleGetBatch_cases (env : ServerEnv) {hdr : PcHdr} {body : Bytes} {reqs : List GetReq}
    (h : decodeGetBatch hdr body = .ok reqs) :
    (∃ code detail, (handleGetBatch env hdr body).1 = errorReply hdr.seq code detail) ∨
    ∃ pages, Pages reqs pages ∧ (handleGetBatch env hdr body).1 =
      ⟨encodeGetBatchData hdr.seq reqs, some ⟨pages.flatMap (·.bytes), false⟩⟩ := by
  rw [handleGetBatch, h]
  dsimp only
  split
  · exact .inl ⟨_, _, rfl⟩
  · next results hresults =>
    split
    · exact .inl ⟨_, _, rfl⟩
    · next hfound =>
      split
      · exact .inl ⟨_, _, rfl⟩
      · split
        · exact .inl ⟨_, _, rfl⟩
        · split
          · exact .inl ⟨_, _, rfl⟩
          · have hpages := pages_of_found (env.getBatch_ok _ _ hresults) hfound
            have hlen : reqs.length * pageSize =
                ((results.filterMap id).flatMap (·.bytes)).length := by
              rw [length_flatMap_bytes, hpages.length_eq]
            refine .inr ⟨_, hpages, ?_⟩
            rw [hlen, padTo, Nat.sub_self, List.replicate_zero, List.append_nil]

theorem seqOf_answer {cfg : ServerConfig} (env : ServerEnv) {d : Datagram} {hdr : PcHdr}
    {body : Bytes} (h : decodeHdr d.bytes = .ok (hdr, body)) :
    seqOf (answer cfg env d).1 = some hdr.seq := by
  rw [answer, h]
  dsimp only
  split
  · rcases handlePutBatch_cases cfg env hdr body d.fd with ⟨code, detail, hr⟩ | ⟨count, ok, hr⟩
    · rw [hr]
      exact seqOf_errorReply _ _ _
    · rw [hr]
      rw [seqOf_eq (decodeHdr_encodePutBatchOk _ _ _)]
  · cases hreqs : decodeGetBatch hdr body with
    | error e =>
      rw [handleGetBatch, hreqs]
      exact seqOf_errorReply _ _ _
    | ok reqs =>
      rcases handleGetBatch_cases env hreqs with ⟨code, detail, hr⟩ | ⟨pages, -, hr⟩
      · rw [hr]
        exact seqOf_errorReply _ _ _
      · rw [hr]
        rw [seqOf_eq (decodeHdr_encodeGetBatchData _ _)]
  · exact seqOf_errorReply _ _ _

def Chunk.Fits (c : Chunk) : Prop := 0 < c.2.length ∧ c.2.length ≤ getBatchMaxPerDatagram

def Chunk.datagram (c : Chunk) : Datagram := ⟨encodeGetBatch c.1 c.2, none⟩

omit [Primitives] in
theorem Chunk.Fits.count {c : Chunk} (h : c.Fits) :
    (UInt32.ofNat c.2.length).toNat = c.2.length := by
  have hmax := h.2
  rw [UInt32.toNat_ofNat_of_lt']
  exact lt_of_le_of_lt hmax (by decide)

theorem answer_chunk {cfg : ServerConfig} (env : ServerEnv) {c : Chunk} (hc : c.Fits) :
    (∃ code detail, (answer cfg env c.datagram).1 = errorReply c.1 code detail) ∨
    ∃ pages, Pages c.2 pages ∧ (answer cfg env c.datagram).1 =
      ⟨encodeGetBatchData c.1 c.2, some ⟨pages.flatMap (·.bytes), false⟩⟩ := by
  have hreqs : decodeGetBatch ⟨.getBatch, 0, c.1, .ofNat c.2.length⟩ (c.2.flatMap encodeGetReq) =
      .ok c.2 := decodeGetReqs_ok "GET_BATCH" hc.count hc.1 hc.2
  have hhdr : decodeHdr c.datagram.bytes =
      .ok (⟨.getBatch, 0, c.1, .ofNat c.2.length⟩, c.2.flatMap encodeGetReq) :=
    decodeHdr_encodeGetBatch _ _
  rw [answer, hhdr]
  exact handleGetBatch_cases env hreqs

end SnapStore.PageChannel
