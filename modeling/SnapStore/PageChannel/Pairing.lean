import Mathlib.Logic.Relation
import SnapStore.System
import SnapStore.PageChannel.Answers

/-!
# Requests and replies on one page channel

The connection loop answers datagrams in the order they were sent, each with its own sequence
number.  A call that starts when nothing of an earlier call is left in the socket therefore reads
the replies to its own datagrams, in order.
-/

namespace SnapStore.PageChannel

open Disk Conc

section Channel

variable [Primitives]

/-! ## The socket during one call -/

/-- Nothing of an earlier call is left: no datagram without its reply, no reply unread. -/
structure Channel.Quiet (s : Channel) : Prop where
  requests : s.requests = []
  handling : s.handling = none
  replies : s.replies = []

inductive ServerMove (cfg : ServerConfig) : Channel → Channel → Prop where
  | recv {s : Channel} {d : Datagram} {rest : List Datagram} (hopen : s.closed = false)
      (hfree : s.handling = none) (hreq : s.requests = d :: rest) :
      ServerMove cfg s { s with requests := rest, handling := some d }
  | reply {s : Channel} {d : Datagram} (env : ServerEnv) (hd : s.handling = some d) :
      ServerMove cfg s
        { s with handling := none, replies := s.replies ++ [(answer cfg env d).1] }
  | close (s : Channel) : ServerMove cfg s s.close

def Pipeline (cfg : ServerConfig) (pend : List Datagram) (s : Channel) : Prop :=
  ∃ done, List.Forall₂ (fun d r => ∃ env, (answer cfg env d).1 = r) done s.replies ∧
    (s.closed = false ∧ done ++ s.handling.toList ++ s.requests = pend ∨
      s.closed = true ∧ s.handling = none ∧ s.requests = [] ∧ done <+: pend)

namespace Pipeline

variable {cfg : ServerConfig} {pend : List Datagram} {s t : Channel}

theorem of_quiet (h : s.Quiet) : Pipeline cfg [] s := by
  refine ⟨[], by rw [h.replies]; exact .nil, ?_⟩
  cases hc : s.closed with
  | false => exact .inl ⟨rfl, by simp [h.handling, h.requests]⟩
  | true => exact .inr ⟨rfl, h.handling, h.requests, List.prefix_refl []⟩

theorem quiet (h : Pipeline cfg [] s) : s.Quiet := by
  obtain ⟨done, hdone, hrest⟩ := h
  rcases hrest with ⟨-, happ⟩ | ⟨-, hh, hr, hp⟩
  · simp only [List.append_eq_nil_iff, Option.toList_eq_nil_iff] at happ
    obtain ⟨⟨rfl, hh⟩, hr⟩ := happ
    exact ⟨hr, hh, by simpa using hdone⟩
  · obtain rfl := List.prefix_nil.mp hp
    exact ⟨hr, hh, by simpa using hdone⟩

theorem move (h : Pipeline cfg pend s) (hm : ServerMove cfg s t) : Pipeline cfg pend t := by
  obtain ⟨done, hdone, hrest⟩ := h
  cases hm with
  | @recv d rest hopen hfree hreq =>
    rcases hrest with ⟨hc, happ⟩ | ⟨hc, -, -, -⟩
    · refine ⟨done, hdone, .inl ⟨hc, ?_⟩⟩
      rw [← happ, hfree, hreq]
      simp
    · rw [hopen] at hc
      cases hc
  | @reply d env hd =>
    rcases hrest with ⟨hc, happ⟩ | ⟨-, hh, -, -⟩
    · refine ⟨done ++ [d], List.rel_append hdone (.cons ⟨env, rfl⟩ .nil), .inl ⟨hc, ?_⟩⟩
      rw [← happ, hd]
      simp
    · rw [hd] at hh
      cases hh
  | close =>
    refine ⟨done, hdone, .inr ⟨rfl, rfl, rfl, ?_⟩⟩
    rcases hrest with ⟨-, happ⟩ | ⟨-, -, -, hp⟩
    · rw [← happ, List.append_assoc]
      exact List.prefix_append _ _
    · exact hp

theorem send (h : Pipeline cfg pend s) (hopen : s.closed = false) (d : Datagram)
    (sent : List (Tid × Datagram)) :
    Pipeline cfg (pend ++ [d]) { s with requests := s.requests ++ [d], sent := sent } := by
  obtain ⟨done, hdone, hrest⟩ := h
  rcases hrest with ⟨hc, happ⟩ | ⟨hc, -⟩
  · refine ⟨done, hdone, .inl ⟨hc, ?_⟩⟩
    rw [← happ]
    simp
  · rw [hopen] at hc
    cases hc

theorem recv {d r : Datagram} {rest : List Datagram} (h : Pipeline cfg (d :: pend) s)
    (hr : s.replies = r :: rest) (used : List (Tid × Datagram)) :
    (∃ env, (answer cfg env d).1 = r) ∧
      Pipeline cfg pend { s with replies := rest, used := used } := by
  obtain ⟨done, hdone, hrest⟩ := h
  rw [hr] at hdone
  cases hdone with
  | @cons a _ done _ ha hdone =>
    rcases hrest with ⟨hc, happ⟩ | ⟨hc, hh, hq, hp⟩
    · simp only [List.cons_append, List.cons.injEq] at happ
      obtain ⟨rfl, happ⟩ := happ
      exact ⟨ha, done, hdone, .inl ⟨hc, happ⟩⟩
    · obtain ⟨rfl, hp'⟩ := List.cons_prefix_cons.mp hp
      exact ⟨ha, done, hdone, .inr ⟨hc, hh, hq, hp'⟩⟩

end Pipeline

def Paired (s : Channel) : Prop :=
  ∀ x ∈ s.used, ∃ d seq, (x.1, d) ∈ s.sent ∧ seqOf d = some seq ∧ seqOf x.2 = some seq

def Proper (cfg : ServerConfig) (d : Datagram) : Prop :=
  ∃ seq, seqOf d = some seq ∧ ∀ env, seqOf (answer cfg env d).1 = some seq

structure InCall (cfg : ServerConfig) (t : Tid) (pend : List Datagram) (s : Channel) : Prop where
  pipeline : Pipeline cfg pend s
  sent : ∀ d ∈ pend, (t, d) ∈ s.sent ∧ Proper cfg d

theorem ServerMove.frame {cfg : ServerConfig} {s t : Channel} (h : ServerMove cfg s t) :
    t.seq = s.seq ∧ t.sent = s.sent ∧ t.used = s.used := by
  cases h <;> exact ⟨rfl, rfl, rfl⟩

def clientRules (cfg : ServerConfig) : Rules Env Channel where
  may := fun _ _ _ => True
  inv := Paired
  rely := Relation.ReflTransGen (ServerMove cfg)
  guar := fun s t => t.handling = s.handling
  rely_refl := fun _ => .refl
  rely_trans := fun _ _ _ => .trans

theorem stable_of_move {cfg : ServerConfig} {A : Channel → Prop}
    (h : ∀ s t, A s → ServerMove cfg s t → A t) : Stable (clientRules cfg) A := by
  intro s t hs hr hi
  clear hi
  replace hr : Relation.ReflTransGen (ServerMove cfg) s t := hr
  induction hr with
  | refl => exact hs
  | tail _ hm ih => exact h _ _ ih hm

theorem stable_inCall {cfg : ServerConfig} {t : Tid} {pend : List Datagram} :
    Stable (clientRules cfg) (InCall cfg t pend) := by
  refine stable_of_move fun s u h hm => ⟨h.pipeline.move hm, fun d hd => ?_⟩
  rw [hm.frame.2.1]
  exact h.sent d hd

/-! ## The steps of a call -/

section Calls

variable {cfg : ServerConfig} {α β : Type} {t : Tid} {pend : List Datagram} {s : Channel}

def Ensures (cfg : ServerConfig) (x : C α) (Q : α → Channel → Prop) (s : Channel) : Prop :=
  wp (clientRules cfg) x.run (fun r u => ∀ a, r = .ok a → Q a u) s

theorem Ensures.bind {x : C α} {k : α → C β} {Q : β → Channel → Prop}
    (h : Ensures cfg x (fun a u => Ensures cfg (k a) Q u) s) : Ensures cfg (x >>= k) Q s := by
  refine wpE_bind (wp_mono (fun r u hr => ?_) h)
  cases r with
  | ok a => exact hr a rfl
  | error e => exact fun b hb => by cases hb

theorem Ensures.pure {a : α} {Q : α → Channel → Prop} (h : Q a s) :
    Ensures cfg (Pure.pure a) Q s := by
  refine wpE_pure fun b hb => ?_
  cases hb
  exact h

theorem Ensures.throw {e : ChannelError} {Q : α → Channel → Prop} :
    Ensures cfg (throw e) Q s := wpE_throw fun b hb => by cases hb

theorem Ensures.fromWire {x : Except WireError α} {Q : α → Channel → Prop}
    (h : ∀ a, x = .ok a → Q a s) : Ensures cfg (fromWire x) Q s := by
  cases x with
  | ok a => exact Ensures.pure (h a rfl)
  | error e => exact Ensures.throw

theorem Ensures.foldlM {f : β → α → C β} (I : β → List α → Channel → Prop)
    (hstep : ∀ b a l u, I b (a :: l) u → Ensures cfg (f b a) (fun b' v => I b' l v) u)
    (l : List α) (b : β) (h : I b l s) :
    Ensures cfg (l.foldlM f b) (fun b' v => I b' [] v) s := by
  refine wpE_foldlM I (fun b a l u hu => ?_) (fun b u hu b' hb => ?_) l b s h
  · refine wp_mono (fun r v hr => ?_) (hstep b a l u hu)
    cases r with
    | ok b' => exact hr b' rfl
    | error e => exact fun b' hb => by cases hb
  · cases hb
    exact hu

theorem Ensures.ioCall {A : Channel → Prop} {Q : Unit → Channel → Prop}
    (hA : Stable (clientRules cfg) A) (hs : A s) (h : ∀ u, A u → Q () u) :
    Ensures cfg ioCall Q s := by
  refine wp_atomic hA hs fun e u hi hu _ => ?_
  by_cases hf : e.clientFails = true
  · rw [if_pos hf]
    exact ⟨hi, rfl, fun a ha => by cases ha⟩
  · rw [if_neg hf]
    exact ⟨hi, rfl, fun a ha => h u hu⟩

omit [Primitives] in
theorem Paired.send (h : Paired s) (x : Tid × Datagram) (rs : List Datagram) :
    Paired { s with requests := rs, sent := s.sent ++ [x] } := by
  intro y hy
  obtain ⟨d, seq, hd, hseq⟩ := h y hy
  exact ⟨d, seq, List.mem_append_left _ hd, hseq⟩

theorem Ensures.sendDatagram {bytes : Bytes} {fd : Option Memfd} (h : InCall cfg t pend s)
    (hd : Proper cfg ⟨bytes, fd⟩) :
    Ensures cfg (sendDatagram t bytes fd)
      (fun _ u => InCall cfg t (pend ++ [⟨bytes, fd⟩]) u) s := by
  refine wp_atomic stable_inCall h fun e u hi hu _ => ?_
  by_cases hf : e.clientFails = true ∨ u.closed = true
  · rw [if_pos hf]
    exact ⟨hi, rfl, fun a ha => by cases ha⟩
  · rw [if_neg hf]
    obtain ⟨-, hopen⟩ := not_or.mp hf
    refine ⟨Paired.send hi _ _, rfl, fun _ _ => ⟨hu.pipeline.send (by simpa using hopen) _ _, ?_⟩⟩
    intro d hmem
    rcases List.mem_append.mp hmem with hmem | hmem
    · exact ⟨List.mem_append_left _ (hu.sent d hmem).1, (hu.sent d hmem).2⟩
    · obtain rfl := List.mem_singleton.mp hmem
      exact ⟨List.mem_append_right _ (List.mem_singleton.mpr rfl), hd⟩

theorem InCall.recv {d r : Datagram} {rest : List Datagram} (h : InCall cfg t (d :: pend) s)
    (hi : Paired s) (hr : s.replies = r :: rest) :
    (∃ env, (answer cfg env d).1 = r) ∧
      Paired { s with replies := rest, used := s.used ++ [(t, r)] } ∧
      InCall cfg t pend { s with replies := rest, used := s.used ++ [(t, r)] } := by
  obtain ⟨⟨env, henv⟩, hp⟩ := h.pipeline.recv hr (s.used ++ [(t, r)])
  obtain ⟨hsent, seq, hseq, hans⟩ := h.sent d List.mem_cons_self
  refine ⟨⟨env, henv⟩, ?_, hp, fun d' hd' => h.sent d' (List.mem_cons_of_mem _ hd')⟩
  intro x hx
  rcases List.mem_append.mp hx with hx | hx
  · exact hi x hx
  · obtain rfl := List.mem_singleton.mp hx
    exact ⟨d, seq, hsent, hseq, henv ▸ hans env⟩

theorem Ensures.recvReply {d : Datagram} (msg : String) (h : InCall cfg t (d :: pend) s) :
    Ensures cfg (recvReply t msg)
      (fun r u => (∃ env, (answer cfg env d).1 = r) ∧ InCall cfg t pend u) s := by
  have hrecv : Ensures cfg (recvDatagram t)
      (fun r u => ∀ x, r = some x → (∃ env, (answer cfg env d).1 = x) ∧ InCall cfg t pend u) s := by
    refine wp_await stable_inCall h fun e u b v hi hu hf _ => ?_
    by_cases hfail : e.clientFails = true
    · rw [if_pos hfail] at hf
      cases hf
      exact ⟨hi, rfl, fun a ha => by cases ha⟩
    · rw [if_neg hfail] at hf
      cases hr : u.replies with
      | nil =>
        rw [hr] at hf
        dsimp only at hf
        split at hf
        · cases hf
          exact ⟨hi, rfl, fun a ha x hx => by cases ha; cases hx⟩
        · cases hf
      | cons r rest =>
        obtain ⟨henv, hpaired, hin⟩ := hu.recv hi hr
        rw [hr] at hf
        dsimp only at hf
        split at hf
        · cases hf
          exact ⟨hpaired, rfl, fun a ha => by cases ha⟩
        · split at hf
          · cases hf
            exact ⟨hpaired, rfl, fun a ha x hx => by cases ha; cases hx⟩
          · cases hf
            refine ⟨hpaired, rfl, fun a ha x hx => ?_⟩
            cases ha
            cases hx
            exact ⟨henv, hin⟩
  refine Ensures.bind (wp_mono (fun r u hr a ha => ?_) hrecv)
  cases a with
  | none => exact Ensures.throw
  | some x => exact Ensures.pure (hr _ ha x rfl)

theorem proper_of_decodeHdr {d : Datagram} {hdr : PcHdr} {body : Bytes}
    (h : decodeHdr d.bytes = .ok (hdr, body)) : Proper cfg d :=
  ⟨hdr.seq, seqOf_eq h d.fd, fun env => seqOf_answer env h⟩

theorem Ensures.putBatch (pages : List Page) (h : InCall cfg t [] s) :
    Ensures cfg (putBatch t pages) (fun _ u => u.Quiet) s := by
  unfold PageChannel.putBatch
  dsimp only
  split
  · exact Ensures.bind Ensures.throw
  split
  · exact Ensures.bind Ensures.throw
  refine Ensures.bind (Ensures.ioCall stable_inCall h fun u hu => ?_)
  refine Ensures.bind (wpE_lift (wp_atomic stable_inCall hu fun e v hi hv _ => ?_))
  refine ⟨hi, rfl, fun seq hseq => ?_⟩
  have hv' : InCall cfg t [] { v with seq := v.seq + 1 } := ⟨hv.pipeline, hv.sent⟩
  have hproper : ∀ fd, Proper cfg ⟨encodePutBatch seq (.ofNat pages.length), fd⟩ := fun fd =>
    proper_of_decodeHdr (decodeHdr_encodePutBatch seq _)
  refine Ensures.bind (wp_mono (fun r w hr a ha => ?_) (Ensures.sendDatagram hv' (hproper _)))
  have hw := hr a ha
  rw [List.nil_append] at hw
  refine Ensures.bind (wp_mono (fun r' x hx d hd => ?_) (Ensures.recvReply _ hw))
  have hquiet := (hx d hd).2.pipeline.quiet
  refine Ensures.bind (Ensures.fromWire fun p _ => ?_)
  obtain ⟨hdr, body⟩ := p
  dsimp only
  split
  · refine Ensures.bind (Ensures.fromWire fun ok _ => ?_)
    split
    · exact Ensures.bind Ensures.throw
    · exact Ensures.pure hquiet
  · exact Ensures.bind (Ensures.fromWire fun err _ => Ensures.throw)
  · exact Ensures.throw

def Serves (reqs : List GetReq) (res : Fetched) : Prop :=
  List.Forall₂ (fun req e => e.1 = req.dstSlot ∧ e.2.length = pageSize ∧ blake3 e.2 = req.pageHash)
    reqs res

theorem serves_of_pages {reqs : List GetReq} {pages : List Page} (h : Pages reqs pages) :
    Serves reqs ((reqs.zip (pages.map (·.bytes))).map fun (req, page) => (req.dstSlot, page)) := by
  induction h with
  | nil => exact .nil
  | cons hp _ ih => exact .cons ⟨rfl, Page.length_bytes _, hp⟩ ih

def Collected (cs : List Chunk) (m : ReplyPages) : Prop :=
  ∀ c ∈ cs, ∃ f, m.lookup c.1 = some f ∧ Serves c.2 f

omit [Primitives] in
theorem ReplyPages.lookup_remove {m : ReplyPages} {seq seq' : UInt64} (h : seq' ≠ seq) :
    (m.remove seq).lookup seq' = m.lookup seq' := by
  induction m with
  | nil => rfl
  | cons x m ih =>
    obtain ⟨k, f⟩ := x
    by_cases hk : k = seq
    · subst hk
      have hne : (seq' == k) = false := by simpa using h
      simp only [ReplyPages.remove, List.filter_cons, ne_eq, not_true_eq_false, decide_false,
        Bool.false_eq_true, if_false, List.lookup_cons, hne]
      exact ih
    · simp only [ReplyPages.remove, List.filter_cons, ne_eq, hk, not_false_eq_true, decide_true,
        if_true, List.lookup_cons]
      split
      · rfl
      · exact ih

theorem Collected.insert {cs : List Chunk} {m : ReplyPages} (h : Collected cs m) {c : Chunk}
    {f : Fetched} (hf : Serves c.2 f) (hnew : ∀ d ∈ cs, d.1 ≠ c.1) :
    Collected (cs ++ [c]) (m.insert c.1 f) := by
  intro d hd
  rcases List.mem_append.mp hd with hd | hd
  · obtain ⟨g, hg, hs⟩ := h d hd
    have hne : (d.1 == c.1) = false := by simpa using hnew d hd
    refine ⟨g, ?_, hs⟩
    rw [ReplyPages.insert, List.lookup_cons, hne]
    exact (ReplyPages.lookup_remove (hnew d hd)).trans hg
  · obtain rfl := List.mem_singleton.mp hd
    exact ⟨f, by simp [ReplyPages.insert], hf⟩

theorem Collected.reassemble {cs : List Chunk} {m : ReplyPages} (h : Collected cs m)
    (hnodup : (cs.map (·.1)).Nodup) : Serves (cs.flatMap (·.2)) (reassemble cs m) := by
  induction cs generalizing m with
  | nil => exact .nil
  | cons c cs ih =>
    obtain ⟨f, hf, hs⟩ := h c List.mem_cons_self
    obtain ⟨hc, hnodup⟩ := List.nodup_cons.mp hnodup
    have hrest : Collected cs (m.remove c.1) := by
      intro d hd
      obtain ⟨g, hg, hs'⟩ := h d (List.mem_cons_of_mem _ hd)
      have hne : d.1 ≠ c.1 := fun heq => hc (List.mem_map.mpr ⟨d, hd, heq⟩)
      exact ⟨g, (ReplyPages.lookup_remove hne).trans hg, hs'⟩
    rw [List.flatMap_cons, PageChannel.reassemble, hf]
    exact List.rel_append hs (ih hrest hnodup)

theorem Ensures.collectReply {c : Chunk} {cs : List Chunk} {m : ReplyPages} (hc : c.Fits)
    (h : InCall cfg t (c.datagram :: pend) s) (hm : Collected cs m)
    (hnew : ∀ d ∈ cs, d.1 ≠ c.1) :
    Ensures cfg (collectReply t m)
      (fun m' u => InCall cfg t pend u ∧ Collected (cs ++ [c]) m') s := by
  unfold PageChannel.collectReply
  refine Ensures.bind (wp_mono (fun r u hu d hd => ?_) (Ensures.recvReply _ h))
  obtain ⟨⟨env, henv⟩, hin⟩ := hu d hd
  rcases answer_chunk env hc with ⟨code, detail, hans⟩ | ⟨pages, hpages, hans⟩
  · -- an error ends the call
    have hhdr : decodeHdr d.bytes = .ok (⟨.error, 0, c.1, 0⟩, errBytes ⟨code, detail⟩) := by
      rw [← henv, hans]
      exact decodeHdr_encodeError c.1 code detail
    refine Ensures.bind (Ensures.fromWire fun p hp => ?_)
    rw [hhdr] at hp
    cases hp
    exact Ensures.bind (Ensures.fromWire fun err _ => Ensures.throw)
  · have hhdr : decodeHdr d.bytes =
        .ok (⟨.getBatchData, 0, c.1, .ofNat c.2.length⟩, c.2.flatMap encodeGetReq) := by
      rw [← henv, hans]
      exact decodeHdr_encodeGetBatchData c.1 c.2
    have hfd : d.fd = some ⟨pages.flatMap (·.bytes), false⟩ := by rw [← henv, hans]
    have hreqs : decodeGetBatchData ⟨.getBatchData, 0, c.1, .ofNat c.2.length⟩
        (c.2.flatMap encodeGetReq) = .ok c.2 :=
      decodeGetReqs_ok "GET_BATCH_DATA" hc.count hc.1 hc.2
    refine Ensures.bind (Ensures.fromWire fun p hp => ?_)
    rw [hhdr] at hp
    cases hp
    refine Ensures.bind (Ensures.fromWire fun echoed hechoed => ?_)
    rw [hreqs] at hechoed
    cases hechoed
    rw [hfd]
    refine Ensures.bind (Ensures.ioCall stable_inCall hin fun v hv => ?_)
    dsimp only
    split
    · exact Ensures.bind Ensures.throw
    · refine Ensures.bind (Ensures.ioCall stable_inCall hv fun w hw => ?_)
      refine Ensures.pure ⟨hw, hm.insert ?_ hnew⟩
      rw [asChunks_flatMap (by decide) _ _ Page.length_bytes]
      exact serves_of_pages hpages

theorem Chunk.proper (c : Chunk) : Proper cfg c.datagram :=
  proper_of_decodeHdr (decodeHdr_encodeGetBatch c.1 c.2)

theorem Ensures.fetchChunks {cs : List Chunk} (h : InCall cfg t [] s) (hfit : ∀ c ∈ cs, c.Fits)
    (hnodup : (cs.map (·.1)).Nodup) :
    Ensures cfg (fetchChunks t cs) (fun res u => u.Quiet ∧ Serves (cs.flatMap (·.2)) res) s := by
  refine Ensures.bind (wp_mono (fun r u hu _ hr => ?_) (Ensures.foldlM
    (fun _ rest u => ∃ pre, pre ++ rest = cs ∧ InCall cfg t (pre.map Chunk.datagram) u)
    ?_ cs () ⟨[], rfl, h⟩))
  · obtain ⟨pre, hpre, hin⟩ := hu _ hr
    rw [List.append_nil] at hpre
    subst hpre
    refine Ensures.bind (wp_mono (fun r v hv m hr' => ?_) (Ensures.foldlM
      (fun m rest v => ∃ done, done ++ rest = pre ∧ InCall cfg t (rest.map Chunk.datagram) v ∧
        Collected done m) ?_ pre [] ⟨[], rfl, hin, by simp [Collected]⟩))
    · obtain ⟨done, hdone, hin', hm⟩ := hv m hr'
      rw [List.append_nil] at hdone
      subst hdone
      exact Ensures.pure ⟨hin'.pipeline.quiet, hm.reassemble hnodup⟩
    · intro m c rest v ⟨done, hdone, hin', hm⟩
      have hmem : c ∈ pre := by
        rw [← hdone]
        simp
      have hnew : ∀ d ∈ done, d.1 ≠ c.1 := by
        intro d hd heq
        rw [← hdone, List.map_append, List.map_cons] at hnodup
        exact (List.nodup_append.mp hnodup).2.2 d.1 (List.mem_map_of_mem hd) c.1
          List.mem_cons_self heq
      refine wp_mono (fun r w hw m' hr'' => ?_) (Ensures.collectReply (hfit c hmem) hin' hm hnew)
      exact ⟨done ++ [c], by simpa using hdone, hw m' hr''⟩
  · intro _ c rest u ⟨pre, hpre, hin⟩
    refine wp_mono (fun r v hv a hr => ?_) (Ensures.sendDatagram hin c.proper)
    have hin' : InCall cfg t (pre.map Chunk.datagram ++ [c.datagram]) v := hv a hr
    exact ⟨pre ++ [c], by simpa using hpre, by simpa using hin'⟩

/-! ## Chunks and sequence numbers -/

omit [Primitives] in
theorem chunks_cons (n fuel : Nat) (a : α) (l : List α) :
    chunks n (fuel + 1) (a :: l) = (a :: l).take n :: chunks n fuel ((a :: l).drop n) := rfl

omit [Primitives] in
theorem chunks_spec {n fuel : Nat} {l : List α} (hn : 0 < n) (hfuel : l.length ≤ fuel) :
    (chunks n fuel l).flatten = l ∧ (chunks n fuel l).length ≤ l.length ∧
      ∀ c ∈ chunks n fuel l, 0 < c.length ∧ c.length ≤ n := by
  induction fuel generalizing l with
  | zero =>
    obtain rfl : l = [] := List.length_eq_zero_iff.mp (by omega)
    exact ⟨rfl, Nat.le_refl _, by simp [chunks]⟩
  | succ fuel ih =>
    cases l with
    | nil => exact ⟨rfl, Nat.le_refl _, by simp [chunks]⟩
    | cons a l =>
      have hdrop : ((a :: l).drop n).length ≤ l.length := by
        rw [List.length_drop, List.length_cons]
        omega
      obtain ⟨hflat, hlen, hsize⟩ := ih (l := (a :: l).drop n)
        (by rw [List.length_cons] at hfuel; omega)
      refine ⟨?_, ?_, ?_⟩
      · rw [chunks_cons, List.flatten_cons, hflat, List.take_append_drop]
      · rw [chunks_cons, List.length_cons, List.length_cons]
        omega
      · intro c hc
        rw [chunks_cons, List.mem_cons] at hc
        rcases hc with rfl | hc
        · rw [List.length_take, List.length_cons]
          omega
        · exact hsize c hc

omit [Primitives] in
theorem nodup_seqs (seq : UInt64) {n : Nat} (hn : n ≤ 2 ^ 64) :
    ((List.range n).map fun i => seq + UInt64.ofNat i).Nodup := by
  refine List.Nodup.map_on (fun i hi j hj heq => ?_) List.nodup_range
  rw [List.mem_range] at hi hj
  have hij := congrArg UInt64.toNat ((UInt64.add_right_inj seq).mp heq)
  rwa [UInt64.toNat_ofNat_of_lt' (by simpa using lt_of_lt_of_le hi hn),
    UInt64.toNat_ofNat_of_lt' (by simpa using lt_of_lt_of_le hj hn)] at hij

theorem Ensures.buildChunks {reqs : List (PageHash × UInt64)} (h : InCall cfg t [] s) :
    Ensures cfg (buildChunks reqs)
      (fun cs u => InCall cfg t [] u ∧
        cs.map (·.2) = (chunks getBatchMaxPerDatagram reqs.length reqs).map (·.map toGetReq) ∧
        ∃ seq, cs.map (·.1) = (List.range cs.length).map fun i => seq + UInt64.ofNat i) s := by
  refine wp_mono (fun r u hu cs hr => ?_) (Ensures.foldlM
    (fun cs rest u => (InCall cfg t [] u ∧ cs.map (·.2) ++ rest.map (·.map toGetReq) =
        (chunks getBatchMaxPerDatagram reqs.length reqs).map (·.map toGetReq)) ∧
      ∃ seq, u.seq = seq + UInt64.ofNat cs.length ∧
        cs.map (·.1) = (List.range cs.length).map fun i => seq + UInt64.ofNat i)
    ?_ (chunks getBatchMaxPerDatagram reqs.length reqs) [] ⟨⟨h, rfl⟩, s.seq, by simp, rfl⟩)
  · obtain ⟨⟨hin, hreqs⟩, seq, -, hseq⟩ := hu cs hr
    exact ⟨hin, by simpa using hreqs, seq, hseq⟩
  · intro cs chunk rest u hu
    refine Ensures.bind (wpE_lift (wp_atomic (P := fun u => (InCall cfg t [] u ∧
      cs.map (·.2) ++ (chunk :: rest).map (·.map toGetReq) =
        (chunks getBatchMaxPerDatagram reqs.length reqs).map (·.map toGetReq)) ∧
      ∃ seq, u.seq = seq + UInt64.ofNat cs.length ∧
        cs.map (·.1) = (List.range cs.length).map fun i => seq + UInt64.ofNat i)
      ?_ hu ?_))
    · refine (stable_inCall.and (.const _)).and (stable_of_move fun v w hv hm => ?_)
      rw [hm.frame.1]
      exact hv
    · intro e v hi hv _
      refine ⟨hi, rfl, fun seq' hseq' => ?_⟩
      cases hseq'
      obtain ⟨⟨hin, hreqs⟩, seq, hnext, hseq⟩ := hv
      refine Ensures.pure ⟨⟨⟨hin.pipeline, hin.sent⟩, ?_⟩, seq, ?_, ?_⟩
      · simpa using hreqs
      · rw [List.length_append, List.length_singleton, UInt64.ofNat_add, ← UInt64.add_assoc, ← hnext]
        rfl
      · rw [List.map_append, hseq, List.length_append, List.length_singleton,
          List.range_succ, List.map_append]
        simp [hnext]

theorem Ensures.getBatch {reqs : List (PageHash × UInt64)} (hlen : reqs.length ≤ 2 ^ 64)
    (h : InCall cfg t [] s) :
    Ensures cfg (getBatch t reqs)
      (fun res u => u.Quiet ∧ Serves (reqs.map toGetReq) res) s := by
  unfold PageChannel.getBatch
  split
  · next hnil =>
    subst hnil
    exact Ensures.pure ⟨h.pipeline.quiet, .nil⟩
  · refine Ensures.bind (wp_mono (fun r u hu cs hr => ?_) (Ensures.buildChunks h))
    obtain ⟨hin, hreqs, seq, hseq⟩ := hu cs hr
    obtain ⟨hflat, hcount, hsize⟩ := chunks_spec (α := PageHash × UInt64)
      (by decide : 0 < getBatchMaxPerDatagram) (Nat.le_refl reqs.length)
    have hlen' : cs.length = (chunks getBatchMaxPerDatagram reqs.length reqs).length := by
      simpa using congrArg List.length hreqs
    have hfit : ∀ c ∈ cs, c.Fits := by
      intro c hc
      have hmem := List.mem_map_of_mem (f := (·.2)) hc
      rw [hreqs] at hmem
      obtain ⟨chunk, hchunk, heq⟩ := List.mem_map.mp hmem
      rw [Chunk.Fits, ← heq, List.length_map]
      exact hsize chunk hchunk
    have hall : cs.flatMap (·.2) = reqs.map toGetReq := by
      rw [List.flatMap_def, hreqs]
      conv_rhs => rw [← hflat]
      exact List.map_flatten.symm
    rw [← hall]
    refine Ensures.fetchChunks hin hfit ?_
    rw [hseq]
    exact nodup_seqs seq (by omega)

end Calls

/-! ## Whole runs -/

def serverRules (cfg : ServerConfig) : Rules Env Channel where
  may := fun _ _ _ => True
  inv := Paired
  rely := fun s t => t.handling = s.handling
  guar := ServerMove cfg
  rely_refl := fun _ => rfl
  rely_trans := fun _ _ _ h h' => h'.trans h

theorem ServerMove.paired {cfg : ServerConfig} {s t : Channel} (h : ServerMove cfg s t)
    (hi : Paired s) : Paired t := by
  obtain ⟨-, hsent, hused⟩ := h.frame
  intro x hx
  rw [hused] at hx
  rw [hsent]
  exact hi x hx

theorem stable_handling {cfg : ServerConfig} (d : Option Datagram) :
    Stable (serverRules cfg) fun s => s.handling = d := fun _ _ h hr _ => hr.trans h

theorem wp_serve {cfg : ServerConfig} {s : Channel} (h : s.handling = none) :
    wp (serverRules cfg) (serve cfg) (fun _ u => u.handling = none) s := by
  have hmove : ∀ {u v : Channel}, Paired u → ServerMove cfg u v →
      Paired v ∧ ServerMove cfg u v := fun hi hm => ⟨hm.paired hi, hm⟩
  refine wp_bind (wp_mono ?_ (wp_await (Q := fun d u => u.handling = d) (stable_handling none) h ?_))
  · intro d u hu
    cases d with
    | none => exact hu
    | some d =>
      refine wp_bind (wp_mono ?_ (wp_atomic (Q := fun _ v => v.handling = none)
        (stable_handling (some d)) hu ?_))
      · intro close v hv
        split
        · refine wp_atomic (stable_handling none) hv fun e w hi hw _ => ?_
          exact ⟨(hmove hi (.close w)).1, .close w, rfl⟩
        · exact hv
      · intro e v hi hv _
        have hm : ServerMove cfg v _ := .reply e.server hv
        exact ⟨hm.paired hi, hm, rfl⟩
  · intro e u d v hi hu hf _
    cases hc : u.closed with
    | true =>
      simp only [hc] at hf
      cases hf
    | false =>
      cases hr : u.requests with
      | nil =>
        simp only [hc, hr] at hf
        split at hf
        · cases hf
          exact ⟨(hmove hi (.close u)).1, .close u, rfl⟩
        · cases hf
      | cons x rest =>
        simp only [hc, hr] at hf
        split at hf
        · cases hf
          exact ⟨(hmove hi (.close u)).1, .close u, rfl⟩
        · cases hf
          have hm : ServerMove cfg u
              ⟨u.seq, rest, some x, u.replies, u.closed, u.sent, u.used⟩ := .recv hc hu hr
          rw [hc] at hm
          exact ⟨hm.paired hi, hm, rfl⟩

/-- A call of the client starts when nothing of an earlier call is left in the socket. -/
def StartsQuiet (cfg : ServerConfig) : Label (machine cfg) → Channel → Channel → Prop
  | .start (.put _), s, _ => s.Quiet
  | .start (.get _), s, _ => s.Quiet
  | _, _, _ => True

def Serving : Call → Prop
  | .serve => True
  | _ => False

def outline (cfg : ServerConfig) : Outline (machine cfg) (StartsQuiet cfg) where
  inv := Paired
  down := fun s => Paired s ∧ s.handling = none
  rely := fun c _ => match c with
    | .serve => (serverRules cfg).rely
    | _ => (clientRules cfg).rely
  guar := fun c _ => match c with
    | .serve => (serverRules cfg).guar
    | _ => (clientRules cfg).guar
  post := fun c _ r s => match c with
    | .serve => s.handling = none
    | .put _ => ∀ a, r = .put (.ok a) → s.Quiet
    | .get slice => ∀ res, r = .get (.ok res) → s.Quiet ∧ Serves (slice.reqs.map toGetReq) res
  idle := fun _ _ => True
  Kind := Unit
  alone := fun _ c => Serving c
  lull := fun _ s => s.handling = none
  rely_refl := by
    intro c t s
    cases c with
    | serve => exact (serverRules cfg).rely_refl s
    | put pages => exact (clientRules cfg).rely_refl s
    | get slice => exact (clientRules cfg).rely_refl s
  rely_trans := by
    intro c t s u v
    cases c with
    | serve => exact (serverRules cfg).rely_trans s u v
    | put pages => exact (clientRules cfg).rely_trans s u v
    | get slice => exact (clientRules cfg).rely_trans s u v
  guar_rely := by
    intro c d t u s s' _ hov _ _ hg
    cases c with
    | serve =>
      cases d with
      | serve => exact absurd hov id
      | put pages => exact Relation.ReflTransGen.single hg
      | get slice => exact Relation.ReflTransGen.single hg
    | put pages =>
      cases d with
      | serve => exact hg
      | put pages' => exact absurd hov id
      | get slice => exact absurd hov id
    | get slice =>
      cases d with
      | serve => exact hg
      | put pages => exact absurd hov id
      | get slice' => exact absurd hov id
  guar_idle := fun _ _ _ _ _ _ _ _ _ => trivial
  alone_overlap := by
    intro _ c d hc hd
    cases c with
    | serve =>
      cases d with
      | serve => exact id
      | put pages => exact absurd hd id
      | get slice => exact absurd hd id
    | put pages => exact absurd hc id
    | get slice => exact absurd hc id
  guar_lull := by
    intro _ c t s s' hc _ hg hl
    cases c with
    | serve => exact absurd trivial hc
    | put pages => exact Eq.trans hg hl
    | get slice => exact Eq.trans hg hl
  post_lull := by
    intro _ c t r s hc hpost
    cases c with
    | serve => exact hpost
    | put pages => exact absurd hc id
    | get slice => exact absurd hc id
  body := by
    intro c t s hi _ hlull hok
    cases c with
    | serve =>
      refine wp_bind (wp_conseq (ρ := serverRules cfg) (fun _ _ _ _ => trivial) (fun _ => Iff.rfl)
        (fun _ _ h => h) (fun _ _ h => h) (wp_mono (fun _ _ h => h) (wp_serve (hlull () trivial))))
    | put pages =>
      have hin : InCall cfg t [] s := ⟨.of_quiet hok, by simp⟩
      refine wp_bind (wp_conseq (ρ := clientRules cfg) (fun _ _ _ _ => trivial) (fun _ => Iff.rfl)
        (fun _ _ h => h) (fun _ _ h => h) (wp_mono (fun r u hu a ha => ?_)
          (Ensures.putBatch pages hin)))
      cases ha
      exact hu a rfl
    | get slice =>
      have hin : InCall cfg t [] s := ⟨.of_quiet hok, by simp⟩
      have hlen := slice.length_lt
      refine wp_bind (wp_conseq (ρ := clientRules cfg) (fun _ _ _ _ => trivial) (fun _ => Iff.rfl)
        (fun _ _ h => h) (fun _ _ h => h) (wp_mono (fun r u hu res hres => ?_)
          (Ensures.getBatch (by unfold getReqSize at hlen; omega) hin)))
      cases hres
      exact hu res rfl
  boot := by
    intro s hs
    exact fun _ => ⟨hs.1, fun _ => trivial, fun _ => hs.2⟩
  crash_up := fun _ _ _ h => absurd h id
  crash_down := fun _ _ _ h => absurd h id

def connected (cfg : ServerConfig) : Config (machine cfg) := ⟨.connect, .up, []⟩

theorem good_connected (cfg : ServerConfig) : (outline cfg).Good (connected cfg) where
  inv := fun x hx => absurd hx List.not_mem_nil
  threads := by simp [connected]
  overlap := by simp [connected]
  idle := fun _ _ => trivial
  lull := fun _ _ => rfl

def Delivered : Call → Reply → Prop
  | .get slice, .get (.ok res) => Serves (slice.reqs.map toGetReq) res
  | _, _ => True

theorem delivered_of_post {cfg : ServerConfig} {c : Call} {t : Tid} {r : Reply} {s : Channel}
    (h : (outline cfg).post c t r s) : Delivered c r := by
  cases c with
  | serve => trivial
  | put pages => trivial
  | get slice =>
    cases r with
    | served => trivial
    | put r => trivial
    | get r =>
      cases r with
      | error e => trivial
      | ok res => exact (h res rfl).2

/-- Requests and replies stay paired as long as no call starts while something of an earlier call
is left in the socket. -/
theorem replies_stay_paired (cfg : ServerConfig) {c : Config (machine cfg)}
    (h : (machine cfg).Reach (StartsQuiet cfg) (connected cfg) c) :
    (∀ x ∈ c.store.used, ∃ d seq, (x.1, d) ∈ c.store.sent ∧ seqOf d = some seq ∧
      seqOf x.2 = some seq) ∧
    ∀ (t : Tid) (slice : GetSlice) (res : Fetched),
      c.threads[t]? = some ⟨Call.get slice, .ret (Reply.get (.ok res))⟩ →
      List.Forall₂ (fun req e => e.1 = req.2 ∧ e.2.length = pageSize ∧ blake3 e.2 = req.1)
        slice.reqs res := by
  refine ⟨?_, fun t slice res ht => ?_⟩
  · have hpaired : ∀ {a : Config (machine cfg)}, (outline cfg).Good a → Paired a.store := by
      intro a ha
      obtain ⟨s, m, ts⟩ := a
      cases m with
      | up => exact ha.inv
      | booting p => exact ha.1.1
      | down => exact ha.1.1
    exact hpaired ((good_connected cfg).reach h)
  · have hpost : ∀ (c : (machine cfg).Call) (t : Tid) (r : (machine cfg).Reply) (s : Channel),
        (outline cfg).post c t r s → Delivered c r := fun _ _ _ _ => delivered_of_post
    have hserves : Serves (slice.reqs.map toGetReq) res :=
      (good_connected cfg).returned hpost (fun _ _ _ _ _ _ _ _ hR => hR) rfl h t _ _ ht
    rwa [Serves, List.forall₂_map_left_iff] at hserves

/-! ## Runs without I/O errors -/

section Runs

variable {cfg : ServerConfig} {t : Tid} {s : Channel} {e : Env}

def number (seq : UInt64) : List (List (PageHash × UInt64)) → List Chunk
  | [] => []
  | l :: ls => (seq, l.map toGetReq) :: number (seq + 1) ls

theorem moves_buildChunks {reqs : List (PageHash × UInt64)} {ls : List (List (PageHash × UInt64))}
    (hls : chunks getBatchMaxPerDatagram reqs.length reqs = ls) :
    Moves e (buildChunks reqs).run s (.ret (.ok (number s.seq ls)))
      { s with seq := s.seq + UInt64.ofNat ls.length } := by
  have hloop : ∀ (ls : List (List (PageHash × UInt64))) (out : List Chunk) (s : Channel),
      Moves e (ls.foldlM (fun out chunk => do
          let seq ← nextSeq
          return out ++ [(seq, chunk.map toGetReq)]) out : C (List Chunk)).run s
        (.ret (.ok (out ++ number s.seq ls)))
        { s with seq := s.seq + UInt64.ofNat ls.length } := by
    intro ls
    induction ls with
    | nil =>
      intro out s
      rw [number, List.append_nil, List.length_nil, show UInt64.ofNat 0 = 0 from rfl,
        UInt64.add_zero]
      exact .refl _ _
    | cons l ls ih =>
      intro out s
      have hrest := ih (out ++ [(s.seq, l.map toGetReq)]) { s with seq := s.seq + 1 }
      have hseq : s.seq + 1 + UInt64.ofNat ls.length = s.seq + UInt64.ofNat (l :: ls).length := by
        rw [List.length_cons, UInt64.ofNat_add, UInt64.add_assoc,
          UInt64.add_comm 1 (UInt64.ofNat ls.length)]
        rfl
      rw [List.append_assoc, List.singleton_append] at hrest
      dsimp only at hrest
      rw [hseq] at hrest
      have hone : Moves e nextSeq s (.ret s.seq) { s with seq := s.seq + 1 } := .await rfl
      rw [List.foldlM_cons]
      exact ((hone.liftE.bindE _).bindE _).trans hrest
  rw [buildChunks, hls]
  exact hloop ls [] s

def collectAll (t : Tid) (cs : List Chunk) : C Fetched := do
  let replyPages ← cs.foldlM (fun replyPages _ => collectReply t replyPages) []
  return reassemble cs replyPages

theorem moves_send (he : e.clientFails = false) (hopen : s.closed = false) (bytes : Bytes)
    (fd : Option Memfd) : Moves e (sendDatagram t bytes fd).run s (.ret (.ok ()))
      { s with requests := s.requests ++ [⟨bytes, fd⟩], sent := s.sent ++ [(t, ⟨bytes, fd⟩)] } :=
  .await (by simp [he, hopen])

theorem moves_fetchChunks (he : e.clientFails = false) (hopen : s.closed = false)
    (cs : List Chunk) : Moves e (fetchChunks t cs).run s (collectAll t cs).run
      { s with
        requests := s.requests ++ cs.map Chunk.datagram
        sent := s.sent ++ cs.map fun c => (t, c.datagram) } := by
  have hloop : ∀ (l : List Chunk) (s : Channel), s.closed = false →
      Moves e (l.foldlM (fun _ c => sendDatagram t (encodeGetBatch c.1 c.2) none) () : C Unit).run s
        (.ret (.ok ())) { s with
          requests := s.requests ++ l.map Chunk.datagram
          sent := s.sent ++ l.map fun c => (t, c.datagram) } := by
    intro l
    induction l with
    | nil =>
      intro s hs
      simp only [List.map_nil, List.append_nil]
      exact .refl _ _
    | cons c l ih =>
      intro s hs
      have hrest := ih { s with
        requests := s.requests ++ [c.datagram], sent := s.sent ++ [(t, c.datagram)] } hs
      simp only [List.append_assoc, List.singleton_append] at hrest
      rw [List.foldlM_cons]
      exact ((moves_send he hs _ _).bindE _).trans hrest
  exact (hloop cs s hopen).bindE _

theorem moves_getBatch {reqs : List (PageHash × UInt64)} {ls : List (List (PageHash × UInt64))}
    (hne : reqs ≠ []) (hls : chunks getBatchMaxPerDatagram reqs.length reqs = ls)
    (he : e.clientFails = false) (hopen : s.closed = false) :
    Moves e (getBatch t reqs).run s (collectAll t (number s.seq ls)).run
      { s with
        seq := s.seq + UInt64.ofNat ls.length
        requests := s.requests ++ (number s.seq ls).map Chunk.datagram
        sent := s.sent ++ (number s.seq ls).map fun c => (t, c.datagram) } := by
  have hbuild := moves_buildChunks (e := e) (s := s) hls
  have hfetch := moves_fetchChunks (t := t) (s := { s with seq := s.seq + UInt64.ofNat ls.length })
    he hopen (number s.seq ls)
  unfold getBatch
  rw [if_neg hne]
  exact (hbuild.bindE _).trans hfetch

theorem moves_serve (he : e.recvFails = false) (hopen : s.closed = false)
    (hfree : s.handling = none) {d r : Datagram} {rest : List Datagram}
    (hreq : s.requests = d :: rest) (hans : answer cfg e.server d = (r, false)) :
    Moves e (body cfg t .serve) s (.ret .served)
      { s with requests := rest, replies := s.replies ++ [r] } := by
  have hturn : Moves e (serve cfg) s (.ret ())
      { s with requests := rest, handling := none, replies := s.replies ++ [r] } := by
    refine (Moves.bind (.await (t := { s with requests := rest, handling := some d })
      (a := some d) ?_) _).trans (Moves.bind (.await (a := false) ?_) _)
    · simp [hopen, hreq, he]
    · simp [hans]
  have hstate : ({ s with requests := rest, replies := s.replies ++ [r] } : Channel) =
      { s with requests := rest, handling := none, replies := s.replies ++ [r] } := by
    simp [hfree]
  rw [hstate]
  exact hturn.bind _

theorem moves_ioCall (he : e.clientFails = false) : Moves e ioCall.run s (.ret (.ok ())) s :=
  .await (by simp [he])

theorem moves_fromWire {α : Type} {a : α} :
    Moves e (fromWire (.ok a)).run s (.ret (.ok a)) s := .refl _ _

theorem moves_recvReply (he : e.clientFails = false) (msg : String) {d : Datagram}
    {rest : List Datagram} (hr : s.replies = d :: rest) (hcap : d.bytes.length ≤ datagramMax)
    (hne : d.bytes ≠ []) : Moves e (recvReply t msg).run s (.ret (.ok d))
      { s with replies := rest, used := s.used ++ [(t, d)] } := by
  have hrecv : Moves e (recvDatagram t).run s (.ret (.ok (some d)))
      { s with replies := rest, used := s.used ++ [(t, d)] } :=
    .await (by simp [he, hr, hne, Nat.not_lt.mpr hcap])
  exact hrecv.bindE _

theorem moves_collect_error (he : e.clientFails = false) (m : ReplyPages) {seq : UInt64}
    {code : ErrorCode} {detail : String} {rest : List Datagram}
    (hr : s.replies = errorReply seq code detail :: rest)
    (hcap : (utf8 detail).length ≤ datagramMax - hdrSize - errPrefixSize) :
    Moves e (collectReply t m).run s (.ret (.error (.peer code detail)))
      { s with replies := rest, used := s.used ++ [(t, errorReply seq code detail)] } := by
  have hlen : (errorReply seq code detail).bytes.length =
      hdrSize + errPrefixSize + (utf8 detail).length := by
    simp [errorReply, encodeError, errPrefixSize]
    omega
  have hrecv := moves_recvReply (t := t) he "server closed connection during GET_BATCH" hr
    (by rw [hlen]; unfold datagramMax hdrSize errPrefixSize at *; omega)
    (by intro hnil; rw [hnil, hdrSize, List.length_nil] at hlen; omega)
  have hhdr : decodeHdr (errorReply seq code detail).bytes =
      .ok (⟨.error, 0, seq, 0⟩, errBytes ⟨code, detail⟩) := decodeHdr_encodeError seq code detail
  refine (hrecv.bindE _).trans ?_
  rw [hhdr]
  refine (moves_fromWire.bindE _).trans ?_
  dsimp only
  rw [decodeError_errBytes hcap]
  exact .refl _ _

def dataReply (seq : UInt64) (req : GetReq) (p : Page) : Datagram :=
  ⟨encodeGetBatchData seq [req], some ⟨p.bytes, false⟩⟩

theorem moves_collect_data (he : e.clientFails = false) (m : ReplyPages) {seq : UInt64}
    {req : GetReq} {p : Page} {rest : List Datagram} (hr : s.replies = dataReply seq req p :: rest) :
    Moves e (collectReply t m).run s (.ret (.ok (m.insert seq [(req.dstSlot, p.bytes)])))
      { s with replies := rest, used := s.used ++ [(t, dataReply seq req p)] } := by
  have hlen : (dataReply seq req p).bytes.length = hdrSize + getReqSize := by
    simp [dataReply, encodeGetBatchData_eq]
  have hrecv := moves_recvReply (t := t) he "server closed connection during GET_BATCH" hr
    (by rw [hlen]; decide) (by intro hnil; rw [hnil] at hlen; cases hlen)
  have hhdr : decodeHdr (dataReply seq req p).bytes =
      .ok (⟨.getBatchData, 0, seq, 1⟩, [req].flatMap encodeGetReq) :=
    decodeHdr_encodeGetBatchData seq [req]
  have hreqs : decodeGetBatchData ⟨.getBatchData, 0, seq, 1⟩ ([req].flatMap encodeGetReq) =
      .ok [req] := decodeGetReqs_ok "GET_BATCH_DATA" rfl Nat.one_pos (show 1 ≤ 1500 by decide)
  have hpages : asChunks pageSize p.bytes = [p.bytes] := by
    have h := asChunks_flatMap (by decide : 0 < pageSize) (fun p : Page => p.bytes) [p]
      Page.length_bytes
    simpa using h
  have hsize : ¬ p.bytes.length ≠ 1 * pageSize := by simp [p.length_bytes]
  refine (hrecv.bindE _).trans ?_
  rw [hhdr]
  refine (moves_fromWire.bindE _).trans ?_
  dsimp only
  rw [hreqs]
  refine (moves_fromWire.bindE _).trans ?_
  refine ((moves_ioCall he).bindE _).trans ?_
  dsimp only [dataReply]
  rw [List.length_singleton, if_neg hsize, hpages]
  exact (moves_ioCall he).bindE _

end Runs

end Channel

namespace Sample

attribute [local instance] SnapStore.Sample.primitives

def cfg : ServerConfig := ⟨8192, false⟩

def page : Page := SnapStore.Sample.page 7

def req : PageHash × UInt64 := (blake3 page.bytes, 7)

def serverEnv (has : List Page) : ServerEnv where
  getSeals := none
  fstat := none
  inFlight := 0
  mmap := none
  ingest := fun _ => .error "not used"
  getBatch := fun hs => .ok (hs.map fun h => has.find? fun p => blake3 p.bytes = h)
  createMemfd := none
  writePages := none
  sealMemfd := none
  getBatch_ok := by
    intro hs rs hrs
    cases hrs
    rw [List.forall₂_map_right_iff, List.forall₂_same]
    intro h _ p hp
    simpa using List.find?_some hp

def env (has : List Page) : Env := ⟨false, false, serverEnv has⟩

def notFoundText : String := s!"page not found: {hex (blake3 page.bytes).bytes}"

theorem answer_missing {c : Chunk} (hc : c.Fits) {rest : List GetReq}
    (hreq : c.2 = toGetReq req :: rest) :
    answer cfg (env []).server c.datagram = (errorReply c.1 .notFound notFoundText, false) := by
  have hhdr : decodeHdr c.datagram.bytes =
      .ok (⟨.getBatch, 0, c.1, .ofNat c.2.length⟩, c.2.flatMap encodeGetReq) :=
    decodeHdr_encodeGetBatch _ _
  have hreqs : decodeGetBatch ⟨.getBatch, 0, c.1, .ofNat c.2.length⟩ (c.2.flatMap encodeGetReq) =
      .ok c.2 := decodeGetReqs_ok "GET_BATCH" hc.count hc.1 hc.2
  rw [answer, hhdr]
  dsimp only
  rw [handleGetBatch, hreqs, hreq]
  rfl

theorem answer_found (seq : UInt64) :
    answer cfg (env [page]).server (Chunk.datagram (seq, [toGetReq req])) =
      (dataReply seq (toGetReq req) page, false) := by
  have hhdr : decodeHdr (Chunk.datagram (seq, [toGetReq req])).bytes =
      .ok (⟨.getBatch, 0, seq, 1⟩, [toGetReq req].flatMap encodeGetReq) :=
    decodeHdr_encodeGetBatch _ _
  have hreqs : decodeGetBatch ⟨.getBatch, 0, seq, 1⟩ ([toGetReq req].flatMap encodeGetReq) =
      .ok [toGetReq req] := decodeGetReqs_ok "GET_BATCH" rfl Nat.one_pos (show 1 ≤ 1500 by decide)
  have hget : (env [page]).server.getBatch [(toGetReq req).pageHash] = .ok [some page] := by
    simp [env, serverEnv, toGetReq, req]
  have hpad : padTo ([page].flatMap (·.bytes)) (1 * pageSize) = page.bytes := by
    simp [padTo, page.length_bytes]
  rw [answer, hhdr]
  dsimp only
  rw [handleGetBatch, hreqs]
  simp only [List.map_cons, List.map_nil, hget]
  simp only [List.zip_cons_cons, List.zip_nil_right, List.find?_cons, List.find?_nil,
    Option.isNone_some, List.filterMap_cons, id, List.filterMap_nil, List.length_cons,
    List.length_nil, Nat.zero_add, hpad]
  rfl

def one : GetSlice := ⟨[req], by decide⟩

def many : GetSlice := ⟨List.replicate 1501 req, by rw [List.length_replicate]; decide⟩

theorem chunks_one : chunks getBatchMaxPerDatagram one.reqs.length one.reqs = [[req]] := rfl

theorem chunks_many : chunks getBatchMaxPerDatagram many.reqs.length many.reqs =
    [List.replicate 1500 req, [req]] := by
  have htake : (req :: List.replicate 1500 req).take 1500 = List.replicate 1500 req := by
    rw [← List.replicate_succ, List.take_replicate]
    rfl
  have hdrop : (req :: List.replicate 1500 req).drop 1500 = [req] := by
    rw [← List.replicate_succ, List.drop_replicate]
    rfl
  have hlen : many.reqs.length = 1500 + 1 := List.length_replicate
  rw [hlen]
  change chunks 1500 (1500 + 1) (req :: List.replicate 1500 req) = _
  rw [chunks_cons, htake, hdrop]
  rfl

def Faultless : Label (machine cfg) → Channel → Channel → Prop
  | .act _ e, _, _ => e.clientFails = false ∧ e.recvFails = false
  | _, _, _ => True

theorem faultless_act (t : Tid) (has : List Page) (s s' : Channel) :
    Faultless (.act t (env has)) s s' := ⟨rfl, rfl⟩

def isServe : Call → Bool
  | .serve => true
  | _ => false

theorem admits_serve {ts : List (Thread (machine cfg))}
    (h : ∀ th ∈ ts, th.prog.isDone = true ∨ isServe th.call = false) :
    (machine cfg).Admits Call.serve ts := by
  intro th hth hrun
  rcases h th hth with hdone | hcall
  · rw [hdone] at hrun
    cases hrun
  · obtain ⟨call, prog⟩ := th
    cases call with
    | serve => cases hcall
    | put pages => exact ⟨trivial, trivial⟩
    | get slice => exact ⟨trivial, trivial⟩

theorem admits_get {ts : List (Thread (machine cfg))} (slice : GetSlice)
    (h : ∀ th ∈ ts, th.prog.isDone = true) : (machine cfg).Admits (Call.get slice) ts := by
  intro th hth hrun
  rw [h th hth] at hrun
  cases hrun

def waiting (t : Tid) (cs : List Chunk) : P Reply := do
  return .get (← (collectAll t cs).run)

def first : Chunk := (0, (List.replicate 1500 req).map toGetReq)

def second : Chunk := (1, [toGetReq req])

def third : Chunk := (2, [toGetReq req])

def notFound : Datagram := errorReply 0 .notFound notFoundText

def leftOver : Datagram := dataReply 1 (toGetReq req) page

theorem reach_error : (machine cfg).Reach Faultless (connected cfg)
    ⟨⟨2, [second.datagram], none, [], false, [(0, first.datagram), (0, second.datagram)],
      [(0, notFound)]⟩, .up,
      [⟨Call.get many, .ret (Reply.get (.error (.peer .notFound notFoundText)))⟩,
        ⟨Call.serve, .ret Reply.served⟩]⟩ := by
  have hfits : Chunk.Fits first := by
    rw [Chunk.Fits, first, List.length_map, List.length_replicate]
    decide
  have hmiss : answer cfg (env []).server first.datagram = (notFound, false) :=
    answer_missing hfits
      (show first.2 = toGetReq req :: (List.replicate 1499 req).map toGetReq from rfl)
  have hsend := moves_getBatch (t := 0) (s := .connect) (e := env [])
    (List.cons_ne_nil req (List.replicate 1500 req)) chunks_many rfl rfl
  have h₁ : (machine cfg).Reach Faultless (connected cfg)
      ⟨⟨2, [first.datagram, second.datagram], none, [], false,
        [(0, first.datagram), (0, second.datagram)], []⟩, .up,
        [⟨Call.get many, waiting 0 [first, second]⟩]⟩ :=
    Machine.reach_of_start .refl (admits_get _ (by simp)) trivial (faultless_act _ _)
      (hsend.bind _)
  have h₂ : (machine cfg).Reach Faultless (connected cfg)
      ⟨⟨2, [second.datagram], none, [notFound], false,
        [(0, first.datagram), (0, second.datagram)], []⟩, .up,
        [⟨Call.get many, waiting 0 [first, second]⟩, ⟨Call.serve, .ret Reply.served⟩]⟩ :=
    Machine.reach_of_start h₁ (admits_serve (by simp [isServe])) trivial (faultless_act _ _)
      (moves_serve (t := 1) rfl rfl rfl rfl hmiss)
  have hcap : (utf8 notFoundText).length ≤ datagramMax - hdrSize - errPrefixSize := by
    decide +kernel
  have herr := moves_collect_error (t := 0) (e := env []) rfl [] (s := ⟨2, [second.datagram],
    none, [notFound], false, [(0, first.datagram), (0, second.datagram)], []⟩) rfl hcap
  refine h₂.trans (Machine.reach_of_moves (t := 0) rfl (faultless_act 0 []) ?_)
  exact ((herr.errorE _).errorE _).bind _

theorem replies_stay_paired_one : ∃ c : Config (machine cfg),
    (machine cfg).Reach (StartsQuiet cfg) (connected cfg) c ∧
    c.threads[0]? = some ⟨Call.get one, .ret (Reply.get (.ok [(7, page.bytes)]))⟩ ∧
    List.Forall₂ (fun req e => e.1 = req.2 ∧ e.2.length = pageSize ∧ blake3 e.2 = req.1)
      one.reqs [(7, page.bytes)] := by
  have hsend := moves_getBatch (t := 0) (s := .connect) (e := env []) (List.cons_ne_nil req [])
    chunks_one rfl rfl
  have h₁ : (machine cfg).Reach (StartsQuiet cfg) (connected cfg)
      ⟨⟨1, [Chunk.datagram (0, [toGetReq req])], none, [], false,
        [(0, Chunk.datagram (0, [toGetReq req]))], []⟩, .up,
        [⟨Call.get one, waiting 0 [(0, [toGetReq req])]⟩]⟩ :=
    Machine.reach_of_start .refl (admits_get _ (by simp)) ⟨rfl, rfl, rfl⟩ (fun _ _ => trivial)
      (hsend.bind _)
  have h₂ : (machine cfg).Reach (StartsQuiet cfg) (connected cfg)
      ⟨⟨1, [], none, [dataReply 0 (toGetReq req) page], false,
        [(0, Chunk.datagram (0, [toGetReq req]))], []⟩, .up,
        [⟨Call.get one, waiting 0 [(0, [toGetReq req])]⟩, ⟨Call.serve, .ret Reply.served⟩]⟩ :=
    Machine.reach_of_start h₁ (admits_serve (by simp [isServe])) trivial (fun _ _ => trivial)
      (moves_serve (t := 1) rfl rfl rfl rfl (answer_found 0))
  have hdata := moves_collect_data (t := 0) (e := env []) rfl [] (s := ⟨1, [], none,
    [dataReply 0 (toGetReq req) page], false, [(0, Chunk.datagram (0, [toGetReq req]))], []⟩) rfl
  have h₃ := h₂.trans (Machine.reach_of_moves (t := 0) rfl (fun _ _ => trivial)
    (((hdata.bindE _).bindE _).bind _))
  exact ⟨_, h₃, rfl, (replies_stay_paired cfg h₃).2 0 one _ rfl⟩

/-- The first datagram of a call is answered with an error, the second with its page; the next
call reads the reply to the second and returns no page at all. -/
theorem stale_reply : ∃ (c : Config (machine cfg)) (r : Datagram),
    (machine cfg).Reach Faultless (connected cfg) c ∧
    c.threads[2]? = some ⟨Call.get one, .ret (Reply.get (.ok []))⟩ ∧
    (2, r) ∈ c.store.used ∧ ∀ d, (2, d) ∈ c.store.sent → seqOf d ≠ seqOf r := by
  have hsend := moves_getBatch (t := 2) (e := env []) (s := ⟨2, [second.datagram], none, [],
    false, [(0, first.datagram), (0, second.datagram)], [(0, notFound)]⟩)
    (List.cons_ne_nil req []) chunks_one rfl rfl
  have h₁ : (machine cfg).Reach Faultless (connected cfg)
      ⟨⟨3, [second.datagram, third.datagram], none, [], false,
        [(0, first.datagram), (0, second.datagram), (2, third.datagram)], [(0, notFound)]⟩, .up,
        [⟨Call.get many, .ret (Reply.get (.error (.peer .notFound notFoundText)))⟩,
          ⟨Call.serve, .ret Reply.served⟩, ⟨Call.get one, waiting 2 [third]⟩]⟩ :=
    Machine.reach_of_start reach_error (admits_get _ (by simp [Prog.isDone])) trivial
      (faultless_act _ _) (hsend.bind _)
  have h₂ : (machine cfg).Reach Faultless (connected cfg)
      ⟨⟨3, [third.datagram], none, [leftOver], false,
        [(0, first.datagram), (0, second.datagram), (2, third.datagram)], [(0, notFound)]⟩, .up,
        [⟨Call.get many, .ret (Reply.get (.error (.peer .notFound notFoundText)))⟩,
          ⟨Call.serve, .ret Reply.served⟩, ⟨Call.get one, waiting 2 [third]⟩,
          ⟨Call.serve, .ret Reply.served⟩]⟩ :=
    Machine.reach_of_start h₁ (admits_serve (by simp [Prog.isDone, isServe])) trivial (faultless_act _ _)
      (moves_serve (t := 3) rfl rfl rfl rfl (answer_found 1))
  have hdata := moves_collect_data (t := 2) (e := env []) rfl [] (s := ⟨3, [third.datagram], none,
    [leftOver], false, [(0, first.datagram), (0, second.datagram), (2, third.datagram)],
    [(0, notFound)]⟩) (rfl : [leftOver] = dataReply 1 (toGetReq req) page :: [])
  refine ⟨_, leftOver, h₂.trans (Machine.reach_of_moves (t := 2) rfl (faultless_act 2 [])
    (((hdata.bindE _).bindE _).bind _)), rfl, ?_, ?_⟩
  · exact List.mem_cons_of_mem _ List.mem_cons_self
  · intro d hd
    have hthird : d = third.datagram := by simpa using hd
    subst hthird
    have hd : seqOf third.datagram = some 2 := by
      rw [Chunk.datagram, seqOf_eq (decodeHdr_encodeGetBatch _ _)]
      rfl
    have hr : seqOf leftOver = some 1 := by
      rw [leftOver, dataReply, seqOf_eq (decodeHdr_encodeGetBatchData _ _)]
    rw [hd, hr]
    decide

end Sample

end SnapStore.PageChannel
