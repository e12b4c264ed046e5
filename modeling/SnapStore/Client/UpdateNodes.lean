import SnapStore.Client.Retry
import SnapStore.Meta.Batches
import SnapStore.System

/-!
# One call of `update_nodes` over a network that loses messages

The client sends the request, waits, and decides with `with_retry`.  The server executes a request
it receives in one of its batches.  Requests and replies can be lost, and an attempt can end with
an error while its request is still on the way.
-/

namespace SnapStore.Client

section Call

variable [Primitives]

/-- The arguments of the call, and the configured limit for input logs. -/
structure UpdateCall where
  experimentId : ExperimentId
  updates : List NodeUpdate
  inputLogMaxBytes : Nat

def UpdateCall.cmd (c : UpdateCall) : ActorCmd := .updateNodes c.experimentId c.updates

def visits (db : MetaDb) (exp : ExperimentId) (id : NodeId) : Int :=
  ((db.fetchNode exp id).map (·.visitCount)).getD 0

def delta (us : List NodeUpdate) (id : NodeId) : Int :=
  ((us.filter fun u => u.nodeId = id).map (·.visitCountDelta)).sum

/-- A batch of the writer actor with the request of the call in it. -/
structure ServerBatch where
  before : List ActorCmd
  after : List ActorCmd
  outcomes : Outcomes

namespace ServerBatch

variable (b : ServerBatch) (c : UpdateCall) (a : WriterActor)

def reached : BatchLoop :=
  b.before.zipIdx.foldl (execCmd c.inputLogMaxBytes b.outcomes) ⟨.begin a.db, a.counter, false, []⟩

def executed : BatchLoop :=
  execCmd c.inputLogMaxBytes b.outcomes (b.reached c a) (c.cmd, b.before.length)

def ended : BatchLoop :=
  (b.after.zipIdx (b.before.length + 1)).foldl (execCmd c.inputLogMaxBytes b.outcomes)
    (b.executed c a)

def cmds : List ActorCmd := b.before ++ c.cmd :: b.after

def committed : Bool := b.outcomes.begin && b.outcomes.commit

def reply : CmdResult :=
  ((executeBatch c.inputLogMaxBytes b.outcomes a (b.cmds c)).2[b.before.length]?).getD
    (.error (.io "no reply"))

/-- What the other commands of the batch add to a stored `visit_count`. -/
def othersAdd (id : NodeId) : Int :=
  if b.committed then
    (visits (b.reached c a).tx.current c.experimentId id - visits a.db c.experimentId id) +
      (visits (b.ended c a).tx.current c.experimentId id -
        visits (b.executed c a).tx.current c.experimentId id)
  else 0

end ServerBatch

/-- The result of an attempt whose reply has arrived; `update_nodes` replies with a counter. -/
def fromReply : CmdResult → Except ClientError Nat
  | .ok (.u64 n) => .ok n
  | .ok _ => .error (.status ⟨.internal, "unexpected reply", none⟩)
  | .error e => .error (decodeStatus (metaErrorToStatus e))

inductive Phase where
  | calling (b : Backoff)
  | waiting (b : Backoff) (n : Nat)
  | returned (r : Except ClientError Nat)

def Phase.after (d : Decision Nat) : Phase :=
  match d with
  | .finish r => .returned r
  | .retry _ b => .calling b

structure CallState where
  actor : WriterActor
  phase : Phase
  attempts : Nat
  /-- The attempts whose request is on its way to the server. -/
  requests : List Nat
  replies : List (Nat × CmdResult)
  /-- Ghost: how often the request has been executed, with success, in a committed transaction. -/
  applied : Nat
  /-- Ghost: what all other commands have added to each stored `visit_count`. -/
  others : NodeId → Int

def CallState.start (a : WriterActor) : CallState :=
  ⟨a, .calling .start, 0, [], [], 0, fun _ => 0⟩

inductive CallStep (c : UpdateCall) : CallState → CallState → Prop where
  | send {s : CallState} {b : Backoff} (h : s.phase = .calling b) :
      CallStep c s { s with
        phase := .waiting b s.attempts
        attempts := s.attempts + 1
        requests := s.attempts :: s.requests }
  | loseRequest {s : CallState} (n : Nat) :
      CallStep c s { s with requests := s.requests.erase n }
  | execute {s : CallState} (n : Nat) (h : n ∈ s.requests) (b : ServerBatch) :
      CallStep c s { s with
        actor := (executeBatch c.inputLogMaxBytes b.outcomes s.actor (b.cmds c)).1
        requests := s.requests.erase n
        replies := (n, b.reply c s.actor) :: s.replies
        applied := s.applied + if b.committed && (b.reply c s.actor).isOk then 1 else 0
        others := fun id => s.others id + b.othersAdd c s.actor id }
  | other {s : CallState} (o : Outcomes) (cmds : List ActorCmd) :
      CallStep c s { s with
        actor := (executeBatch c.inputLogMaxBytes o s.actor cmds).1
        others := fun id => s.others id +
          (visits (executeBatch c.inputLogMaxBytes o s.actor cmds).1.db c.experimentId id -
            visits s.actor.db c.experimentId id) }
  | receive {s : CallState} {b : Backoff} {n : Nat} {r : CmdResult} (elapsed : Nat)
      (h : s.phase = .waiting b n) (hr : (n, r) ∈ s.replies) :
      CallStep c s { s with phase := .after (afterAttempt elapsed b (fromReply r)) }
  /-- The attempt ends with an error of the network: its request or its reply is lost, or late. -/
  | fail {s : CallState} {b : Backoff} {n : Nat} (elapsed : Nat) (e : ClientError)
      (h : s.phase = .waiting b n) :
      CallStep c s { s with phase := .after (afterAttempt elapsed b (.error e)) }

inductive CallReach (c : UpdateCall) (ok : CallState → CallState → Prop) (s₀ : CallState) :
    CallState → Prop where
  | refl : CallReach c ok s₀ s₀
  | step {s t : CallState} (hr : CallReach c ok s₀ s) (hs : CallStep c s t) (hok : ok s t) :
      CallReach c ok s₀ t

/-! ## What one execution adds -/

section Database

omit [Primitives]

variable {db : MetaDb} {exp : ExperimentId}

theorem fetchNode_applyUpdate (k : Nat) (u : NodeUpdate) (id : NodeId) :
    (db.applyUpdate exp k u).fetchNode exp id = (db.fetchNode exp id).map fun n =>
      if n.experimentId = exp ∧ n.nodeId = u.nodeId then MetaDb.updatedNode u k n else n := by
  unfold MetaDb.fetchNode MetaDb.applyUpdate
  rw [List.find?_map]
  congr 2
  funext n
  by_cases h : n.experimentId = exp ∧ n.nodeId = u.nodeId
  · simp [Function.comp, h, MetaDb.updatedNode]
  · simp [Function.comp, h]

theorem visits_applyUpdate (k : Nat) {u : NodeUpdate} (hu : (db.fetchNode exp u.nodeId).isSome)
    (id : NodeId) : visits (db.applyUpdate exp k u) exp id =
      visits db exp id + if u.nodeId = id then u.visitCountDelta else 0 := by
  unfold visits
  rw [fetchNode_applyUpdate]
  cases hn : db.fetchNode exp id with
  | none =>
    have hne : u.nodeId ≠ id := by
      intro heq
      rw [heq, hn] at hu
      cases hu
    simp [hne]
  | some n =>
    have hid : n.experimentId = exp ∧ n.nodeId = id := by
      simpa using List.find?_some hn
    by_cases heq : u.nodeId = id
    · simp [hid, heq, MetaDb.updatedNode]
    · have hne : ¬ id = u.nodeId := fun h => heq h.symm
      simp [hid, heq, hne]

theorem delta_cons (u : NodeUpdate) (us : List NodeUpdate) (id : NodeId) :
    delta (u :: us) id = (if u.nodeId = id then u.visitCountDelta else 0) + delta us id := by
  by_cases h : u.nodeId = id
  · simp [delta, h]
  · simp [delta, h]

theorem visits_applyUpdates (k : Nat) (us : List NodeUpdate) (id : NodeId)
    (hus : ∀ u ∈ us, (db.fetchNode exp u.nodeId).isSome) :
    visits (us.foldl (MetaDb.applyUpdate exp k) db) exp id = visits db exp id + delta us id := by
  induction us generalizing db with
  | nil => simp [delta]
  | cons u us ih =>
    have hrest : ∀ v ∈ us, ((db.applyUpdate exp k u).fetchNode exp v.nodeId).isSome := by
      intro v hv
      rw [fetchNode_applyUpdate, Option.isSome_map]
      exact hus v (List.mem_cons_of_mem _ hv)
    rw [List.foldl_cons, ih hrest, visits_applyUpdate k (hus u List.mem_cons_self), delta_cons]
    omega

theorem visits_updateNodes {us : List NodeUpdate} {k : Nat} {x : Nat × MetaDb}
    (h : db.updateNodes exp us k = .ok x) (id : NodeId) :
    visits x.2 exp id = visits db exp id + delta us id := by
  unfold MetaDb.updateNodes at h
  dsimp only at h
  split at h
  · cases h
  · next hmissing =>
    cases h
    refine visits_applyUpdates k us id fun u hu => ?_
    by_contra hnone
    apply hmissing
    have hmem : u ∈ us.filter fun u => (db.fetchNode exp u.nodeId).isNone :=
      List.mem_filter.mpr ⟨hu, by simpa using hnone⟩
    intro hnil
    rw [List.map_eq_nil_iff] at hnil
    rw [hnil] at hmem
    cases hmem

end Database

variable {c : UpdateCall} {a : WriterActor} {b : ServerBatch}

theorem visits_execCmd (o : Outcomes) (l : BatchLoop) (i : Nat) :
    ∃ r : CmdResult, (execCmd c.inputLogMaxBytes o l (c.cmd, i)).replies = l.replies ++ [r] ∧
      ∀ id, visits (execCmd c.inputLogMaxBytes o l (c.cmd, i)).tx.current c.experimentId id =
        visits l.tx.current c.experimentId id + if r.isOk then delta c.updates id else 0 := by
  unfold execCmd
  split
  · refine ⟨_, rfl, fun id => ?_⟩
    have hcases : (∃ x, l.tx.current.updateNodes c.experimentId c.updates l.counter = .ok x) ∨
        ∃ e, l.tx.current.updateNodes c.experimentId c.updates l.counter = .error e := by
      cases l.tx.current.updateNodes c.experimentId c.updates l.counter <;> simp
    rcases hcases with ⟨x, hx⟩ | ⟨e, he⟩
    · simpa [current_closeSavepoint, UpdateCall.cmd, MetaDb.dispatchCmd, hx, MetaDb.settle,
        CmdResult.isOk] using visits_updateNodes hx id
    · simp [current_closeSavepoint, UpdateCall.cmd, MetaDb.dispatchCmd, he, MetaDb.settle,
        CmdResult.isOk]
  · exact ⟨_, rfl, fun id => by simp [CmdResult.isOk]⟩

theorem length_replies_execCmd (m : Nat) (o : Outcomes) (l : BatchLoop) (x : ActorCmd × Nat) :
    ∃ r, (execCmd m o l x).replies = l.replies ++ [r] := by
  unfold execCmd
  split <;> exact ⟨_, rfl⟩

theorem replies_foldl_execCmd (m : Nat) (o : Outcomes) (xs : List (ActorCmd × Nat))
    (l : BatchLoop) : ∃ rs, rs.length = xs.length ∧
      (xs.foldl (execCmd m o) l).replies = l.replies ++ rs := by
  induction xs generalizing l with
  | nil => exact ⟨[], rfl, by simp⟩
  | cons x xs ih =>
    obtain ⟨r, hr⟩ := length_replies_execCmd m o l x
    obtain ⟨rs, hlen, hrs⟩ := ih (execCmd m o l x)
    refine ⟨r :: rs, by simp [hlen], ?_⟩
    rw [List.foldl_cons, hrs, hr, List.append_assoc, List.singleton_append]

theorem execCmds_eq : execCmds c.inputLogMaxBytes b.outcomes a (b.cmds c) = b.ended c a := by
  rw [execCmds, ServerBatch.cmds, List.zipIdx_append, List.foldl_append, List.zipIdx_cons,
    List.foldl_cons, Nat.zero_add]
  rfl

theorem visits_executeBatch (id : NodeId) :
    visits (executeBatch c.inputLogMaxBytes b.outcomes a (b.cmds c)).1.db c.experimentId id =
      visits a.db c.experimentId id + b.othersAdd c a id +
        if b.committed && (b.reply c a).isOk then delta c.updates id else 0 := by
  by_cases hbegin : b.outcomes.begin = true
  · obtain ⟨r, hr, hown⟩ := visits_execCmd (c := c) b.outcomes (b.reached c a) b.before.length
    obtain ⟨rs, hlen, hrs⟩ := replies_foldl_execCmd c.inputLogMaxBytes b.outcomes b.before.zipIdx
      ⟨.begin a.db, a.counter, false, []⟩
    obtain ⟨rs', -, hrs'⟩ := replies_foldl_execCmd c.inputLogMaxBytes b.outcomes
      (b.after.zipIdx (b.before.length + 1)) (b.executed c a)
    have hreply : b.reply c a = r := by
      have hall : (b.ended c a).replies = rs ++ [r] ++ rs' := by
        rw [ServerBatch.ended, hrs', ServerBatch.executed, hr, ServerBatch.reached, hrs]
        rfl
      rw [List.length_zipIdx] at hlen
      rw [ServerBatch.reply, executeBatch, if_pos hbegin]
      dsimp only
      rw [execCmds_eq, hall, List.append_assoc, ← hlen, List.getElem?_append_right (Nat.le_refl _)]
      simp
    by_cases hcommit : b.outcomes.commit = true
    · have hvisits : visits (b.ended c a).flushed c.experimentId id =
          visits (b.ended c a).tx.current c.experimentId id := by
        unfold BatchLoop.flushed
        split <;> rfl
      have hcom : b.committed = true := by simp [ServerBatch.committed, hbegin, hcommit]
      have hownId := hown id
      rw [executeBatch, if_pos hbegin]
      dsimp only
      rw [if_pos hcommit, execCmds_eq, hvisits, hreply, ServerBatch.othersAdd, hcom, if_pos rfl,
        Bool.true_and]
      rw [← ServerBatch.executed] at hownId
      omega
    · have hcom : b.committed = false := by simp [ServerBatch.committed, hcommit]
      rw [executeBatch, if_pos hbegin]
      dsimp only
      rw [if_neg hcommit, ServerBatch.othersAdd, hcom]
      simp
  · have hcom : b.committed = false := by simp [ServerBatch.committed, hbegin]
    rw [executeBatch, if_neg hbegin, ServerBatch.othersAdd, hcom]
    simp

/-! ## The call as a whole -/

omit [Primitives] in
theorem returns_of_receive (elapsed : Nat) (b : Backoff) (r : CmdResult) :
    ∃ res, Phase.after (afterAttempt elapsed b (fromReply r)) = .returned res := by
  cases r with
  | ok v => cases v <;> exact ⟨_, rfl⟩
  | error e =>
    simp only [fromReply, afterAttempt, isRetryable_metaError, Bool.false_eq_true, if_false]
    exact ⟨_, rfl⟩

/-- An attempt is made again only if its request has not been applied and is not on its way. -/
def RetriesUnapplied (s t : CallState) : Prop :=
  ∀ b n b', s.phase = .waiting b n → t.phase = .calling b' → s.requests = [] ∧ s.applied = 0

structure AtMostOne (s : CallState) : Prop where
  count : s.requests.length + s.applied ≤ 1
  fresh : ∀ b, s.phase = .calling b → s.requests = [] ∧ s.applied = 0

theorem AtMostOne.step {s t : CallState} (h : AtMostOne s) (hs : CallStep c s t)
    (hok : RetriesUnapplied s t) : AtMostOne t := by
  cases hs with
  | @send b hphase =>
    obtain ⟨hreq, happ⟩ := h.fresh b hphase
    exact ⟨by simp [hreq, happ], fun b' hb' => by cases hb'⟩
  | loseRequest n =>
    have hlen := List.length_erase_le (a := n) (l := s.requests)
    have hcount := h.count
    refine ⟨by dsimp only; omega, fun b hb => ?_⟩
    obtain ⟨hreq, happ⟩ := h.fresh b hb
    exact ⟨by simp [hreq], happ⟩
  | execute n hn b =>
    have hlen := List.length_erase_of_mem hn
    have hpos := List.length_pos_of_mem hn
    have hcount := h.count
    refine ⟨?_, fun b' hb' => ?_⟩
    · dsimp only
      split <;> omega
    · rw [(h.fresh b' hb').1] at hn
      cases hn
  | other o cmds => exact ⟨h.count, h.fresh⟩
  | @receive b n r elapsed hphase hr =>
    refine ⟨h.count, fun b' hb' => ?_⟩
    obtain ⟨res, hres⟩ := returns_of_receive elapsed b r
    rw [hres] at hb'
    cases hb'
  | fail elapsed e hphase =>
    exact ⟨h.count, fun b' hb' => hok _ _ b' hphase hb'⟩

def Accounted (c : UpdateCall) (a : WriterActor) (s : CallState) : Prop :=
  ∀ id, visits s.actor.db c.experimentId id =
    visits a.db c.experimentId id + s.others id + s.applied * delta c.updates id

theorem Accounted.step {s t : CallState} (h : Accounted c a s) (hs : CallStep c s t) :
    Accounted c a t := by
  intro id
  have hid := h id
  cases hs with
  | send hphase => exact hid
  | loseRequest n => exact hid
  | execute n hn b =>
    dsimp only
    rw [visits_executeBatch, hid]
    split
    · push_cast
      rw [Int.add_mul]
      omega
    · rw [Nat.add_zero]
      omega
  | other o cmds =>
    dsimp only
    omega
  | receive elapsed hphase hr => exact hid
  | fail elapsed e hphase => exact hid

/-- The updates of a call are added at most once, as long as no attempt is repeated whose request
has been applied or may still be. -/
theorem update_nodes_at_most_once {s : CallState}
    (h : CallReach c RetriesUnapplied (.start a) s) :
    ∃ k : Nat, k ≤ 1 ∧ ∀ id, visits s.actor.db c.experimentId id =
      visits a.db c.experimentId id + s.others id + k * delta c.updates id := by
  have hinv : AtMostOne s ∧ Accounted c a s := by
    induction h with
    | refl =>
      exact ⟨⟨Nat.zero_le 1, fun _ _ => ⟨rfl, rfl⟩⟩, fun id => by simp [CallState.start]⟩
    | step _ hs hok ih => exact ⟨ih.1.step hs hok, ih.2.step hs⟩
  obtain ⟨hone, hall⟩ := hinv
  have hcount := hone.count
  exact ⟨s.applied, by omega, hall⟩

end Call

namespace Sample

attribute [local instance] SnapStore.Sample.primitives

def actor : WriterActor where
  db := { MetaDb.empty with
    nodes := [⟨"e", 0, none, 0, SnapStore.Sample.ref, none, .frontier, none, 0, 0, 0, 1, 1, 0, none⟩] }
  counter := 2

def call : UpdateCall := ⟨"e", [⟨0, none, none, none, 1, true, none, none⟩], 1000⟩

def alone : ServerBatch := ⟨[], [], .good⟩

def lost : ClientError := .status ⟨.unavailable, "connection lost", none⟩

theorem update_nodes_at_most_once_visit : ∃ s : CallState,
    CallReach call RetriesUnapplied (.start actor) s ∧ visits s.actor.db "e" 0 = 1 ∧
    ∃ k : Nat, k ≤ 1 ∧ ∀ id, visits s.actor.db "e" id =
      visits actor.db "e" id + s.others id + k * delta call.updates id := by
  have h₁ : CallReach call RetriesUnapplied (.start actor) _ :=
    .step .refl (.send rfl) (by intro b n b' hb; cases hb)
  have h₂ : CallReach call RetriesUnapplied (.start actor) _ :=
    .step h₁ (.loseRequest 0) (by intro b n b' _ hb; cases hb)
  have h₃ : CallReach call RetriesUnapplied (.start actor) _ :=
    .step h₂ (.fail 100 lost rfl) (by intro b n b' _ _; exact ⟨rfl, rfl⟩)
  have h₄ : CallReach call RetriesUnapplied (.start actor) _ :=
    .step h₃ (.send rfl) (by intro b n b' hb; cases hb)
  have h₅ : CallReach call RetriesUnapplied (.start actor) _ :=
    .step h₄ (.execute 1 List.mem_cons_self alone) (by intro b n b' _ hb; cases hb)
  exact ⟨_, h₅, by decide +kernel, update_nodes_at_most_once h₅⟩

/-- The first reply is lost after the server has committed; the visit is counted twice. -/
theorem visit_counted_twice : ∃ s : CallState,
    CallReach call (fun _ _ => True) (.start actor) s ∧ (∃ n, s.phase = .returned (.ok n)) ∧
    delta call.updates 0 = 1 ∧ visits actor.db "e" 0 = 0 ∧ s.others 0 = 0 ∧
    visits s.actor.db "e" 0 = 2 := by
  have h₁ : CallReach call (fun _ _ => True) (.start actor) _ := .step .refl (.send rfl) trivial
  have h₂ : CallReach call (fun _ _ => True) (.start actor) _ :=
    .step h₁ (.execute 0 List.mem_cons_self alone) trivial
  have h₃ : CallReach call (fun _ _ => True) (.start actor) _ :=
    .step h₂ (.fail 100 lost rfl) trivial
  have h₄ : CallReach call (fun _ _ => True) (.start actor) _ := .step h₃ (.send rfl) trivial
  have h₅ : CallReach call (fun _ _ => True) (.start actor) _ :=
    .step h₄ (.execute 1 List.mem_cons_self alone) trivial
  have h₆ : CallReach call (fun _ _ => True) (.start actor) _ :=
    .step h₅ (.receive 200 rfl List.mem_cons_self) trivial
  exact ⟨_, h₆, ⟨_, rfl⟩, by decide +kernel, by decide +kernel, by decide +kernel,
    by decide +kernel⟩

end Sample

end SnapStore.Client
