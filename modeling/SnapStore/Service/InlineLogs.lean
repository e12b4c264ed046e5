import SnapStore.Client.Retry
import SnapStore.Meta.InputLogs
import SnapStore.Meta.Resend

/-!
# Input logs that come with a request

The `CreateNode` and `PutInputLog` handlers of the service, up to the command they send to the
writer actor.  The actor looks at the container of a `CreateNode` only if the request names a log
that is not stored yet.
-/

namespace SnapStore

open Disk

structure CreateNodeRequest where
  experimentId : String
  nodeId : Nat
  parentNodeId : Option Nat
  snapshotRef : Bytes
  inputLogId : Bytes
  inlineInputLog : Bytes
  status : Int
  score : Option UInt64
  icount : Nat
  virtualNs : Nat
  attrs : Bytes

namespace Service

open Client (Status Code metaErrorToStatus)

def experimentIdMaxBytes : Nat := 128

def invalid (msg : String) : Status := ⟨.invalidArgument, msg, none⟩

def validateHash32 (bytes : Bytes) (field : String) : Except Status Digest :=
  if h : bytes.length = 32 then .ok ⟨bytes, h⟩
  else .error (invalid s!"{field}: expected 32-byte hash, got {bytes.length} bytes")

def validateExperimentId (s : String) : Except Status ExperimentId :=
  if s.utf8ByteSize = 0 then
    .error (invalid "experiment_id: experiment id must not be empty")
  else if experimentIdMaxBytes < s.utf8ByteSize then
    .error (invalid (s!"experiment_id: experiment id exceeds {experimentIdMaxBytes} bytes " ++
      s!"(got {s.utf8ByteSize})"))
  else .ok s

def protoStatusToTypes (s : Int) : NodeStatus :=
  if s = 2 then .expanded else if s = 3 then .pruned else if s = 4 then .goal else .frontier

def validateLogId (bytes : Bytes) : Except Status (Option LogId) :=
  if bytes = [] then .ok none else (validateHash32 bytes "input_log_id").map some

variable [Primitives]

def validateInlineLog (bytes : Bytes) : Except Status (Option Bytes) :=
  if bytes = [] then .ok none else
  match InputLogContainer.decode bytes with
  | .ok _ => .ok (some bytes)
  | .error e => .error (invalid s!"invalid inline SILG container: {e.text}")

/-- The checks of `create_node`, and the command they end in. -/
def createNodeParams (r : CreateNodeRequest) : Except Status CreateNodeParams := do
  let experimentId ← validateExperimentId r.experimentId
  let snapshotRef ← validateHash32 r.snapshotRef "snapshot_ref"
  let inputLogId ← validateLogId r.inputLogId
  let inlineLog ← validateInlineLog r.inlineInputLog
  return {
    experimentId := experimentId
    nodeId := r.nodeId
    parentNodeId := r.parentNodeId
    snapshotRef := snapshotRef
    inputLogId := inputLogId
    inlineLogContainer := inlineLog
    status := protoStatusToTypes r.status
    score := r.score
    icount := r.icount
    virtualNs := r.virtualNs
    attrs := if r.attrs = [] then none else some r.attrs }

/-- `create_node`: the answer, and what the statements of its command leave in the database.
`registered` is what `register_live_ref` returned. -/
def createNode (inputLogMaxBytes : Nat) (registered : Except String Unit) (db : MetaDb)
    (counter : Nat) (r : CreateNodeRequest) : Except Status NodeRow × MetaDb :=
  match createNodeParams r, registered with
  | .error e, _ => (.error e, db)
  | .ok _, .error e =>
    (.error ⟨.notFound, s!"snapshot_ref not found: PutSnapshot must precede CreateNode ({e})",
      none⟩, db)
  | .ok p, .ok () =>
    match db.dispatchCmd inputLogMaxBytes (.createNode p) counter with
    | (.ok (.nodeRow row), db') => (.ok row, db')
    | (.ok _, db') => (.error ⟨.internal, "unexpected reply", none⟩, db')
    | (.error e, db') => (.error (metaErrorToStatus e), db')

def putInputLogId (container : Bytes) : Except Status LogId :=
  match InputLogContainer.decode container with
  | .ok _ => .ok (InputLogContainer.logId container)
  | .error e => .error (invalid s!"invalid SILG container: {e.text}")

def Served : ActorCmd → Prop
  | .createNode p => ∃ r, createNodeParams r = .ok p
  | .putInputLog logId container => putInputLogId container = .ok logId
  | _ => True

theorem createNodeParams_ok {r : CreateNodeRequest} {p : CreateNodeParams}
    (h : createNodeParams r = .ok p) :
    validateLogId r.inputLogId = .ok p.inputLogId ∧
      validateInlineLog r.inlineInputLog = .ok p.inlineLogContainer := by
  unfold createNodeParams at h
  cases hexp : validateExperimentId r.experimentId with
  | error e => simp [hexp, bind, Except.bind] at h
  | ok exp =>
    cases href : validateHash32 r.snapshotRef "snapshot_ref" with
    | error e => simp [hexp, href, bind, Except.bind] at h
    | ok ref =>
      cases hid : validateLogId r.inputLogId with
      | error e => simp [hexp, href, hid, bind, Except.bind] at h
      | ok logId =>
        cases hinline : validateInlineLog r.inlineInputLog with
        | error e => simp [hexp, href, hid, hinline, bind, Except.bind] at h
        | ok inline =>
          simp only [hexp, href, hid, hinline, bind, Except.bind, pure, Except.pure,
            Except.ok.injEq] at h
          subst h
          exact ⟨rfl, rfl⟩

omit [Primitives] in
theorem validateLogId_ok {bytes : Bytes} {id : Option LogId} (h : validateLogId bytes = .ok id)
    (hne : bytes ≠ []) : ∃ d : LogId, id = some d ∧ d.bytes = bytes := by
  rw [validateLogId, if_neg hne, validateHash32] at h
  split at h
  · cases h
    exact ⟨_, rfl, rfl⟩
  · cases h

theorem validateInlineLog_ok {bytes : Bytes} {inline : Option Bytes}
    (h : validateInlineLog bytes = .ok inline) :
    ∀ b, inline = some b → b = bytes ∧ ∃ c, InputLogContainer.decode b = .ok c := by
  intro b hb
  unfold validateInlineLog at h
  split at h
  · rw [hb] at h
    cases h
  · split at h
    · next c hc =>
      rw [hb, Except.ok.injEq, Option.some.injEq] at h
      subst h
      exact ⟨rfl, c, hc⟩
    · cases h

theorem validateInlineLog_of_ne {bytes : Bytes} {inline : Option Bytes}
    (h : validateInlineLog bytes = .ok inline) (hne : bytes ≠ []) : inline = some bytes := by
  rw [validateInlineLog, if_neg hne] at h
  split at h
  · cases h
    rfl
  · cases h

theorem putInputLogId_ok {container : Bytes} {id : LogId} (h : putInputLogId container = .ok id) :
    ∃ c, InputLogContainer.decode container = .ok c := by
  unfold putInputLogId at h
  split at h
  · next c hc => exact ⟨c, hc⟩
  · cases h

end Service

/-! ## Stored logs -/

namespace MetaDb

variable [Primitives] {db db' : MetaDb} {m k : Nat} {p : CreateNodeParams} {l : InputLogRow}

def LogsDecoded (db : MetaDb) : Prop :=
  ∀ l ∈ db.inputLogs, (∃ c, InputLogContainer.decode l.content = .ok c) ∧
    InputLogContainer.logId l.content = l.logId

section

variable {id : LogId} {container : Bytes} (hlog : p.inputLogId = some id)
  (hinline : p.inlineLogContainer = some container)

include hlog hinline

theorem ensureInputLog_inline (h : db.ensureInputLog p m k = .ok db') :
    (db' = db ∧ ∃ l ∈ db.inputLogs, l.logId = id) ∨
      InputLogContainer.logId container = id ∧
        ∃ l ∈ db'.inputLogs, l.logId = id ∧ l.content = container := by
  simp only [ensureInputLog, hlog, hinline] at h
  split at h
  · next hany =>
    cases h
    obtain ⟨l, hl, hid⟩ := List.any_eq_true.mp hany
    exact .inl ⟨rfl, l, hl, of_decide_eq_true hid⟩
  · next hany =>
    simp only [putInputLog, hany] at h
    split at h
    · cases h
    · split at h
      · cases h
      · split at h
        · cases h
        · next hid =>
          cases h
          exact .inr ⟨not_not.mp hid, _, List.mem_cons_self, rfl, rfl⟩

theorem ensureInputLog_mismatch (hnew : ∀ l ∈ db.inputLogs, l.logId ≠ id)
    (hid : InputLogContainer.logId container ≠ id) : ∃ e, db.ensureInputLog p m k = .error e := by
  cases hensure : db.ensureInputLog p m k with
  | error e => exact ⟨e, rfl⟩
  | ok db₁ =>
    rcases ensureInputLog_inline hlog hinline hensure with ⟨-, l, hl, heq⟩ | ⟨heq, -⟩
    · exact absurd heq (hnew l hl)
    · exact absurd heq hid

end

theorem decode_of_served {cmd : ActorCmd} {container : Bytes} (hcmd : Service.Served cmd)
    (hc : cmd.container = some container) : ∃ c, InputLogContainer.decode container = .ok c := by
  cases cmd with
  | createNode p =>
    obtain ⟨r, hr⟩ := hcmd
    exact (Service.validateInlineLog_ok (Service.createNodeParams_ok hr).2 _ hc).2
  | putInputLog logId container' =>
    cases hc
    exact Service.putInputLogId_ok hcmd
  | _ => cases hc

theorem LogsDecoded.dispatchCmd {cmd : ActorCmd} (h : db.LogsDecoded) (hcmd : Service.Served cmd) :
    (db.dispatchCmd m cmd k).2.LogsDecoded := by
  intro l hl
  rcases mem_inputLogs_dispatchCmd hl with hold | ⟨hcontainer, hid, -⟩
  · exact h l hold
  · exact ⟨decode_of_served hcmd hcontainer, hid⟩

end MetaDb

section

variable [Primitives] {m k : Nat}

open History MetaDb

theorem History.Reach.logsDecoded {s : History} (h : Reach m (fun _ cmd => Service.Served cmd) s) :
    s.contents.LogsDecoded := by
  have hinv := h.invariant (P := LogsDecoded) (fun l hl => nomatch hl) (fun _ _ hdb => hdb)
    fun db c k hdb hc => hdb.dispatchCmd hc
  unfold contents
  split
  · next l i hb => exact hinv.2 l i hb
  · exact hinv.1

namespace Service

variable {r : CreateNodeRequest} {db : MetaDb} {registered : Except String Unit}

theorem createNode_ok {row : NodeRow} {db' : MetaDb}
    (h : createNode m registered db k r = (.ok row, db')) :
    ∃ p, createNodeParams r = .ok p ∧ db.createNodeImpl p m k = (.ok (.nodeRow row), db') := by
  unfold createNode at h
  split at h
  · cases h
  · cases h
  · next p hp =>
    split at h
    · next row' db'' hreply =>
      cases h
      exact ⟨p, hp, hreply⟩
    · cases h
    · cases h

/-- The request names a log, and the log is the one that comes with it or is not stored. -/
def LogNamed (db : MetaDb) (r : CreateNodeRequest) : Prop :=
  r.inputLogId ≠ [] ∧
    (r.inputLogId = (InputLogContainer.logId r.inlineInputLog).bytes ∨
      ∀ l ∈ db.inputLogs, l.logId.bytes ≠ r.inputLogId)

def NoCollision (db : MetaDb) (container : Bytes) : Prop :=
  ∀ l ∈ db.inputLogs, InputLogContainer.logId l.content = InputLogContainer.logId container →
    l.content.take (l.content.length - 32) = container.take (container.length - 32)

end Service

end

namespace Sample

attribute [local instance] primitives

open History MetaDb Service

def rootRequest (inputLogId : Bytes) : CreateNodeRequest :=
  ⟨"e", 0, none, ref.bytes, inputLogId, emptyLog, 0, none, 0, 0, []⟩

/-- The request is answered with a row, and the row and the database meet a condition. -/
def answered (x : Except Client.Status NodeRow × MetaDb) (f : NodeRow → MetaDb → Bool) : Bool :=
  match x with
  | (.ok row, db') => f row db'
  | _ => false

theorem exists_of_answered {x : Except Client.Status NodeRow × MetaDb}
    {f : NodeRow → MetaDb → Bool} (h : answered x f = true) :
    ∃ row db', x = (.ok row, db') ∧ f row db' = true := by
  obtain ⟨e | row, db'⟩ := x
  · cases h
  · exact ⟨row, db', rfl, h⟩

theorem reach_shortLog : ∃ s, Reach 100 (fun _ cmd => Served cmd) s ∧
    s.contents = (MetaDb.empty.dispatchCmd 100
      (.putInputLog (InputLogContainer.logId shortLog) shortLog) 1).2 := by
  have hserved : Served (.putInputLog (InputLogContainer.logId shortLog) shortLog) := by
    have hdecode : InputLogContainer.decode shortLog = .ok ⟨1, [5]⟩ :=
      InputLogContainer.decode_encode _ (by decide) (by decide)
    rw [Served, putInputLogId, hdecode]
  have hbegun : Reach 100 (fun _ cmd => Served cmd) _ := .step .initial (.begin rfl)
  exact ⟨_, .step hbegun (.command rfl .good _ rfl hserved), rfl⟩

end Sample

end SnapStore
