import SnapStore.Types
import Mathlib.Data.List.Dedup
import Mathlib.Data.List.Sort

/-!
# The metadata database

The tables: nodes, pins, tombstones, input logs, the key-value table, and the persisted state of the
last cycle.  Each writer command is one function of the database; the writer actor serialises
them.
-/

namespace SnapStore

open Disk

abbrev ExperimentId := String

abbrev NodeId := Nat

abbrev LogId := Digest

inductive NodeStatus where
  | frontier
  | expanded
  | pruned
  | goal
deriving DecidableEq

structure NodeRow where
  experimentId : ExperimentId
  nodeId : NodeId
  parentNodeId : Option NodeId
  depth : Nat
  snapshotRef : SnapshotRef
  inputLogId : Option LogId
  status : NodeStatus
  /-- The bits of the `f64`. -/
  score : Option UInt64
  visitCount : Int
  icount : Nat
  virtualNs : Nat
  createdAt : Nat
  updatedAt : Nat
  lastVisitedAt : Nat
  attrs : Option Bytes
deriving DecidableEq

structure PinRow where
  snapshotRef : SnapshotRef
  note : Option String
  createdAt : Nat
deriving DecidableEq

structure TombstoneRow where
  experimentId : ExperimentId
  nodeId : NodeId
  createdAt : Nat
deriving DecidableEq

structure InputLogRow where
  logId : LogId
  innerFormatVersion : Nat
  content : Bytes
  createdAt : Nat
deriving DecidableEq

structure KvRow where
  key : Bytes
  value : Bytes
  generation : Nat
  updatedAt : Nat
deriving DecidableEq

structure GcStateRow where
  cyclesTotal : Nat
  lastFenceCounter : Nat
  lastFinishedAt : Nat
  lastFreedBytes : Nat
deriving DecidableEq

structure MetaDb where
  nodes : List NodeRow
  pins : List PinRow
  tombstones : List TombstoneRow
  inputLogs : List InputLogRow
  kvMetadata : List KvRow
  gcState : GcStateRow
  logicalCounter : Nat
deriving DecidableEq

inductive MetaError where
  | sqlite
  | io (msg : String)
  | parentNotFound
  | alreadyExists
  | missingNodes (ids : List NodeId)
  | pruneRootDenied
  | casFailed (current : Nat)
  | invalidArgument (msg : String)
  | logIdMismatch
  | logTooSmall
  | logTooLarge
deriving DecidableEq

structure CreateNodeParams where
  experimentId : ExperimentId
  nodeId : NodeId
  parentNodeId : Option NodeId
  snapshotRef : SnapshotRef
  inputLogId : Option LogId
  inlineLogContainer : Option Bytes
  status : NodeStatus
  score : Option UInt64
  icount : Nat
  virtualNs : Nat
  attrs : Option Bytes

structure NodeUpdate where
  nodeId : NodeId
  status : Option NodeStatus
  score : Option UInt64
  attrs : Option Bytes
  visitCountDelta : Int
  touchVisited : Bool
  icount : Option Nat
  virtualNs : Option Nat

namespace MetaDb

def empty : MetaDb := ⟨[], [], [], [], [], ⟨0, 0, 0, 0⟩, 0⟩

def inputLogMinBytes : Nat := 56
def kvKeyMax : Nat := 512
def kvValueMax : Nat := 16 * 1024 * 1024

def fetchNode (db : MetaDb) (exp : ExperimentId) (id : NodeId) : Option NodeRow :=
  db.nodes.find? fun n => n.experimentId = exp ∧ n.nodeId = id

def gcRootRefs (db : MetaDb) : List SnapshotRef :=
  (db.nodes.map (·.snapshotRef) ++ db.pins.map (·.snapshotRef)).dedup

/-- Tombstoned subtree roots with `created_at <= horizon`; the horizon is clamped to an `i64`. -/
def listTombstones (db : MetaDb) (horizon : Nat) : List TombstoneRow :=
  (db.tombstones.filter fun t => t.createdAt ≤ min horizon (2 ^ 63 - 1)).insertionSort
    fun a b => a.createdAt ≤ b.createdAt

def rederiveCounter (db : MetaDb) : Nat :=
  db.nodes.foldl (fun m n => max m (max n.createdAt n.updatedAt)) db.logicalCounter + 1

def putInputLog [Primitives] (db : MetaDb) (logId : LogId) (container : Bytes)
    (inputLogMaxBytes counter : Nat) : Except MetaError (Bool × MetaDb) :=
  if container.length < inputLogMinBytes then .error .logTooSmall else
  if inputLogMaxBytes < container.length then .error .logTooLarge else
  if blake3 (container.take (container.length - 32)) ≠ logId then .error .logIdMismatch else
  if db.inputLogs.any fun l => l.logId = logId then .ok (false, db) else
  .ok (true, { db with inputLogs :=
    ⟨logId, leNat (slice container 8 4), container, counter⟩ :: db.inputLogs })

def ensureInputLog [Primitives] (db : MetaDb) (p : CreateNodeParams)
    (inputLogMaxBytes counter : Nat) : Except MetaError MetaDb :=
  match p.inputLogId with
  | none => .ok db
  | some logId =>
    if db.inputLogs.any fun l => l.logId = logId then .ok db else
    match p.inlineLogContainer with
    | some container => (db.putInputLog logId container inputLogMaxBytes counter).map (·.2)
    | none => .error (.invalidArgument "input_log_id not found and no inline container provided")

def nodeDepth (db : MetaDb) (p : CreateNodeParams) : Except MetaError Nat :=
  if p.nodeId = 0 ∧ p.parentNodeId.isSome then
    .error (.invalidArgument "root node (node_id=0) must have no parent") else
  if p.nodeId ≠ 0 ∧ p.parentNodeId.isNone then
    .error (.invalidArgument "non-root node must have a parent") else
  match p.parentNodeId with
  | none => .ok 0
  | some parentId =>
    match db.fetchNode p.experimentId parentId with
    | none => .error .parentNotFound
    | some row =>
      if row.status = .pruned then .error .parentNotFound else .ok ((row.depth + 1) % 2 ^ 32)

def newNode (p : CreateNodeParams) (depth counter : Nat) : NodeRow where
  experimentId := p.experimentId
  nodeId := p.nodeId
  parentNodeId := p.parentNodeId
  depth := depth
  snapshotRef := p.snapshotRef
  inputLogId := p.inputLogId
  status := p.status
  score := p.score
  visitCount := 0
  icount := p.icount
  virtualNs := p.virtualNs
  createdAt := counter
  updatedAt := counter
  lastVisitedAt := 0
  attrs := p.attrs

def createNode [Primitives] (db : MetaDb) (p : CreateNodeParams) (inputLogMaxBytes counter : Nat) :
    Except MetaError (NodeRow × MetaDb) := do
  let depth ← db.nodeDepth p
  let db' ← db.ensureInputLog p inputLogMaxBytes counter
  match db'.fetchNode p.experimentId p.nodeId with
  | some existing =>
    if existing.parentNodeId = p.parentNodeId ∧ existing.snapshotRef = p.snapshotRef ∧
        existing.inputLogId = p.inputLogId then
      .ok (existing, db')
    else .error .alreadyExists
  | none =>
    let row : NodeRow := newNode p depth counter
    .ok (row, { db' with nodes := row :: db'.nodes })

def updatedNode (u : NodeUpdate) (counter : Nat) (n : NodeRow) : NodeRow :=
  { n with
    status := u.status.getD n.status
    score := u.score.or n.score
    attrs := u.attrs.or n.attrs
    visitCount := n.visitCount + u.visitCountDelta
    icount := u.icount.getD n.icount
    virtualNs := u.virtualNs.getD n.virtualNs
    updatedAt := counter
    lastVisitedAt := if u.touchVisited then counter else n.lastVisitedAt }

def applyUpdate (exp : ExperimentId) (counter : Nat) (db : MetaDb) (u : NodeUpdate) : MetaDb :=
  { db with nodes := db.nodes.map fun n =>
      if n.experimentId = exp ∧ n.nodeId = u.nodeId then updatedNode u counter n else n }

/-- Update many nodes; unless all of them exist, nothing is updated. -/
def updateNodes (db : MetaDb) (exp : ExperimentId) (updates : List NodeUpdate) (counter : Nat) :
    Except MetaError (Nat × MetaDb) :=
  let missing := (updates.filter fun u => (db.fetchNode exp u.nodeId).isNone).map (·.nodeId)
  if missing ≠ [] then .error (.missingNodes missing) else
  .ok (counter, updates.foldl (applyUpdate exp counter) db)

def fetchKv (db : MetaDb) (key : Bytes) : Option KvRow := db.kvMetadata.find? fun r => r.key = key

def checkKey (key : Bytes) : Except MetaError Unit :=
  if key = [] ∨ kvKeyMax < key.length then
    .error (.invalidArgument s!"key length {key.length} out of range 1..={kvKeyMax}")
  else .ok ()

def upsertKv (db : MetaDb) (row : KvRow) : MetaDb :=
  { db with kvMetadata := row :: db.kvMetadata.filter fun r => r.key ≠ row.key }

/-- Store a key-value entry: unconditionally, create-only (generation 0), or if the current
generation is the expected one.  Returns the new generation. -/
def putMetadata (db : MetaDb) (key value : Bytes) (expectedGeneration : Option Nat)
    (counter : Nat) : Except MetaError (Nat × MetaDb) := do
  checkKey key
  if kvValueMax < value.length then
    .error (.invalidArgument s!"value length {value.length} exceeds max {kvValueMax}") else
  match expectedGeneration with
  | none =>
    let newGen := ((db.fetchKv key).map fun r => r.generation + 1).getD 1
    .ok (newGen, db.upsertKv ⟨key, value, newGen, counter⟩)
  | some 0 =>
    match db.fetchKv key with
    | none => .ok (1, db.upsertKv ⟨key, value, 1, counter⟩)
    | some r => .error (.casFailed r.generation)
  | some (g + 1) =>
    match db.fetchKv key with
    | none => .error (.casFailed 0)
    | some r =>
      if r.generation = g + 1 then
        .ok (g + 2, db.upsertKv ⟨key, value, g + 2, counter⟩)
      else .error (.casFailed r.generation)

def deleteMetadata (db : MetaDb) (key : Bytes) (expectedGeneration : Option Nat) :
    Except MetaError (Bool × MetaDb) := do
  checkKey key
  match db.fetchKv key with
  | none => .ok (false, db)
  | some r =>
    if expectedGeneration.all fun g => r.generation = g then
      .ok (true, { db with kvMetadata := db.kvMetadata.filter fun x => x.key ≠ key })
    else .error (.casFailed r.generation)

def setGcState (db : MetaDb) (state : GcStateRow) : MetaDb := { db with gcState := state }

def pin (db : MetaDb) (r : SnapshotRef) (note : Option String) (counter : Nat) : MetaDb :=
  if db.pins.any fun p => p.snapshotRef = r then db
  else { db with pins := ⟨r, note, counter⟩ :: db.pins }

def unpin (db : MetaDb) (r : SnapshotRef) : Bool × MetaDb :=
  (db.pins.any fun p => p.snapshotRef = r,
    { db with pins := db.pins.filter fun p => p.snapshotRef ≠ r })

def children (db : MetaDb) (exp : ExperimentId) (ids : List NodeId) : List NodeId :=
  (db.nodes.filter fun n => n.experimentId = exp ∧ n.parentNodeId.any fun p => p ∈ ids).map
    (·.nodeId)

/-- The recursive query over a subtree, level by level; a tree has fewer levels than nodes. -/
def subtreeLevels (db : MetaDb) (exp : ExperimentId) : Nat → List NodeId → List NodeId
  | 0, level => level
  | k + 1, level => level ++ db.subtreeLevels exp k (db.children exp level)

def subtree (db : MetaDb) (exp : ExperimentId) (id : NodeId) : List NodeId :=
  db.subtreeLevels exp db.nodes.length [id]

def inSubtree (db : MetaDb) (exp : ExperimentId) (id : NodeId) (n : NodeRow) : Bool :=
  n.experimentId = exp ∧ n.nodeId ∈ db.subtree exp id

def pruneSubtree (db : MetaDb) (exp : ExperimentId) (id : NodeId) (allowRoot : Bool)
    (counter : Nat) : Except MetaError (Nat × MetaDb) :=
  if id = 0 ∧ allowRoot = false then .error .pruneRootDenied else
  match db.fetchNode exp id with
  | none => .error (.missingNodes [id])
  | some _ =>
    let rows := (db.nodes.filter (db.inSubtree exp id)).length
    let nodes := db.nodes.map fun n =>
      if db.inSubtree exp id n then { n with status := .pruned, updatedAt := counter } else n
    let tombstones :=
      if db.tombstones.any fun t => t.experimentId = exp ∧ t.nodeId = id then db.tombstones
      else ⟨exp, id, counter⟩ :: db.tombstones
    .ok (rows, { db with nodes := nodes, tombstones := tombstones })

def reapTombstone (db : MetaDb) (exp : ExperimentId) (id : NodeId) :
    Except MetaError (Nat × MetaDb) :=
  match db.fetchNode exp id with
  | none => .ok (0, db)
  | some _ =>
    let rows := db.nodes.filter (db.inSubtree exp id)
    let nonPruned := (rows.filter fun n => n.status ≠ .pruned).length
    if 0 < nonPruned then
      .error (.invalidArgument (s!"reap_tombstone: subtree rooted at ({exp}, NodeId({id})) has " ++
        s!"{nonPruned} non-PRUNED row(s); refusing to delete"))
    else
      let nodes := db.nodes.filter fun n => !db.inSubtree exp id n
      .ok (rows.length, { db with
        nodes := nodes
        inputLogs := db.inputLogs.filter fun l => nodes.any fun n => n.inputLogId = some l.logId
        tombstones := db.tombstones.filter fun t => ¬ (t.experimentId = exp ∧ t.nodeId = id) })

/-- What a successful put does: the new generation is above the current one, and an expected
generation is the current one. -/
structure Put (db : MetaDb) (key value : Bytes) (expected : Option Nat) (k g : Nat)
    (db' : MetaDb) : Prop where
  write : db' = db.upsertKv ⟨key, value, g, k⟩
  above : ∀ r, db.fetchKv key = some r → r.generation < g
  guard : ∀ e, 1 ≤ e → expected = some e → ∃ r, db.fetchKv key = some r ∧ r.generation = e

theorem putMetadata_ok {db : MetaDb} {k : Nat} {key value : Bytes} {expected : Option Nat} {x : Nat × MetaDb}
    (h : db.putMetadata key value expected k = .ok x) : db.Put key value expected k x.1 x.2 := by
  unfold putMetadata at h
  cases hkey : checkKey key with
  | error e => simp [hkey, bind, Except.bind] at h
  | ok u =>
    simp only [hkey, bind, Except.bind] at h
    split at h
    · cases h
    · split at h
      · cases h
        refine ⟨rfl, fun r hr => ?_, nofun⟩
        simp [hr]
      · split at h
        · next hnone =>
          cases h
          refine ⟨rfl, fun r hr => ?_, fun e he heq => ?_⟩
          · cases hnone.symm.trans hr
          · cases heq
            omega
        · cases h
      · next e =>
        split at h
        · cases h
        · next r hr =>
          split at h
          · next hgen =>
            cases h
            refine ⟨rfl, fun r' hr' => ?_, fun e he heq => ?_⟩
            · cases hr.symm.trans hr'
              simp only
              omega
            · cases heq
              exact ⟨r, hr, hgen⟩
          · cases h

theorem deleteMetadata_ok {db : MetaDb} {key : Bytes} {expected : Option Nat} {x : Bool × MetaDb}
    (h : db.deleteMetadata key expected = .ok x) :
    x = (false, db) ∧ db.fetchKv key = none ∨
    x = (true, { db with kvMetadata := db.kvMetadata.filter fun r => r.key ≠ key }) ∧
      ∃ r, db.fetchKv key = some r ∧ ∀ e, expected = some e → r.generation = e := by
  unfold deleteMetadata at h
  cases hkey : checkKey key with
  | error e => simp [hkey, bind, Except.bind] at h
  | ok u =>
    simp only [hkey, bind, Except.bind] at h
    split at h
    · next hnone =>
      cases h
      exact .inl ⟨rfl, hnone⟩
    · next r hr =>
      split at h
      · next hall =>
        cases h
        refine .inr ⟨rfl, r, hr, fun e he => ?_⟩
        simpa [he] using hall
      · cases h

/-! ## Roots -/

def HasRow (db : MetaDb) (r : SnapshotRef) : Prop :=
  (∃ n ∈ db.nodes, n.snapshotRef = r) ∨ ∃ p ∈ db.pins, p.snapshotRef = r

instance (db : MetaDb) (r : SnapshotRef) : Decidable (db.HasRow r) :=
  inferInstanceAs (Decidable ((∃ n ∈ db.nodes, n.snapshotRef = r) ∨
    ∃ p ∈ db.pins, p.snapshotRef = r))

theorem mem_gcRootRefs {db : MetaDb} {r : SnapshotRef} : r ∈ db.gcRootRefs ↔ db.HasRow r := by
  simp [gcRootRefs, HasRow]

end MetaDb

end SnapStore
