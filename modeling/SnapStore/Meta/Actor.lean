import SnapStore.Meta
import SnapStore.Sql.Connection

/-!
# The writer actor

One thread executes the commands in batches, each batch in one transaction and each command in a
savepoint.  `dispatchCmd` is a command at the level of its statements: what it wrote before it
failed stays until the actor rolls it back.
-/

namespace SnapStore

open Disk Sql

inductive ActorCmd where
  | createNode (p : CreateNodeParams)
  | updateNodes (exp : ExperimentId) (updates : List NodeUpdate)
  | putInputLog (logId : LogId) (container : Bytes)
  | putMetadata (key value : Bytes) (expectedGeneration : Option Nat)
  | deleteMetadata (key : Bytes) (expectedGeneration : Option Nat)
  | pin (r : SnapshotRef) (note : Option String)
  | unpin (r : SnapshotRef)
  | pruneSubtree (exp : ExperimentId) (id : NodeId) (allowRoot : Bool)
  | reapTombstone (exp : ExperimentId) (id : NodeId)
  | setGcState (state : GcStateRow)

inductive CmdValue where
  | nodeRow (row : NodeRow)
  | u64 (n : Nat)
  | bool (b : Bool)
  | unit
deriving DecidableEq

abbrev CmdResult := Except MetaError CmdValue

def CmdResult.isOk : CmdResult → Bool
  | .ok _ => true
  | .error _ => false

variable [Primitives]

namespace MetaDb

def settle {α : Type} (db : MetaDb) (value : α → CmdValue) :
    Except MetaError (α × MetaDb) → CmdResult × MetaDb
  | .ok (a, db') => (.ok (value a), db')
  | .error e => (.error e, db)

/-- The statements of `create_node`: the input log is inserted before the conflict is seen. -/
def createNodeImpl (db : MetaDb) (p : CreateNodeParams) (inputLogMaxBytes counter : Nat) :
    CmdResult × MetaDb :=
  match db.nodeDepth p with
  | .error e => (.error e, db)
  | .ok depth =>
    match db.ensureInputLog p inputLogMaxBytes counter with
    | .error e => (.error e, db)
    | .ok db' =>
      match db'.fetchNode p.experimentId p.nodeId with
      | some existing =>
        if existing.parentNodeId = p.parentNodeId ∧ existing.snapshotRef = p.snapshotRef ∧
            existing.inputLogId = p.inputLogId then
          (.ok (.nodeRow existing), db')
        else (.error .alreadyExists, db')
      | none =>
        (.ok (.nodeRow (newNode p depth counter)),
          { db' with nodes := newNode p depth counter :: db'.nodes })

/-- `dispatch_cmd`: the reply and what the statements of the command have written. -/
def dispatchCmd (inputLogMaxBytes : Nat) (db : MetaDb) (cmd : ActorCmd) (counter : Nat) :
    CmdResult × MetaDb :=
  match cmd with
  | .createNode p => db.createNodeImpl p inputLogMaxBytes counter
  | .updateNodes exp updates => db.settle .u64 (db.updateNodes exp updates counter)
  | .putInputLog logId container =>
    db.settle .bool (db.putInputLog logId container inputLogMaxBytes counter)
  | .putMetadata key value expected => db.settle .u64 (db.putMetadata key value expected counter)
  | .deleteMetadata key expected => db.settle .bool (db.deleteMetadata key expected)
  | .pin r note => (.ok .unit, db.pin r note counter)
  | .unpin r => (.ok (.bool (db.unpin r).1), (db.unpin r).2)
  | .pruneSubtree exp id allowRoot =>
    db.settle .u64 (db.pruneSubtree exp id allowRoot counter)
  | .reapTombstone exp id => db.settle .u64 (db.reapTombstone exp id)
  | .setGcState state => (.ok .unit, db.setGcState state)

/-- The database after a command on its own: a command that fails leaves it as it was. -/
def after (inputLogMaxBytes : Nat) (db : MetaDb) (cmd : ActorCmd) (counter : Nat) : MetaDb :=
  match db.dispatchCmd inputLogMaxBytes cmd counter with
  | (.ok _, db') => db'
  | (.error _, _) => db

end MetaDb

/-! ## Batches -/

/-- What SQLite does with the transaction statements of one batch: `false` is an error. -/
structure Outcomes where
  begin : Bool
  savepoint : Nat → Bool
  release : Nat → Bool
  rollbackTo : Nat → Bool
  commit : Bool

def Outcomes.good : Outcomes := ⟨true, fun _ => true, fun _ => true, fun _ => true, true⟩

structure BatchLoop where
  tx : Transaction MetaDb
  counter : Nat
  counterDirty : Bool
  replies : List CmdResult

/-- The transaction after the savepoint of a command is closed; errors are ignored. -/
def closeSavepoint (o : Outcomes) (i : Nat) (succeeded : Bool) (tx : Transaction MetaDb) :
    Transaction MetaDb :=
  let tx := if succeeded then tx else if o.rollbackTo i then tx.rollbackTo i else tx
  if o.release i then tx.release i else tx

def execCmd (inputLogMaxBytes : Nat) (o : Outcomes) (l : BatchLoop) (c : ActorCmd × Nat) :
    BatchLoop :=
  if o.savepoint c.2 then
    let tx := l.tx.savepoint c.2
    let (result, db) := tx.current.dispatchCmd inputLogMaxBytes c.1 l.counter
    { tx := closeSavepoint o c.2 result.isOk (tx.write db)
      counter := l.counter + 1
      counterDirty := true
      replies := l.replies ++ [result] }
  else { l with replies := l.replies ++ [.error (.io "savepoint creation failed")] }

structure WriterActor where
  db : MetaDb
  counter : Nat

def execCmds (inputLogMaxBytes : Nat) (o : Outcomes) (a : WriterActor) (batch : List ActorCmd) :
    BatchLoop :=
  batch.zipIdx.foldl (execCmd inputLogMaxBytes o) ⟨.begin a.db, a.counter, false, []⟩

/-- What `COMMIT` would make durable: the counter is flushed once per transaction. -/
def BatchLoop.flushed (l : BatchLoop) : MetaDb :=
  if l.counterDirty then { l.tx.current with logicalCounter := l.counter } else l.tx.current

/-- `execute_batch`.  The replies are sent whether or not the `COMMIT` succeeds. -/
def executeBatch (inputLogMaxBytes : Nat) (o : Outcomes) (a : WriterActor)
    (batch : List ActorCmd) : WriterActor × List CmdResult :=
  if o.begin then
    let l := execCmds inputLogMaxBytes o a batch
    (⟨if o.commit then l.flushed else a.db, l.counter⟩, l.replies)
  else (a, batch.map fun _ => .error (.io "BEGIN IMMEDIATE failed"))

/-- The batches `run` takes from the channel, one after the other; they are never empty. -/
inductive Drained (batchMax : Nat) : List ActorCmd → List (List ActorCmd) → Prop where
  | done : Drained batchMax [] []
  | batch (first : ActorCmd) (more rest : List ActorCmd) (bs : List (List ActorCmd))
      (hlen : more.length + 1 ≤ max batchMax 1) (h : Drained batchMax rest bs) :
      Drained batchMax (first :: (more ++ rest)) ((first :: more) :: bs)

/-- The actor over a sequence of batches in which no statement fails, with all replies. -/
def runBatches (inputLogMaxBytes : Nat) :
    WriterActor → List (List ActorCmd) → WriterActor × List CmdResult
  | a, [] => (a, [])
  | a, b :: bs =>
    let (a', replies) := executeBatch inputLogMaxBytes .good a b
    let (a'', rest) := runBatches inputLogMaxBytes a' bs
    (a'', replies ++ rest)

end SnapStore
