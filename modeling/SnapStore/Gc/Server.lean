import SnapStore.Gc.Engine
import SnapStore.Meta.Moves

/-!
# The server's calls

The handlers that touch the store and the metadata database together: `CreateNode` and `Pin`
under the commit gate, `Unpin`, `PruneSubtree`, and the garbage-collection cycle.
-/

namespace SnapStore

open Disk Conc

/-! ## The writer actor -/

def metaRead {α : Type} (f : MetaDb → α) : ExceptT MetaError P α := observe fun o s =>
  match o.fault .db .read with
  | some _ => .error .sqlite
  | none => .ok (f s.db)

def afterCommand {α : Type} (f : MetaDb → Nat → Except MetaError (α × MetaDb)) (o : Oracle)
    (db : MetaDb) (counter : Nat) : MetaDb :=
  match o.fault .db .write, f db counter with
  | some _, _ => db
  | none, .ok (_, db') => { db' with logicalCounter := counter + 1 }
  | none, .error _ => { db with logicalCounter := counter + 1 }

/-- One command of the writer actor.  The reply is sent whether or not the `COMMIT` succeeds. -/
def metaWrite {α : Type} (f : MetaDb → Nat → Except MetaError (α × MetaDb)) :
    ExceptT MetaError P α := action fun o s =>
  ((f s.db s.actorCounter).map fun x => x.1, { s with
    db := afterCommand f o s.db s.actorCounter
    actorCounter := s.actorCounter + 1 })

def inputLogMaxBytes : Nat := 16 * 1024 * 1024

theorem settle_realizes {α : Type} (db : MetaDb) (value : α → CmdValue)
    (x : Except MetaError (α × MetaDb)) :
    (match db.settle value x with
      | (.ok _, db') => db'
      | (.error _, _) => db) =
      match x with
      | .ok (_, db') => db'
      | .error _ => db := by
  cases x <;> rfl

variable [Primitives]

section Realizes

variable {α : Type} {f : MetaDb → Nat → Except MetaError (α × MetaDb)} {cmd : ActorCmd}

def Realizes (f : MetaDb → Nat → Except MetaError (α × MetaDb)) (cmd : ActorCmd) : Prop :=
  ∀ db k, db.after inputLogMaxBytes cmd k =
    match f db k with
    | .ok (_, db') => db'
    | .error _ => db

theorem Realizes.hasRow {o : Oracle} {db : MetaDb} {k : Nat} {r : SnapshotRef} (h : Realizes f cmd)
    (hr : (afterCommand f o db k).HasRow r) : db.HasRow r ∨ cmd.root = some r := by
  have hafter : (db.after inputLogMaxBytes cmd k).HasRow r → db.HasRow r ∨ cmd.root = some r :=
    MetaDb.after_induction (P := fun db' => db'.HasRow r → db.HasRow r ∨ cmd.root = some r) .inl
      fun _ _ ih hm hnew => (hm.hasRow hnew).elim ih .inr
  rw [h] at hafter
  unfold afterCommand at hr
  split at hr
  · exact .inl hr
  · next heq =>
    rw [heq] at hafter
    exact hafter hr
  · exact .inl hr

end Realizes

theorem realizes_createNode (p : CreateNodeParams) :
    Realizes (fun db k => db.createNode p inputLogMaxBytes k) (.createNode p) := by
  intro db k
  show (match db.createNodeImpl p inputLogMaxBytes k with
    | (.ok _, db') => db'
    | (.error _, _) => db) = _
  unfold MetaDb.createNodeImpl MetaDb.createNode
  dsimp only [bind, Except.bind]
  cases db.nodeDepth p with
  | error e => rfl
  | ok depth =>
    dsimp only
    cases db.ensureInputLog p inputLogMaxBytes k with
    | error e => rfl
    | ok db₁ =>
      dsimp only
      cases db₁.fetchNode p.experimentId p.nodeId with
      | none => rfl
      | some existing =>
        dsimp only
        by_cases hsame : existing.parentNodeId = p.parentNodeId ∧
            existing.snapshotRef = p.snapshotRef ∧ existing.inputLogId = p.inputLogId
        · rw [if_pos hsame, if_pos hsame]
        · rw [if_neg hsame, if_neg hsame]

/-! ## Handlers -/

inductive RpcError where
  | store (e : StoreError)
  | db (e : MetaError)

namespace Server

/-- `CreateNode`: register and insert the row, holding the commit gate across both. -/
def createNode (t : Tid) (p : CreateNodeParams) : ExceptT RpcError P NodeRow := withCommitGate t do
  withError .store (SnapshotStore.registerLiveRef t p.snapshotRef)
  withError .db (metaWrite fun db counter => db.createNode p inputLogMaxBytes counter)

def pin (t : Tid) (r : SnapshotRef) (note : Option String) : ExceptT RpcError P Bool := do
  let already ← withError .db (metaRead fun db => db.pins.any fun p => p.snapshotRef = r)
  withCommitGate t do
    withError .store (SnapshotStore.registerLiveRef t r)
    withError .db (metaWrite fun db counter => .ok ((), db.pin r note counter))
  return !already

def unpin (r : SnapshotRef) : ExceptT RpcError P Bool :=
  withError .db (metaWrite fun db _ => .ok (db.unpin r))

def prune (exp : ExperimentId) (id : NodeId) (allowRoot : Bool) : ExceptT RpcError P Nat :=
  withError .db (metaWrite fun db counter => db.pruneSubtree exp id allowRoot counter)

def updateNodes (exp : ExperimentId) (updates : List NodeUpdate) : ExceptT RpcError P Nat :=
  withError .db (metaWrite fun db counter => db.updateNodes exp updates counter)

def putInputLog (logId : LogId) (container : Bytes) : ExceptT RpcError P Bool :=
  withError .db (metaWrite fun db counter =>
    db.putInputLog logId container inputLogMaxBytes counter)

def putMetadata (key value : Bytes) (expectedGeneration : Option Nat) : ExceptT RpcError P Nat :=
  withError .db (metaWrite fun db counter => db.putMetadata key value expectedGeneration counter)

def deleteMetadata (key : Bytes) (expectedGeneration : Option Nat) : ExceptT RpcError P Bool :=
  withError .db (metaWrite fun db _ => db.deleteMetadata key expectedGeneration)

end Server

/-! ## The garbage-collection cycle -/

structure GcOpts where
  sweep : SweepOpts
  rotateActiveFirst : Bool
  tombstoneGraceCycles : Nat

structure GcReport where
  nodesReaped : Nat
  reapedSubtrees : List (ExperimentId × NodeId)
  sweep : SweepReport

inductive GcError where
  | alreadyRunning
  | store (e : StoreError)
  | db (e : MetaError)

abbrev GE := ExceptT GcError P

namespace Server

def reapTombstones (ts : List TombstoneRow) : GE (Nat × List (ExperimentId × NodeId)) :=
  ts.foldlM
    (fun (acc : Nat × List (ExperimentId × NodeId)) t => do
      let n ← withError GcError.db
        (metaWrite fun db _ => db.reapTombstone t.experimentId t.nodeId)
      return (acc.1 + n, if 0 < n then acc.2 ++ [(t.experimentId, t.nodeId)] else acc.2))
    (0, [])

def beginGcEpoch (t : Tid) : GE (PackId × List SnapshotRef) := withSweepGate t do
  let fence ← withError (fun e => GcError.store (.pageStore e)) (PageStore.activePackId t)
  action fun _ s =>
    match s.epoch with
    | some _ => (.error .alreadyRunning, s)
    | none => (.ok (), { s with
        epoch := some []
        ghost := { s.ghost with dangling := [], cycle := s.ghost.cycle + 1, fence := fence } })
  ExceptT.mk do
    match ← (metaRead fun db => db.gcRootRefs).run with
    | .ok roots => return .ok (fence, roots)
    | .error e =>
      SnapshotStore.endGcEpoch
      return .error (.db e)

def collect (opts : StoreOptions) (so : SweepOpts) (t : Tid) (fence : PackId)
    (roots : List SnapshotRef) : SE SweepReport := do
  let st ← Gc.mark roots (⟨[], []⟩, SweepReport.zero)
  let st ← Gc.sweepPacks opts so t fence st
  let st ← Gc.sweepManifests so t st
  return st.2

def readFenceCounter : ExceptT MetaError P Nat := action fun o s =>
  match o.fault .db .read with
  | some _ => (.error .sqlite, s)
  | none => (.ok s.db.logicalCounter,
      { s with ghost := s.ghost.cycleFenced s.db.logicalCounter })

def cycleBody (opts : StoreOptions) (go : GcOpts) (t : Tid) (cyclesTotal : Nat) (fence : PackId)
    (roots : List SnapshotRef) : GE SweepReport := do
  let fenceCounter ← withError GcError.db readFenceCounter
  let sweep ← withError GcError.store (collect opts go.sweep t fence roots)
  let finished ← withError GcError.db (metaRead fun db => db.logicalCounter)
  withError GcError.db (metaWrite fun db _ => .ok ((), { db with
    gcState := ⟨cyclesTotal + 1, fenceCounter, finished, sweep.bytesReclaimed⟩ }))
  return sweep

def rotateFirst (opts : StoreOptions) (go : GcOpts) (t : Tid) : GE Unit :=
  if go.rotateActiveFirst then do
    let _ ← withError (fun e => GcError.store (.pageStore e)) (PageStore.rotateActive opts t)
  else return ()

def onRecord (body : GE GcReport) : GE GcReport := ExceptT.mk do
  Prog.update fun s => { s with ghost := s.ghost.cycleBegun s.actorCounter }
  let r ← body.run
  Prog.update fun s => { s with ghost := s.ghost.cycleEnded r.toOption.isSome }
  return r

/-- `run_gc_cycle`; the epoch ends on every exit path. -/
def runGcCycle (opts : StoreOptions) (go : GcOpts) (t : Tid) : GE GcReport := onRecord do
  let prior ← withError GcError.db (metaRead fun db => db.gcState)
  let tombstones ← withError GcError.db (metaRead fun db =>
    if go.tombstoneGraceCycles = 0 then db.listTombstones (2 ^ 64 - 1)
    else db.listTombstones prior.lastFenceCounter)
  let (nodesReaped, reapedSubtrees) ← reapTombstones tombstones
  rotateFirst opts go t
  let (fence, roots) ← beginGcEpoch t
  let sweep ← ExceptT.mk do
    let r ← (cycleBody opts go t prior.cyclesTotal fence roots).run
    SnapshotStore.endGcEpoch
    return r
  return ⟨nodesReaped, reapedSubtrees, sweep⟩

end Server

end SnapStore
