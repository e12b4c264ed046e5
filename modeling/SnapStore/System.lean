import SnapStore.Conc.Script
import SnapStore.Gc.Server

/-!
# The store as a machine

The calls a running store serves, the recovery it starts with, and what a process kill leaves.
-/

namespace SnapStore

open Disk Conc

variable [Primitives]

inductive Call where
  | ingest (pages : List Page)
  | rotate
  | sync
  | getBatch (hashes : List PageHash)
  | putSnapshot (container : Bytes)
  | createNode (p : CreateNodeParams)
  | pin (r : SnapshotRef) (note : Option String)
  | unpin (r : SnapshotRef)
  | prune (exp : ExperimentId) (id : NodeId) (allowRoot : Bool)
  | updateNodes (exp : ExperimentId) (updates : List NodeUpdate)
  | putInputLog (logId : LogId) (container : Bytes)
  | putMetadata (key value : Bytes) (expectedGeneration : Option Nat)
  | deleteMetadata (key : Bytes) (expectedGeneration : Option Nat)
  | reap (exp : ExperimentId) (id : NodeId)
  | gcCycle (go : GcOpts)
  | sweepPacks (so : SweepOpts) (live : LiveSet)

inductive Reply where
  | ingest (r : Except PageStoreError (List IngestOutcome))
  | rotate (r : Except PageStoreError PackId)
  | sync (r : Except PageStoreError Unit)
  | getBatch (r : Except PageStoreError PageStore.Results)
  | putSnapshot (r : Except PutError SnapshotRef)
  | createNode (r : Except RpcError NodeRow)
  | pin (r : Except RpcError Bool)
  | unpin (r : Except RpcError Bool)
  | prune (r : Except RpcError Nat)
  | updateNodes (r : Except RpcError Nat)
  | putInputLog (r : Except RpcError Bool)
  | putMetadata (r : Except RpcError Nat)
  | deleteMetadata (r : Except RpcError Bool)
  | reap (r : Except RpcError Nat)
  | gcCycle (r : Except GcError GcReport)
  | sweepPacks (r : Except StoreError MarkState)

def sweepCall (opts : StoreOptions) (so : SweepOpts) (t : Tid) (live : LiveSet) :
    SE MarkState := do
  let fence ← withError .pageStore (PageStore.activePackId t)
  change fun s => { s with ghost :=
    { s.ghost with cycle := s.ghost.cycle + 1, fence := fence } }
  Gc.sweepPacks opts so t fence (live, SweepReport.zero)

def Call.run (opts : StoreOptions) (t : Tid) : Call → P Reply
  | .ingest pages => do return .ingest (← (PageStore.ingest opts t pages).run)
  | .rotate => do return .rotate (← (PageStore.rotateActive opts t).run)
  | .sync => do return .sync (← (PageStore.sync t).run)
  | .getBatch hashes => do return .getBatch (← (PageStore.getBatch t hashes).run)
  | .putSnapshot c => do return .putSnapshot (← (SnapshotStore.putSnapshot t c).run)
  | .createNode p => do return .createNode (← (Server.createNode t p).run)
  | .pin r note => do return .pin (← (Server.pin t r note).run)
  | .unpin r => do return .unpin (← (Server.unpin r).run)
  | .prune exp id allowRoot => do return .prune (← (Server.prune exp id allowRoot).run)
  | .updateNodes exp updates => do
    return .updateNodes (← (Server.updateNodes exp updates).run)
  | .putInputLog logId container => do
    return .putInputLog (← (Server.putInputLog logId container).run)
  | .putMetadata key value expected => do
    return .putMetadata (← (Server.putMetadata key value expected).run)
  | .deleteMetadata key expected => do
    return .deleteMetadata (← (Server.deleteMetadata key expected).run)
  | .reap exp id => do
    return .reap (← (withError RpcError.db (metaWrite fun db _ => db.reapTombstone exp id)).run)
  | .gcCycle go => do return .gcCycle (← (Server.runGcCycle opts go t).run)
  | .sweepPacks so live => do return .sweepPacks (← (sweepCall opts so t live).run)

/-- Calls that collect garbage; two of them never run at the same time. -/
def Call.collects : Call → Bool
  | .gcCycle _ => true
  | .sweepPacks _ _ => true
  | _ => false

def World.restart (s : World) : World :=
  { s with
    index := ∅
    active := ⟨PackWriter.fresh 0 0 0, 0, [], false, 0⟩
    activeLock := none
    readCache := ⟨[], 0, 0⟩
    gate := ⟨[], none⟩
    epoch := none
    commit := ⟨0, 0, false⟩
    manifestsTotal := 0
    logicalPageBytes := 0
    actorCounter := 0
    ghost := { Ghost.initial with acked := s.ghost.acked } }

def World.kill (s : World) : World := s.restart

def World.empty : World where
  pages := .empty
  manifests := .empty
  index := ∅
  active := ⟨PackWriter.fresh 0 0 0, 0, [], false, 0⟩
  activeLock := none
  readCache := ⟨[], 0, 0⟩
  gate := ⟨[], none⟩
  epoch := none
  commit := ⟨0, 0, false⟩
  shardDirs := []
  durableRoot := false
  durableShards := []
  manifestsTotal := 0
  logicalPageBytes := 0
  db := MetaDb.empty
  actorCounter := 0
  ghost := Ghost.initial

/-- A store that serves the calls in `allowed`: concurrently, but with one collection at a time. -/
def concurrentStore (opts : StoreOptions) (allowed : Call → Prop) (crash : World → World → Prop) :
    Machine Oracle World where
  Call := { c : Call // allowed c }
  Reply := Reply
  body t c := c.1.run opts t
  boot := SnapshotStore.openStore opts
  overlap c d := ¬ (c.1.collects = true ∧ d.1.collects = true)
  crash := crash

def sequentialStore (opts : StoreOptions) (allowed : Call → Prop) (crash : World → World → Prop) :
    Machine Oracle World :=
  { concurrentStore opts allowed crash with overlap := fun _ _ => False }

instance (opts : StoreOptions) (allowed : Call → Prop) (crash : World → World → Prop) :
    DecidableRel (concurrentStore opts allowed crash).overlap :=
  fun c d => inferInstanceAs (Decidable (¬ (c.1.collects = true ∧ d.1.collects = true)))

instance (opts : StoreOptions) (allowed : Call → Prop) (crash : World → World → Prop) :
    DecidableRel (sequentialStore opts allowed crash).overlap :=
  fun _ _ => inferInstanceAs (Decidable False)

/-! ## A small instance

Functions that stand in for the hash functions, so that runs can be computed. -/

namespace Sample

@[reducible]
def primitives : Primitives where
  blake3 b := Digest.ofBytes (leBytes 8 b.length ++ b)
  crc32 b := b.foldl (fun sum x => sum + x.toUInt32) 0
  zstdDecodeAll _ := none

def options : StoreOptions := ⟨1000000, 4⟩

def quiet : Oracle := ⟨fun _ _ => none, 0, 0⟩

def page (b : UInt8) : Page := ⟨List.replicate pageSize b, List.length_replicate⟩

def full (hs : List PageHash) : Manifest where
  version := 1
  delta := false
  parent := none
  guestRamBytes := pageSize * hs.length
  entries := hs.zipIdx.map fun e => ⟨e.2, e.1⟩
  deviceBlob := ⟨0, false, [], 0⟩

attribute [local instance] primitives

def hash (b : UInt8) : PageHash := blake3 (page b).bytes

def container : Bytes := (full [hash 7]).encode

def ref : SnapshotRef := Manifest.snapshotRef container

def cycle : GcOpts := ⟨⟨fun _ _ => false, 10⟩, true, 0⟩

abbrev sharedStore : Machine Oracle World := concurrentStore options (fun _ => True) fun _ _ => False

instance : DecidableRel sharedStore.overlap :=
  inferInstanceAs (DecidableRel (concurrentStore _ _ _).overlap)

end Sample

end SnapStore
