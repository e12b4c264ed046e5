import SnapStore.Gc.Server
import SnapStore.Meta.Queries

/-!
# Server startup

`run_startup`: the version file, the database, the recovery of the store, the purge of manifest
files that fail the integrity check, and the reconciliation that marks a node `PRUNED` if its
manifest is missing.  The purge and the reconciliation log their errors and go on.
-/

namespace SnapStore

open Disk Conc SnapshotStore

inductive StartupError where
  | io (e : IoError)
  | versionMismatch (found : String)
  | metaIntegrity (e : MetaError)
  | metaOpen (e : MetaError)
  | storeOpen

abbrev StartupE := ExceptT StartupError P

namespace Startup

variable [Primitives]

def storeVersion : String := "1\n"

/-- The contents of `STORE_VERSION`, if the file exists; it is written otherwise. -/
def checkStoreVersion : Except IoError (Option String) → Except StartupError Unit
  | .error e => .error (.io e)
  | .ok none => .ok ()
  | .ok (some content) => if content ≠ storeVersion then .error (.versionMismatch content) else .ok ()

def openMeta : ExceptT MetaError P Unit := attempt fun o s =>
  match o.fault .db .openFile with
  | some _ => .error .sqlite
  | none => .ok ((), { s with actorCounter := s.db.rederiveCounter })

/-- `PRAGMA integrity_check` on a database that is intact. -/
def integrityCheck : ExceptT MetaError P Unit := metaRead fun _ => ()

def openSnapshotStore (opts : StoreOptions) : StartupE Unit := ExceptT.mk do
  return if ← openStore opts then .ok () else .error .storeOpen

/-! ## Purge -/

def checkSpmIntegrity (expectedRef : SnapshotRef) (bytes : Bytes) : Option String :=
  if bytes.length < 32 then some "file too short to contain footer" else
  let computed := blake3 (bytes.take (bytes.length - 32))
  if computed.bytes ≠ bytes.drop (bytes.length - 32) then some "blake3(body) != stored footer" else
  if computed ≠ expectedRef then some "computed hash != filename ref" else none

def purgeFile (r : SnapshotRef) : P Nat := do
  let violation ← Prog.atomic fun o s =>
    (match o.fault .manifest .read, s.manifests.readName (.spm r) with
      | none, some b => checkSpmIntegrity r b
      | _, _ => none, s)
  match violation with
  | none => return 0
  | some _ =>
    Prog.atomic fun o s =>
      match o.fault .manifest .unlink with
      | some _ => ((), s)
      | none => ((), { s with manifests := s.manifests.unlink (.spm r) })
    return 1

def purgeShard (shard : Nat) : P Nat := do
  let refs ← readShardDir shard
  refs.foldlM (fun n r => do return n + (← purgeFile r)) 0

def purgeBadFooterManifests : P Nat := do
  let shards ← readShardDirs
  shards.foldlM (fun n shard => do return n + (← purgeShard shard)) 0

/-! ## Reconciliation -/

def markPruned (id : NodeId) : NodeUpdate := ⟨id, some .pruned, none, none, 0, false, none, none⟩

def reconcileNode (exp : ExperimentId) (node : NodeRow) : P Nat :=
  if node.status = .pruned then return 0 else do
  if ← Prog.read fun s => hasManifest s node.snapshotRef then return 0 else
  let _ ← (metaWrite fun db counter =>
    db.updateNodes exp [markPruned node.nodeId] counter).run
  return 1

def pageFilter (exp : ExperimentId) (cursor : Option Nat) : QueryFilter :=
  { QueryFilter.new exp with createdAfter := cursor, limit := some 512 }

/-- The nodes of one experiment, page by page; the loop takes at most `fuel` turns. -/
def reconcilePages (exp : ExperimentId) : Nat → Option Nat → P Nat
  | 0, _ => Prog.stuck
  | fuel + 1, cursor => do
    match ← (metaRead fun db => db.queryNodes (pageFilter exp cursor)).run with
    | .error _ => return 0
    | .ok nodes =>
      match nodes.getLast? with
      | none => return 0
      | some last =>
        let n ← nodes.foldlM (fun n node => do return n + (← reconcileNode exp node)) 0
        if nodes.length < 512 then return n else
        return n + (← reconcilePages exp fuel (some last.createdAt))

/-- The source does not bound the loop over the pages; it takes fewer turns than there are nodes. -/
def reconcileExperiment (exp : ExperimentId) : P Nat := do
  reconcilePages exp (← Prog.read fun s => s.db.nodes.length + 1) none

def reconcileSnapshotRefs : P Nat := do
  match ← (metaRead MetaDb.listExperiments).run with
  | .error _ => return 0
  | .ok experiments =>
    experiments.foldlM (fun n exp => do return n + (← reconcileExperiment exp)) 0

def openAll (opts : StoreOptions) (version : Except IoError (Option String)) : StartupE Unit := do
  ofExcept id (checkStoreVersion version)
  withError .metaOpen openMeta
  withError .metaIntegrity integrityCheck
  openSnapshotStore opts

def runStartup (opts : StoreOptions) (version : Except IoError (Option String)) : StartupE Nat := do
  openAll opts version
  let purged ← liftM purgeBadFooterManifests
  let missing ← liftM reconcileSnapshotRefs
  return purged + missing

end Startup

end SnapStore
