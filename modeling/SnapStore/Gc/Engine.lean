import SnapStore.Store.SnapshotStore

/-!
# The garbage collector of the store

The mark walk over manifest chains, the sweep and compaction of sealed packs, and the sweep of
manifests.  The roots come from the caller.
-/

namespace SnapStore

open Disk Conc

variable [Primitives]

structure LiveSet where
  pages : List PageHash
  manifests : List SnapshotRef

structure SweepReport where
  pagesReclaimed : Nat
  bytesReclaimed : Nat
  packsCompacted : Nat
  packsDeleted : Nat
  manifestsDeleted : Nat
  missingRootManifests : Nat

def SweepReport.zero : SweepReport := ⟨0, 0, 0, 0, 0, 0⟩

/-- Options of the sweep.  `isHealthy live total` is the comparison of the `f64` quotient with
`compact_threshold`.  The source bounds neither the straggler loop of one pack nor the number of
manifest batches; a run takes finitely many turns, and `rounds` is a bound on them. -/
structure SweepOpts where
  isHealthy : Nat → Nat → Bool
  rounds : Nat

abbrev MarkState := LiveSet × SweepReport

namespace Gc

open SnapshotStore

/-! ## Mark -/

def LiveSet.mark (live : LiveSet) (r : SnapshotRef) (m : Manifest) : LiveSet :=
  ⟨(hashesOf m).foldl (fun ps h => ps.insert h) live.pages, live.manifests.insert r⟩

def noteDangling (isRoot : Bool) (r : SnapshotRef) (g : Ghost) : Ghost :=
  if isRoot then { g with dangling := r :: g.dangling } else g

/-- The read of one chain member; `none` is a root without a manifest. -/
def readForMark (isRoot : Bool) (r : SnapshotRef) : SE (Option Bytes) := ExceptT.mk do
  match ← (readManifestBytesNoting (noteDangling isRoot r) r).run with
  | .ok b => return .ok (some b)
  | .error e => if e = .notFound ∧ isRoot then return .ok none else return .error e

/-- Walk one chain; `fuel` counts down from `MAX_CHAIN`. -/
def markChain : Nat → Bool → SnapshotRef → MarkState → SE MarkState
  | 0, _, _, _ => throw .chainDepthExceeded
  | fuel + 1, isRoot, cursor, (live, report) =>
    if cursor ∈ live.manifests then return (live, report) else do
    match ← readForMark isRoot cursor with
    | none =>
      return (live, { report with missingRootManifests := report.missingRootManifests + 1 })
    | some bytes =>
      let m ← ofExcept .manifest (Manifest.decode bytes)
      let live := LiveSet.mark live cursor m
      if m.delta then
        match m.parent with
        | some p => markChain fuel false p (live, report)
        | none => throw (.pageStore .panicked)
      else return (live, report)

def mark (roots : List SnapshotRef) (st : MarkState) : SE MarkState :=
  roots.foldlM (fun st root => markChain maxChain true root st) st

/-! ## Copy -/

def readRecord (h : PageHash) (loc : PageLoc) : SE Bytes :=
  withError .pageStore (PageStore.readFromCachedHandle h loc)

def copyRecord (w : PageStore.GcPackWriter) (e : PageHash × PageLoc) :
    SE PageStore.GcPackWriter := do
  let payload ← readRecord e.1 e.2
  if h : payload.length = pageSize then withError .pageStore (w.append e.1 ⟨payload, h⟩)
  else throw (.missingPage e.1)

def copyRecords (opts : StoreOptions) (t : Tid) (records : List (PageHash × PageLoc)) :
    SE (List (PageHash × PageLoc)) := do
  let w ← withError .pageStore (PageStore.createGcPack opts t)
  let w ← records.foldlM copyRecord w
  let (pack, offsets) ← withError .pageStore w.sealAndPublish
  return offsets.map fun e => (e.1, ⟨pack, e.2⟩)

def copyIfAny (opts : StoreOptions) (t : Tid) (records : List (PageHash × PageLoc)) :
    SE (List (PageHash × PageLoc)) :=
  if records = [] then return [] else copyRecords opts t records

/-! ## Finalize -/

def repointIfInPack (p : PackId) (e : PageHash × PageLoc) : SE Unit :=
  change fun s => { s with index := s.index.repointIfInPack e.1 p e.2, ghost := s.ghost.swept }

def removeIfInPack (p : PackId) (h : PageHash) : SE Unit :=
  change fun s =>
    match s.index.get h with
    | some loc =>
      if loc.pack = p then
        { s with index := s.index.removeIfInPack h p, ghost := s.ghost.removed h }
      else s
    | none => s

/-- The irreversible steps, under the gate: repoint the copies, remove the dead entries. -/
def applyFinalize (p : PackId) (copied dead : List (PageHash × PageLoc)) (live : LiveSet) :
    SE Unit := do
  copied.foldlM (fun _ e => repointIfInPack p e) ()
  dead.foldlM (fun _ e => if e.1 ∈ live.pages then return () else removeIfInPack p e.1) ()

/-- Drain the late roots; without stragglers the pack is finalized under the same gate. -/
def drainOrFinalize (t : Tid) (p : PackId) (copied dead : List (PageHash × PageLoc))
    (live : LiveSet) : SE (List SnapshotRef) := withSweepGate t do
  let stragglers ← drainLateRoots
  if stragglers = [] then
    applyFinalize p copied dead live
    return []
  else return stragglers

def finalize (opts : StoreOptions) (t : Tid) (p : PackId) (dead : List (PageHash × PageLoc)) :
    Nat → List (PageHash × PageLoc) → MarkState → SE MarkState
  | 0, _, _ => ExceptT.mk Prog.stuck
  | rounds + 1, copied, (live, report) => do
    let stragglers ← drainOrFinalize t p copied dead live
    if stragglers = [] then return (live, report) else
    let (live, report) ← mark stragglers (live, report)
    let newlyLive := dead.filter fun e => e.1 ∈ live.pages ∧ ¬ copied.any fun c => c.1 = e.1
    let more ← copyIfAny opts t newlyLive
    finalize opts t p dead rounds (copied ++ more) (live, report)

def finalizeAndUnlink (opts : StoreOptions) (so : SweepOpts) (t : Tid) (p : PackId)
    (copied dead : List (PageHash × PageLoc)) (st : MarkState) : SE MarkState := do
  let st ← finalize opts t p dead so.rounds copied st
  withError .pageStore (PageStore.invalidate p)
  withError .pageStore (PageStore.deletePack t p)
  return st

/-! ## The pack sweep -/

def recordBytesLen : Nat := 37 + 4096

def sweepOnePack (opts : StoreOptions) (so : SweepOpts) (t : Tid) (st : MarkState) (p : PackId) :
    SE MarkState := do
  let entries ← withError .pageStore (PageStore.packEntries p)
  let total := (← withError .pageStore (PageStore.scanPack p)).length
  if total = 0 ∧ entries = [] then
    let (live, report) ← finalizeAndUnlink opts so t p [] [] st
    return (live, { report with packsDeleted := report.packsDeleted + 1 })
  else
  let liveRecs := entries.filter fun e => e.1 ∈ st.1.pages
  let deadRecs := entries.filter fun e => e.1 ∉ st.1.pages
  if so.isHealthy liveRecs.length total then return st else
  let copied ← copyIfAny opts t liveRecs
  let (live, report) ← finalizeAndUnlink opts so t p copied deadRecs st
  return (live, { report with
    packsCompacted := report.packsCompacted + (if copied = [] then 0 else 1)
    packsDeleted := report.packsDeleted + 1
    pagesReclaimed := report.pagesReclaimed +
      (deadRecs.length + (total - (copied.length + deadRecs.length)))
    bytesReclaimed := report.bytesReclaimed + (total - copied.length) * recordBytesLen })

def sweepPacks (opts : StoreOptions) (so : SweepOpts) (t : Tid) (fence : PackId) (st : MarkState) :
    SE MarkState := do
  let packs ← withError .pageStore (PageStore.sealedPackIds t)
  (packs.filter fun p => p < fence).foldlM (sweepOnePack opts so t) st

/-! ## The manifest sweep -/

def batchSize : Nat := 256

def deleteBatch (batch : List SnapshotRef) (st : MarkState) : SE MarkState :=
  batch.foldlM
    (fun (st : MarkState) r =>
      if r ∈ st.1.manifests then return st else do
      if ← deleteManifest r then
        return (st.1, { st.2 with manifestsDeleted := st.2.manifestsDeleted + 1 })
      else return st) st

def sweepBatch (t : Tid) (candidates : List SnapshotRef) (st : MarkState) :
    SE (List SnapshotRef × MarkState) := withSweepGate t do
  let stragglers ← drainLateRoots
  let st ← mark stragglers st
  let candidates :=
    if stragglers = [] then candidates else candidates.filter fun r => r ∉ st.1.manifests
  let st ← deleteBatch (candidates.take batchSize) st
  return (candidates.drop batchSize, st)

def sweepBatches (t : Tid) : Nat → List SnapshotRef → MarkState → SE MarkState
  | _, [], st => return st
  | 0, _ :: _, _ => ExceptT.mk Prog.stuck
  | rounds + 1, r :: rs, st => do
    let (rest, st) ← sweepBatch t (r :: rs) st
    sweepBatches t rounds rest st

def sweepManifests (so : SweepOpts) (t : Tid) (st : MarkState) : SE MarkState := do
  let refs ← listManifestRefs
  let st ← sweepBatches t so.rounds (refs.filter fun r => r ∉ st.1.manifests) st
  change fun s => { s with ghost := { s.ghost with sweeping := false } }
  return st

end Gc

end SnapStore
