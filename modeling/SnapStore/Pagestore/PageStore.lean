import SnapStore.World

/-!
# The page store

`PageStore`: ingest with deduplication, batched reads, `sync`, rotation of the active pack, and
the surfaces the garbage collector uses.  Each file operation, index operation and lock operation
is one atomic action.
-/

namespace SnapStore

open Disk Conc

variable [Primitives]

structure IngestOutcome where
  hash : PageHash
  loc : PageLoc
  newlyWritten : Bool

namespace PageStore

def onWriter {α : Type} (f : Oracle → PackWriter → PagesFs → Except PackError α × PackWriter × PagesFs) :
    PE α :=
  action fun o s =>
    match f o s.active.writer s.pages with
    | (r, w, fs) =>
      (r.mapError .pack, { s with pages := fs, active := { s.active with writer := w } })

/-! ## Sidecars -/

def packEntries (p : PackId) : PE (List (PageHash × PageLoc)) :=
  (List.range shardCount).foldlM
    (fun out shard => do return out ++ (← look fun s => s.index.shardEntriesForPack shard p)) []

def openSidecarTmp (p : PackId) : ExceptT IoError P Ino := attempt fun o s =>
  match o.fault .sidecar .openFile with
  | some _ => .error .other
  | none =>
    .ok ((s.pages.openTruncate (.idxTmp p)).1,
      { s with pages := (s.pages.openTruncate (.idxTmp p)).2 })

def writeSidecarTmp (f : Ino) (bytes : Bytes) : ExceptT IoError P Unit := action fun o s =>
  match o.fault .sidecar .write with
  | some n => (.error .other, { s with pages := s.pages.write f 0 (bytes.take n) })
  | none => (.ok (), { s with pages := s.pages.write f 0 bytes })

def syncSidecarTmp (f : Ino) : ExceptT IoError P Unit := attempt fun o s =>
  match o.fault .sidecar .sync with
  | some _ => .error .other
  | none => .ok ((), { s with pages := s.pages.fdatasync f })

def renameSidecarTmp (p : PackId) : ExceptT IoError P Unit := attempt fun o s =>
  match o.fault .sidecar .rename, s.pages.lookup (.idxTmp p) with
  | some _, _ => .error .other
  | none, none => .error .notFound
  | none, some i => .ok ((), { s with pages := s.pages.rename (.idxTmp p) (.idx p) i })

def writeSidecarEntries (p : PackId) (es : List (PageHash × PageLoc)) : PE Unit :=
  withError (fun e => .index (.io e)) do
    let f ← openSidecarTmp p
    writeSidecarTmp f (encodeSidecar es)
    syncSidecarTmp f
    renameSidecarTmp p

/-! ## New packs -/

def createPackFile (id : PackId) : PE Ino :=
  attempt fun o s =>
    match o.fault .pack .create, s.pages.lookup (.spk id) with
    | some _, _ => .error (.pack (.io .other))
    | none, some _ => .error (.pack (.io .alreadyExists))
    | none, none => .ok (s.pages.nextIno, { s with
        pages := s.pages.create (.spk id)
        ghost := { s.ghost with files := (id, s.pages.nextIno) :: s.ghost.files } })

def writePackHeader (f : Ino) (id : PackId) : PE Unit :=
  action fun o s =>
    let header := packHeader id o.clock
    match o.fault .pack .write with
    | some n => (.error (.pack (.io .other)), { s with pages := s.pages.write f 0 (header.take n) })
    | none => (.ok (), { s with pages := s.pages.write f 0 header })

/-- Take the next id from the shared allocator, under the `active` lock.  The successor of the
last `u32` panics. -/
def allocPackId (note : PackId → Ghost → Ghost) : PE PackId := attempt fun _ s =>
  if s.active.nextPackId + 1 < 2 ^ 32 then
    .ok (s.active.nextPackId, { s with
      active := { s.active with nextPackId := s.active.nextPackId + 1 }
      ghost := note s.active.nextPackId s.ghost })
  else .error .panicked

/-! ## Rotation -/

def sealActiveNoSync : PE Unit := do
  if ← look fun s => s.active.writer.sealed then throw (.pack .sealed) else
  onWriter fun o w fs => w.flushBuf o fs
  onWriter fun o w fs =>
    match w.writeFooter o fs with
    | (.ok (), w', fs') => (.ok (), { w' with sealed := true }, fs')
    | (.error e, w', fs') => (.error e, w', fs')

/-- Seal the active pack and open a fresh one.  The caller holds the `active` lock. -/
def rotateLocked (opts : StoreOptions) : PE PackId := do
  let old ← look fun s => s.active.packId
  change fun s => { s with active :=
    { s.active with dirtySinceSync := s.active.dirtySinceSync.insert s.active.packId } }
  sealActiveNoSync
  let es ← packEntries old
  writeSidecarEntries old es
  let new ← allocPackId fun new g => { g with rotating := some new }
  let f ← createPackFile new
  writePackHeader f new
  change fun s => { s with
    active := { s.active with
      writer := PackWriter.fresh f new opts.maxPackBytes
      packId := new
      newFilesSinceSync := true }
    ghost := { s.ghost with rotating := none } }
  return new

/-- Seal the active pack unless it is empty and already the highest id. -/
def rotateActive (opts : StoreOptions) (t : Tid) : PE PackId := withActive t do
  let a ← look fun s => s.active
  if a.writer.recordCount = 0 ∧ a.packId + 1 = a.nextPackId then return a.packId
  else rotateLocked opts

/-! ## Ingest -/

def batchDedup (hashes : List PageHash) : List (PageHash × Nat) :=
  (hashes.zipIdx.foldl
    (fun m e => if m.any fun x => x.1 = e.1 then m else m ++ [e]) [])

def indexPage (h : PageHash) (offset : Nat) : PE PageLoc := action fun _ s =>
  (.ok ⟨s.active.packId, offset⟩, { s with
    active := { s.active with
      dirtySinceSync := s.active.dirtySinceSync.insert s.active.packId }
    index := s.index.insert h ⟨s.active.packId, offset⟩
    ghost := { s.ghost with fresh := h :: s.ghost.fresh } })

def writePage (h : PageHash) (page : Page) : PE PageLoc := do
  indexPage h (← onWriter fun o w fs => w.append o fs h page)

def writeEntry (pages : List Page) (outcomes : List (Option IngestOutcome)) (e : PageHash × Nat) :
    PE (List (Option IngestOutcome)) :=
  match pages[e.2]? with
  | none => throw .panicked
  | some page => do
    let loc ← writePage e.1 page
    return outcomes.set e.2 (some ⟨e.1, loc, true⟩)

def ingestOne (opts : StoreOptions) (pages : List Page)
    (outcomes : List (Option IngestOutcome)) (e : PageHash × Nat) :
    PE (List (Option IngestOutcome)) := do
  match ← look fun s => s.index.get e.1 with
  | some loc => return outcomes.set e.2 (some ⟨e.1, loc, false⟩)
  | none =>
    if ← look fun s => s.active.writer.wouldExceedCap then let _ ← rotateLocked opts
    writeEntry pages outcomes e

def probe (acc : List (Option IngestOutcome) × List (PageHash × Nat)) (e : PageHash × Nat) :
    PE (List (Option IngestOutcome) × List (PageHash × Nat)) := do
  match ← look fun s => s.index.get e.1 with
  | some loc => return (acc.1.set e.2 (some ⟨e.1, loc, false⟩), acc.2)
  | none => return (acc.1, acc.2 ++ [e])

def writeMissing (opts : StoreOptions) (t : Tid) (pages : List Page)
    (outcomes : List (Option IngestOutcome)) (toWrite : List (PageHash × Nat)) :
    PE (List (Option IngestOutcome)) :=
  if toWrite = [] then return outcomes
  else withActive t (toWrite.foldlM (ingestOne opts pages) outcomes)

def fillOutcome (out : List IngestOutcome) (e : PageHash × Option IngestOutcome) :
    PE (List IngestOutcome) := do
  match e.2 with
  | some oc => return out ++ [oc]
  | none =>
    match ← look fun s => s.index.get e.1 with
    | some loc => return out ++ [⟨e.1, loc, false⟩]
    | none => throw .panicked

def ingest (opts : StoreOptions) (t : Tid) (pages : List Page) : PE (List IngestOutcome) :=
  if pages = [] then return [] else do
  let hashes := pages.map fun p => blake3 p.bytes
  let order ← observe fun o _ => .ok (o.walk (batchDedup hashes))
  let found ← order.foldlM probe (List.replicate pages.length none, [])
  let outcomes ← writeMissing opts t pages found.1 found.2
  (hashes.zip outcomes).foldlM fillOutcome []

/-! ## Read handles -/

def cacheGet (c : ReadHandleCache) (p : PackId) : Option Ino × ReadHandleCache :=
  ((c.entries.find? fun e => e.1 = p).map fun e => e.2.1,
    { c with
      generation := c.generation + 1
      entries := c.entries.map fun e => if e.1 = p then (p, e.2.1, c.generation + 1) else e })

def cacheVictim (c : ReadHandleCache) : Option PackId :=
  (c.entries.foldl
    (fun (best : Option (PackId × Nat)) e =>
      match best with
      | none => some (e.1, e.2.2)
      | some b => if e.2.2 < b.2 then some (e.1, e.2.2) else some b) none).map fun b => b.1

/-- Insert a handle, evicting the least recent one at capacity; a handle that is there stays. -/
def cacheInsert (c : ReadHandleCache) (p : PackId) (f : Ino) : ReadHandleCache :=
  if c.entries.any fun e => e.1 = p then (cacheGet c p).2 else
  let kept := if c.capacity ≤ c.entries.length then
      match cacheVictim c with
      | some v => c.entries.filter fun e => e.1 ≠ v
      | none => c.entries
    else c.entries
  { c with generation := c.generation + 1, entries := (p, f, c.generation + 1) :: kept }

def cacheRemove (c : ReadHandleCache) (p : PackId) : ReadHandleCache :=
  { c with entries := c.entries.filter fun e => e.1 ≠ p }

def cachedHandle (p : PackId) : ExceptT PackError P (Option Ino) := action fun _ s =>
  (.ok (cacheGet s.readCache p).1, { s with readCache := (cacheGet s.readCache p).2 })

def openSealedFast (p : PackId) : ExceptT PackError P Ino := observe fun o s =>
  match o.fault .pack .openFile, s.pages.lookup (.spk p) with
  | some _, _ => .error (.io .other)
  | none, none => .error (.io .notFound)
  | none, some i => (PackReader.openSealedFast (s.pages.content i)).map fun _ => i

def getOrOpen (p : PackId) : ExceptT PackError P Ino := do
  match ← cachedHandle p with
  | some f => return f
  | none =>
    let f ← openSealedFast p
    change fun s => { s with readCache := cacheInsert s.readCache p f }
    return f

def invalidate (p : PackId) : PE Unit :=
  change fun s => { s with readCache := cacheRemove s.readCache p }

def readAtHandle (f : Ino) (loc : PageLoc) (hash : PageHash) : PE Bytes :=
  observe fun o s =>
    match o.fault .pack .read with
    | some _ => .error (.pack (.truncatedRecord loc.offset))
    | none => (PackReader.readAtFromFile (s.pages.content f) loc.offset hash).mapError .pack

def readFromCachedHandle (hash : PageHash) (loc : PageLoc) : PE Bytes := do
  let f ← ExceptT.mk do
    match ← (getOrOpen loc.pack).run with
    | .ok f => return .ok f
    | .error (.io e) => return .error (.io e)
    | .error e => return .error (.pack e)
  readAtHandle f loc hash

/-- An error that `read_sealed_with_retry` takes for a pack that was unlinked. -/
def isNotFound : PageStoreError → Bool
  | .io .notFound => true
  | .pack (.io .notFound) => true
  | _ => false

/-- Read from a sealed pack, with one retry if the pack file is not found. -/
def readSealedWithRetry (hash : PageHash) (loc : PageLoc) : PE (Option Bytes) := ExceptT.mk do
  match ← (readFromCachedHandle hash loc).run with
  | .ok data => return .ok (some data)
  | .error e =>
    if isNotFound e then
      (do
        invalidate loc.pack
        match ← look fun s => s.index.get hash with
        | none => return none
        | some newLoc =>
          if newLoc = loc then throw (.io .notFound)
          else return some (← readFromCachedHandle hash newLoc) : PE (Option Bytes)).run
    else return .error e

/-! ## Batched reads -/

abbrev Lookup := Nat × PageHash × PageLoc

abbrev Results := List (Option Bytes)

def sortLookups (ls : List Lookup) : List Lookup :=
  ls.insertionSort fun a b =>
    a.2.2.pack < b.2.2.pack ∨ a.2.2.pack = b.2.2.pack ∧ a.2.2.offset ≤ b.2.2.offset

def packGroups (ls : List Lookup) : List (List Lookup) :=
  ls.splitBy fun a b => a.2.2.pack = b.2.2.pack

def readGroup (results : Results) (group : List Lookup) : PE Results :=
  match group with
  | [] => return results
  | first :: _ => ExceptT.mk do
    match ← (getOrOpen first.2.2.pack).run with
    | .ok f =>
      (group.foldlM (fun results l => do
        return results.set l.1 (some (← readAtHandle f l.2.2 l.2.1))) results : PE Results).run
    | .error _ =>
      (group.foldlM (fun results l => do
        return results.set l.1 (← readSealedWithRetry l.2.1 l.2.2)) results : PE Results).run

def readOwn (results : Results) (l : Lookup) : PE Results := do
  let f ← look fun s => s.active.writer.file
  return results.set l.1 (some (← readAtHandle f l.2.2 l.2.1))

/-- The reads of the active pack, under its lock; entries whose pack was rotated away meanwhile
are returned for the sealed path. -/
def readActive (t : Tid) (results : Results) (lookups : List Lookup) :
    PE (Results × List Lookup) := withActive t do
  let current ← look fun s => s.active.packId
  let here := lookups.filter fun l => l.2.2.pack = current
  let rerouted := lookups.filter fun l => l.2.2.pack ≠ current
  if here = [] then return (results, rerouted) else
  onWriter fun o w fs => w.flushBuf o fs
  return (← here.foldlM readOwn results, rerouted)

def asBatchRead {α : Type} (t : Tid) (hashes : List PageHash) (body : PE α) : PE α := ExceptT.mk do
  Prog.update fun s => { s with ghost := { s.ghost with reads :=
    ⟨t, hashes, hashes.filter fun h => (s.index.get h).isSome, none⟩ :: s.ghost.reads } }
  let r ← body.run
  Prog.update fun s => { s with ghost := { s.ghost with
    reads := s.ghost.reads.filter fun b => b.tid ≠ t } }
  return r

def getBatch (t : Tid) (hashes : List PageHash) : PE Results :=
  if hashes = [] then return [] else asBatchRead t hashes do
  let lookups ← hashes.zipIdx.foldlM
    (fun (ls : List Lookup) e => do
      match ← look fun s => s.index.get e.1 with
      | some loc => return ls ++ [(e.2, e.1, loc)]
      | none => return ls) []
  let results : Results := List.replicate hashes.length none
  if lookups = [] then return results else
  let activeId ← withActive t (look fun s => s.active.packId)
  let activeLookups := sortLookups (lookups.filter fun l => l.2.2.pack = activeId)
  let sealedLookups := sortLookups (lookups.filter fun l => l.2.2.pack ≠ activeId)
  let results ← (packGroups sealedLookups).foldlM readGroup results
  if activeLookups = [] then return results else
  let (results, rerouted) ← readActive t results activeLookups
  rerouted.foldlM (fun results l => do
    return results.set l.1 (← readSealedWithRetry l.2.1 l.2.2)) results

def get (t : Tid) (hash : PageHash) : PE (Option Bytes) := do
  return (← getBatch t [hash]).headD none

/-! ## sync -/

def openPackFile (p : PackId) : PE Ino := observe fun o s =>
  match o.fault .pack .openFile, s.pages.lookup (.spk p) with
  | some _, _ => .error (.io .other)
  | none, none => .error (.io .notFound)
  | none, some i => .ok i

def syncPackFile (p : PackId) (f : Ino) : PE Unit := attempt fun o s =>
  match o.fault .pack .sync with
  | some _ => .error (.io .other)
  | none => .ok ((), { s with
      pages := s.pages.fdatasync f
      ghost := { s.ghost with inflight := s.ghost.inflight.filter (· ≠ p) } })

def fdatasyncPack (p : PackId) : PE Unit := do
  syncPackFile p (← openPackFile p)

def takeDirty : PE (List PackId) := action fun o s =>
  let dirty := s.active.dirtySinceSync.insert s.active.packId
  (.ok (o.walk dirty), { s with
    active := { s.active with dirtySinceSync := [] }
    ghost := { s.ghost with inflight := dirty } })

def fsyncNewFiles : PE Unit := attempt fun o s =>
  match o.fault .pagesDir .openFile, o.fault .pagesDir .sync with
  | none, none => .ok ((), { s with
      pages := s.pages.fsyncDir fun _ => true
      active := { s.active with newFilesSinceSync := false } })
  | _, _ => .error (.io .other)

/-- The directory is synced if packs were created since the last `sync`. -/
def syncNewFiles : PE Unit := do
  if ← look fun s => s.active.newFilesSinceSync then fsyncNewFiles else return ()

def sync (t : Tid) : PE Unit := withActive t do
  onWriter fun o w fs => w.flushBuf o fs
  let dirty ← takeDirty
  dirty.foldlM (fun _ p => fdatasyncPack p) ()
  syncNewFiles
  change fun s => { s with ghost := { s.ghost with
    acked := s.ghost.fresh ++ s.ghost.acked
    covered := s.commit.pendingGen } }

/-! ## Surfaces for the garbage collector -/

def discoverPacks : PE (List PackId) :=
  observe fun o s =>
    match o.fault .pagesDir .list with
    | some _ => .error (.io .other)
    | none =>
      .ok ((s.pages.names.filterMap fun
        | .spk id => some id
        | _ => none).insertionSort (· ≤ ·))

def activePackId (t : Tid) : PE PackId := withActive t (look fun s => s.active.packId)

def sealedPackIds (t : Tid) : PE (List PackId) := do
  let activeId ← activePackId t
  return (← discoverPacks).filter fun id => id ≠ activeId

def scanPack (p : PackId) : PE (List (Nat × PageHash)) :=
  observe fun o s =>
    match o.fault .pack .openFile, s.pages.readName (.spk p) with
    | some _, _ => .error (.pack (.io .other))
    | none, none => .error (.pack (.io .notFound))
    | none, some b => (do PackReader.scan b (← PackReader.openSealed b)).mapError .pack

structure GcPackWriter where
  writer : PackWriter
  packId : PackId
  /-- Records appended so far: (hash, offset). -/
  entries : List (PageHash × Nat)

def createGcPack (opts : StoreOptions) (t : Tid) : PE GcPackWriter := do
  let id ← withActive t (allocPackId fun id g => { g with gcPacks := id :: g.gcPacks })
  let f ← createPackFile id
  writePackHeader f id
  return ⟨PackWriter.fresh f id opts.maxPackBytes, id, []⟩

def withWriter {α : Type} (w : PackWriter)
    (f : Oracle → PackWriter → PagesFs → Except PackError α × PackWriter × PagesFs) :
    PE (α × PackWriter) :=
  action fun o s =>
    match f o w s.pages with
    | (.ok a, w', fs) => (.ok (a, w'), { s with pages := fs })
    | (.error e, _, fs) => (.error (.pack e), { s with pages := fs })

def GcPackWriter.append (w : GcPackWriter) (hash : PageHash) (payload : Page) : PE GcPackWriter := do
  let (offset, w') ← withWriter w.writer fun o w fs => w.append o fs hash payload
  return ⟨w', w.packId, w.entries ++ [(hash, offset)]⟩

def fdatasyncFile (f : Ino) : PE Unit :=
  attempt fun o s =>
    match o.fault .pack .sync with
    | some _ => .error (.pack (.io .other))
    | none => .ok ((), { s with pages := s.pages.fdatasync f })

def sealWriter (w : PackWriter) : PE PackWriter :=
  if w.sealed then throw (.pack .sealed) else do
  let (_, w) ← withWriter w fun o w fs => w.flushBuf o fs
  fdatasyncFile w.file
  let (_, w) ← withWriter w fun o w fs => w.writeFooter o fs
  fdatasyncFile w.file
  return { w with sealed := true }

def GcPackWriter.sealAndPublish (w : GcPackWriter) : PE (PackId × List (PageHash × Nat)) := do
  let _ ← sealWriter w.writer
  writeSidecarEntries w.packId (w.entries.map fun e => (e.1, ⟨w.packId, e.2⟩))
  return (w.packId, w.entries)

def removeFileIfExists (area : Area) (name : PageFile) : PE Unit :=
  attempt fun o s =>
    match o.fault area .unlink, s.pages.lookup name with
    | some _, _ => .error (.io .other)
    | none, none => .ok ((), s)
    | none, some _ =>
      .ok ((), { s with pages := s.pages.unlink name, ghost := s.ghost.unlinked name })

def fsyncPagesDir : PE Unit := attempt fun o s =>
  match o.fault .pagesDir .openFile, o.fault .pagesDir .sync with
  | none, none => .ok ((), { s with pages := s.pages.fsyncDir fun _ => true })
  | _, _ => .error (.io .other)

/-- Unlink a sealed pack: first the sidecar, then the pack, then fsync the directory. -/
def deletePack (t : Tid) (p : PackId) : PE Unit := do
  withActive t (change fun s => { s with active :=
    { s.active with dirtySinceSync := s.active.dirtySinceSync.erase p } })
  removeFileIfExists .sidecar (.idx p)
  removeFileIfExists .pack (.spk p)
  fsyncPagesDir

end PageStore

end SnapStore
