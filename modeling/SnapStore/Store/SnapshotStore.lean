import SnapStore.Pagestore.Open
import SnapStore.Manifest.Flatten

/-!
# The snapshot store

`SnapshotStore`: the group-commit barrier, `put_snapshot`, the registration of live references
under the commit gate, the epoch of a garbage collection, manifest deletion, and `open`.
-/

namespace SnapStore

open Disk Conc

variable [Primitives]

inductive StoreError where
  | io (e : IoError)
  | pageStore (e : PageStoreError)
  | manifest (e : ManifestError)
  | notFound
  | manifestCorrupt
  | missingPage (h : PageHash)
  | chainDepthExceeded
  | baselineNotAncestor
  | flatten (e : FlattenError)
deriving DecidableEq

inductive PutError where
  | manifest (e : ManifestError)
  | unknownParent (r : SnapshotRef)
  | parentRamMismatch
  | missingPages (hs : List PageHash)
  | io (e : IoError)
  | pageStore (e : PageStoreError)
deriving DecidableEq

abbrev SE := ExceptT StoreError P

abbrev PutE := ExceptT PutError P

namespace SnapshotStore

/-! ## Group commit -/

/-- Wait until a sync that started after this call has completed; run it if nobody else does. -/
def barrier (t : Tid) (hashes : List PageHash) (sync : PE Unit) : PE Unit := do
  let myGen ← action fun _ s =>
    let gen := s.commit.pendingGen + 1
    (.ok gen, { s with
      commit := { s.commit with pendingGen := gen }
      ghost := { s.ghost with demand := (t, gen, hashes) :: s.ghost.demand } })
  -- The condition variable: the thread sleeps while another one is flushing.
  let upTo ← ExceptT.mk <| Prog.await fun _ s =>
    if myGen ≤ s.commit.completedGen then some (.ok none, s)
    else if s.commit.flushing then none
    else some (.ok (some s.commit.pendingGen), { s with
      commit := { s.commit with flushing := true }
      ghost := { s.ghost with flusher := some t } })
  match upTo with
  | none => return ()
  | some flushingUpTo => ExceptT.mk do
    let result ← sync.run
    Prog.update fun s => { s with
      commit := { s.commit with
        completedGen :=
          match result with
          | .ok _ => max flushingUpTo s.commit.completedGen
          | .error _ => s.commit.completedGen
        flushing := false }
      ghost := { s.ghost with flusher := none } }
    return result

/-! ## Manifests on disk -/

def hasManifest (s : World) (r : SnapshotRef) : Bool := (s.manifests.lookup (.spm r)).isSome

/-- The checks of `read_manifest_bytes` on the bytes of the file. -/
def verifyManifest (r : SnapshotRef) (bytes : Bytes) : Except StoreError Bytes :=
  if bytes.length < 32 then .error .manifestCorrupt else
  if bytes.drop (bytes.length - 32) ≠ r.bytes then .error .manifestCorrupt else
  if Manifest.snapshotRef bytes ≠ r then .error .manifestCorrupt else .ok bytes

theorem verifyManifest_ok {r : SnapshotRef} {b b' : Bytes} (h : verifyManifest r b = .ok b') :
    Manifest.snapshotRef b = r ∧ b = b' := by
  unfold verifyManifest at h
  split at h
  · cases h
  · split at h
    · cases h
    · split at h
      · cases h
      · next hne =>
        cases h
        exact ⟨not_not.mp hne, rfl⟩

theorem verifyManifest_error {r : SnapshotRef} {b : Bytes} {e : StoreError}
    (h : verifyManifest r b = .error e) : e = .manifestCorrupt := by
  unfold verifyManifest at h
  split at h
  · cases h; rfl
  · split at h
    · cases h; rfl
    · split at h
      · cases h; rfl
      · cases h

theorem verifyManifest_of_decode {b : Bytes} {m : Manifest} (h : Manifest.decode b = .ok m) :
    verifyManifest (Manifest.snapshotRef b) b = .ok b := by
  obtain ⟨hlen, hfooter⟩ := Manifest.decode_footer h
  rw [Manifest.footerLen] at hlen hfooter
  unfold verifyManifest
  rw [if_neg (Nat.not_lt.mpr hlen), if_neg (not_not.mpr hfooter), if_neg (not_not.mpr rfl)]

/-- Read and verify the stored manifest file for `r`; `missing` records that there is none. -/
def readManifestBytesNoting (missing : Ghost → Ghost) (r : SnapshotRef) : SE Bytes := do
  let present ← action fun _ s =>
    if hasManifest s r then (.ok true, s) else (.ok false, { s with ghost := missing s.ghost })
  if !present then throw .notFound else
  let bytes ← observe fun o s =>
    match o.fault .manifest .read, s.manifests.readName (.spm r) with
    | some _, _ => .error (.io .other)
    | none, none => .error (.io .notFound)
    | none, some b => .ok b
  ofExcept id (verifyManifest r bytes)

def readManifestBytes (r : SnapshotRef) : SE Bytes := readManifestBytesNoting id r

def readManifest (r : SnapshotRef) : SE Manifest := do
  let bytes ← readManifestBytes r
  ofExcept .manifest (Manifest.decode bytes)

def containsBatch {E : Type} (hashes : List PageHash) : ExceptT E P (List Bool) :=
  hashes.foldlM
    (fun out h => do return out ++ [← look fun s => (s.index.get h).isSome]) []

def hashesOf (m : Manifest) : List PageHash := m.entries.map (·.pageHash)

def missingOf (hashes : List PageHash) (present : List Bool) : List PageHash :=
  ((hashes.zip present).filter fun e => !e.2).map fun e => e.1

/-! ## Registration -/

def maxChain : Nat := 4096

/-- Walk a manifest chain and check that every manifest decodes and every page is present. -/
def validateClosure : Nat → SnapshotRef → SE Unit
  | 0, _ => throw .chainDepthExceeded
  | fuel + 1, cursor => do
    let m ← readManifest cursor
    let present ← containsBatch (hashesOf m)
    match missingOf (hashesOf m) present with
    | h :: _ => throw (.missingPage h)
    | [] =>
      if m.delta then
        match m.parent with
        | some p => validateClosure fuel p
        | none => throw (.pageStore .panicked)
      else return ()

/-- The check of a reference: its closure during an epoch, its existence otherwise. -/
def checkLiveRef (epochActive : Bool) (r : SnapshotRef) : SE Unit :=
  if epochActive then validateClosure maxChain r else do
  if ← look fun s => hasManifest s r then return () else throw .notFound

def pushLateRoot (t : Tid) (r : SnapshotRef) : SE Bool := action fun _ s =>
  let ghost := { s.ghost with
    publishing := s.ghost.publishing.filter (· ≠ (t, r))
    dangling := s.ghost.dangling.filter (· ≠ r) }
  match s.epoch with
  | some late => (.ok true, { s with epoch := some (late ++ [r]), ghost := ghost })
  | none => (.ok false, { s with ghost := ghost })

def registerLiveRef (t : Tid) (r : SnapshotRef) : SE Unit := do
  let epochActive ← pushLateRoot t r
  checkLiveRef epochActive r
  change fun s => { s with ghost := { s.ghost with registered := r :: s.ghost.registered } }

/-! ## put_snapshot -/

def registerError (r : SnapshotRef) : StoreError → PutError
  | .missingPage h => .missingPages [h]
  | .notFound => .unknownParent r
  | _ => .io .other

def checkParent (m : Manifest) : PutE Unit :=
  if m.delta then
    match m.parent with
    | none => throw (.pageStore .panicked)
    | some p => do
      let bytes ← withError (fun e => match e with
        | .notFound => PutError.unknownParent p
        | _ => .io .other) (readManifestBytes p)
      let pm ← ofExcept .manifest (Manifest.decode bytes)
      if pm.guestRamBytes ≠ m.guestRamBytes then throw .parentRamMismatch else return ()
  else return ()

def shardOf (r : SnapshotRef) : Nat := shardFor r

def makeShardDir (r : SnapshotRef) : ExceptT IoError P Unit := attempt fun o s =>
  match o.fault .manifestDir .create with
  | some _ => .error .other
  | none => .ok ((), { s with shardDirs := s.shardDirs.insert (shardOf r) })

def openStaging (r : SnapshotRef) : ExceptT IoError P Ino := attempt fun o s =>
  match o.fault .manifest .openFile with
  | some _ => .error .other
  | none =>
    .ok ((s.manifests.openTruncate (.tmp r)).1,
      { s with manifests := (s.manifests.openTruncate (.tmp r)).2 })

def writeStaging (f : Ino) (container : Bytes) : ExceptT IoError P Unit := action fun o s =>
  match o.fault .manifest .write with
  | some n => (.error .other, { s with manifests := s.manifests.write f 0 (container.take n) })
  | none => (.ok (), { s with manifests := s.manifests.write f 0 container })

def syncStaging (f : Ino) : ExceptT IoError P Unit := attempt fun o s =>
  match o.fault .manifest .sync with
  | some _ => .error .other
  | none => .ok ((), { s with manifests := s.manifests.fdatasync f })

def renameStaging (t : Tid) (r : SnapshotRef) : ExceptT IoError P Unit := attempt fun o s =>
  match o.fault .manifest .rename, s.manifests.lookup (.tmp r) with
  | some _, _ => .error .other
  | none, none => .error .notFound
  | none, some i => .ok ((), { s with
      manifests := s.manifests.rename (.tmp r) (.spm r) i
      ghost := { s.ghost with publishing := (t, r) :: s.ghost.publishing } })

def fsyncShardDir (r : SnapshotRef) : ExceptT IoError P Unit := attempt fun o s =>
  match o.fault .manifestDir .sync with
  | some _ => .error .other
  | none => .ok ((), { s with manifests := s.manifests.fsyncDir fun n =>
      match n with
      | .spm r' => shardOf r' = shardOf r
      | .tmp _ => false })

/-- Staging file, `fsync`, rename, `fsync` of the shard directory. -/
def publish (t : Tid) (r : SnapshotRef) (container : Bytes) : ExceptT IoError P Unit := do
  makeShardDir r
  let f ← openStaging r
  writeStaging f container
  syncStaging f
  renameStaging t r
  fsyncShardDir r

/-- Store the manifest unless it is there, and register it. -/
def commit (t : Tid) (container : Bytes) (m : Manifest) : PutE SnapshotRef := do
  let r := Manifest.snapshotRef container
  if ← look fun s => hasManifest s r then
    withError (registerError r) (registerLiveRef t r)
    return r
  else
    withError .io (publish t r container)
    change fun s => { s with
      manifestsTotal := s.manifestsTotal + 1
      logicalPageBytes := s.logicalPageBytes + UInt64.ofNat m.guestRamBytes
      ghost := { s.ghost with counted := (r, m.guestRamBytes) :: s.ghost.counted } }
    withError (registerError r) (registerLiveRef t r)
    return r

def putSnapshot (t : Tid) (container : Bytes) : PutE SnapshotRef := do
  let m ← ofExcept .manifest (Manifest.decode container)
  withCommitGate t do
    checkParent m
    let present ← containsBatch (hashesOf m)
    let missing := missingOf (hashesOf m) present
    if missing ≠ [] then throw (.missingPages missing) else
    withError .pageStore (barrier t (hashesOf m) (PageStore.sync t))
    commit t container m

/-! ## The epoch of a garbage collection -/

def drainLateRoots : SE (List SnapshotRef) :=
  action fun _ s =>
    match s.epoch with
    | some late => (.ok late, { s with
        epoch := some []
        ghost := { s.ghost with dangling := s.ghost.dangling.filter (· ∉ late) } })
    | none => (.ok [], s)

def endGcEpoch : P Unit := Prog.update fun s =>
  { s with epoch := none, ghost := { s.ghost with dangling := [] } }

/-! ## Counters -/

def saturatingAdd (a b : UInt64) : UInt64 :=
  if a.toNat + b.toNat < 2 ^ 64 then a + b else UInt64.ofNat (2 ^ 64 - 1)

def saturatingSub (a b : UInt64) : UInt64 := if b ≤ a then a - b else 0

/-! ## Deleting and listing manifests -/

/-- `read_guest_ram_bytes` of a file's bytes; 0 stands for an error. -/
def guestRamBytesOf (b : Bytes) : Option Nat :=
  if b.length < 56 then none else
  if slice b 0 8 ≠ Manifest.magic then none else some (leNat (slice b 48 8))

def unlinkManifest (r : SnapshotRef) : ExceptT IoError P Unit := attempt fun o s =>
  match o.fault .manifest .unlink, s.manifests.lookup (.spm r) with
  | some _, _ => .error .other
  | none, none => .error .notFound
  | none, some _ => .ok ((), { s with
      manifests := s.manifests.unlink (.spm r)
      ghost := { s.ghost with sweeping := true } })

def deleteManifest (r : SnapshotRef) : SE Bool := do
  if !(← look fun s => hasManifest s r) then return false else
  let grb ← observe fun o s =>
    match o.fault .manifest .read, s.manifests.readName (.spm r) with
    | none, some b => .ok ((guestRamBytesOf b).getD 0)
    | _, _ => .ok 0
  withError .io (unlinkManifest r)
  withError .io (fsyncShardDir r)
  change fun s => { s with
    manifestsTotal := s.manifestsTotal - 1
    logicalPageBytes := saturatingSub s.logicalPageBytes (UInt64.ofNat grb) }
  return true

def shardRefs (s : World) (shard : Nat) : List SnapshotRef :=
  s.manifests.names.filterMap fun
    | .spm r => if shardOf r = shard then some r else none
    | .tmp _ => none

def listManifestRefs : SE (List SnapshotRef) := do
  let shards ← observe fun o s =>
    match o.fault .manifestDir .list with
    | some _ => .error (.io .other)
    | none => .ok (o.walk s.shardDirs)
  shards.foldlM
    (fun refs shard => do
      let here ← observe fun o s =>
        match o.fault .manifestDir .list with
        | some _ => .error (.io .other)
        | none => .ok (shardRefs s shard)
      return refs ++ here) []

/-! ## Open -/

def cleanTmpDir : PE Unit := do
  let names ← observe fun o s =>
    match o.fault .manifestDir .list with
    | some _ => .error (.io .other)
    | none => .ok (s.manifests.names.filterMap fun
        | .tmp r => some r
        | .spm _ => none)
  names.foldlM (fun _ r => attempt fun o s =>
    match o.fault .manifest .unlink with
    | some _ => .ok ((), s)
    | none => .ok ((), { s with manifests := s.manifests.unlink (.tmp r) })) ()

def readShardDirs : P (List Nat) := Prog.atomic fun o s =>
  (match o.fault .manifestDir .list with
    | some _ => []
    | none => o.walk s.shardDirs, s)

def readShardDir (shard : Nat) : P (List SnapshotRef) := Prog.atomic fun o s =>
  (match o.fault .manifestDir .list with
    | some _ => []
    | none => shardRefs s shard, s)

/-- The count and the sum of `guest_ram_bytes` with one more file; a file that cannot be read or
has a bad header is skipped. -/
def countFile (acc : UInt64 × UInt64) (r : SnapshotRef) : P (UInt64 × UInt64) :=
  Prog.atomic fun o s =>
    (match o.fault .manifest .read, (s.manifests.readName (.spm r)).bind guestRamBytesOf with
      | none, some grb => (acc.1 + 1, saturatingAdd acc.2 (UInt64.ofNat grb))
      | _, _ => acc, s)

def walkManifestCounters : P (UInt64 × UInt64) := do
  let shards ← readShardDirs
  shards.foldlM (fun acc shard => do (← readShardDir shard).foldlM countFile acc) (0, 0)

def install (opts : StoreOptions) (ix : Index) (a : ActiveState) (counters : UInt64 × UInt64)
    (s : World) : World :=
  { s with
    index := ix
    active := a
    activeLock := none
    readCache := ⟨[], 0, max opts.readHandleCap 1⟩
    gate := ⟨[], none⟩
    epoch := none
    commit := ⟨0, 0, false⟩
    manifestsTotal := counters.1
    logicalPageBytes := counters.2
    actorCounter := s.db.rederiveCounter
    ghost := { Ghost.initial with
      acked := s.ghost.acked
      files := s.pages.dir.entries.filterMap fun e =>
        match e.1 with
        | .spk p => if p < a.nextPackId then some (p, e.2) else none
        | _ => none } }

def openStore (opts : StoreOptions) : P Bool := do
  let opened ← (do
    cleanTmpDir
    PageStore.openPages opts : PE _).run
  match opened with
  | .error _ => return false
  | .ok (ix, a) =>
    let counters ← walkManifestCounters
    Prog.update (install opts ix a counters)
    return true

end SnapshotStore

end SnapStore
