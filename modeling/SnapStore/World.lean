import SnapStore.Conc.Machine
import SnapStore.Pagestore.Index
import SnapStore.Manifest
import SnapStore.Meta

/-!
# The shared state of the store

Everything the calls of a running store share: the two directories on disk, the page index, the
active pack under its lock, the cache of read handles, the commit gate, the epoch of a running
garbage collection, the group-commit state and the metadata database.
-/

namespace SnapStore

open Disk Conc

inductive ManifestFile where
  | spm (r : SnapshotRef)
  | tmp (r : SnapshotRef)
deriving DecidableEq

abbrev ManifestsFs := FileSys ManifestFile

structure StoreOptions where
  maxPackBytes : Nat
  readHandleCap : Nat

structure ActiveState where
  writer : PackWriter
  packId : PackId
  dirtySinceSync : List PackId
  newFilesSinceSync : Bool
  nextPackId : PackId

/-- The LRU cache of read handles: pack, handle, generation. -/
structure ReadHandleCache where
  entries : List (PackId × Ino × Nat)
  generation : Nat
  capacity : Nat

structure Gate where
  readers : List Tid
  writer : Option Tid

structure GroupCommit where
  pendingGen : Nat
  completedGen : Nat
  flushing : Bool

/-- A batch read in progress: the hashes asked for, those of them that have been in the index since
it began, and the cycle that has moved entries or unlinked packs since then. -/
structure BatchRead where
  tid : Tid
  hashes : List PageHash
  present : List PageHash
  cycle : Option Nat

/-- A garbage-collection cycle in progress: the stamp of the next command when it began, and the
counter it read after its fence. -/
structure CycleRun where
  start : Nat
  fence : Option Nat
deriving DecidableEq

/-- Auxiliary facts about the history of a run; no program reads them. -/
structure Ghost where
  /-- Hashes whose records were appended in this lifetime. -/
  fresh : List PageHash
  /-- Hashes whose records a successful `sync` has covered. -/
  acked : List PageHash
  /-- Packs a running `sync` has taken from the dirty set and not yet synced. -/
  inflight : List PackId
  /-- The pack a rotation has allocated and not yet installed. -/
  rotating : Option PackId
  gcPacks : List PackId
  files : List (PackId × Ino)
  /-- For each commit that waits for a sync: its generation and the hashes it relies on. -/
  demand : List (Tid × Nat × List PageHash)
  covered : Nat
  /-- Manifests renamed into place by a commit that has not registered them yet. -/
  publishing : List (Tid × SnapshotRef)
  /-- Roots whose manifest was missing when the running cycle marked them. -/
  dangling : List SnapshotRef
  /-- The references registered with success, the last one first. -/
  registered : List SnapshotRef
  /-- The running cycle has removed an index entry or a manifest and has not finished its
  manifest sweep. -/
  sweeping : Bool
  cycle : Nat
  fence : PackId
  running : Option CycleRun
  /-- The stamps of the next command at the start of each cycle that has succeeded. -/
  finished : List Nat
  reads : List BatchRead
  /-- The thread that runs the sync of the group commit. -/
  flusher : Option Tid
  /-- The manifests that the counters of the store include since it was opened, with their
  logical size. -/
  counted : List (SnapshotRef × Nat)

namespace Ghost

def initial : Ghost :=
  ⟨[], [], [], none, [], [], [], 0, [], [], [], false, 0, 0, none, [], [], none, []⟩

def removed (h : PageHash) (g : Ghost) : Ghost :=
  { g with
    fresh := g.fresh.filter (· ≠ h)
    acked := g.acked.filter (· ≠ h)
    sweeping := true
    reads := g.reads.map fun b => { b with present := b.present.filter (· ≠ h) } }

def swept (g : Ghost) : Ghost :=
  { g with reads := g.reads.map fun b => { b with cycle := some g.cycle } }

def cycleBegun (k : Nat) (g : Ghost) : Ghost := { g with running := some ⟨k, none⟩ }

def cycleFenced (k : Nat) (g : Ghost) : Ghost :=
  { g with running := g.running.map fun r => { r with fence := some k } }

def cycleEnded (succeeded : Bool) (g : Ghost) : Ghost :=
  { g with
    running := none
    finished := if succeeded then (g.running.map (·.start)).toList ++ g.finished else g.finished }

def unlinked (g : Ghost) : PageFile → Ghost
  | .spk _ => g.swept
  | _ => g

end Ghost

structure World where
  pages : PagesFs
  manifests : ManifestsFs
  index : Index
  active : ActiveState
  activeLock : Option Tid
  readCache : ReadHandleCache
  gate : Gate
  epoch : Option (List SnapshotRef)
  commit : GroupCommit
  shardDirs : List Nat
  /-- The entry `manifests/` of the store directory is on the disk. -/
  durableRoot : Bool
  /-- The entries of `manifests/` that are on the disk; nothing in the store syncs `manifests/`. -/
  durableShards : List Nat
  /-- The maintained counters: manifest files, and the sum of their `guest_ram_bytes`. -/
  manifestsTotal : UInt64
  logicalPageBytes : UInt64
  db : MetaDb
  actorCounter : Nat
  ghost : Ghost

abbrev P := Prog Oracle World

inductive PageStoreError where
  | io (e : IoError)
  | pack (e : PackError)
  | index (e : IndexError)
  | panicked
deriving DecidableEq

abbrev PE := ExceptT PageStoreError P

/-! ## Locks -/

section Locks

variable {E α : Type}

def lockActive (t : Tid) : P Unit := Prog.await fun _ s =>
  match s.activeLock with
  | none => some ((), { s with activeLock := some t })
  | some _ => none

def unlockActive : P Unit := Prog.update fun s => { s with activeLock := none }

/-- Run `body` under the `active` lock; the guard is dropped on success and on error. -/
def withActive (t : Tid) (body : ExceptT E P α) : ExceptT E P α := ExceptT.mk do
  lockActive t
  let r ← body.run
  unlockActive
  return r

def lockGateRead (t : Tid) : P Unit := Prog.await fun _ s =>
  match s.gate.writer with
  | none => some ((), { s with gate := { s.gate with readers := t :: s.gate.readers } })
  | some _ => none

def unlockGateRead (t : Tid) : P Unit := Prog.update fun s =>
  { s with
    gate := { s.gate with readers := s.gate.readers.erase t }
    ghost := { s.ghost with
      publishing := s.ghost.publishing.filter fun x => x.1 ≠ t
      demand := s.ghost.demand.filter fun x => x.1 ≠ t } }

def lockGateWrite (t : Tid) : P Unit := Prog.await fun _ s =>
  match s.gate.writer, s.gate.readers with
  | none, [] => some ((), { s with gate := { s.gate with writer := some t } })
  | _, _ => none

def unlockGateWrite : P Unit := Prog.update fun s => { s with gate := { s.gate with writer := none } }

def withCommitGate (t : Tid) (body : ExceptT E P α) : ExceptT E P α := ExceptT.mk do
  lockGateRead t
  let r ← body.run
  unlockGateRead t
  return r

def withSweepGate (t : Tid) (body : ExceptT E P α) : ExceptT E P α := ExceptT.mk do
  lockGateWrite t
  let r ← body.run
  unlockGateWrite
  return r

end Locks

def action {E α : Type} (f : Oracle → World → Except E α × World) : ExceptT E P α :=
  ExceptT.mk (Prog.atomic f)

def observe {E α : Type} (f : Oracle → World → Except E α) : ExceptT E P α :=
  action fun o s => (f o s, s)

/-- An action that changes the shared state unless it fails. -/
def attempt {E α : Type} (f : Oracle → World → Except E (α × World)) : ExceptT E P α :=
  action fun o s =>
    match f o s with
    | .ok (a, s') => (.ok a, s')
    | .error e => (.error e, s)

def look {E α : Type} (f : World → α) : ExceptT E P α :=
  ExceptT.mk (Prog.atomic fun _ s => (.ok (f s), s))

def change {E : Type} (f : World → World) : ExceptT E P Unit :=
  ExceptT.mk (Prog.atomic fun _ s => (.ok (), f s))

def withError {E E' α : Type} (f : E → E') (x : ExceptT E P α) : ExceptT E' P α := ExceptT.mk do
  return (← x.run).mapError f

def ofExcept {E E' α : Type} (f : E → E') (x : Except E α) : ExceptT E' P α :=
  ExceptT.mk (pure (x.mapError f))

end SnapStore
