import SnapStore.Gc.Frames
import SnapStore.Gc.Server

/-!
# Programs outside the page store and the database

The manifest store, the marking of a collection and the reads of sealed packs leave both the pages
and the metadata database as they are.
-/

namespace SnapStore

open Disk Conc

structure Outside (s s' : World) : Prop where
  pages : s'.pages = s.pages
  index : s'.index = s.index
  active : s'.active = s.active
  lock : s'.activeLock = s.activeLock
  gcPacks : s'.ghost.gcPacks = s.ghost.gcPacks
  db : s'.db = s.db
  actorCounter : s'.actorCounter = s.actorCounter
  running : s'.ghost.running = s.ghost.running
  finished : s'.ghost.finished = s.ghost.finished

section Gate

variable {E α : Type} {R : World → World → Prop} {t : Tid} {body : ExceptT E P α}

def GateMove (s u : World) : Prop := ∃ g publishing demand, u = { s with
  gate := g
  ghost := { s.ghost with publishing := publishing, demand := demand } }

theorem gateMove_lockGateRead : Within GateMove (lockGateRead t) := by
  refine Within.await fun o s b u hf => ?_
  split at hf <;> cases hf
  exact ⟨_, _, _, rfl⟩

theorem gateMove_unlockGateRead : Within GateMove (unlockGateRead t) :=
  Within.atomic fun _ _ => ⟨_, _, _, rfl⟩

theorem gateMove_lockGateWrite : Within GateMove (lockGateWrite t) := by
  refine Within.await fun o s b u hf => ?_
  split at hf <;> cases hf
  exact ⟨_, _, _, rfl⟩

theorem gateMove_unlockGateWrite : Within GateMove unlockGateWrite :=
  Within.atomic fun _ _ => ⟨_, _, _, rfl⟩

theorem within_withCommitGate (hR : ∀ s u, GateMove s u → R s u) (h : Within R body.run) :
    Within R (withCommitGate t body).run :=
  Within.bind (gateMove_lockGateRead.mono hR) fun _ => Within.bind h fun _ =>
    Within.bind (gateMove_unlockGateRead.mono hR) fun _ => True.intro

theorem within_withSweepGate (hR : ∀ s u, GateMove s u → R s u) (h : Within R body.run) :
    Within R (withSweepGate t body).run :=
  Within.bind (gateMove_lockGateWrite.mono hR) fun _ => Within.bind h fun _ =>
    Within.bind (gateMove_unlockGateWrite.mono hR) fun _ => True.intro

end Gate

/-! ## Commits -/

namespace SnapshotStore

def RegisterMove (s u : World) : Prop := ∃ late publishing dangling registered, u = { s with
  epoch := late
  ghost := { s.ghost with
    publishing := publishing, dangling := dangling, registered := registered } }

theorem RegisterMove.refl (s : World) : RegisterMove s s := ⟨_, _, _, _, rfl⟩

def CommitMove (s u : World) : Prop :=
  ∃ fs dirs late total bytes publishing dangling registered counted, u = { s with
    manifests := fs
    shardDirs := dirs
    epoch := late
    manifestsTotal := total
    logicalPageBytes := bytes
    ghost := { s.ghost with
      publishing := publishing, dangling := dangling, registered := registered, counted := counted } }

theorem CommitMove.refl (s : World) : CommitMove s s := ⟨_, _, _, _, _, _, _, _, _, rfl⟩

theorem RegisterMove.commitMove (s u : World) (h : RegisterMove s u) : CommitMove s u := by
  obtain ⟨_, _, _, _, rfl⟩ := h
  exact ⟨_, _, _, _, _, _, _, _, _, rfl⟩

theorem commitMove_publish (t : Tid) (r : SnapshotRef) (c : Bytes) :
    Prompt CommitMove (publish t r c).run := by
  refine Prompt.bindE (prompt_attempt CommitMove.refl fun o s a u hf => ?_) fun _ =>
    Prompt.bindE (prompt_attempt CommitMove.refl fun o s a u hf => ?_) fun f =>
    Prompt.bindE (prompt_action fun o s => ?_) fun _ =>
    Prompt.bindE (prompt_attempt CommitMove.refl fun o s a u hf => ?_) fun _ =>
    Prompt.bindE (prompt_attempt CommitMove.refl fun o s a u hf => ?_) fun _ =>
    prompt_attempt CommitMove.refl fun o s a u hf => ?_
  · split at hf <;> cases hf
    exact ⟨_, _, _, _, _, _, _, _, _, rfl⟩
  · split at hf <;> cases hf
    exact ⟨_, _, _, _, _, _, _, _, _, rfl⟩
  · split <;> exact ⟨_, _, _, _, _, _, _, _, _, rfl⟩
  · split at hf <;> cases hf
    exact ⟨_, _, _, _, _, _, _, _, _, rfl⟩
  · split at hf <;> cases hf
    exact ⟨_, _, _, _, _, _, _, _, _, rfl⟩
  · split at hf <;> cases hf
    exact ⟨_, _, _, _, _, _, _, _, _, rfl⟩

variable [Primitives]

theorem reads_readManifestBytes (r : SnapshotRef) : Prompt Eq (readManifestBytes r).run := by
  refine Prompt.bindE (prompt_action fun o s => ?_) fun b => ?_
  · split <;> rfl
  · split
    · exact Prompt.throwE _
    · exact Prompt.bindE (reads_observe _) fun _ => Prompt.ret _

theorem reads_readManifest (r : SnapshotRef) : Prompt Eq (readManifest r).run :=
  Prompt.bindE (reads_readManifestBytes r) fun _ => Prompt.ret _

theorem reads_validateClosure (fuel : Nat) (r : SnapshotRef) :
    Prompt Eq (validateClosure fuel r).run := by
  induction fuel generalizing r with
  | zero => exact Prompt.throwE _
  | succ fuel ih =>
    refine Prompt.bindE (reads_readManifest r) fun m => ?_
    refine Prompt.bindE (reads_containsBatch _) fun present => ?_
    split
    · exact Prompt.throwE _
    · split
      · split
        · exact ih _
        · exact Prompt.throwE _
      · exact Prompt.pureE _

theorem registerMove_registerLiveRef (t : Tid) (r : SnapshotRef) :
    Prompt RegisterMove (registerLiveRef t r).run := by
  refine Prompt.bindE (prompt_action fun o s => ?_) fun b => Prompt.bindE ?_ fun _ =>
    prompt_change fun s => ⟨_, _, _, _, rfl⟩
  · dsimp only
    split <;> exact ⟨_, _, _, _, rfl⟩
  · unfold checkLiveRef
    split
    · exact (reads_validateClosure _ r).of_eq RegisterMove.refl
    · refine Prompt.bindE ((reads_look _).of_eq RegisterMove.refl) fun present => ?_
      split
      · exact Prompt.pureE _
      · exact Prompt.throwE _

theorem reads_checkParent (m : Manifest) : Prompt Eq (checkParent m).run := by
  unfold SnapshotStore.checkParent
  split
  · split
    · exact Prompt.throwE _
    · refine Prompt.bindE (prompt_withError (reads_readManifestBytes _)) fun b => ?_
      refine Prompt.bindE (Prompt.ret _) fun pm => ?_
      split
      · exact Prompt.throwE _
      · exact Prompt.pureE _
  · exact Prompt.pureE _

theorem commitMove_commit (t : Tid) (c : Bytes) (m : Manifest) :
    Prompt CommitMove (commit t c m).run := by
  have hregister : ∀ r, Prompt CommitMove (ExceptT.run (do
      withError (registerError r) (registerLiveRef t r)
      return r)) := fun r =>
    Prompt.bindE (prompt_withError ((registerMove_registerLiveRef t r).mono RegisterMove.commitMove))
      fun _ => Prompt.pureE _
  refine Prompt.bindE ((reads_look _).of_eq CommitMove.refl) fun present => ?_
  split
  · exact hregister _
  · exact Prompt.bindE (prompt_withError (commitMove_publish t _ c)) fun _ =>
      Prompt.bindE (prompt_change fun s => ⟨_, _, _, _, _, _, _, _, _, rfl⟩) fun _ => hregister _

end SnapshotStore

def World.storePart (s : World) :=
  (s.pages, s.index, s.active, s.activeLock, s.ghost.gcPacks, s.db, s.actorCounter,
    s.ghost.running, s.ghost.finished)

namespace Outside

variable {E α : Type} {t : Tid} {body : ExceptT E P α}

theorem of_part {s u : World} (h : u.storePart = s.storePart) : Outside s u := by
  simp only [World.storePart, Prod.mk.injEq] at h
  obtain ⟨h₁, h₂, h₃, h₄, h₅, h₆, h₇, h₈, h₉⟩ := h
  exact ⟨h₁, h₂, h₃, h₄, h₅, h₆, h₇, h₈, h₉⟩

theorem refl (s : World) : Outside s s := .of_part rfl

theorem of_gate (s u : World) (h : GateMove s u) : Outside s u := by
  obtain ⟨_, _, _, rfl⟩ := h
  exact .of_part rfl

theorem withSweepGate (h : Within Outside body.run) :
    Within Outside (withSweepGate t body).run := within_withSweepGate of_gate h

theorem of_reads {p : P α} (h : Prompt Eq p) : Within Outside p := (h.of_eq refl).within

theorem of_cache {p : P α} (h : Prompt CacheMove p) : Within Outside p := by
  refine h.within.mono fun s u hu => ?_
  obtain ⟨_, rfl⟩ := hu
  exact .of_part rfl

open SnapshotStore

theorem of_commit {p : P α} (h : Prompt CommitMove p) : Within Outside p := by
  refine h.within.mono fun s u hu => ?_
  obtain ⟨_, _, _, _, _, _, _, _, _, rfl⟩ := hu
  exact .of_part rfl

variable [Primitives]

theorem registerLiveRef (t : Tid) (r : SnapshotRef) : Within Outside (registerLiveRef t r).run :=
  of_commit ((registerMove_registerLiveRef t r).mono RegisterMove.commitMove)

/-! ## The collector -/

omit [Primitives] in
theorem drainLateRoots : Within Outside SnapshotStore.drainLateRoots.run :=
  within_action fun o s => by
    split <;> exact .of_part rfl

omit [Primitives] in
theorem deleteManifest (r : SnapshotRef) : Within Outside (SnapshotStore.deleteManifest r).run := by
  refine Within.bindE (within_look refl) fun present => ?_
  split
  · exact Within.pureE _
  · refine Within.bindE (within_observe refl) fun grb => Within.bindE (within_withError
      (within_attempt refl fun o s a u hf => ?_)) fun _ => Within.bindE (within_withError
      (within_attempt refl fun o s a u hf => ?_)) fun _ =>
      Within.bindE (within_change fun s => .of_part rfl) fun _ => Within.pureE _
    · split at hf <;> cases hf
      exact .of_part rfl
    · split at hf <;> cases hf
      exact .of_part rfl

omit [Primitives] in
theorem endGcEpoch : Within Outside SnapshotStore.endGcEpoch :=
  Within.atomic fun _ _ => .of_part rfl

theorem readForMark (isRoot : Bool) (r : SnapshotRef) :
    Within Outside (Gc.readForMark isRoot r).run := by
  refine Within.bind (Within.bindE (within_action fun o s => ?_) fun b => ?_) fun res => ?_
  · split
    · exact refl s
    · unfold Gc.noteDangling
      split <;> exact .of_part rfl
  · split
    · exact Within.throwE _
    · exact Within.bindE (within_observe refl) fun _ => Within.ret _
  · split
    · exact Within.ret _
    · split <;> exact Within.ret _

theorem markChain (fuel : Nat) (isRoot : Bool) (r : SnapshotRef) (st : MarkState) :
    Within Outside (Gc.markChain fuel isRoot r st).run := by
  induction fuel generalizing isRoot r st with
  | zero => exact Within.throwE _
  | succ fuel ih =>
    unfold Gc.markChain
    split
    · exact Within.pureE _
    · refine Within.bindE (readForMark isRoot r) fun found => ?_
      split
      · exact Within.pureE _
      · refine Within.bindE (Within.ret _) fun m => ?_
        dsimp only
        split
        · split
          · exact ih _ _ _
          · exact Within.throwE _
        · exact Within.pureE _

theorem mark (roots : List SnapshotRef) (st : MarkState) :
    Within Outside (Gc.mark roots st).run :=
  Within.foldlME (fun st r => markChain maxChain true r st) roots st

theorem sweepBatch (t : Tid) (rs : List SnapshotRef) (st : MarkState) :
    Within Outside (Gc.sweepBatch t rs st).run := by
  refine withSweepGate (Within.bindE drainLateRoots fun ls => Within.bindE (mark ls st) fun st' => ?_)
  refine Within.bindE (Within.foldlME (fun st r => ?_) _ _) fun _ => Within.pureE _
  split
  · exact Within.pureE _
  · refine Within.bindE (deleteManifest r) fun deleted => ?_
    split <;> exact Within.pureE _

theorem sweepManifests (so : SweepOpts) (t : Tid) (st : MarkState) :
    Within Outside (Gc.sweepManifests so t st).run := by
  have hbatches : ∀ (rounds : Nat) (rs : List SnapshotRef) (st : MarkState),
      Within Outside (Gc.sweepBatches t rounds rs st).run := by
    intro rounds
    induction rounds with
    | zero =>
      rintro (_ | ⟨r, rs⟩) st
      · exact Within.pureE _
      · exact Within.stuck
    | succ rounds ih =>
      rintro (_ | ⟨r, rs⟩) st
      · exact Within.pureE _
      · exact Within.bindE (sweepBatch t _ st) fun rest => ih _ _
  refine Within.bindE ?_ fun refs => Within.bindE (hbatches so.rounds _ st) fun _ =>
    Within.bindE (within_change fun s => .of_part rfl) fun _ =>
    Within.pureE _
  exact Within.bindE (within_observe refl) fun shards => Within.foldlME (fun _ _ =>
    Within.bindE (within_observe refl) fun _ => Within.pureE _) _ _

end Outside

end SnapStore
