import SnapStore.Gc.Outside
import SnapStore.Gc.Sweeps
import SnapStore.Meta.Tombstones
import SnapStore.System

/-!
# The calls as the metadata database sees them

Almost every step of a call leaves the database and the record of the cycles alone.  The others
execute one command of the writer actor.
-/

namespace SnapStore

open Disk Conc

structure Quiet (s s' : World) : Prop where
  db : s'.db = s.db
  actorCounter : s'.actorCounter = s.actorCounter
  running : s'.ghost.running = s.ghost.running
  finished : s'.ghost.finished = s.ghost.finished

namespace Quiet

theorem refl (s : World) : Quiet s s := ⟨rfl, rfl, rfl, rfl⟩

theorem of_frame {s s' : World} (h : Frame s s') : Quiet s s' :=
  ⟨h.db, h.actorCounter, h.running, h.finished⟩

variable {E α : Type}

theorem frame {p : P α} (h : Within Frame p) : Within Quiet p := h.mono fun _ _ => of_frame

theorem of_outside {s s' : World} (h : Outside s s') : Quiet s s' :=
  ⟨h.db, h.actorCounter, h.running, h.finished⟩

theorem outside {p : P α} (h : Within Outside p) : Within Quiet p := h.mono fun _ _ => of_outside

theorem of_gate (s u : World) (h : GateMove s u) : Quiet s u := of_outside (Outside.of_gate s u h)

theorem withSweepGate {t : Tid} {body : ExceptT E P α} (h : Within Quiet body.run) :
    Within Quiet (withSweepGate t body).run := within_withSweepGate of_gate h

open SnapshotStore

theorem applyFinalize (p : PackId) (copied dead : List (PageHash × PageLoc)) (live : LiveSet) :
    Within Quiet (Gc.applyFinalize p copied dead live).run := by
  refine Within.bindE (Within.foldlME (fun _ e => within_change fun s => ⟨rfl, rfl, rfl, rfl⟩) _ _)
    fun _ => Within.foldlME (fun _ e => ?_) _ _
  split
  · exact Within.pureE _
  · refine within_change fun s => ?_
    split
    · split <;> exact ⟨rfl, rfl, rfl, rfl⟩
    · exact refl s

theorem endGcEpoch : Within Quiet SnapshotStore.endGcEpoch := outside Outside.endGcEpoch

theorem beginGcEpoch (t : Tid) : Within Quiet (Server.beginGcEpoch t).run := by
  refine withSweepGate (Within.bindE (within_withError (frame (PageStore.frame_activePackId t)))
    fun fence => Within.bindE (within_action fun o s => ?_) fun _ => ?_)
  · split <;> exact ⟨rfl, rfl, rfl, rfl⟩
  · refine Within.bind (within_observe refl) fun roots => ?_
    split
    · exact Within.ret _
    · exact Within.bind endGcEpoch fun _ => Within.ret _

variable [Primitives]

theorem putSnapshot (t : Tid) (c : Bytes) : Within Quiet (putSnapshot t c).run := by
  refine Within.bindE (Within.ret _) fun m => within_withCommitGate of_gate ?_
  refine Within.bindE (outside (Outside.of_reads (reads_checkParent m))) fun _ =>
    Within.bindE (outside (Outside.of_reads (reads_containsBatch _))) fun _ => ?_
  dsimp only
  split
  · exact Within.throwE _
  · exact Within.bindE (within_withError (frame (frame_barrier t _ (PageStore.frame_sync t))))
      fun _ => outside (Outside.of_commit (commitMove_commit t c m))

/-! ## The collector -/

theorem copyIfAny (opts : StoreOptions) (t : Tid) (es : List (PageHash × PageLoc)) :
    Within Quiet (Gc.copyIfAny opts t es).run := by
  unfold Gc.copyIfAny
  split
  · exact Within.pureE _
  · exact frame (Gc.frame_copyRecords opts t es)

theorem finalize (opts : StoreOptions) (t : Tid) (p : PackId) (dead : List (PageHash × PageLoc))
    (rounds : Nat) (copied : List (PageHash × PageLoc)) (st : MarkState) :
    Within Quiet (Gc.finalize opts t p dead rounds copied st).run := by
  induction rounds generalizing copied st with
  | zero => exact Within.stuck
  | succ rounds ih =>
    unfold Gc.finalize
    refine Within.bindE (withSweepGate (Within.bindE (outside Outside.drainLateRoots)
      fun ls => ?_)) fun ls => ?_
    · split
      · exact Within.bindE (applyFinalize p copied dead _) fun _ => Within.pureE _
      · exact Within.pureE _
    · split
      · exact Within.pureE _
      · exact Within.bindE (outside (Outside.mark ls _)) fun st' =>
          Within.bindE (copyIfAny opts t _) fun more => ih _ _

theorem sweepOnePack (opts : StoreOptions) (so : SweepOpts) (t : Tid) (st : MarkState)
    (p : PackId) : Within Quiet (Gc.sweepOnePack opts so t st p).run := by
  have hunlink : ∀ copied dead st,
      Within Quiet (Gc.finalizeAndUnlink opts so t p copied dead st).run := fun copied dead st =>
    Within.bindE (finalize opts t p dead so.rounds copied st) fun st =>
      Within.bindE (within_withError (outside (Outside.of_cache (PageStore.cacheMove_invalidate p)))) fun _ =>
      Within.bindE (within_withError (frame (PageStore.frame_deletePack t p))) fun _ =>
      Within.pureE _
  refine Within.bindE (within_withError (outside (Outside.of_reads (PageStore.reads_packEntries p)))) fun es => ?_
  refine Within.bindE (within_withError (within_observe refl)) fun scanned => ?_
  dsimp only
  split
  · exact Within.bindE (hunlink _ _ _) fun _ => Within.pureE _
  · split
    · exact Within.pureE _
    · exact Within.bindE (copyIfAny opts t _) fun copied =>
        Within.bindE (hunlink _ _ _) fun _ => Within.pureE _

theorem sweepPacks (opts : StoreOptions) (so : SweepOpts) (t : Tid) (fence : PackId)
    (st : MarkState) : Within Quiet (Gc.sweepPacks opts so t fence st).run :=
  Within.bindE (within_withError (frame (PageStore.frame_sealedPackIds t))) fun _ =>
    Within.foldlME (sweepOnePack opts so t) _ _

theorem collect (opts : StoreOptions) (so : SweepOpts) (t : Tid) (fence : PackId)
    (roots : List SnapshotRef) : Within Quiet (Server.collect opts so t fence roots).run :=
  Within.bindE (outside (Outside.mark roots _)) fun st =>
    Within.bindE (sweepPacks opts so t fence st) fun st =>
    Within.bindE (outside (Outside.sweepManifests so t st)) fun _ => Within.pureE _

theorem rotateFirst (opts : StoreOptions) (go : GcOpts) (t : Tid) :
    Within Quiet (Server.rotateFirst opts go t).run := by
  unfold Server.rotateFirst
  split
  · exact Within.bindE (within_withError (frame (PageStore.frame_rotateActive opts t))) fun _ =>
      Within.pureE _
  · exact Within.pureE _

theorem sweepCall (opts : StoreOptions) (so : SweepOpts) (t : Tid) (live : LiveSet) :
    Within Quiet (SnapStore.sweepCall opts so t live).run :=
  Within.bindE (within_withError (frame (PageStore.frame_activePackId t))) fun _ =>
    Within.bindE (within_change fun _ => ⟨rfl, rfl, rfl, rfl⟩) fun _ => sweepPacks opts so t _ _

end Quiet

/-! ## Assertions that quiet steps keep -/

structure QuietOk (ρ : Rules Oracle World) (A : World → Prop) : Prop where
  stable : Stable ρ A
  step : ∀ o s u, ρ.inv s → ρ.may o s u → Quiet s u → A s → ρ.inv u ∧ ρ.guar s u ∧ A u

namespace QuietOk

variable {ρ : Rules Oracle World} {A : World → Prop} {E α : Type} {s : World}

theorem within {p : P α} (h : QuietOk ρ A) (hp : Within Quiet p) (hs : A s) :
    wp ρ p (fun _ => A) s :=
  hp.wp h.stable hs fun o w u hi hw hm hq => h.step o w u hi hm hq hw

theorem observe {f : Oracle → World → Except E α} {Q : Except E α → World → Prop}
    (h : QuietOk ρ A) (hs : A s) (hQ : ∀ o w, ρ.inv w → A w → Q (f o w) w) :
    wp ρ (observe f).run Q s := by
  refine wp_atomic h.stable hs fun o w hi hw hm => ?_
  obtain ⟨hinv, hguar, -⟩ := h.step o w w hi hm (Quiet.refl w) hw
  exact ⟨hinv, hguar, hQ o w hi hw⟩

theorem metaRead {f : MetaDb → α} {Q : Except MetaError α → World → Prop} (h : QuietOk ρ A)
    (hs : A s) (herror : ∀ w, A w → Q (.error .sqlite) w)
    (hok : ∀ w, ρ.inv w → A w → Q (.ok (f w.db)) w) : wp ρ (metaRead f).run Q s := by
  refine h.observe hs fun o w hi hw => ?_
  split
  · exact herror w hw
  · exact hok w hi hw

theorem withSweepGate {t : Tid} {body : ExceptT E P α} {B : Except E α → World → Prop}
    (hA : QuietOk ρ A) (hB : ∀ r, QuietOk ρ (B r)) (hs : A s)
    (hbody : ∀ w, A w → wp ρ body.run B w) : wp ρ (withSweepGate t body).run B s := by
  refine wp_bind (wp_await hA.stable hs fun o w b u hi hw hf hm => ?_)
  have hq : Quiet w u := by
    split at hf
    · cases hf
      exact ⟨rfl, rfl, rfl, rfl⟩
    · cases hf
  obtain ⟨hinv, hguar, hu⟩ := hA.step o w u hi hm hq hw
  refine ⟨hinv, hguar, wp_bind (wp_mono (fun r w₁ h₁ => ?_) (hbody u hu))⟩
  refine wp_bind (wp_atomic (hB r).stable h₁ fun o w₂ hi₂ h₂ hm₂ => ?_)
  exact (hB r).step o w₂ _ hi₂ hm₂ ⟨rfl, rfl, rfl, rfl⟩ h₂

end QuietOk

/-! ## Commands -/

variable [Primitives]

structure Executed (cmd : ActorCmd) (s s' : World) : Prop where
  db : s'.db = s.db ∨
    s'.db = (s.db.after inputLogMaxBytes cmd s.actorCounter).withCounter (s.actorCounter + 1)
  actorCounter : s'.actorCounter = s.actorCounter + 1
  running : s'.ghost.running = s.ghost.running
  finished : s'.ghost.finished = s.ghost.finished

namespace Executed

open MetaDb

variable {cmd : ActorCmd} {s s' : World} {t : TombstoneRow}

theorem induction {P : MetaDb → Prop} (h : Executed cmd s s') (hdb : P s.db)
    (hcounter : ∀ db k, P db → P (db.withCounter k))
    (hmove : ∀ db db', P db → Move s.actorCounter cmd db db' → P db') : P s'.db := by
  rcases h.db with heq | heq
  · exact heq ▸ hdb
  · exact heq ▸ hcounter _ _ (after_induction hdb hmove)

theorem tombstones (h : Executed cmd s s') (ht : t ∈ s.db.tombstones)
    (hcmd : cmd ≠ .reapTombstone t.experimentId t.nodeId) : t ∈ s'.db.tombstones :=
  h.induction (P := fun db => t ∈ db.tombstones) ht (fun _ _ => id)
    fun _ _ ht hm => (hm.tombstones ht).resolve_right hcmd

theorem tombstones_new (h : Executed cmd s s') (ht : t ∈ s'.db.tombstones) :
    t ∈ s.db.tombstones ∨ t.createdAt = s.actorCounter :=
  h.induction (P := fun db => t ∈ db.tombstones → t ∈ s.db.tombstones ∨ t.createdAt = s.actorCounter)
    .inl (fun _ _ => id) (fun _ _ hold hm hnew => (hm.tombstones_new hnew).elim hold .inr) ht

theorem gcState (h : Executed cmd s s') (hcmd : ∀ state, cmd ≠ .setGcState state) :
    s'.db.gcState = s.db.gcState :=
  h.induction (P := fun db => db.gcState = s.db.gcState) rfl (fun _ _ => id)
    fun _ _ hsame hm => (hm.gcState hcmd).trans hsame

end Executed

section Realizes

variable {α : Type} {f : MetaDb → Nat → Except MetaError (α × MetaDb)} {cmd : ActorCmd}

theorem Realizes.executed (h : Realizes f cmd) (o : Oracle) (s : World) :
    Executed cmd s { s with
      db := afterCommand f o s.db s.actorCounter, actorCounter := s.actorCounter + 1 } := by
  refine ⟨?_, rfl, rfl, rfl⟩
  show afterCommand f o s.db s.actorCounter = _ ∨ _
  unfold afterCommand
  rw [h]
  split
  · exact .inl rfl
  · next heq =>
    rw [heq]
    exact .inr rfl
  · next heq =>
    rw [heq]
    exact .inr rfl

theorem Realizes.within (h : Realizes f cmd) : Within (Executed cmd) (metaWrite f).run :=
  within_action fun o s => h.executed o s

end Realizes

def ActorCmd.ofClient : ActorCmd → Bool
  | .reapTombstone _ _ => false
  | .setGcState _ => false
  | _ => true

def ClientStep (s s' : World) : Prop :=
  Quiet s s' ∨ ∃ cmd : ActorCmd, cmd.ofClient = true ∧ Executed cmd s s'

namespace ClientStep

theorem quiet {α : Type} {p : P α} (h : Within Quiet p) : Within ClientStep p :=
  h.mono fun _ _ => .inl

theorem write {α : Type} {f : MetaDb → Nat → Except MetaError (α × MetaDb)} (cmd : ActorCmd)
    (h : Realizes f cmd) (hc : cmd.ofClient = true) : Within ClientStep (metaWrite f).run :=
  h.within.mono fun _ _ he => .inr ⟨cmd, hc, he⟩

theorem gated {α : Type} {t : Tid} {r : SnapshotRef} {x : ExceptT RpcError P α}
    (h : Within ClientStep x.run) :
    Within ClientStep (withCommitGate t (do
      withError RpcError.store (SnapshotStore.registerLiveRef t r)
      x)).run := by
  refine within_withCommitGate (fun s u hg => .inl (Quiet.of_gate s u hg)) ?_
  exact Within.bindE (quiet (within_withError (Quiet.outside (Outside.registerLiveRef t r))))
    fun _ => h

theorem call (opts : StoreOptions) (t : Tid) (c : Call) (hc : c.collects = false)
    (hr : ∀ exp id, c ≠ .reap exp id) : Within ClientStep (c.run opts t) := by
  have hret : ∀ {α : Type} {p : P α} {g : α → Reply}, Within ClientStep p →
      Within ClientStep (do return g (← p)) := fun h => Within.bind h fun _ => Within.ret _
  cases c with
  | ingest pages => exact hret (quiet (Quiet.frame (PageStore.frame_ingest opts t pages)))
  | rotate => exact hret (quiet (Quiet.frame (PageStore.frame_rotateActive opts t)))
  | sync => exact hret (quiet (Quiet.frame (PageStore.frame_sync t)))
  | getBatch hs => exact hret (quiet (Quiet.frame (PageStore.frame_getBatch t hs)))
  | putSnapshot c => exact hret (quiet (Quiet.putSnapshot t c))
  | createNode p => exact hret (gated (within_withError (write _ (realizes_createNode p) rfl)))
  | pin r note =>
    refine hret (Within.bindE (quiet (within_withError (within_observe Quiet.refl))) fun _ =>
      Within.bindE (gated (within_withError (write (.pin r note) ?_ rfl))) fun _ =>
      Within.pureE _)
    exact fun db k => rfl
  | unpin r => exact hret (within_withError (write (.unpin r) (fun db k => rfl) rfl))
  | prune exp id allowRoot =>
    exact hret (within_withError (write (.pruneSubtree exp id allowRoot)
      (fun db k => settle_realizes ..) rfl))
  | updateNodes exp us =>
    exact hret (within_withError (write (.updateNodes exp us)
      (fun db k => settle_realizes ..) rfl))
  | putInputLog logId container =>
    exact hret (within_withError (write (.putInputLog logId container)
      (fun db k => settle_realizes ..) rfl))
  | putMetadata key value expected =>
    exact hret (within_withError (write (.putMetadata key value expected)
      (fun db k => settle_realizes ..) rfl))
  | deleteMetadata key expected =>
    exact hret (within_withError (write (.deleteMetadata key expected)
      (fun db k => settle_realizes ..) rfl))
  | reap exp id => exact absurd rfl (hr exp id)
  | gcCycle go => cases hc
  | sweepPacks so live => cases hc

end ClientStep

end SnapStore
