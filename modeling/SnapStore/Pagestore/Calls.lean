import SnapStore.Gc.Outside
import SnapStore.Pagestore.LockHolder
import SnapStore.System

/-!
# Calls that do not collect

Ingest, rotation, `sync`, reads and the calls of the manifest store keep the invariant of the page
store, whatever the other calls do meanwhile.
-/

namespace SnapStore

open Disk Conc

namespace Sharing

variable [Primitives] {cap : Nat} {collects : Prop} {t : Tid} {s s' : World} {p : PackId}
  {rs : List Entry} {E α : Type} {opts : StoreOptions}

omit [Primitives] in
theorem Apart.of_outside (s s' : World) (h : Outside s s') : Apart s s' :=
  ⟨h.pages, h.index, h.active, h.lock, h.gcPacks⟩

omit [Primitives] in
theorem apart_outside {x : P α} (h : Within Outside x) : Within Apart x := h.mono Apart.of_outside

omit [Primitives] in
theorem apart_reads {x : P α} (h : Prompt Eq x) : Within Apart x := (h.of_eq Apart.refl).within

omit [Primitives] in
theorem apart_gate {x : P α} (h : Within GateMove x) : Within Apart x :=
  apart_outside (h.mono Outside.of_gate)

theorem Holding.apart (h : Apart s s') (hb : Base cap s) (hs : Holding cap t s) :
    Holding cap t s' := by
  obtain ⟨rs, hl, hset⟩ := hs
  exact ⟨rs, h.lock.trans hl, h.undisturbed.settled (h.base hb) hset⟩

theorem holding_apart {x : P α} (h : Within Apart x) :
    Preserves (rules cap collects t) (Holding cap t) x :=
  .of_within h stable_order fun _ _ _ hi hu _ hR =>
    ⟨hR.inv hi, hR.guar, hu.apart hR hi.toBase⟩

abbrev Safe (cap : Nat) (collects : Prop) (t : Tid) (x : P α) : Prop :=
  Preserves (rules cap collects t) (fun _ => True) x

theorem safe_apart {x : P α} (h : Within Apart x) : Safe cap collects t x :=
  .of_within h stable_true fun _ _ _ hi _ _ hR => ⟨hR.inv hi, hR.guar, trivial⟩

theorem safe_withError {E' : Type} {f : E → E'} {x : ExceptT E P α} (h : Safe cap collects t x.run) :
    Safe cap collects t (withError f x).run := Preserves.bind h fun _ => Preserves.ret _

theorem safe_withActive {body : ExceptT E P α}
    (h : Preserves (rules cap collects t) (Holding cap t) body.run) :
    Safe cap collects t (withActive t body).run := by
  intro s hs
  refine wp_mono (fun _ _ _ => trivial) (wpOr_withActive (Q := fun _ _ => True) stable_true hs
    (fun _ => stable_true) (fun _ _ => id) fun u _ _ hu => wp_mono (fun r v hv => ?_) (h _ hu))
  cases r with
  | ok a => exact ⟨hv, trivial⟩
  | error e => exact hv

theorem safe_withCommitGate {body : ExceptT E P α} (h : Safe cap collects t body.run) :
    Safe cap collects t (withCommitGate t body).run :=
  Preserves.bind (safe_apart (apart_gate gateMove_lockGateRead)) fun _ => Preserves.bind h fun _ =>
    Preserves.bind (safe_apart (apart_gate gateMove_unlockGateRead)) fun _ => Preserves.ret _

/-! ## Ingest and rotation -/

theorem holding_flush : Preserves (rules cap collects t) (Holding cap t)
    (PageStore.onWriter fun o w fs => w.flushBuf o fs).run :=
  preserves_iff.mpr fun _ ⟨rs, hs⟩ => wpOr_mono (wpOr_flush hs rfl rfl) fun _ _ hu => ⟨rs, hu.1⟩

theorem holding_rotateLocked (hcap : packHeaderSize ≤ cap) (hopts : opts.maxPackBytes ≤ cap) :
    Preserves (rules cap collects t) (Holding cap t) (PageStore.rotateLocked opts).run :=
  preserves_iff.mpr fun _ ⟨rs, hs⟩ =>
    wpOr_mono (wpOr_rotateLocked hcap hopts hs fun _ _ hu => ⟨rs, hu⟩) fun _ _ hu => ⟨[], hu⟩

theorem safe_rotateActive (hcap : packHeaderSize ≤ cap) (hopts : opts.maxPackBytes ≤ cap) :
    Safe cap collects t (PageStore.rotateActive opts t).run := by
  refine safe_withActive (Preserves.bindE (holding_apart (within_look Apart.refl)) fun a => ?_)
  split
  · exact Preserves.pureE _
  · exact holding_rotateLocked hcap hopts

theorem safe_writeMissing (hcap : packHeaderSize ≤ cap) (hopts : opts.maxPackBytes ≤ cap)
    {pages : List Page} {toWrite : List (PageHash × Nat)}
    (h : ∀ e ∈ toWrite, PageStore.Stands pages e) (outcomes : List (Option IngestOutcome)) :
    Safe cap collects t (PageStore.writeMissing opts t pages outcomes toWrite).run := by
  unfold PageStore.writeMissing
  split
  · exact Preserves.pureE _
  · refine safe_withActive (Preserves.foldlME_mem (fun outcomes e he => ?_) outcomes)
    obtain ⟨page, hpage, hhash⟩ := h e he
    refine preserves_iff.mpr fun s hs => wpOr_ingestOne hcap hopts (fun page' hp => ?_) hs
    rw [hpage] at hp
    obtain rfl := Option.some.inj hp
    exact hhash

theorem safe_ingest (hcap : packHeaderSize ≤ cap) (hopts : opts.maxPackBytes ≤ cap)
    (pages : List Page) : Safe cap collects t (PageStore.ingest opts t pages).run := by
  unfold PageStore.ingest
  split
  · exact Preserves.pureE _
  · refine preserves_iff.mpr fun s hs => wpOr_bind
      (R := fun order _ => ∀ e ∈ order, PageStore.Stands pages e)
      (wpOr_observe stable_true hs (fun o u a _ _ hf => ?_) fun _ _ _ _ => trivial)
      fun order u horder => ?_
    · cases hf
      exact fun e he => PageStore.stands_of_mem_batchDedup (Oracle.mem_walk.mp he)
    refine wpOr_bind (wpOr_foldlM (fun acc rest _ => (∀ e ∈ acc.2, PageStore.Stands pages e) ∧
      ∀ e ∈ rest, PageStore.Stands pages e) (fun acc e rest u hu => ?_) order _ u
      ⟨by simp, horder⟩) fun acc u hu => ?_
    · obtain ⟨hacc, hrest⟩ := hu
      obtain ⟨he, hrest⟩ := List.forall_mem_cons.mp hrest
      refine wpOr_bind (R := fun _ _ => True) (wpOr_read stable_true trivial fun _ _ _ => trivial)
        fun found _ _ => ?_
      split
      · exact wpOr_pure ⟨hacc, hrest⟩
      · refine wpOr_pure ⟨fun e' he' => ?_, hrest⟩
        rcases List.mem_append.mp he' with he' | he'
        · exact hacc e' he'
        · rw [List.mem_singleton.mp he']
          exact he
    · exact wpOr_bind (preserves_iff.mp (safe_writeMissing hcap hopts hu.1 _) u trivial)
        fun outcomes u _ => preserves_iff.mp
          (safe_apart (apart_reads (Prompt.foldlME PageStore.reads_fillOutcome _ _))) u trivial

/-! ## Sync -/

structure Rests (s s' : World) : Prop where
  files : s.pages.Unaliased → s.pages.SameBut (fun _ => False) s'.pages
  index : s'.index = s.index
  writer : s'.active.writer = s.active.writer
  packId : s'.active.packId = s.active.packId
  nextPackId : s'.active.nextPackId = s.active.nextPackId
  lock : s'.activeLock = s.activeLock
  gc : s'.ghost.gcPacks = s.ghost.gcPacks

namespace Rests

theorem diskSound (h : Rests s s') (hd : DiskSound cap s.pages) : DiskSound cap s'.pages :=
  hd.stage (h.files hd.unaliased) fun _ => False.elim

theorem base (h : Rests s s') (hb : Base cap s) : Base cap s' := by
  have hf := h.files hb.disk.unaliased
  refine hb.grow (h.diskSound hb.disk) (fun p => hf.lookup _ id) h.packId h.nextPackId
    (by rw [h.writer]) h.gc h.index fun p b hbytes => ⟨b, ?_, List.prefix_refl b⟩
  rw [World.packBytes, hf.readName id, h.packId, h.writer]
  exact hbytes

theorem settled (h : Rests s s') (hb : Base cap s) (hs : Settled cap rs s) : Settled cap rs s' := by
  have hf := h.files hb.disk.unaliased
  have hcontent : s'.pages.content s.active.writer.file = s.pages.content s.active.writer.file :=
    hf.content (.spk s.active.packId) _ id hb.file
  refine ⟨hs.bounded, hs.writer.imp (fun ho => ⟨?_, ?_, ?_⟩) fun ho => ⟨?_, ?_, ?_⟩,
    fun k l hl => ?_⟩
  · rw [h.writer, hcontent]
    exact ho.holds
  · rw [h.packId, hf.lookup _ id]
    exact ho.idx
  · rw [h.writer]
    exact ho.cap
  · rw [h.writer]
    exact ho.sealed
  · rw [h.writer]
    exact ho.buf
  · rw [h.writer, hcontent]
    exact ho.pack
  · rw [h.packId] at hl
    rw [h.index]
    exact hs.covers k l hl

omit [Primitives] in
theorem compatible (h : Rests s s') (hu : s.pages.Unaliased) : Compatible s s' :=
  ⟨le_of_eq h.packId.symm, h.gc, fun _ _ => .of_frame (h.files hu) h.index fun _ _ => id⟩

end Rests

theorem holding_rests {x : P α} (h : Within Rests x) :
    Preserves (rules cap collects t) (Holding cap t) x :=
  .of_within h stable_order fun _ _ _ hi ⟨rs, hl, hset⟩ _ hR =>
    ⟨.of_locked (hR.base hi.toBase) (hR.lock.trans hl),
      .of_holder hl (hR.lock.trans hl) fun _ => hR.compatible hi.disk.unaliased, rs, hR.lock.trans hl,
      hR.settled hi.toBase hset⟩

theorem safe_sync : Safe cap collects t (PageStore.sync t).run := by
  refine safe_withActive (Preserves.bindE holding_flush fun _ => holding_rests ?_)
  refine PageStore.syncStep_afterFlush.within.mono fun s u h => ?_
  obtain ⟨_, _, _, _, _, _, rfl, rfl | ⟨f, rfl⟩ | rfl⟩ := h
  · exact ⟨.refl, rfl, rfl, rfl, rfl, rfl, rfl⟩
  · exact ⟨fun hu => .fdatasync hu f, rfl, rfl, rfl, rfl, rfl, rfl⟩
  · exact ⟨fun hu => .fsyncDir hu fun _ => true, rfl, rfl, rfl, rfl, rfl, rfl⟩

/-! ## Reads -/

theorem safe_readActive (results : PageStore.Results) (lookups : List PageStore.Lookup) :
    Safe cap collects t (PageStore.readActive t results lookups).run := by
  refine safe_withActive (Preserves.bindE (holding_apart (within_look Apart.refl))
    fun current => ?_)
  dsimp only
  split
  · exact Preserves.pureE _
  · refine Preserves.bindE holding_flush fun _ => holding_apart (Within.bindE
      (Within.foldlME (fun results l => ?_) _ _) fun _ => Within.pureE _)
    exact Within.bindE (within_look Apart.refl) fun f =>
      Within.bindE (within_observe Apart.refl) fun _ => Within.pureE _

theorem safe_getBatch (hashes : List PageHash) :
    Safe cap collects t (PageStore.getBatch t hashes).run := by
  unfold PageStore.getBatch
  split
  · exact Preserves.pureE _
  · refine Preserves.bind (safe_apart (Within.atomic fun _ _ => ⟨rfl, rfl, rfl, rfl, rfl⟩))
      fun _ => Preserves.bind ?_ fun _ => Preserves.bind
        (safe_apart (Within.atomic fun _ _ => ⟨rfl, rfl, rfl, rfl, rfl⟩)) fun _ => Preserves.ret _
    refine Preserves.bindE (safe_apart (Within.foldlME (fun ls e => ?_) _ _)) fun lookups => ?_
    · refine Within.bindE (within_look Apart.refl) fun found => ?_
      split <;> exact Within.pureE _
    · dsimp only
      split
      · exact Preserves.pureE _
      · refine Preserves.bindE (safe_withActive (holding_apart (within_look Apart.refl)))
          fun activeId => Preserves.bindE (safe_apart (apart_outside
            (Outside.of_cache (Prompt.foldlME PageStore.cacheMove_readGroup _ _)))) fun results => ?_
        split
        · exact Preserves.pureE _
        · exact Preserves.bindE (safe_readActive _ _) fun r => safe_apart (apart_outside
            (Outside.of_cache (Prompt.foldlME (fun results l => Prompt.bindE
              (PageStore.cacheMove_readSealedWithRetry _ _) fun _ => Prompt.pureE _) _ _)))

/-! ## Manifests and metadata -/

theorem safe_barrier (hs : List PageHash) {sync : PE Unit} (h : Safe cap collects t sync.run) :
    Safe cap collects t (SnapshotStore.barrier t hs sync).run := by
  have hmove : ∀ u v, SnapshotStore.BarrierMove u v → Apart u v := by
    intro u v hm
    obtain ⟨_, _, _, rfl⟩ := hm
    exact ⟨rfl, rfl, rfl, rfl, rfl⟩
  refine Preserves.bindE (safe_apart (within_action fun o s => hmove _ _ ⟨_, _, _, rfl⟩))
    fun gen => Preserves.bindE (safe_apart (Within.await fun o s b u hf => hmove _ _ ?_))
      fun upTo => ?_
  · split at hf
    · cases hf
      exact ⟨_, _, _, rfl⟩
    · split at hf
      · cases hf
      · cases hf
        exact ⟨_, _, _, rfl⟩
  · split
    · exact Preserves.pureE _
    · exact Preserves.bind h fun _ => Preserves.bind
        (safe_apart (Within.atomic fun _ _ => hmove _ _ ⟨_, _, _, rfl⟩)) fun _ => Preserves.ret _

theorem safe_putSnapshot (c : Bytes) :
    Safe cap collects t (SnapshotStore.putSnapshot t c).run := by
  refine Preserves.bindE (Preserves.ret _) fun m => safe_withCommitGate ?_
  refine Preserves.bindE (safe_apart (apart_reads (SnapshotStore.reads_checkParent m))) fun _ =>
    Preserves.bindE (safe_apart (apart_reads (SnapshotStore.reads_containsBatch _))) fun present => ?_
  dsimp only
  split
  · exact Preserves.throwE _
  · exact Preserves.bindE (safe_withError (safe_barrier _ safe_sync)) fun _ =>
      safe_apart (apart_outside (Outside.of_commit (SnapshotStore.commitMove_commit t c m)))

omit [Primitives] in
theorem apart_metaWrite {f : MetaDb → Nat → Except MetaError (α × MetaDb)} :
    Within Apart (withError RpcError.db (metaWrite f)).run :=
  within_withError (within_action fun _ _ => ⟨rfl, rfl, rfl, rfl, rfl⟩)

theorem apart_gated {x : ExceptT RpcError P α} (r : SnapshotRef) (h : Within Apart x.run) :
    Within Apart (withCommitGate t (do
      withError RpcError.store (SnapshotStore.registerLiveRef t r)
      x)).run :=
  within_withCommitGate (fun u v hg => Apart.of_outside u v (Outside.of_gate u v hg))
    (Within.bindE (within_withError (apart_outside (Outside.registerLiveRef t r))) fun _ => h)

theorem safe_client (hcap : packHeaderSize ≤ cap) (hopts : opts.maxPackBytes ≤ cap) (c : Call)
    (hc : c.collects = false) : Safe cap collects t (c.run opts t) := by
  have hret : ∀ {α : Type} {p : P α} {g : α → Reply}, Safe cap collects t p →
      Safe cap collects t (do return g (← p)) := fun h => Preserves.bind h fun _ => Preserves.ret _
  cases c with
  | ingest pages => exact hret (safe_ingest hcap hopts pages)
  | rotate => exact hret (safe_rotateActive hcap hopts)
  | sync => exact hret safe_sync
  | getBatch hs => exact hret (safe_getBatch hs)
  | putSnapshot c => exact hret (safe_putSnapshot c)
  | createNode p => exact hret (safe_apart (apart_gated _ apart_metaWrite))
  | pin r note =>
    exact hret (safe_apart (Within.bindE (within_withError (within_observe Apart.refl)) fun _ =>
      Within.bindE (apart_gated r apart_metaWrite) fun _ => Within.pureE _))
  | unpin r => exact hret (safe_apart apart_metaWrite)
  | prune exp id allowRoot => exact hret (safe_apart apart_metaWrite)
  | updateNodes exp us => exact hret (safe_apart apart_metaWrite)
  | putInputLog logId container => exact hret (safe_apart apart_metaWrite)
  | putMetadata key value expected => exact hret (safe_apart apart_metaWrite)
  | deleteMetadata key expected => exact hret (safe_apart apart_metaWrite)
  | reap exp id => exact hret (safe_apart apart_metaWrite)
  | gcCycle go => cases hc
  | sweepPacks so live => cases hc

end Sharing

end SnapStore
