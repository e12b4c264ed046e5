import SnapStore.Conc.Locks
import SnapStore.Gc.ProtocolSteps

/-!
# Programs outside the protocol

What a step of the page store, of a read and of a sync can do.  None of them touches the state of
the commit protocol; an ingest only adds entries to the index.
-/

namespace SnapStore

open Disk Conc

def World.protocolPart (s : World) :=
  (s.manifests, s.epoch, s.gate, s.db, s.shardDirs, s.ghost.publishing, s.ghost.dangling,
    s.ghost.registered, s.ghost.sweeping, s.actorCounter, s.ghost.running, s.ghost.finished)

def World.lockPart (s : World) :=
  (s.gate.writer, s.ghost.flusher, s.activeLock, s.commit.flushing)

theorem Frame.of_part {s s' : World} (h : s'.protocolPart = s.protocolPart)
    (hix : ∀ h, Indexed s h → Indexed s' h) : Frame s s' := by
  simp only [World.protocolPart, Prod.mk.injEq] at h
  obtain ⟨h₁, h₂, h₃, h₄, h₅, h₆, h₇, h₈, h₉, h₁₀, h₁₁, h₁₂⟩ := h
  exact ⟨h₁, h₂, h₃, h₄, h₅, h₆, h₇, h₈, h₉, h₁₀, h₁₁, h₁₂, hix⟩

theorem Frame.refl (s : World) : Frame s s := .of_part rfl fun _ => id

structure PackMove (s u : World) : Prop where
  protocol : u.protocolPart = s.protocolPart
  locks : u.lockPart = s.lockPart
  index : u.index = s.index

theorem PackMove.refl (s : World) : PackMove s s := ⟨rfl, rfl, rfl⟩

theorem PackMove.frame {s u : World} (h : PackMove s u) : Frame s u :=
  .of_part h.protocol fun k hk => by rwa [Indexed, h.index]

def PagesMove (s u : World) : Prop :=
  ∃ fs, u = { s with pages := fs } ∧ ∀ p, fs.lookup (.spk p) = s.pages.lookup (.spk p)

theorem PagesMove.refl (s : World) : PagesMove s s := ⟨_, rfl, fun _ => rfl⟩

theorem PagesMove.packMove (s u : World) (h : PagesMove s u) : PackMove s u := by
  obtain ⟨_, rfl, -⟩ := h
  exact ⟨rfl, rfl, rfl⟩

def CacheMove (s u : World) : Prop := ∃ c, u = { s with readCache := c }

theorem CacheMove.refl (s : World) : CacheMove s s := ⟨_, rfl⟩

theorem CacheMove.packMove (s u : World) (h : CacheMove s u) : PackMove s u := by
  obtain ⟨_, rfl⟩ := h
  exact ⟨rfl, rfl, rfl⟩

section Combinators

variable {E E' α : Type} {R : World → World → Prop}

theorem prompt_action {f : Oracle → World → Except E α × World} (h : ∀ o s, R s (f o s).2) :
    Prompt R (action f).run := Prompt.atomic h

theorem prompt_attempt {f : Oracle → World → Except E (α × World)} (hrefl : ∀ s, R s s)
    (h : ∀ o s a u, f o s = .ok (a, u) → R s u) : Prompt R (attempt f).run := by
  refine prompt_action fun o s => ?_
  cases hf : f o s with
  | error e => exact hrefl s
  | ok x => exact h o s x.1 x.2 hf

theorem reads_observe (f : Oracle → World → Except E α) : Prompt Eq (observe f).run :=
  Prompt.atomic fun _ _ => rfl

theorem reads_look (f : World → α) : Prompt Eq (look f : ExceptT E P α).run :=
  Prompt.atomic fun _ _ => rfl

theorem prompt_change {f : World → World} (h : ∀ s, R s (f s)) :
    Prompt R (change (E := E) f).run := Prompt.atomic fun _ s => h s

theorem prompt_withError {f : E → E'} {x : ExceptT E P α} (h : Prompt R x.run) :
    Prompt R (withError f x).run := Prompt.bind h fun _ => True.intro

theorem within_action {f : Oracle → World → Except E α × World} (h : ∀ o s, R s (f o s).2) :
    Within R (action f).run := Within.atomic h

theorem within_observe {f : Oracle → World → Except E α} (h : ∀ s, R s s) :
    Within R (observe f).run := Within.atomic fun _ s => h s

theorem within_attempt {f : Oracle → World → Except E (α × World)} (hrefl : ∀ s, R s s)
    (h : ∀ o s a u, f o s = .ok (a, u) → R s u) : Within R (attempt f).run :=
  (prompt_attempt hrefl h).within

theorem within_look {f : World → α} (h : ∀ s, R s s) : Within R (look (E := E) f).run :=
  Within.atomic fun _ s => h s

theorem within_change {f : World → World} (h : ∀ s, R s (f s)) : Within R (change (E := E) f).run :=
  Within.atomic fun _ s => h s

theorem within_withError {f : E → E'} {x : ExceptT E P α} (h : Within R x.run) :
    Within R (withError f x).run := Within.bind h fun _ => True.intro

theorem within_withActive {t : Tid} {body : ExceptT E P α}
    (hlock : ∀ s, R s { s with activeLock := some t }) (hunlock : ∀ s, R s { s with activeLock := none })
    (h : Within R body.run) : Within R (withActive t body).run := by
  refine Within.bind (Within.await ?_) fun _ => Within.bind h fun _ => Within.bind
    (Within.atomic fun _ s => hunlock s) fun _ => True.intro
  intro o s b u hf
  cases hl : s.activeLock with
  | some v => simp [hl] at hf
  | none =>
    simp only [hl, Option.some.injEq, Prod.mk.injEq] at hf
    obtain ⟨-, rfl⟩ := hf
    exact hlock s

theorem wp_withError {g : E → E'} {x : ExceptT E P α} {ρ : Rules Oracle World} {s : World}
    {R : Except E' α → World → Prop}
    (h : wp ρ x.run (fun r s => R (r.mapError g) s) s) : wp ρ (withError g x).run R s :=
  wp_bind (wp_mono (fun _ _ hr => hr) h)

theorem wp_ofExcept {g : E → E'} {x : Except E α} {ρ : Rules Oracle World}
    {s : World}
    {R : Except E' α → World → Prop} (h : R (x.mapError g) s) : wp ρ (ofExcept g x).run R s := h

end Combinators

theorem frame_of {α : Type} {p : P α} (h : Prompt PackMove p) : Within Frame p :=
  h.within.mono fun _ _ => PackMove.frame

theorem frame_of_cache {α : Type} {p : P α} (h : Prompt CacheMove p) : Within Frame p :=
  frame_of (h.mono CacheMove.packMove)

theorem frame_of_reads {α : Type} {p : P α} (h : Prompt Eq p) : Within Frame p :=
  (h.of_eq Frame.refl).within

theorem frame_withActive {E α : Type} {t : Tid} {body : ExceptT E P α} (h : Within Frame body.run) :
    Within Frame (withActive t body).run :=
  within_withActive (fun _ => .of_part rfl fun _ => id) (fun _ => .of_part rfl fun _ => id) h

namespace PageStore

/-! ## Writers and packs -/

theorem packMove_onWriter {α : Type}
    (f : Oracle → PackWriter → PagesFs → Except PackError α × PackWriter × PagesFs) :
    Prompt PackMove (onWriter f).run := prompt_action fun _ _ => ⟨rfl, rfl, rfl⟩

theorem packMove_withWriter {α : Type} (w : PackWriter)
    (f : Oracle → PackWriter → PagesFs → Except PackError α × PackWriter × PagesFs) :
    Prompt PackMove (withWriter w f).run := prompt_action fun o s => by
  split <;> exact ⟨rfl, rfl, rfl⟩

theorem reads_packEntries (p : PackId) : Prompt Eq (packEntries p).run :=
  Prompt.foldlME (fun _ _ => Prompt.bindE (reads_look _) fun _ => Prompt.pureE _) _ _

theorem packMove_createPackFile (p : PackId) : Prompt PackMove (createPackFile p).run := by
  refine prompt_attempt PackMove.refl fun o s a u hf => ?_
  split at hf <;> cases hf
  exact ⟨rfl, rfl, rfl⟩

theorem packMove_writePackHeader (f : Ino) (p : PackId) :
    Prompt PackMove (writePackHeader f p).run := prompt_action fun o s => by
  dsimp only
  split <;> exact ⟨rfl, rfl, rfl⟩

theorem packMove_allocPackId {note : PackId → Ghost → Ghost}
    (h : ∀ (s : World) p a, PackMove s { s with active := a, ghost := note p s.ghost }) :
    Prompt PackMove (allocPackId note).run := by
  refine prompt_attempt PackMove.refl fun o s a u hf => ?_
  split at hf <;> cases hf
  exact h s _ _

theorem cacheMove_invalidate (p : PackId) : Prompt CacheMove (invalidate p).run :=
  prompt_change fun _ => ⟨_, rfl⟩

theorem cacheMove_getOrOpen (p : PackId) : Prompt CacheMove (getOrOpen p).run := by
  refine Prompt.bindE (prompt_action fun o s => ⟨_, rfl⟩) fun cached => ?_
  split
  · exact Prompt.pureE _
  · exact Prompt.bindE ((reads_observe _).of_eq CacheMove.refl) fun f =>
      Prompt.bindE (prompt_change fun s => ⟨_, rfl⟩) fun _ => Prompt.pureE _

theorem packMove_fsyncPagesDir : Prompt PackMove fsyncPagesDir.run := by
  refine prompt_attempt PackMove.refl fun o s a u hf => ?_
  split at hf <;> cases hf
  exact ⟨rfl, rfl, rfl⟩

theorem packMove_fdatasyncFile (f : Ino) : Prompt PackMove (fdatasyncFile f).run := by
  refine prompt_attempt PackMove.refl fun o s a u hf => ?_
  split at hf <;> cases hf
  exact ⟨rfl, rfl, rfl⟩

theorem packMove_removeFileIfExists (a : Area) (n : PageFile) :
    Prompt PackMove (removeFileIfExists a n).run := by
  refine prompt_attempt PackMove.refl fun o s a u hf => ?_
  split at hf <;> cases hf
  · exact PackMove.refl s
  · cases n <;> exact ⟨rfl, rfl, rfl⟩

theorem frame_deletePack (t : Tid) (p : PackId) : Within Frame (deletePack t p).run :=
  Within.bindE (frame_withActive (within_change fun _ => .of_part rfl fun _ => id)) fun _ =>
    frame_of (Prompt.bindE (packMove_removeFileIfExists _ _) fun _ =>
      Prompt.bindE (packMove_removeFileIfExists _ _) fun _ => packMove_fsyncPagesDir)

theorem frame_activePackId (t : Tid) : Within Frame (activePackId t).run :=
  frame_withActive (within_look Frame.refl)

theorem frame_sealedPackIds (t : Tid) : Within Frame (sealedPackIds t).run :=
  Within.bindE (frame_activePackId t) fun _ =>
    Within.bindE (within_observe Frame.refl) fun _ => Within.pureE _

theorem frame_createGcPack (opts : StoreOptions) (t : Tid) :
    Within Frame (createGcPack opts t).run :=
  Within.bindE (frame_withActive (frame_of (packMove_allocPackId fun _ _ _ => ⟨rfl, rfl, rfl⟩)))
    fun _ => frame_of (Prompt.bindE (packMove_createPackFile _) fun _ =>
      Prompt.bindE (packMove_writePackHeader _ _) fun _ => Prompt.pureE _)

/-! ## Syncs -/

def SyncStep (s u : World) : Prop := ∃ fs dirty new inflight acked n,
  u = { s with
    pages := fs
    active := { s.active with dirtySinceSync := dirty, newFilesSinceSync := new }
    ghost := { s.ghost with inflight := inflight, acked := acked, covered := n } } ∧
  (fs = s.pages ∨ (∃ f, fs = s.pages.fdatasync f) ∨ fs = s.pages.fsyncDir fun _ => true)

theorem SyncStep.refl (s : World) : SyncStep s s := ⟨_, _, _, _, _, _, rfl, .inl rfl⟩

theorem SyncStep.packMove (s u : World) (h : SyncStep s u) : PackMove s u := by
  obtain ⟨_, _, _, _, _, _, rfl, -⟩ := h
  exact ⟨rfl, rfl, rfl⟩

theorem syncStep_fdatasyncPack (p : PackId) : Prompt SyncStep (fdatasyncPack p).run := by
  refine Prompt.bindE ((reads_observe _).of_eq SyncStep.refl) fun f =>
    prompt_attempt SyncStep.refl fun o s a u hf => ?_
  split at hf <;> cases hf
  exact ⟨_, _, _, _, _, _, rfl, .inr (.inl ⟨f, rfl⟩)⟩

theorem syncStep_syncNewFiles : Prompt SyncStep syncNewFiles.run := by
  refine Prompt.bindE ((reads_look _).of_eq SyncStep.refl) fun new => ?_
  split
  · refine prompt_attempt SyncStep.refl fun o s a u hf => ?_
    split at hf <;> cases hf
    exact ⟨_, _, _, _, _, _, rfl, .inr (.inr rfl)⟩
  · exact Prompt.pureE _

theorem syncStep_afterFlush : Prompt SyncStep (do
    let dirty ← takeDirty
    dirty.foldlM (fun _ p => fdatasyncPack p) ()
    syncNewFiles
    change fun s => { s with ghost := { s.ghost with
      acked := s.ghost.fresh ++ s.ghost.acked
      covered := s.commit.pendingGen } } : PE Unit).run :=
  Prompt.bindE (prompt_action fun _ _ => ⟨_, _, _, _, _, _, rfl, .inl rfl⟩) fun _ =>
    Prompt.bindE (Prompt.foldlME (fun _ p => syncStep_fdatasyncPack p) _ _) fun _ =>
      Prompt.bindE syncStep_syncNewFiles fun _ =>
        prompt_change fun _ => ⟨_, _, _, _, _, _, rfl, .inl rfl⟩

def SyncMove (s u : World) : Prop :=
  ∃ fs a l dirty acked n, u = { s with
    pages := fs
    active := a
    activeLock := l
    ghost := { s.ghost with inflight := dirty, acked := acked, covered := n } }

theorem syncMove_sync (t : Tid) : Within SyncMove (sync t).run := by
  refine within_withActive (fun _ => ⟨_, _, _, _, _, _, rfl⟩) (fun _ => ⟨_, _, _, _, _, _, rfl⟩)
    (Within.bindE (within_action fun _ _ => ⟨_, _, _, _, _, _, rfl⟩) fun _ =>
      syncStep_afterFlush.within.mono fun s u h => ?_)
  obtain ⟨_, _, _, _, _, _, rfl, -⟩ := h
  exact ⟨_, _, _, _, _, _, rfl⟩

theorem frame_sync (t : Tid) : Within Frame (sync t).run := by
  refine (syncMove_sync t).mono fun s u h => ?_
  obtain ⟨_, _, _, _, _, _, rfl⟩ := h
  exact .of_part rfl fun _ => id

theorem frame_asBatchRead {α : Type} (t : Tid) (hs : List PageHash) {body : PE α}
    (h : Within Frame body.run) : Within Frame (asBatchRead t hs body).run :=
  Within.bind (Within.atomic fun _ _ => .of_part rfl fun _ => id) fun _ => Within.bind h fun _ =>
    Within.bind (Within.atomic fun _ _ => .of_part rfl fun _ => id) fun _ => Within.ret _

/-! ## Ingest -/

structure IngestMove (s u : World) : Prop where
  protocol : u.protocolPart = s.protocolPart
  locks : u.lockPart = s.lockPart
  indexed : ∀ h, Indexed s h → Indexed u h

theorem IngestMove.refl (s : World) : IngestMove s s := ⟨rfl, rfl, fun _ => id⟩

theorem PackMove.ingestMove (s u : World) (h : PackMove s u) : IngestMove s u :=
  ⟨h.protocol, h.locks, h.frame.indexed⟩

theorem indexed_insert {s : World} {k : PageHash} {loc : PageLoc} {h : PageHash}
    (hi : Indexed s h) : ((s.index.insert k loc).get h).isSome = true := by
  rw [Index.get_insert]
  split
  · rfl
  · exact hi

theorem ingestMove_writeEntry (pages : List Page) (outcomes : List (Option IngestOutcome))
    (e : PageHash × Nat) : Prompt IngestMove (writeEntry pages outcomes e).run := by
  unfold writeEntry
  split
  · exact Prompt.throwE _
  · exact Prompt.bindE (Prompt.bindE ((packMove_onWriter _).mono PackMove.ingestMove) fun _ =>
      prompt_action fun o s => ⟨rfl, rfl, fun _ => indexed_insert⟩) fun _ => Prompt.pureE _

theorem reads_probe (acc : List (Option IngestOutcome) × List (PageHash × Nat))
    (e : PageHash × Nat) : Prompt Eq (probe acc e).run := by
  refine Prompt.bindE (reads_look _) fun found => ?_
  split <;> exact Prompt.pureE _

theorem reads_fillOutcome (out : List IngestOutcome) (e : PageHash × Option IngestOutcome) :
    Prompt Eq (fillOutcome out e).run := by
  unfold fillOutcome
  split
  · exact Prompt.pureE _
  · refine Prompt.bindE (reads_look _) fun found => ?_
    split
    · exact Prompt.pureE _
    · exact Prompt.throwE _

variable [Primitives]

theorem pagesMove_writeSidecarEntries (p : PackId) (es : List (PageHash × PageLoc)) :
    Prompt PagesMove (writeSidecarEntries p es).run := by
  refine prompt_withError (Prompt.bindE (prompt_attempt PagesMove.refl fun o s a u hf => ?_) fun f =>
    Prompt.bindE (prompt_action fun o s => ?_) fun _ =>
      Prompt.bindE (prompt_attempt PagesMove.refl fun o s a u hf => ?_) fun _ =>
        prompt_attempt PagesMove.refl fun o s a u hf => ?_)
  · split at hf <;> cases hf
    exact ⟨_, rfl, fun q => FileSys.lookup_openTruncate_ne (by simp)⟩
  · split <;> exact ⟨_, rfl, fun _ => rfl⟩
  · split at hf <;> cases hf
    exact ⟨_, rfl, fun _ => rfl⟩
  · split at hf <;> cases hf
    exact ⟨_, rfl, fun q => by simp [FileSys.lookup_rename]⟩

theorem packMove_writeSidecarEntries (p : PackId) (es : List (PageHash × PageLoc)) :
    Prompt PackMove (writeSidecarEntries p es).run :=
  (pagesMove_writeSidecarEntries p es).mono PagesMove.packMove

theorem packMove_sealActiveNoSync : Prompt PackMove sealActiveNoSync.run := by
  refine Prompt.bindE ((reads_look _).of_eq PackMove.refl) fun b => ?_
  split
  · exact Prompt.throwE _
  · exact Prompt.bindE (packMove_onWriter _) fun _ => packMove_onWriter _

theorem packMove_rotateLocked (opts : StoreOptions) : Prompt PackMove (rotateLocked opts).run :=
  Prompt.bindE ((reads_look _).of_eq PackMove.refl) fun old =>
    Prompt.bindE (prompt_change fun _ => ⟨rfl, rfl, rfl⟩) fun _ =>
      Prompt.bindE packMove_sealActiveNoSync fun _ =>
        Prompt.bindE ((reads_packEntries old).of_eq PackMove.refl) fun es =>
          Prompt.bindE (packMove_writeSidecarEntries old es) fun _ =>
            Prompt.bindE (packMove_allocPackId fun _ _ _ => ⟨rfl, rfl, rfl⟩) fun new =>
              Prompt.bindE (packMove_createPackFile new) fun f =>
                Prompt.bindE (packMove_writePackHeader f new) fun _ =>
                  Prompt.bindE (prompt_change fun _ => ⟨rfl, rfl, rfl⟩) fun _ => Prompt.pureE _

theorem frame_rotateActive (opts : StoreOptions) (t : Tid) :
    Within Frame (rotateActive opts t).run := by
  refine frame_withActive (Within.bindE (within_look Frame.refl) fun a => ?_)
  split
  · exact Within.pureE _
  · exact frame_of (packMove_rotateLocked opts)

theorem ingestMove_ingestOne (opts : StoreOptions) (pages : List Page)
    (outcomes : List (Option IngestOutcome)) (e : PageHash × Nat) :
    Prompt IngestMove (ingestOne opts pages outcomes e).run := by
  refine Prompt.bindE ((reads_look _).of_eq IngestMove.refl) fun found => ?_
  split
  · exact Prompt.pureE _
  · refine Prompt.bindE ((reads_look _).of_eq IngestMove.refl) fun full => ?_
    dsimp only
    split
    · exact Prompt.bindE ((packMove_rotateLocked opts).mono PackMove.ingestMove) fun _ =>
        ingestMove_writeEntry pages outcomes e
    · exact ingestMove_writeEntry pages outcomes e

theorem frame_ingest (opts : StoreOptions) (t : Tid) (pages : List Page) :
    Within Frame (ingest opts t pages).run := by
  unfold ingest
  split
  · exact Within.pureE _
  · refine Within.bindE (within_observe Frame.refl) fun order =>
      Within.bindE (frame_of_reads (Prompt.foldlME reads_probe _ _)) fun found =>
        Within.bindE ?_ fun outcomes => frame_of_reads (Prompt.foldlME reads_fillOutcome _ _)
    unfold writeMissing
    split
    · exact Within.pureE _
    · exact frame_withActive ((Prompt.foldlME (ingestMove_ingestOne opts pages) _ _).within.mono
        fun _ _ h => .of_part h.protocol h.indexed)

/-! ## Reads -/

theorem cacheMove_readFromCachedHandle (h : PageHash) (loc : PageLoc) :
    Prompt CacheMove (readFromCachedHandle h loc).run := by
  refine Prompt.bindE (Prompt.bind (cacheMove_getOrOpen _) fun r => ?_) fun f =>
    (reads_observe _).of_eq CacheMove.refl
  split <;> exact Prompt.ret _

theorem cacheMove_readSealedWithRetry (h : PageHash) (loc : PageLoc) :
    Prompt CacheMove (readSealedWithRetry h loc).run := by
  refine Prompt.bind (cacheMove_readFromCachedHandle h loc) fun r => ?_
  split
  · exact Prompt.ret _
  · split
    · refine Prompt.bindE (cacheMove_invalidate _) fun _ =>
        Prompt.bindE ((reads_look _).of_eq CacheMove.refl) fun found => ?_
      split
      · exact Prompt.pureE _
      · split
        · exact Prompt.throwE _
        · exact Prompt.bindE (cacheMove_readFromCachedHandle _ _) fun _ => Prompt.pureE _
    · exact Prompt.ret _

theorem cacheMove_readGroup (results : Results) (group : List Lookup) :
    Prompt CacheMove (readGroup results group).run := by
  unfold readGroup
  split
  · exact Prompt.pureE _
  · refine Prompt.bind (cacheMove_getOrOpen _) fun r => ?_
    split
    · exact Prompt.foldlME (fun _ _ => Prompt.bindE ((reads_observe _).of_eq CacheMove.refl) fun _ =>
        Prompt.pureE _) _ _
    · exact Prompt.foldlME (fun _ _ => Prompt.bindE (cacheMove_readSealedWithRetry _ _) fun _ =>
        Prompt.pureE _) _ _

theorem frame_readActive (t : Tid) (results : Results) (lookups : List Lookup) :
    Within Frame (readActive t results lookups).run := by
  refine frame_withActive (Within.bindE (within_look Frame.refl) fun current => ?_)
  dsimp only
  split
  · exact Within.pureE _
  · refine Within.bindE (frame_of (packMove_onWriter _)) fun _ =>
      Within.bindE (Within.foldlME (fun _ _ => ?_) _ _) fun _ => Within.pureE _
    exact Within.bindE (within_look Frame.refl) fun _ =>
      Within.bindE (within_observe Frame.refl) fun _ => Within.pureE _

theorem frame_getBatch (t : Tid) (hs : List PageHash) : Within Frame (getBatch t hs).run := by
  unfold getBatch
  split
  · exact Within.pureE _
  · refine frame_asBatchRead t hs (Within.bindE (Within.foldlME (fun _ _ => ?_) _ _) fun lookups => ?_)
    · refine Within.bindE (within_look Frame.refl) fun loc => ?_
      split <;> exact Within.pureE _
    dsimp only
    split
    · exact Within.pureE _
    · refine Within.bindE (frame_withActive (within_look Frame.refl)) fun active => Within.bindE
        (frame_of_cache (Prompt.foldlME (fun _ _ => cacheMove_readGroup _ _) _ _)) fun results => ?_
      split
      · exact Within.pureE _
      · exact Within.bindE (frame_readActive _ _ _) fun _ => frame_of_cache (Prompt.foldlME (fun _ _ =>
          Prompt.bindE (cacheMove_readSealedWithRetry _ _) fun _ => Prompt.pureE _) _ _)

theorem packMove_sealAndPublish (w : GcPackWriter) : Prompt PackMove w.sealAndPublish.run := by
  refine Prompt.bindE ?_ fun _ =>
    Prompt.bindE (packMove_writeSidecarEntries _ _) fun _ => Prompt.pureE _
  unfold sealWriter
  split
  · exact Prompt.throwE _
  · exact Prompt.bindE (packMove_withWriter _ _) fun _ => Prompt.bindE (packMove_fdatasyncFile _)
      fun _ => Prompt.bindE (packMove_withWriter _ _) fun _ =>
        Prompt.bindE (packMove_fdatasyncFile _) fun _ => Prompt.pureE _

end PageStore

namespace Gc

variable [Primitives]

theorem packMove_copyRecord (w : PageStore.GcPackWriter) (e : PageHash × PageLoc) :
    Prompt PackMove (copyRecord w e).run := by
  refine Prompt.bindE (prompt_withError
    ((PageStore.cacheMove_readFromCachedHandle _ _).mono CacheMove.packMove)) fun payload => ?_
  split
  · exact prompt_withError (Prompt.bindE (PageStore.packMove_withWriter _ _) fun _ => Prompt.pureE _)
  · exact Prompt.throwE _

theorem frame_copyRecords (opts : StoreOptions) (t : Tid) (es : List (PageHash × PageLoc)) :
    Within Frame (copyRecords opts t es).run :=
  Within.bindE (within_withError (PageStore.frame_createGcPack opts t)) fun _ =>
    frame_of (Prompt.bindE (Prompt.foldlME (fun _ _ => packMove_copyRecord _ _) _ _) fun _ =>
      Prompt.bindE (prompt_withError (PageStore.packMove_sealAndPublish _)) fun _ => Prompt.pureE _)

end Gc

namespace SnapshotStore

def BarrierMove (s u : World) : Prop :=
  ∃ c demand flusher, u = { s with
    commit := c
    ghost := { s.ghost with demand := demand, flusher := flusher } }

theorem within_barrier {R : World → World → Prop} (hR : ∀ s u, BarrierMove s u → R s u) (t : Tid)
    (hs : List PageHash) {sync : PE Unit} (h : Within R sync.run) :
    Within R (barrier t hs sync).run := by
  refine Within.bindE (within_action fun o s => hR _ _ ⟨_, _, _, rfl⟩) fun gen =>
    Within.bindE (Within.await fun o s b u hf => hR _ _ ?_) fun upTo => ?_
  · split at hf
    · cases hf
      exact ⟨_, _, _, rfl⟩
    · split at hf
      · cases hf
      · cases hf
        exact ⟨_, _, _, rfl⟩
  · split
    · exact Within.pureE _
    · exact Within.bind h fun _ =>
        Within.bind (Within.atomic fun _ _ => hR _ _ ⟨_, _, _, rfl⟩) fun _ => Within.ret _

theorem frame_barrier (t : Tid) (hs : List PageHash) {sync : PE Unit} (h : Within Frame sync.run) :
    Within Frame (barrier t hs sync).run := by
  refine within_barrier (fun s u hm => ?_) t hs h
  obtain ⟨_, _, _, rfl⟩ := hm
  exact .of_part rfl fun _ => id

theorem within_walkManifestCounters {R : World → World → Prop} (hR : ∀ s, R s s) :
    Within R walkManifestCounters :=
  Within.bind (Within.atomic fun _ s => hR s) fun _ => Within.foldlM (fun _ _ =>
    Within.bind (Within.atomic fun _ s => hR s) fun _ =>
      Within.foldlM (fun _ _ => Within.atomic fun _ s => hR s) _ _) _ _

theorem reads_containsBatch {E : Type} (hs : List PageHash) :
    Prompt Eq (containsBatch (E := E) hs).run :=
  Prompt.foldlME (fun _ _ => Prompt.bindE (reads_look _) fun _ => Prompt.pureE _) _ _

end SnapshotStore

/-! ## Recovery -/

namespace PageStore

theorem packMove_createActive (opts : StoreOptions) (p : PackId) :
    Prompt PackMove (createActive opts p).run :=
  Prompt.bindE (packMove_createPackFile p) fun f =>
    Prompt.bindE (packMove_writePackHeader f p) fun _ => Prompt.pureE _

theorem reads_succPackId (p : PackId) : Prompt Eq (succPackId p).run := by
  unfold succPackId
  split
  · exact Prompt.pureE _
  · exact Prompt.throwE _

theorem reads_freshPackId (ids : List PackId) : Prompt Eq (freshPackId ids).run := by
  unfold freshPackId
  split
  · exact reads_succPackId _
  · exact Prompt.pureE _

theorem packMove_removeRunt (kept : List PackId) (p : PackId) :
    Prompt PackMove (removeRunt kept p).run := by
  refine prompt_attempt PackMove.refl fun o s a u hf => ?_
  split at hf
  · cases hf
    exact PackMove.refl s
  · split at hf
    · split at hf <;> cases hf <;> exact ⟨rfl, rfl, rfl⟩
    · cases hf
      exact PackMove.refl s

variable [Primitives]

theorem pagesMove_openUnsealed (p : PackId) : Prompt PagesMove (openUnsealed p).run := by
  refine Prompt.bindE ((reads_observe _).of_eq PagesMove.refl) fun x => ?_
  have htrunc : Prompt PagesMove (truncatePack p x.1).run := by
    refine prompt_attempt PagesMove.refl fun o s a u hf => ?_
    split at hf <;> cases hf
    exact ⟨_, rfl, fun _ => rfl⟩
  dsimp only
  split
  · exact Prompt.bindE htrunc fun _ => Prompt.pureE _
  · exact Prompt.pureE _

theorem pagesMove_sealOld (ix : Index) (p : PackId) : Prompt PagesMove (sealOld ix p).run := by
  refine Prompt.bindE (Prompt.bindE (pagesMove_openUnsealed p) fun bodyEnd =>
    Prompt.bindE ((reads_observe _).of_eq PagesMove.refl) fun records =>
    Prompt.bindE ((reads_observe _).of_eq PagesMove.refl) fun body =>
    Prompt.bindE (prompt_action fun o s => ?_) fun f =>
    Prompt.bindE (prompt_attempt PagesMove.refl fun o s a u hf => ?_) fun _ => Prompt.pureE _)
    fun es => Prompt.bindE (pagesMove_writeSidecarEntries p es) fun _ => Prompt.pureE _
  · split
    · exact PagesMove.refl s
    · exact ⟨_, rfl, fun _ => rfl⟩
    · exact ⟨_, rfl, fun _ => rfl⟩
  · split at hf <;> cases hf
    exact ⟨_, rfl, fun _ => rfl⟩

theorem pagesMove_loadSealed (ix : Index) (p : PackId) :
    Prompt PagesMove (loadSealed ix p).run := by
  refine Prompt.bindE ((reads_observe _).of_eq PagesMove.refl) fun es => ?_
  split
  · exact Prompt.pureE _
  · exact Prompt.bindE ((reads_observe _).of_eq PagesMove.refl) fun es =>
      Prompt.bindE (pagesMove_writeSidecarEntries p es) fun _ => Prompt.pureE _

theorem packMove_openActive (opts : StoreOptions) (ids unsealed : List PackId) (ix : Index) :
    Prompt PackMove (openActive opts ids unsealed ix).run := by
  have hsucc := fun p => (reads_succPackId p).of_eq PackMove.refl
  unfold openActive
  split
  · exact Prompt.bindE (Prompt.bindE ((pagesMove_openUnsealed _).mono PagesMove.packMove) fun _ =>
      Prompt.bindE ((reads_observe _).of_eq PackMove.refl) fun _ =>
      Prompt.bindE ((reads_observe _).of_eq PackMove.refl) fun _ => Prompt.pureE _) fun _ =>
      Prompt.bindE (hsucc _) fun _ => Prompt.pureE _
  · exact Prompt.bindE ((reads_freshPackId ids).of_eq PackMove.refl) fun id =>
      Prompt.bindE (packMove_createActive opts id) fun _ =>
      Prompt.bindE (hsucc id) fun _ => Prompt.pureE _

theorem packMove_openPages (opts : StoreOptions) : Prompt PackMove (openPages opts).run :=
  Prompt.bindE ((reads_observe _).of_eq PackMove.refl) fun _ =>
    Prompt.bindE (Prompt.foldlME packMove_removeRunt _ _) fun ids =>
    Prompt.bindE ((Prompt.foldlME (fun _ _ => Prompt.bindE (reads_look _) fun _ =>
      Prompt.pureE _) _ _).of_eq PackMove.refl) fun _ =>
    Prompt.bindE ((Prompt.foldlME pagesMove_sealOld _ _).mono PagesMove.packMove) fun _ =>
    Prompt.bindE ((Prompt.foldlME pagesMove_loadSealed _ _).mono PagesMove.packMove) fun ix =>
    packMove_openActive opts ids _ ix

end PageStore

namespace SnapshotStore

section Open

variable {R : World → World → Prop} (hrefl : ∀ s, R s s)
  (hclean : ∀ (s : World) r, R s { s with manifests := s.manifests.unlink (.tmp r) })

include hrefl hclean

theorem within_cleanTmpDir : Within R cleanTmpDir.run := by
  refine Within.bindE (within_observe hrefl) fun names => Within.foldlME (fun _ r => ?_) _ _
  refine within_attempt hrefl fun o s a u hf => ?_
  split at hf <;> cases hf
  · exact hrefl s
  · exact hclean s r

variable [Primitives] (hframe : ∀ s u, Frame s u → R s u)

include hframe

theorem within_opened (opts : StoreOptions) :
    Within R (do cleanTmpDir; PageStore.openPages opts : PE _).run :=
  Within.bindE (within_cleanTmpDir hrefl hclean) fun _ =>
    (frame_of (PageStore.packMove_openPages opts)).mono hframe

theorem within_openStore (opts : StoreOptions)
    (hinstall : ∀ ix a counters s, R s (install opts ix a counters s)) :
    Within R (openStore opts) := by
  refine Within.bind (within_opened hrefl hclean hframe opts) fun opened => ?_
  cases opened with
  | error e => exact Within.ret _
  | ok x =>
    exact Within.bind (within_walkManifestCounters hrefl) fun _ =>
      Within.bind (Within.atomic fun _ s => hinstall _ _ _ s) fun _ => Within.ret _

end Open

end SnapshotStore

end SnapStore
