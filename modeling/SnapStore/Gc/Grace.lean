import SnapStore.Gc.Database
import SnapStore.Gc.Roots
import SnapStore.Meta.Tombstones

/-!
# The grace period of tombstones

A cycle reaps the tombstones whose stamps are at most the counter that the last successful cycle
read after its fence.  That counter is the stamp of the next command, so a cycle spares what was
pruned since the one before only if nothing was pruned while that one ran up to its fence, or by
the first command after it.
-/

namespace SnapStore

open Disk Conc MetaDb

/-! ## Stamps -/

structure StampsSound (db : MetaDb) (k : Nat) : Prop where
  counter : db.logicalCounter ≤ k
  stamps : ∀ t ∈ db.tombstones, t.createdAt < k
  fence : db.gcState.lastFenceCounter < k
  keyed : db.TombstonesKeyed

def GraceInv (s : World) : Prop := StampsSound s.db s.actorCounter

theorem GraceInv.quiet {s s' : World} (h : GraceInv s) (hq : Quiet s s') : GraceInv s' := by
  unfold GraceInv
  rw [hq.db, hq.actorCounter]
  exact h

def Graced (s : World) : Prop :=
  ∀ t ∈ s.db.tombstones, t.createdAt ≤ s.db.gcState.lastFenceCounter →
    ∃ k ∈ s.ghost.finished, t.createdAt < k

/-- The step creates no tombstone while a cycle runs, before its fence or with the stamp that its
fence has read. -/
def PrunesApart (s s' : World) : Prop :=
  ∀ t ∈ s'.db.tombstones, t ∉ s.db.tombstones →
    ∀ r ∈ s.ghost.running, ∃ k ∈ r.fence, k < s.actorCounter

structure GraceRely (s s' : World) : Prop where
  gcState : s'.db.gcState = s.db.gcState
  running : s'.ghost.running = s.ghost.running
  finished : s'.ghost.finished = s.ghost.finished
  counter : s.actorCounter ≤ s'.actorCounter
  tombstones : ∀ t ∈ s'.db.tombstones, t ∈ s.db.tombstones ∨
    s.db.gcState.lastFenceCounter < t.createdAt ∧
      ∀ r ∈ s.ghost.running, ∃ k ∈ r.fence, k < t.createdAt

namespace GraceRely

variable {s s' s'' : World}

theorem refl (s : World) : GraceRely s s := ⟨rfl, rfl, rfl, le_rfl, fun _ => .inl⟩

theorem trans (h : GraceRely s s') (h' : GraceRely s' s'') : GraceRely s s'' := by
  refine ⟨h'.gcState.trans h.gcState, h'.running.trans h.running, h'.finished.trans h.finished,
    h.counter.trans h'.counter, fun t ht => ?_⟩
  rcases h'.tombstones t ht with hold | hnew
  · exact h.tombstones t hold
  · rw [h.gcState, h.running] at hnew
    exact .inr hnew

theorem quiet (h : Quiet s s') : GraceRely s s' := by
  refine ⟨by rw [h.db], h.running, h.finished, h.actorCounter.ge, fun t ht => ?_⟩
  rw [h.db] at ht
  exact .inl ht

theorem no_new {k : Nat} (h : GraceRely s s') (hrun : s.ghost.running = some ⟨k, none⟩)
    {t : TombstoneRow} (ht : t ∈ s'.db.tombstones) : t ∈ s.db.tombstones := by
  rcases h.tombstones t ht with hold | ⟨-, hnew⟩
  · exact hold
  · obtain ⟨_, hfence, -⟩ := hnew _ hrun
    cases hfence

theorem graced (h : GraceRely s s') (hs : Graced s) : Graced s' := by
  intro t ht hle
  rw [h.gcState] at hle
  rw [h.finished]
  rcases h.tombstones t ht with hold | ⟨hnew, -⟩
  · exact hs t hold hle
  · omega

end GraceRely

/-! ## Assertions of a cycle -/

/-- The step removes no tombstone that is younger than every cycle that has succeeded. -/
def SparesYoung (s s' : World) : Prop :=
  ∀ t ∈ s.db.tombstones, t ∉ s'.db.tombstones → ∃ k ∈ s.ghost.finished, t.createdAt < k

def graceRules : Rules Oracle World where
  may _ := PrunesApart
  inv := GraceInv
  rely := GraceRely
  guar := SparesYoung
  rely_refl := .refl
  rely_trans _ _ _ := .trans

theorem Quiet.sparesYoung {s s' : World} (h : Quiet s s') : SparesYoung s s' := by
  intro t ht hgone
  rw [h.db] at hgone
  exact absurd ht hgone

theorem quietOk_of_stable {A : World → Prop} (h : Stable graceRules A) : QuietOk graceRules A :=
  ⟨h, fun _ _ _ hi _ hq hs => ⟨hi.quiet hq, hq.sparesYoung, h _ _ hs (.quiet hq) (hi.quiet hq)⟩⟩

structure Begun (k : Nat) (s : World) : Prop where
  running : s.ghost.running = some ⟨k, none⟩
  older : ∀ t ∈ s.db.tombstones, t.createdAt < k
  graced : Graced s

structure Fenced (k n : Nat) (s : World) : Prop where
  running : s.ghost.running = some ⟨k, some n⟩
  counter : n ≤ s.actorCounter
  older : ∀ t ∈ s.db.tombstones, t.createdAt ≤ n → t.createdAt < k
  graced : Graced s

structure Written (k : Nat) (s : World) : Prop where
  running : ∃ f, s.ghost.running = some ⟨k, f⟩
  graced : ∀ t ∈ s.db.tombstones, t.createdAt ≤ s.db.gcState.lastFenceCounter →
    t.createdAt < k ∨ ∃ j ∈ s.ghost.finished, t.createdAt < j

def OrGraced {E α : Type} (A : α → World → Prop) : Except E α → World → Prop
  | .ok a, s => A a s
  | .error _, s => Graced s

theorem stable_graced : Stable graceRules Graced := fun _ _ h hr _ => hr.graced h

theorem stable_begun (k : Nat) : Stable graceRules (Begun k) := fun _ _ h hr _ =>
  ⟨hr.running.trans h.running, fun t ht => h.older t (hr.no_new h.running ht), hr.graced h.graced⟩

theorem stable_fenced (k n : Nat) : Stable graceRules (Fenced k n) := by
  intro s s' h hr _
  refine ⟨hr.running.trans h.running, h.counter.trans hr.counter, fun t ht hle => ?_,
    hr.graced h.graced⟩
  rcases hr.tombstones t ht with hold | ⟨-, hnew⟩
  · exact h.older t hold hle
  · obtain ⟨j, hj, hlt⟩ := hnew _ h.running
    cases hj
    omega

theorem stable_written (k : Nat) : Stable graceRules (Written k) := by
  intro s s' h hr _
  obtain ⟨f, hrun⟩ := h.running
  refine ⟨⟨f, hr.running.trans hrun⟩, fun t ht hle => ?_⟩
  rw [hr.gcState] at hle
  rw [hr.finished]
  rcases hr.tombstones t ht with hold | ⟨hnew, -⟩
  · exact h.graced t hold hle
  · omega

theorem stable_orGraced {E α : Type} {A : α → World → Prop} (h : ∀ a, Stable graceRules (A a))
    (r : Except E α) : Stable graceRules (OrGraced A r) := by
  cases r with
  | ok a => exact h a
  | error e => exact stable_graced

structure Reaping (k : Nat) (ts : List TombstoneRow) (s : World) : Prop where
  begun : Begun k s
  listed : ∀ x ∈ ts, ∀ t ∈ s.db.tombstones, t.experimentId = x.experimentId ∧ t.nodeId = x.nodeId →
    ∃ j ∈ s.ghost.finished, t.createdAt < j

theorem stable_reaping (k : Nat) (ts : List TombstoneRow) : Stable graceRules (Reaping k ts) := by
  intro s s' h hr hi
  refine ⟨stable_begun k s s' h.begun hr hi, fun x hx t ht hkey => ?_⟩
  rw [hr.finished]
  exact h.listed x hx t (hr.no_new h.begun.running ht) hkey

theorem wp_readFenceCounter_grace {k : Nat} {s : World} (hs : Begun k s) :
    wp graceRules Server.readFenceCounter.run (OrGraced (Fenced k)) s := by
  refine wp_atomic (stable_begun k) hs fun o w hi hw hm => ?_
  split
  · exact ⟨hi, fun t ht hgone => absurd ht hgone, hw.graced⟩
  · refine ⟨hi, fun t ht hgone => absurd ht hgone, ?_⟩
    exact ⟨by simp [Ghost.cycleFenced, hw.running], hi.counter, fun t ht _ => hw.older t ht,
      hw.graced⟩

theorem OrGraced.ended {E α : Type} {k : Nat} {r : Except E α} {w : World}
    (h : OrGraced (fun _ => Written k) r w) :
    Graced { w with ghost := w.ghost.cycleEnded r.toOption.isSome } := by
  intro t ht hle
  cases r with
  | error e => exact h t ht hle
  | ok a =>
    obtain ⟨f, hrun⟩ := h.running
    have hfin : (w.ghost.cycleEnded true).finished = k :: w.ghost.finished := by
      simp [Ghost.cycleEnded, hrun]
    rcases h.graced t ht hle with hlt | ⟨j, hj, hlt⟩
    · exact ⟨k, hfin ▸ List.mem_cons_self, hlt⟩
    · exact ⟨j, hfin ▸ List.mem_cons_of_mem _ hj, hlt⟩

theorem Begun.reaping {k : Nat} {w : World} (h : Begun k w) (hi : GraceInv w) :
    Reaping k (w.db.listTombstones w.db.gcState.lastFenceCounter) w := by
  refine ⟨h, fun x hx t ht hkey => ?_⟩
  obtain ⟨hxmem, hxle⟩ := mem_listTombstones.mp hx
  rw [hi.keyed.eq ht hxmem hkey]
  exact h.graced x hxmem (hxle.trans (Nat.min_le_left _ _))

section Store

variable [Primitives]

theorem GraceInv.executed {cmd : ActorCmd} {s s' : World} (h : GraceInv s) (he : Executed cmd s s')
    (hfence : ∀ state, cmd = .setGcState state → state.lastFenceCounter ≤ s.actorCounter) :
    GraceInv s' := by
  unfold GraceInv
  rw [he.actorCounter]
  refine ⟨?_, fun t ht => ?_, ?_, ?_⟩
  · have hcounter := h.counter
    rcases he.db with heq | heq
    · rw [heq]
      omega
    · rw [heq]
      exact le_rfl
  · rcases he.tombstones_new ht with hold | hnew
    · have hlt := h.stamps t hold
      omega
    · omega
  · have hold := h.fence
    by_cases hcmd : ∃ state, cmd = .setGcState state
    · obtain ⟨state, rfl⟩ := hcmd
      have hle := hfence state rfl
      rcases he.db with heq | heq
      · rw [heq]
        omega
      · rw [heq]
        show state.lastFenceCounter < _
        omega
    · rw [he.gcState fun state hstate => hcmd ⟨state, hstate⟩]
      omega
  · exact he.induction h.keyed (fun _ _ => id) fun _ _ hk hm => hk.move hm

theorem GraceRely.executed {cmd : ActorCmd} {s s' : World} (h : Executed cmd s s') (hcmd : ∀ state, cmd ≠ .setGcState state)
    (hi : GraceInv s) (hok : PrunesApart s s') : GraceRely s s' := by
  refine ⟨h.gcState hcmd, h.running, h.finished, by rw [h.actorCounter]; omega, fun t ht => ?_⟩
  by_cases hold : t ∈ s.db.tombstones
  · exact .inl hold
  · have hstamp := (h.tombstones_new ht).resolve_left hold
    rw [hstamp]
    exact .inr ⟨hi.fence, hok t ht hold⟩

/-! ## The cycle -/

theorem wp_reapTombstones_spares (k : Nat) (ts : List TombstoneRow) (s : World)
    (hs : Reaping k ts s) :
    wp graceRules (Server.reapTombstones ts).run (OrGraced fun _ => Begun k) s := by
  refine wpE_foldlM (fun _ rest w => Reaping k rest w) ?_ (fun acc w h => h.begun) ts _ s hs
  intro acc x rest w hw
  have hreal : Realizes (fun db _ => db.reapTombstone x.experimentId x.nodeId)
      (.reapTombstone x.experimentId x.nodeId) := fun db k => settle_realizes ..
  refine wpE_bind (wp_withError (wp_atomic (stable_reaping k (x :: rest)) hw
    fun o u hi hu hm => ?_))
  have he := hreal.executed o u
  have hinv : GraceInv _ := hi.executed he nofun
  have hnext := stable_reaping k (x :: rest) u _ hu (.executed he nofun hi hm) hinv
  refine ⟨hinv, fun t ht hgone => ?_, ?_⟩
  · -- the step removes only the tombstone of `x`
    refine hu.listed x List.mem_cons_self t ht ?_
    by_contra hkey
    refine hgone (he.tombstones ht fun heq => hkey ?_)
    injection heq with hexp hid
    exact ⟨hexp.symm, hid.symm⟩
  · cases hreap : u.db.reapTombstone x.experimentId x.nodeId with
    | error e =>
      simp only [hreap, Except.map, Except.mapError, andThen_error]
      exact hnext.begun.graced
    | ok y =>
      simp only [hreap, Except.map, Except.mapError, andThen_ok]
      exact wp_ret ⟨hnext.begun, fun z hz => hnext.listed z (List.mem_cons_of_mem _ hz)⟩

theorem Fenced.written {k n : Nat} {state : GcStateRow} {w w' : World} (hw : Fenced k n w)
    (he : Executed (.setGcState state) w w') (hstate : state.lastFenceCounter = n) :
    Written k w' := by
  refine ⟨⟨some n, he.running.trans hw.running⟩, fun t ht hle => ?_⟩
  rw [he.finished]
  rcases he.db with heq | heq
  · rw [heq] at ht hle
    exact .inr (hw.graced t ht hle)
  · rw [heq] at ht hle
    have hle : t.createdAt ≤ state.lastFenceCounter := hle
    exact .inl (hw.older t ht (hstate ▸ hle))

theorem wp_cycleBody_grace (opts : StoreOptions) (go : GcOpts) (t : Tid) (total : Nat)
    (fence : PackId) (roots : List SnapshotRef) {k : Nat} {s : World} (hs : Begun k s) :
    wp graceRules (Server.cycleBody opts go t total fence roots).run (OrGraced fun _ => Written k)
      s := by
  refine wpE_bind (wp_withError (wp_mono ?_ (wp_readFenceCounter_grace hs)))
  intro r w₁ h₁
  cases r with
  | error e => exact h₁
  | ok n =>
  have hquiet := quietOk_of_stable (stable_fenced k n)
  refine wpE_bind (wp_withError (wp_mono ?_ (hquiet.within
    (Quiet.collect opts go.sweep t fence roots) h₁)))
  intro r w₂ h₂
  cases r with
  | error e => exact h₂.graced
  | ok sweep =>
  refine wpE_bind (wp_withError (hquiet.metaRead h₂ (fun w₃ h₃ => h₃.graced) fun w₃ _ h₃ => ?_))
  refine wpE_bind (wp_withError (wp_atomic (stable_fenced k n) h₃ fun o w hi hw hm => ?_))
  have hreal : Realizes (fun db _ => .ok ((), { db with
      gcState := ⟨total + 1, n, w₃.db.logicalCounter, sweep.bytesReclaimed⟩ }))
      (.setGcState ⟨total + 1, n, w₃.db.logicalCounter, sweep.bytesReclaimed⟩) := fun db k => rfl
  have he := hreal.executed o w
  refine ⟨hi.executed he ?_, fun x hx hgone => absurd (he.tombstones hx nofun) hgone, ?_⟩
  · intro state hstate
    injection hstate with hstate
    rw [← hstate]
    exact hw.counter
  · show Written k _
    exact hw.written he rfl

theorem wp_runGcCycle_grace (opts : StoreOptions) (go : GcOpts) (t : Tid) {s : World}
    (hgo : go.tombstoneGraceCycles ≠ 0) (hs : Graced s) :
    wp graceRules (Server.runGcCycle opts go t).run (fun _ w => Graced w) s := by
  refine wp_bind (wp_atomic stable_graced hs fun o w₀ hi hw₀ hm => ?_)
  obtain ⟨k, hk⟩ : ∃ k, k = w₀.actorCounter := ⟨_, rfl⟩
  have hbegun : Begun k { w₀ with ghost := w₀.ghost.cycleBegun w₀.actorCounter } :=
    ⟨by rw [hk]; rfl, fun x hx => hk ▸ hi.stamps x hx, hw₀⟩
  refine ⟨hi, fun x hx hgone => absurd hx hgone, ?_⟩
  refine wp_bind (wp_mono (Q := OrGraced fun _ => Written k) (fun r w hr => ?_) ?_)
  · refine wp_bind (wp_atomic (stable_orGraced (fun _ => stable_written k) r) hr
      fun o w₁ hi hw₁ hm => ⟨hi, fun x hx hgone => absurd hx hgone, ?_⟩)
    exact hw₁.ended
  have hquiet := quietOk_of_stable (stable_begun k)
  refine wpE_bind (wp_withError (hquiet.metaRead hbegun (fun w h => h.graced) fun w₁ _ h₁ => ?_))
  have hprior : Stable graceRules fun w =>
      Begun k w ∧ w.db.gcState.lastFenceCounter = w₁.db.gcState.lastFenceCounter :=
    fun u v h hr hi => ⟨stable_begun k u v h.1 hr hi, by rw [hr.gcState]; exact h.2⟩
  refine wpE_bind (wp_withError ((quietOk_of_stable hprior).metaRead ⟨h₁, rfl⟩
    (fun w h => h.1.graced) fun w₂ hi₂ h₂ => ?_))
  simp only [if_neg hgo, Except.mapError, andThen_ok]
  rw [← h₂.2]
  refine wpE_bind (wp_mono ?_ (wp_reapTombstones_spares k _ w₂ (h₂.1.reaping hi₂)))
  intro r w₃ h₃
  cases r with
  | error e => exact h₃
  | ok reaped =>
  refine wpE_bind (wp_mono ?_ (hquiet.within (Quiet.rotateFirst opts go t) h₃))
  intro r w₄ h₄
  cases r with
  | error e => exact h₄.graced
  | ok u =>
  refine wpE_bind (wp_mono ?_ (hquiet.within (Quiet.beginGcEpoch t) h₄))
  intro r w₅ h₅
  cases r with
  | error e => exact h₅.graced
  | ok epoch =>
  refine wpE_bind (wp_bind (wp_mono ?_
    (wp_cycleBody_grace opts go t _ epoch.1 epoch.2 h₅)))
  intro r w₆ h₆
  refine wp_bind (wp_mono ?_ ((quietOk_of_stable
    (stable_orGraced (fun _ => stable_written k) r)).within Quiet.endGcEpoch h₆))
  intro u w₇ h₇
  cases r with
  | error e => exact h₇
  | ok sweep => exact h₇

/-! ## The store -/

def ServesClient (s s' : World) : Prop :=
  Quiet s s' ∨ ∃ cmd : ActorCmd, (∀ state, cmd ≠ .setGcState state) ∧ Executed cmd s s'

theorem ServesClient.call (opts : StoreOptions) (t : Tid) (c : Call) (hc : c.collects = false) :
    Within ServesClient (c.run opts t) := by
  by_cases hr : ∀ exp id, c ≠ .reap exp id
  · refine (ClientStep.call opts t c hc hr).mono fun s s' h => ?_
    rcases h with hq | ⟨cmd, hclient, he⟩
    · exact .inl hq
    · refine .inr ⟨cmd, fun state hstate => ?_, he⟩
      rw [hstate] at hclient
      cases hclient
  · push Not at hr
    obtain ⟨exp, id, rfl⟩ := hr
    have hreal : Realizes (fun db _ => db.reapTombstone exp id) (.reapTombstone exp id) :=
      fun db k => settle_realizes ..
    refine Within.bind (within_withError (hreal.within.mono fun s s' he => ?_)) fun _ => True.intro
    exact .inr ⟨.reapTombstone exp id, nofun, he⟩

theorem ServesClient.inv {s s' : World} (h : ServesClient s s') (hi : GraceInv s) : GraceInv s' := by
  rcases h with hq | ⟨cmd, hcmd, he⟩
  · exact hi.quiet hq
  · exact hi.executed he fun state hstate => absurd hstate (hcmd state)

theorem ServesClient.rely {s s' : World} (h : ServesClient s s') (hi : GraceInv s)
    (hok : PrunesApart s s') : GraceRely s s' := by
  rcases h with hq | ⟨cmd, hcmd, he⟩
  · exact .quiet hq
  · exact .executed he hcmd hi hok

def graceStore (opts : StoreOptions) (g : Nat) : Machine Oracle World :=
  concurrentStore opts (fun c => ∀ go, c = .gcCycle go → go.tombstoneGraceCycles = g)
    fun _ _ => False

def graceOutline (opts : StoreOptions) (g : Nat) (hg : 1 ≤ g) :
    Outline (graceStore opts g) fun _ s s' => PrunesApart s s' where
  inv := GraceInv
  down s := s.db = MetaDb.empty
  rely c _ s s' := c.1.collects = true → GraceRely s s'
  guar c _ s s' := (c.1.collects = false → GraceRely s s') ∧
    (c.1.collects = true → SparesYoung s s')
  post c _ _ s := c.1.collects = true → Graced s
  idle _ _ := True
  alone _ c := c.1.collects = true
  lull _ := Graced
  rely_refl _ _ s _ := .refl s
  rely_trans _ _ _ _ _ h h' hc := (h hc).trans (h' hc)
  guar_rely c d _ _ _ _ _ hcd _ _ hg hd := hg.1 (by
    cases hc : c.1.collects with
    | false => rfl
    | true => exact absurd ⟨hc, hd⟩ hcd)
  guar_idle _ _ _ _ _ _ _ _ _ := trivial
  alone_overlap _ _ _ hc hd hcd := hcd ⟨hc, hd⟩
  guar_lull _ _ _ _ _ hc _ hguar := (hguar.1 (by simpa using hc)).graced
  post_lull _ _ _ _ _ hc h := h hc
  body c t s hs _ hlull _ := by
    obtain ⟨c, hc⟩ := c
    by_cases hcol : c.collects = true
    · have hwp : wp graceRules (c.run opts t) (fun _ w => Graced w) s := by
        cases c with
        | gcCycle go =>
          have hgo : go.tombstoneGraceCycles ≠ 0 := by
            rw [hc go rfl]
            omega
          exact wp_bind (wp_mono (fun _ _ h => h) (wp_runGcCycle_grace opts go t hgo (hlull () hcol)))
        | sweepPacks so live =>
          exact wp_bind (wp_mono (fun _ _ h => h) ((quietOk_of_stable stable_graced).within
            (Quiet.sweepCall opts so t live) (hlull () hcol)))
        | _ => cases hcol
      refine wp_conseq (ρ := graceRules) (fun _ _ _ h => h) (fun _ => Iff.rfl) (fun _ _ h => h hcol)
        (fun _ _ h => ⟨fun hcol' => ?_, fun _ => h⟩) (wp_mono (fun _ _ h _ => h) hwp)
      cases hcol.symm.trans hcol'
    · have hcol : c.collects = false := by simpa using hcol
      refine wp_mono ?_ ((ServesClient.call opts t c hcol).wp (.const True) trivial
        fun o w u hi _ hm hq => ⟨hq.inv hi, ⟨fun _ => hq.rely hi hm, fun hcol' => ?_⟩, trivial⟩)
      · intro r w _ hcol'
        cases hcol.symm.trans hcol'
      · cases hcol.symm.trans hcol'
  boot s hs := by
    refine wp_mono ?_ (wp_openStore opts (D := fun s => s.db = MetaDb.empty)
      (fun _ _ hb h => hb.db.trans h) (fun _ => Iff.rfl) (fun _ _ h => h) (fun _ _ => trivial) hs)
    intro b w h hb
    obtain ⟨hdb, hopened⟩ := h hb
    refine ⟨?_, fun _ => trivial, fun _ t ht => ?_⟩
    · unfold GraceInv
      rw [hopened.counter, hdb]
      exact ⟨Nat.zero_le _, fun t ht => (nomatch ht), Nat.zero_lt_one, .nil⟩
    · rw [hdb] at ht
      cases ht
  crash_up _ _ _ hc := hc.elim
  crash_down _ _ _ hc := hc.elim

end Store

section Run

attribute [local instance] Sample.primitives

open History.Sample

instance {g : Nat} : DecidableRel (graceStore Sample.options g).overlap :=
  inferInstanceAs (DecidableRel (concurrentStore _ _ _).overlap)

instance (s s' : World) : Decidable (PrunesApart s s') :=
  inferInstanceAs (Decidable (∀ t ∈ s'.db.tombstones, t ∉ s.db.tombstones →
    ∀ r ∈ s.ghost.running, ∃ k ∈ r.fence, k < s.actorCounter))

def Sample.planted : List (Cmd (graceStore Sample.options 1)) :=
  [.boot Sample.quiet 100, .ready, .start ⟨.ingest [Sample.page 7], nofun⟩,
    .run 0 Sample.quiet 1000, .start ⟨.putSnapshot Sample.container, nofun⟩,
    .run 1 Sample.quiet 1000, .start ⟨.createNode root, nofun⟩, .run 2 Sample.quiet 1000,
    .start ⟨.createNode (child 1 0), nofun⟩, .run 3 Sample.quiet 1000]

def Sample.graceCycle : (graceStore Sample.options 1).Call :=
  ⟨.gcCycle ⟨⟨fun _ _ => false, 10⟩, false, 1⟩, fun go h => by cases h; rfl⟩

def Sample.reapingCycle (u : Tid) (c : Config (graceStore Sample.options 1)) : Bool :=
  c.threads[u]?.any fun th =>
    match th.call.1 with
    | .gcCycle _ => true
    | _ => false

theorem thread_of_reapingCycle {u : Tid} {c : Config (graceStore Sample.options 1)}
    (h : Sample.reapingCycle u c = true) :
    ∃ call p go, c.threads[u]? = some ⟨call, p⟩ ∧ call.1 = .gcCycle go := by
  simp only [Sample.reapingCycle, Option.any_eq_true] at h
  obtain ⟨th, hth, hcall⟩ := h
  split at hcall
  · next go heq => exact ⟨th.call, th.prog, go, hth, heq⟩
  · cases hcall

/-- The child is pruned by the first command after the fence of a cycle, and the next cycle is
about to reap it. -/
def Sample.prunedAtFence : List (Cmd (graceStore Sample.options 1)) :=
  Sample.planted ++ [.start Sample.graceCycle, .run 4 Sample.quiet 11,
    .start ⟨.prune "e" 1 false, nofun⟩, .run 5 Sample.quiet 10, .run 4 Sample.quiet 1000,
    .start Sample.graceCycle, .run 6 Sample.quiet 3]

/-- The child is pruned, a whole cycle runs, and the next one is about to reap the child. -/
def Sample.prunedBefore : List (Cmd (graceStore Sample.options 1)) :=
  Sample.planted ++ [.start ⟨.prune "e" 1 false, nofun⟩, .run 4 Sample.quiet 10,
    .start Sample.graceCycle, .run 5 Sample.quiet 1000, .start Sample.graceCycle,
    .run 6 Sample.quiet 3]

end Run

end SnapStore
