import SnapStore.Gc.Database
import SnapStore.Gc.Roots
import SnapStore.Meta.Tombstones

/-!
# The reap step of a cycle

A cycle reaps the tombstones it has listed, while clients go on executing commands.  Only cycles
remove tombstones, so those listed stay until the cycle gets to them; and a cycle stops at the
first subtree it cannot reap.
-/

namespace SnapStore

open Disk Conc MetaDb

def NoRefusal {α : Type} (r : Except GcError α) : Prop := ∀ e, r = .error (.db e) → e = .sqlite

namespace NoRefusal

variable {α β : Type}

theorem ok (a : α) : NoRefusal (.ok a) := nofun

theorem store (e : StoreError) : NoRefusal (.error (.store e) : Except GcError α) := nofun

theorem read : NoRefusal (.error (.db .sqlite) : Except GcError α) := by
  rintro _ ⟨⟩
  rfl

theorem error {e : GcError} (h : NoRefusal (.error e : Except GcError α)) :
    NoRefusal (.error e : Except GcError β) := by
  rintro e' ⟨⟩
  exact h e' rfl

end NoRefusal

section Store

variable [Primitives]

/-- The step leaves the database alone or executes a command that revives no tombstoned node. -/
def RevivesNothing (s s' : World) : Prop :=
  s'.db = s.db ∨ ∃ cmd, s.db.KeepsPruned cmd ∧ Executed cmd s s'

theorem RevivesNothing.reapable {s s' : World} (h : RevivesNothing s s') (hi : s.db.Reapable) :
    s'.db.Reapable := by
  rcases h with heq | ⟨cmd, hkeeps, he⟩
  · exact heq ▸ hi
  · rcases he.db with heq | heq
    · exact heq ▸ hi
    · exact heq ▸ (hi.after hkeeps).withCounter _

def TombstonesStay (s s' : World) : Prop := ∀ x ∈ s.db.tombstones, x ∈ s'.db.tombstones

theorem ClientStep.tombstones {s s' : World} (h : ClientStep s s') : TombstonesStay s s' := by
  intro x hx
  rcases h with hq | ⟨cmd, hclient, he⟩
  · exact hq.db ▸ hx
  · refine he.tombstones hx ?_
    rintro rfl
    cases hclient

/-! ## The cycle -/

def reapRules : Rules Oracle World where
  may _ s s' := RevivesNothing s s'
  inv s := s.db.Reapable
  rely := TombstonesStay
  guar _ _ := True
  rely_refl _ _ := id
  rely_trans _ _ _ h h' x hx := h' x (h x hx)

theorem quietOk_true : QuietOk reapRules fun _ => True :=
  ⟨.const True, fun _ _ _ hi hm _ _ => ⟨hm.reapable hi, trivial, trivial⟩⟩

theorem quietOk_listed (ts : List TombstoneRow) :
    QuietOk reapRules fun s => ∀ x ∈ ts, x ∈ s.db.tombstones :=
  ⟨fun _ _ h hr _ x hx => hr x (h x hx),
    fun _ _ _ hi hm hq h => ⟨hm.reapable hi, trivial, hq.db ▸ h⟩⟩

theorem wp_reapTombstones_ok (ts : List TombstoneRow) (s : World)
    (hs : ∀ x ∈ ts, x ∈ s.db.tombstones)
    (hkeys : ts.Pairwise fun x y => ¬ (x.experimentId = y.experimentId ∧ x.nodeId = y.nodeId)) :
    wp reapRules (Server.reapTombstones ts).run (fun r _ => ∃ x, r = .ok x) s := by
  refine wpE_foldlM (fun _ rest w => (∀ x ∈ rest, x ∈ w.db.tombstones) ∧
    rest.Pairwise fun x y => ¬ (x.experimentId = y.experimentId ∧ x.nodeId = y.nodeId)) ?_
    (fun acc _ _ => ⟨acc, rfl⟩) ts _ s ⟨hs, hkeys⟩
  rintro acc x rest w ⟨hw, hk⟩
  obtain ⟨hx, hrest⟩ := List.pairwise_cons.mp hk
  refine wpE_bind (wp_withError (wp_atomic (quietOk_listed (x :: rest)).stable hw
    fun o u hi hu hm => ⟨hm.reapable hi, trivial, ?_⟩))
  obtain ⟨y, hy⟩ := hi.pruned.reapTombstone (hu x List.mem_cons_self)
  simp only [hy, Except.map, Except.mapError, andThen_ok]
  refine wp_ret ⟨fun z hz => ?_, hrest⟩
  -- the reap removes the tombstone of `x` and no other
  have hreal : Realizes (fun db _ => db.reapTombstone x.experimentId x.nodeId)
      (.reapTombstone x.experimentId x.nodeId) := fun db k => settle_realizes ..
  refine (hreal.executed o u).tombstones (hu z (List.mem_cons_of_mem _ hz)) ?_
  intro hkey
  injection hkey with hexp hid
  exact hx z hz ⟨hexp, hid⟩

theorem wp_beginGcEpoch_noRefusal (t : Tid) (s : World) :
    wp reapRules (Server.beginGcEpoch t).run (fun r _ => NoRefusal r) s := by
  have hq (p : Prop) : QuietOk reapRules fun _ => p :=
    ⟨.const p, fun _ _ _ hi hm _ hp => ⟨hm.reapable hi, trivial, hp⟩⟩
  refine quietOk_true.withSweepGate (fun r => hq _) trivial fun w _ => ?_
  refine wpE_bind (wp_withError (wp_mono ?_ (quietOk_true.within
    (Quiet.frame (PageStore.frame_activePackId t)) trivial)))
  rintro (e | fence) w₁ -
  · exact .store _
  refine wpE_bind (wp_atomic (.const True) trivial fun o w₂ hi _ hm => ⟨hm.reapable hi, trivial, ?_⟩)
  split
  · exact nofun
  · refine wp_bind (quietOk_true.metaRead trivial (fun w₃ _ => ?_) fun w₃ _ _ => ?_)
    · refine wp_bind (wp_mono ?_ (quietOk_true.within Quiet.endGcEpoch trivial))
      rintro ⟨⟩ w₄ -
      exact .read
    · exact .ok _

theorem wp_cycleBody_noRefusal (opts : StoreOptions) (go : GcOpts) (t : Tid) (n : Nat)
    (fence : PackId) (roots : List SnapshotRef) (s : World) :
    wp reapRules (Server.cycleBody opts go t n fence roots).run (fun r _ => NoRefusal r) s := by
  refine wpE_bind (wp_withError (wp_atomic (.const True) trivial fun o w hi _ hm =>
    ⟨hm.reapable hi, trivial, ?_⟩))
  split
  · exact .read
  refine wpE_bind (wp_withError (wp_mono ?_ (quietOk_true.within
    (Quiet.collect opts go.sweep t fence roots) trivial)))
  rintro (e | sweep) w₁ -
  · exact .store _
  refine wpE_bind (wp_withError (quietOk_true.metaRead trivial (fun w₂ _ => ?_) fun w₂ _ _ => ?_))
  · exact .read
  refine wpE_bind (wp_withError (wp_atomic (.const True) trivial fun o w₃ hi _ hm =>
    ⟨hm.reapable hi, trivial, .ok _⟩))

theorem wp_runGcCycle_noRefusal (opts : StoreOptions) (go : GcOpts) (t : Tid) (s : World) :
    wp reapRules (Server.runGcCycle opts go t).run (fun r _ => NoRefusal r) s := by
  refine wp_bind (wp_atomic (.const True) trivial fun o w hi _ hm => ⟨hm.reapable hi, trivial, ?_⟩)
  refine wp_bind (wp_mono (Q := fun r _ => NoRefusal r) (fun r w₁ hr => ?_) ?_)
  · exact wp_bind (wp_atomic (.const True) trivial fun o w₂ hi _ hm =>
      ⟨hm.reapable hi, trivial, hr⟩)
  refine wpE_bind (wp_withError (quietOk_true.metaRead trivial (fun w₁ _ => ?_) fun w₁ _ _ => ?_))
  · exact .read
  refine wpE_bind (wp_withError (quietOk_true.metaRead trivial (fun w₂ _ => ?_) fun w₂ hi _ => ?_))
  · exact .read
  simp only [Except.mapError, andThen_ok]
  obtain ⟨horizon, hlist⟩ : ∃ horizon, (if go.tombstoneGraceCycles = 0 then
      w₂.db.listTombstones (2 ^ 64 - 1) else w₂.db.listTombstones w₁.db.gcState.lastFenceCounter) =
      w₂.db.listTombstones horizon := by
    split
    · exact ⟨_, rfl⟩
    · exact ⟨_, rfl⟩
  rw [hlist]
  refine wpE_bind (wp_mono ?_ (wp_reapTombstones_ok _ w₂
    (fun x hx => (mem_listTombstones.mp hx).1) (hi.keyed.listTombstones horizon)))
  rintro _ w₃ ⟨⟨nodes, subtrees⟩, rfl⟩
  refine wpE_bind ?_
  have hrotate : wp reapRules (Server.rotateFirst opts go t).run (fun r _ => NoRefusal r) w₃ := by
    unfold Server.rotateFirst
    split
    · refine wpE_bind (wp_withError (wp_mono ?_ (quietOk_true.within
        (Quiet.frame (PageStore.frame_rotateActive opts t)) trivial)))
      rintro (e | p) w₄ -
      · exact .store _
      · exact .ok _
    · exact .ok _
  refine wp_mono ?_ hrotate
  rintro (e | ⟨⟩) w₄ h₄
  · exact h₄.error
  refine wpE_bind (wp_mono ?_ (wp_beginGcEpoch_noRefusal t w₄))
  rintro (e | ⟨fence, roots⟩) w₅ h₅
  · exact h₅.error
  refine wpE_bind (wp_bind (wp_mono ?_ (wp_cycleBody_noRefusal opts go t _ fence roots w₅)))
  intro r w₆ h₆
  refine wp_bind (wp_mono ?_ (quietOk_true.within Quiet.endGcEpoch trivial))
  rintro ⟨⟩ w₇ -
  cases r with
  | error e => exact h₆.error
  | ok sweep => exact .ok _

/-! ## The store -/

def Call.reaps : Call → Bool
  | .reap _ _ => true
  | c => c.collects

def reapingStore (opts : StoreOptions) : Machine Oracle World :=
  { concurrentStore opts (fun _ => True) (fun s s' => s' = s.kill) with
    overlap := fun c d => ¬ (c.1.reaps = true ∧ d.1.reaps = true) }

def reapOutline (opts : StoreOptions) :
    Outline (reapingStore opts) fun _ s s' => RevivesNothing s s' where
  inv s := s.db.Reapable
  down s := s.db.Reapable
  rely c _ s s' := c.1.reaps = true → TombstonesStay s s'
  guar c _ s s' := c.1.reaps = false → TombstonesStay s s'
  post c _ reply _ := c.1.collects = true → ∀ r, reply = .gcCycle r → NoRefusal r
  idle _ _ := True
  rely_refl _ _ _ _ _ := id
  rely_trans _ _ _ _ _ h h' hc x hx := h' hc x (h hc x hx)
  guar_rely c d _ _ _ _ _ hcd _ _ hg hd := hg (by
    cases hc : c.1.reaps with
    | false => rfl
    | true => exact absurd ⟨hc, hd⟩ hcd)
  guar_idle _ _ _ _ _ _ _ _ _ := trivial
  body c t s hs _ _ _ := by
    obtain ⟨c, -⟩ := c
    by_cases hcol : c.collects = true
    · have hreaps : c.reaps = true := by cases c <;> first | rfl | cases hcol
      refine wp_conseq (ρ := reapRules) (fun _ _ _ h => h) (fun _ => Iff.rfl) (fun _ _ h => h hreaps)
        (fun _ _ _ hc => ?_) ?_
      · cases hreaps.symm.trans hc
      · cases c with
        | gcCycle go =>
          refine wp_bind (wp_mono ?_ (wp_runGcCycle_noRefusal opts go t s))
          rintro r w hr - _ ⟨⟩
          exact hr
        | sweepPacks so live =>
          refine wp_bind (wp_mono ?_ (quietOk_true.within (Quiet.sweepCall opts so t live) trivial))
          rintro r w - - _ ⟨⟩
        | _ => cases hcol
    · have hcol : c.collects = false := by simpa using hcol
      have hstep : Within (fun s s' => c.reaps = false → TombstonesStay s s') (c.run opts t) := by
        by_cases hr : ∀ exp id, c ≠ .reap exp id
        · exact (ClientStep.call opts t c hcol hr).mono fun _ _ h _ => h.tombstones
        · push Not at hr
          obtain ⟨exp, id, rfl⟩ := hr
          exact Within.bind (within_withError (within_action fun o s => nofun)) fun _ => True.intro
      refine wp_mono ?_ (hstep.wp (.const True) trivial
        fun o w u hi _ hm hq => ⟨RevivesNothing.reapable hm hi, hq, trivial⟩)
      intro r w _ hcol'
      cases hcol.symm.trans hcol'
  boot s hs := by
    refine wp_mono ?_ (wp_openStore opts (D := fun s => s.db.Reapable) (fun _ _ hb h => hb.db ▸ h)
      (fun _ => Iff.rfl) (fun _ _ h => h) (fun _ _ => trivial) hs)
    exact fun b w h hb => ⟨(h hb).1, fun _ => trivial, fun _ => trivial⟩
  crash_up s s' hs hc _ := by
    subst hc
    exact hs
  crash_down s s' hs hc _ := by
    subst hc
    exact hs

/-- As long as no command revives a node of a tombstoned subtree or creates a live node under the
id of a tombstone: the subtree of every tombstoned node is pruned and can be reaped, in every
state of every history, and no cycle stops in its reap step. -/
theorem tombstones_stay_reapable :
    (∀ (m : Nat) (s : History) (db : MetaDb), History.Reach m KeepsPruned s →
      (db = s.actor.db ∨ ∃ l i, s.batch = some (l, i) ∧ db = l.tx.current) →
      db.TombstonesPruned ∧
        ∀ t ∈ db.tombstones, ∃ r, db.reapTombstone t.experimentId t.nodeId = .ok r) ∧
    ∀ (opts : StoreOptions) (a b : Config (reapingStore opts)) (l : Label (reapingStore opts))
      (t : Tid) (go : GcOpts) (r : Except GcError GcReport),
      (reapingStore opts).Reach (fun _ s s' => RevivesNothing s s')
        ((reapingStore opts).initial World.empty) a →
      (reapingStore opts).Step a l b → RevivesNothing a.store b.store →
      Machine.Returns a b t ⟨.gcCycle go, trivial⟩ (.gcCycle r) → NoRefusal r := by
  refine ⟨fun m s db hr hdb => ?_, fun opts a b l t go r hr hs hok hret => ?_⟩
  · have hinv := hr.invariant (P := Reapable) .empty (fun _ k h => h.withCounter k)
      fun _ _ _ h hkeeps => h.dispatchCmd hkeeps
    have hdb : db.Reapable := by
      rcases hdb with rfl | ⟨l, i, hb, rfl⟩
      · exact hinv.1
      · exact hinv.2 l i hb
    exact ⟨hdb.pruned, fun t ht => hdb.pruned.reapTombstone ht⟩
  · have h₀ : (reapOutline opts).down World.empty := Reapable.empty
    exact (reapOutline opts).post_of_return h₀ hr hs hok hret rfl r rfl

end Store

section Run

attribute [local instance] Sample.primitives

open History.Sample

def Sample.revived : List ActorCmd :=
  [.createNode root, .createNode (child 1 0), .pruneSubtree "e" 1 false,
    .updateNodes "e" [⟨1, some .frontier, none, none, 0, false, none, none⟩]]

/-- The tombstone of the node stays, and its reap is refused. -/
theorem revived_node_refuses_reap :
    ∃ s, History.Reach 100 (fun _ _ => True) s ∧ ¬ s.actor.db.TombstonesPruned ∧
      ∃ t ∈ s.actor.db.tombstones, ∃ e,
        s.actor.db.reapTombstone t.experimentId t.nodeId = .error e := by
  obtain ⟨s, hs, -, hactor⟩ :=
    History.Reach.executeBatch (m := 100) .initial rfl .good Sample.revived
  have hrow : (⟨"e", 1, 3⟩ : TombstoneRow) ∈ s.actor.db.tombstones := by
    rw [hactor]
    decide +kernel
  have hrefused : ∃ e, s.actor.db.reapTombstone "e" 1 = .error e := by
    rw [hactor]
    exact ⟨_, rfl⟩
  refine ⟨s, hs, fun h => ?_, _, hrow, hrefused⟩
  obtain ⟨r, hr⟩ := h.reapTombstone hrow
  obtain ⟨e, he⟩ := hrefused
  cases hr.symm.trans he

instance : DecidableRel (reapingStore Sample.options).overlap := fun _ _ =>
  inferInstanceAs (Decidable (¬ (_ = true ∧ _ = true)))

def Sample.executes (cmd : ActorCmd) (s s' : World) : Bool :=
  decide (s'.db = (s.db.after inputLogMaxBytes cmd s.actorCounter).withCounter (s.actorCounter + 1) ∧
    s'.actorCounter = s.actorCounter + 1 ∧ s'.ghost.running = s.ghost.running ∧
    s'.ghost.finished = s.ghost.finished)

def Sample.sparesPruned (s s' : World) : Bool :=
  decide (s'.db = s.db) || Sample.executes (.pruneSubtree "e" 1 false) s s' ||
  Sample.executes (.reapTombstone "e" 1) s s' ||
  Sample.executes (.setGcState s'.db.gcState) s s' || (decide (s.db.tombstones = []) &&
    (Sample.executes (.createNode root) s s' || Sample.executes (.createNode (child 1 0)) s s'))

theorem revivesNothing_of_sparesPruned {s s' : World} (h : Sample.sparesPruned s s' = true) :
    RevivesNothing s s' := by
  have hexec : ∀ {cmd}, Sample.executes cmd s s' = true → s.db.KeepsPruned cmd →
      RevivesNothing s s' := by
    intro cmd he hkeeps
    obtain ⟨hdb, hcounter, hrunning, hfinished⟩ := of_decide_eq_true he
    exact .inr ⟨cmd, hkeeps, .inr hdb, hcounter, hrunning, hfinished⟩
  simp only [Sample.sparesPruned, Bool.or_eq_true, Bool.and_eq_true, decide_eq_true_eq] at h
  rcases h with (((hdb | h) | h) | h) | ⟨hnone, h | h⟩
  · exact .inl hdb
  · exact hexec h trivial
  · exact hexec h trivial
  · exact hexec h trivial
  · exact hexec h fun _ _ t ht => by simp [hnone] at ht
  · exact hexec h fun _ _ t ht => by simp [hnone] at ht

/-- A child of the root is created and pruned, and a cycle does all but its last action. -/
def Sample.reaping : List (Cmd (reapingStore Sample.options)) :=
  [.boot Sample.quiet 100, .ready, .start ⟨.ingest [Sample.page 7], trivial⟩,
    .run 0 Sample.quiet 1000, .start ⟨.putSnapshot Sample.container, trivial⟩,
    .run 1 Sample.quiet 1000, .start ⟨.createNode root, trivial⟩, .run 2 Sample.quiet 1000,
    .start ⟨.createNode (child 1 0), trivial⟩, .run 3 Sample.quiet 1000,
    .start ⟨.prune "e" 1 false, trivial⟩, .run 4 Sample.quiet 1000,
    .start ⟨.gcCycle ⟨⟨fun _ _ => false, 10⟩, false, 0⟩, trivial⟩, .run 5 Sample.quiet 24]

def Sample.reapedOne (c : (reapingStore Sample.options).Call) (r : Reply) : Bool :=
  match c.1, r with
  | .gcCycle _, .gcCycle (.ok report) => report.nodesReaped = 1
  | _, _ => false

theorem tombstones_stay_reapable_pruned :
    (∃ db : MetaDb, db.tombstones = [⟨"e", 1, 3⟩] ∧ db.TombstonesPruned ∧
      ∃ r, db.reapTombstone "e" 1 = .ok r) ∧
    ∃ (a b : Config (reapingStore Sample.options)) (go : GcOpts) (report : GcReport),
      report.nodesReaped = 1 ∧ Machine.Returns a b 5 ⟨.gcCycle go, trivial⟩ (.gcCycle (.ok report)) ∧
      NoRefusal (Except.ok report) := by
  constructor
  · have hbegun : History.Reach 100 KeepsPruned _ := .step .initial (.begin rfl)
    have hroot := History.Reach.step hbegun (.command rfl .good (.createNode root) rfl
      fun _ _ t ht => nomatch ht)
    have hchild := History.Reach.step hroot (.command rfl .good (.createNode (child 1 0)) rfl
      fun _ _ t ht => nomatch ht)
    have hpruned := History.Reach.step hchild (.command rfl .good (.pruneSubtree "e" 1 false) rfl
      trivial)
    obtain ⟨htomb, hreap⟩ := tombstones_stay_reapable.1 100 _ _ hpruned (.inr ⟨_, _, rfl, rfl⟩)
    exact ⟨_, by decide +kernel, htomb, hreap ⟨"e", 1, 3⟩ (by decide +kernel)⟩
  · have hcomp : (((reapingStore Sample.options).execAll Sample.sparesPruned Sample.reaping
        ((reapingStore Sample.options).initial World.empty)).any fun a => Machine.running 5 a &&
        ((reapingStore Sample.options).runThread Sample.sparesPruned 5 Sample.quiet 1 a).any
        fun b => Machine.replied 5 Sample.reapedOne b && Sample.sparesPruned a.store b.store) =
        true := by
      decide +kernel
    simp only [Option.any_eq_true, Bool.and_eq_true] at hcomp
    obtain ⟨a, ha, hrun, b, hb, hrep, hok⟩ := hcomp
    have hreach : (reapingStore Sample.options).Reach (fun _ s s' => RevivesNothing s s')
        ((reapingStore Sample.options).initial World.empty) a := Machine.reach_of_execAll
      (by simp +contextual [Sample.reaping, Machine.Meets, revivesNothing_of_sparesPruned]) ha
    obtain ⟨hstep, ⟨c, hc⟩, r, hret, htest⟩ := Machine.returns_of_runThread hb hrun hrep
    unfold Sample.reapedOne at htest
    split at htest
    · next go report hcall =>
      cases hcall
      exact ⟨a, b, go, report, of_decide_eq_true htest, hret, tombstones_stay_reapable.2 _ a b _ 5 go
        _ hreach hstep (revivesNothing_of_sparesPruned hok) hret⟩
    · cases htest

end Run

end SnapStore
