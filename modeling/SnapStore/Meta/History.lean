import SnapStore.Meta.Batches
import SnapStore.Meta.Moves

/-!
# Histories of the writer actor

The actor one statement at a time: batches whose `COMMIT` succeeds or fails, kills at any moment,
and reopens that derive the counter again.  The history records which stamps were given to commands
in this lifetime, and which to commands of an earlier one whose batch was committed.
-/

namespace SnapStore

open Disk Sql

structure History where
  actor : WriterActor
  batch : Option (BatchLoop × Nat)
  pending : List Nat
  given : List Nat
  committed : List Nat
  /-- Stamps given in earlier lifetimes to commands whose batch was committed. -/
  earlier : List Nat

namespace History

def initial : History :=
  ⟨⟨MetaDb.empty, MetaDb.empty.rederiveCounter⟩, none, [], [], [], []⟩

def executed (s : History) (l : BatchLoop) (i : Nat) (stamps : List Nat) : History :=
  { s with batch := some (l, i + 1), pending := stamps ++ s.pending, given := stamps ++ s.given }

def contents (s : History) : MetaDb :=
  match s.batch with
  | some (l, _) => l.tx.current
  | none => s.actor.db

variable [Primitives]

/-- One statement of the actor, or a kill and a reopen.  Commands are executed only if they meet
`ok` on the contents they find. -/
inductive Step (m : Nat) (ok : MetaDb → ActorCmd → Prop) : History → History → Prop where
  | begin {s : History} (h : s.batch = none) :
      Step m ok s { s with batch := some (⟨.begin s.actor.db, s.actor.counter, false, []⟩, 0) }
  | command {s : History} {l : BatchLoop} {i : Nat} (h : s.batch = some (l, i)) (o : Outcomes)
      (c : ActorCmd) (hsp : o.savepoint i = true) (hok : ok l.tx.current c) :
      Step m ok s (s.executed (execCmd m o l (c, i)) i [l.counter])
  | skipped {s : History} {l : BatchLoop} {i : Nat} (h : s.batch = some (l, i)) (o : Outcomes)
      (c : ActorCmd) (hsp : o.savepoint i = false) :
      Step m ok s (s.executed (execCmd m o l (c, i)) i [])
  | commit {s : History} {l : BatchLoop} {i : Nat} (h : s.batch = some (l, i)) :
      Step m ok s { s with
        actor := ⟨l.flushed, l.counter⟩, batch := none, pending := []
        committed := s.pending ++ s.committed }
  | commitFailed {s : History} {l : BatchLoop} {i : Nat} (h : s.batch = some (l, i)) :
      Step m ok s { s with actor := ⟨s.actor.db, l.counter⟩, batch := none, pending := [] }
  | reopen {s : History} :
      Step m ok s ⟨⟨s.actor.db, s.actor.db.rederiveCounter⟩, none, [], [], [],
        s.committed ++ s.earlier⟩

inductive Reach (m : Nat) (ok : MetaDb → ActorCmd → Prop) : History → Prop where
  | initial : Reach m ok initial
  | step {s s' : History} (hr : Reach m ok s) (hs : Step m ok s s') : Reach m ok s'

variable {m : Nat} {ok : MetaDb → ActorCmd → Prop}

theorem Reach.mono {ok' : MetaDb → ActorCmd → Prop} (hok : ∀ db c, ok db c → ok' db c)
    {s : History} (h : Reach m ok s) : Reach m ok' s := by
  induction h with
  | initial => exact .initial
  | step _ hs ih =>
    refine .step ih ?_
    cases hs with
    | begin h => exact .begin h
    | command h o c hsp hc => exact .command h o c hsp (hok _ c hc)
    | skipped h o c hsp => exact .skipped h o c hsp
    | commit h => exact .commit h
    | commitFailed h => exact .commitFailed h
    | reopen => exact .reopen

/-! ## Batches are histories -/

theorem batch_of_foldl (cs : List ActorCmd) (o : Outcomes) :
    ∀ (s : History) (l : BatchLoop) (i : Nat), Reach m (fun _ _ => True) s → s.batch = some (l, i) →
      ∃ s', Reach m (fun _ _ => True) s' ∧ s'.actor = s.actor ∧
        s'.batch = some ((cs.zipIdx i).foldl (execCmd m o) l, i + cs.length) := by
  induction cs with
  | nil =>
    intro s l i hr hb
    exact ⟨s, hr, rfl, hb⟩
  | cons c cs ih =>
    intro s l i hr hb
    -- the command is executed or skipped, depending on its `SAVEPOINT`
    obtain ⟨s₁, hs₁, hactor, hbatch⟩ : ∃ s₁, Step m (fun _ _ => True) s s₁ ∧ s₁.actor = s.actor ∧
        s₁.batch = some (execCmd m o l (c, i), i + 1) := by
      cases hsp : o.savepoint i with
      | true => exact ⟨_, .command hb o c hsp trivial, rfl, rfl⟩
      | false => exact ⟨_, .skipped hb o c hsp, rfl, rfl⟩
    obtain ⟨s', hr', ha', hb'⟩ := ih s₁ _ _ (.step hr hs₁) hbatch
    refine ⟨s', hr', ha'.trans hactor, ?_⟩
    rw [hb', List.zipIdx_cons, List.foldl_cons, List.length_cons]
    congr 2
    omega

theorem Reach.executeBatch {s : History} (h : Reach m (fun _ _ => True) s) (hidle : s.batch = none)
    (o : Outcomes) (batch : List ActorCmd) :
    ∃ s', Reach m (fun _ _ => True) s' ∧ s'.batch = none ∧
      s'.actor = (SnapStore.executeBatch m o s.actor batch).1 := by
  cases hb : o.begin with
  | false => exact ⟨s, h, hidle, by rw [executeBatch_begin_failed hb]⟩
  | true =>
    obtain ⟨s₁, hr₁, hactor, hbatch⟩ := batch_of_foldl (m := m) batch o _ _ _
      (.step h (.begin hidle)) rfl
    rw [executeBatch_begun hb]
    cases hc : o.commit with
    | true => exact ⟨_, .step hr₁ (.commit hbatch), rfl, rfl⟩
    | false =>
      refine ⟨_, .step hr₁ (.commitFailed hbatch), rfl, ?_⟩
      rw [hactor]
      rfl

end History

/-! ## Stamps -/

namespace MetaDb

structure StampsBelow (db : MetaDb) (k : Nat) : Prop where
  nodes : ∀ n ∈ db.nodes, n.createdAt < k ∧ n.updatedAt < k
  pins : ∀ p ∈ db.pins, p.createdAt < k
  inputLogs : ∀ l ∈ db.inputLogs, l.createdAt < k
  tombstones : ∀ t ∈ db.tombstones, t.createdAt < k
  kvMetadata : ∀ r ∈ db.kvMetadata, r.updatedAt < k

namespace StampsBelow

variable {db db' : MetaDb} {j k : Nat}

theorem empty (k : Nat) : MetaDb.empty.StampsBelow k := by
  constructor <;> simp [MetaDb.empty]

theorem mono (h : db.StampsBelow j) (hjk : j ≤ k) : db.StampsBelow k where
  nodes n hn := ⟨(h.nodes n hn).1.trans_le hjk, (h.nodes n hn).2.trans_le hjk⟩
  pins p hp := (h.pins p hp).trans_le hjk
  inputLogs l hl := (h.inputLogs l hl).trans_le hjk
  tombstones t ht := (h.tombstones t ht).trans_le hjk
  kvMetadata r hr := (h.kvMetadata r hr).trans_le hjk

theorem withCounter (h : db.StampsBelow k) : (db.withCounter j).StampsBelow k :=
  ⟨h.nodes, h.pins, h.inputLogs, h.tombstones, h.kvMetadata⟩

theorem mapNodes (h : db.StampsBelow k) {f : NodeRow → NodeRow}
    (hf : ∀ n, (f n).createdAt = n.createdAt ∧ ((f n).updatedAt = n.updatedAt ∨ (f n).updatedAt < k)) :
    ({ db with nodes := db.nodes.map f } : MetaDb).StampsBelow k := by
  refine ⟨?_, h.pins, h.inputLogs, h.tombstones, h.kvMetadata⟩
  intro n hn
  obtain ⟨n₀, hn₀, rfl⟩ := List.mem_map.mp hn
  obtain ⟨hc, hu⟩ := h.nodes n₀ hn₀
  refine ⟨(hf n₀).1 ▸ hc, ?_⟩
  rcases (hf n₀).2 with heq | hlt
  · exact heq ▸ hu
  · exact hlt

variable [Primitives] {cmd : ActorCmd} {c : Nat}

theorem move (h : db.StampsBelow k) (hc : c < k) (hm : Move c cmd db db') :
    db'.StampsBelow k := by
  cases hm with
  | insertLog row hstamp hid hnew =>
    refine ⟨h.nodes, h.pins, ?_, h.tombstones, h.kvMetadata⟩
    exact List.forall_mem_cons.mpr ⟨hstamp ▸ hc, h.inputLogs⟩
  | insertNode p depth hdepth hlog hnew =>
    refine ⟨?_, h.pins, h.inputLogs, h.tombstones, h.kvMetadata⟩
    exact List.forall_mem_cons.mpr ⟨⟨hc, hc⟩, h.nodes⟩
  | updateNode exp us u hu =>
    refine h.mapNodes fun n => ?_
    split
    · exact ⟨rfl, .inr hc⟩
    · exact ⟨rfl, .inl rfl⟩
  | upsertKv key value expected row hstamp =>
    refine ⟨h.nodes, h.pins, h.inputLogs, h.tombstones, ?_⟩
    exact List.forall_mem_cons.mpr
      ⟨hstamp ▸ hc, fun r hr => h.kvMetadata r (List.mem_filter.mp hr).1⟩
  | deleteKv key expected =>
    exact ⟨h.nodes, h.pins, h.inputLogs, h.tombstones,
      fun r hr => h.kvMetadata r (List.mem_filter.mp hr).1⟩
  | insertPin r note =>
    exact ⟨h.nodes, List.forall_mem_cons.mpr ⟨hc, h.pins⟩, h.inputLogs, h.tombstones, h.kvMetadata⟩
  | unpin r =>
    exact ⟨h.nodes, fun p hp => h.pins p (List.mem_filter.mp hp).1, h.inputLogs, h.tombstones,
      h.kvMetadata⟩
  | prune exp id allowRoot hnode =>
    have hnodes := h.mapNodes (f := fun n =>
      if db.inSubtree exp id n then { n with status := .pruned, updatedAt := c } else n) fun n => by
        split
        · exact ⟨rfl, .inr hc⟩
        · exact ⟨rfl, .inl rfl⟩
    refine ⟨hnodes.nodes, h.pins, h.inputLogs, ?_, h.kvMetadata⟩
    unfold pruned
    dsimp only
    split
    · exact h.tombstones
    · exact List.forall_mem_cons.mpr ⟨hc, h.tombstones⟩
  | reap exp id hnode hpruned =>
    exact ⟨fun n hn => h.nodes n (List.mem_filter.mp hn).1, h.pins,
      fun l hl => h.inputLogs l (List.mem_filter.mp hl).1,
      fun t ht => h.tombstones t (List.mem_filter.mp ht).1, h.kvMetadata⟩
  | setGcState state => exact ⟨h.nodes, h.pins, h.inputLogs, h.tombstones, h.kvMetadata⟩

theorem dispatchCmd {m : Nat} (h : db.StampsBelow k) (hc : c < k) :
    (db.dispatchCmd m cmd c).2.StampsBelow k :=
  dispatchCmd_induction (P := fun db => db.StampsBelow k) h fun _ _ h => h.move hc

end StampsBelow

end MetaDb

namespace MetaDb

theorem logicalCounter_lt_rederiveCounter (db : MetaDb) :
    db.logicalCounter < db.rederiveCounter := by
  have hle : ∀ (ns : List NodeRow) (k : Nat),
      k ≤ ns.foldl (fun m n => max m (max n.createdAt n.updatedAt)) k := by
    intro ns
    induction ns with
    | nil => exact fun k => le_rfl
    | cons n ns ih => exact fun k => (le_max_left _ _).trans (ih _)
  exact Nat.lt_succ_of_le (hle db.nodes db.logicalCounter)

end MetaDb

namespace History

def now (s : History) : Nat :=
  match s.batch with
  | some (l, _) => l.counter
  | none => s.actor.counter

structure Ahead (s : History) (l : BatchLoop) : Prop where
  counter : s.actor.counter ≤ l.counter
  stored : l.tx.current.StampsBelow l.counter
  clean : l.counterDirty = false → l.tx.current = s.actor.db ∧ s.pending = []

structure Stamped (s : History) : Prop where
  persisted : s.actor.db.logicalCounter ≤ s.actor.counter
  stored : s.actor.db.StampsBelow s.actor.db.logicalCounter
  committed : ∀ t ∈ s.committed ++ s.earlier, t < s.actor.db.logicalCounter
  given : ∀ t ∈ s.pending ++ s.given, t < s.now
  idle : s.batch = none → s.pending = []
  batch : ∀ l i, s.batch = some (l, i) → s.Ahead l

theorem Stamped.initial : Stamped initial where
  persisted := by decide
  stored := .empty _
  committed := by simp [History.initial]
  given := by simp [History.initial]
  idle := fun _ => rfl
  batch := fun _ _ h => nomatch h

variable [Primitives] {m : Nat} {ok : MetaDb → ActorCmd → Prop} {s s' : History}

omit [Primitives] in
theorem now_of_batch {l : BatchLoop} {i : Nat} (h : s.batch = some (l, i)) : s.now = l.counter := by
  rw [now, h]

omit [Primitives] in
theorem now_of_idle (h : s.batch = none) : s.now = s.actor.counter := by
  rw [now, h]

theorem Ahead.command {l : BatchLoop} {i : Nat} (h : s.Ahead l) (o : Outcomes) (c : ActorCmd)
    (hsp : o.savepoint i = true) : (s.executed (execCmd m o l (c, i)) i [l.counter]).Ahead
      (execCmd m o l (c, i)) := by
  have hcounter : (execCmd m o l (c, i)).counter = l.counter + 1 := by simp [execCmd, hsp]
  refine ⟨?_, ?_, ?_⟩
  · rw [hcounter]
    exact h.counter.trans (Nat.le_succ _)
  · have hstored := h.stored.mono (Nat.le_succ l.counter)
    rw [hcounter, current_execCmd, if_pos hsp]
    split
    · exact hstored.dispatchCmd (Nat.lt_succ_self _)
    · exact hstored
  · intro hd
    simp [execCmd, hsp] at hd

theorem Stamped.step (h : Stamped s) (hs : Step m ok s s') : Stamped s' := by
  cases hs with
  | begin hidle =>
    refine ⟨h.persisted, h.stored, h.committed, ?_, by rintro ⟨⟩, ?_⟩
    · exact now_of_idle hidle ▸ h.given
    · rintro l i ⟨⟩
      exact ⟨le_rfl, h.stored.mono h.persisted, fun _ => ⟨rfl, h.idle hidle⟩⟩
  | @command l i hb o c hsp hok =>
    refine ⟨h.persisted, h.stored, h.committed, ?_, by rintro ⟨⟩, ?_⟩
    · have hnow : (s.executed (execCmd m o l (c, i)) i [l.counter]).now = s.now + 1 := by
        rw [now_of_batch hb]
        simp [now, executed, execCmd, hsp]
      intro t ht
      rw [hnow]
      have ht' : t = l.counter ∨ t ∈ s.pending ++ s.given := by
        simp only [executed, List.mem_append, List.mem_singleton] at ht ⊢
        tauto
      rcases ht' with rfl | ht'
      · rw [now_of_batch hb]
        exact Nat.lt_succ_self _
      · exact (h.given t ht').trans (Nat.lt_succ_self _)
    · rintro l' i' ⟨⟩
      exact (h.batch l i hb).command o c hsp
  | @skipped l i hb o c hsp =>
    have hloop : execCmd m o l (c, i) =
        { l with replies := l.replies ++ [.error (.io "savepoint creation failed")] } := by
      simp [execCmd, hsp]
    rw [hloop]
    refine ⟨h.persisted, h.stored, h.committed, ?_, by rintro ⟨⟩, ?_⟩
    · exact now_of_batch hb ▸ h.given
    · rintro l' i' ⟨⟩
      exact ⟨(h.batch l i hb).counter, (h.batch l i hb).stored, (h.batch l i hb).clean⟩
  | @commit l i hb =>
    have ha := h.batch l i hb
    have hgiven : ∀ t ∈ s.pending ++ s.given, t < l.counter := now_of_batch hb ▸ h.given
    cases hd : l.counterDirty with
    | true =>
      have hflushed : l.flushed = l.tx.current.withCounter l.counter := by
        rw [BatchLoop.flushed, hd]
        rfl
      rw [hflushed]
      refine ⟨le_rfl, ha.stored.withCounter, ?_, ?_, fun _ => rfl, by rintro _ _ ⟨⟩⟩
      · intro t ht
        rw [List.append_assoc, List.mem_append] at ht
        rcases ht with ht | ht
        · exact hgiven t (List.mem_append_left _ ht)
        · exact (h.committed t ht).trans_le (h.persisted.trans ha.counter)
      · exact fun t ht => hgiven t (List.mem_append_right _ ht)
    | false =>
      obtain ⟨hcur, hpending⟩ := ha.clean hd
      have hflushed : l.flushed = s.actor.db := by
        rw [BatchLoop.flushed, hd]
        exact hcur
      rw [hflushed]
      refine ⟨h.persisted.trans ha.counter, h.stored, ?_, ?_, fun _ => rfl, by rintro _ _ ⟨⟩⟩
      · rw [hpending]
        exact h.committed
      · exact fun t ht => hgiven t (List.mem_append_right _ ht)
  | @commitFailed l i hb =>
    have hgiven : ∀ t ∈ s.pending ++ s.given, t < l.counter := now_of_batch hb ▸ h.given
    refine ⟨h.persisted.trans (h.batch l i hb).counter, h.stored, h.committed, ?_, fun _ => rfl,
      by rintro _ _ ⟨⟩⟩
    exact fun t ht => hgiven t (List.mem_append_right _ ht)
  | reopen =>
    refine ⟨s.actor.db.logicalCounter_lt_rederiveCounter.le, h.stored, h.committed, ?_,
      fun _ => rfl, by rintro _ _ ⟨⟩⟩
    exact fun t ht => absurd ht List.not_mem_nil

theorem Reach.stamped (h : Reach m ok s) : Stamped s := by
  induction h with
  | initial => exact .initial
  | step _ hs ih => exact ih.step hs

/-- The stamp of a command is above the stamps of all commands of the same lifetime, of all
commands of earlier lifetimes whose batch was committed, and above all stored stamps.  (Below
`2^63` the integer columns hold the counter exactly.) -/
theorem stamp_above_history (m : Nat) (s : History) (l : BatchLoop) (i : Nat)
    (h : Reach m (fun _ _ => True) s) (hb : s.batch = some (l, i)) :
    (∀ t ∈ s.given, t < l.counter) ∧ (∀ t ∈ s.earlier, t < l.counter) ∧
      l.tx.current.StampsBelow l.counter ∧ s.actor.db.StampsBelow l.counter := by
  have hs := h.stamped
  have ha := hs.batch l i hb
  have hle : s.actor.db.logicalCounter ≤ l.counter := hs.persisted.trans ha.counter
  refine ⟨?_, ?_, ha.stored, hs.stored.mono hle⟩
  · intro t ht
    exact now_of_batch hb ▸ hs.given t (List.mem_append_right _ ht)
  · intro t ht
    exact (hs.committed t (List.mem_append_right _ ht)).trans_le hle

/-! ## Invariants of the tables -/

/-- What a new database meets and the commands keep, whose stamp is new, holds in every state of
every history, inside a transaction and between them. -/
theorem Reach.invariant_of_stamps {P : MetaDb → Prop} (hempty : P MetaDb.empty)
    (hcounter : ∀ db k, P db → P (db.withCounter k))
    (hcmd : ∀ db c k, P db → db.StampsBelow k → ok db c → P (db.dispatchCmd m c k).2)
    {s : History} (h : Reach m ok s) :
    P s.actor.db ∧ ∀ l i, s.batch = some (l, i) → P l.tx.current := by
  induction h with
  | initial => exact ⟨hempty, fun _ _ h => nomatch h⟩
  | step hr hs ih =>
    obtain ⟨hdb, hbatch⟩ := ih
    cases hs with
    | begin hidle =>
      refine ⟨hdb, ?_⟩
      rintro l i ⟨⟩
      exact hdb
    | @command l i hb o c hsp hok =>
      refine ⟨hdb, ?_⟩
      rintro l' i' ⟨⟩
      rw [current_execCmd, if_pos hsp]
      split
      · exact hcmd _ _ _ (hbatch l i hb) (hr.stamped.batch l i hb).stored hok
      · exact hbatch l i hb
    | @skipped l i hb o c hsp =>
      refine ⟨hdb, ?_⟩
      rintro l' i' ⟨⟩
      rw [current_execCmd, hsp]
      exact hbatch l i hb
    | @commit l i hb =>
      refine ⟨?_, by simp⟩
      show P l.flushed
      unfold BatchLoop.flushed
      split
      · exact hcounter _ _ (hbatch l i hb)
      · exact hbatch l i hb
    | commitFailed hb => exact ⟨hdb, by simp⟩
    | reopen => exact ⟨hdb, by simp⟩

theorem Reach.invariant {P : MetaDb → Prop} (hempty : P MetaDb.empty)
    (hcounter : ∀ db k, P db → P (db.withCounter k))
    (hcmd : ∀ db c k, P db → ok db c → P (db.dispatchCmd m c k).2) {s : History}
    (h : Reach m ok s) : P s.actor.db ∧ ∀ l i, s.batch = some (l, i) → P l.tx.current :=
  h.invariant_of_stamps hempty hcounter fun db c k hdb _ => hcmd db c k hdb

end History

section Sample

attribute [local instance] Sample.primitives

open History

theorem stamp_above_history_reopened :
    ∃ (s : History) (l : BatchLoop), s.batch = some (l, 0) ∧ s.earlier = [1] ∧
      l.tx.current.pins = [⟨Sample.ref, none, 1⟩] ∧ (∀ t ∈ s.earlier, t < l.counter) ∧
      l.tx.current.StampsBelow l.counter := by
  have hbegun : Reach 100 (fun _ _ => True) _ := .step .initial (.begin rfl)
  have hpinned := Reach.step hbegun (.command rfl .good (.pin Sample.ref none) rfl trivial)
  have hreopened := Reach.step (Reach.step hpinned (.commit rfl)) .reopen
  have hagain := Reach.step hreopened (.begin rfl)
  obtain ⟨-, hearlier, hstored, -⟩ := stamp_above_history 100 _ _ _ hagain rfl
  exact ⟨_, _, rfl, rfl, rfl, hearlier, hstored⟩

end Sample

end SnapStore
