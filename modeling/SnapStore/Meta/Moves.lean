import SnapStore.Meta.Actor
import Mathlib.Logic.Relation

/-!
# What a command can write

Each command of the writer is a sequence of row changes, in whatever way it ends.  Invariants of the
tables are proved one change at a time.
-/

namespace SnapStore

open Disk Relation

def ActorCmd.root : ActorCmd → Option SnapshotRef
  | .createNode p => some p.snapshotRef
  | .pin r _ => some r
  | _ => none

namespace MetaDb

def pruned (db : MetaDb) (exp : ExperimentId) (id : NodeId) (counter : Nat) : MetaDb :=
  { db with
    nodes := db.nodes.map fun n =>
      if db.inSubtree exp id n then { n with status := .pruned, updatedAt := counter } else n
    tombstones :=
      if db.tombstones.any fun t => t.experimentId = exp ∧ t.nodeId = id then db.tombstones
      else ⟨exp, id, counter⟩ :: db.tombstones }

def survivors (db : MetaDb) (exp : ExperimentId) (id : NodeId) : List NodeRow :=
  db.nodes.filter fun n => !db.inSubtree exp id n

def reaped (db : MetaDb) (exp : ExperimentId) (id : NodeId) : MetaDb :=
  { db with
    nodes := db.survivors exp id
    inputLogs := db.inputLogs.filter fun l =>
      (db.survivors exp id).any fun n => n.inputLogId = some l.logId
    tombstones := db.tombstones.filter fun t => ¬ (t.experimentId = exp ∧ t.nodeId = id) }

inductive Move [Primitives] (k : Nat) : ActorCmd → MetaDb → MetaDb → Prop where
  | insertLog {cmd : ActorCmd} {db : MetaDb} (row : InputLogRow) (hstamp : row.createdAt = k)
      (hid : blake3 (row.content.take (row.content.length - 32)) = row.logId)
      (hnew : ∀ l ∈ db.inputLogs, l.logId ≠ row.logId) :
      Move k cmd db { db with inputLogs := row :: db.inputLogs }
  | insertNode {db : MetaDb} (p : CreateNodeParams) (depth : Nat)
      (hdepth : db.nodeDepth p = .ok depth)
      (hlog : ∀ logId, p.inputLogId = some logId → ∃ l ∈ db.inputLogs, l.logId = logId)
      (hnew : db.fetchNode p.experimentId p.nodeId = none) :
      Move k (.createNode p) db { db with nodes := newNode p depth k :: db.nodes }
  | updateNode {db : MetaDb} (exp : ExperimentId) (us : List NodeUpdate) (u : NodeUpdate)
      (hu : u ∈ us) : Move k (.updateNodes exp us) db (applyUpdate exp k db u)
  | upsertKv {db : MetaDb} (key value : Bytes) (expected : Option Nat) (row : KvRow)
      (hstamp : row.updatedAt = k) :
      Move k (.putMetadata key value expected) db (db.upsertKv row)
  | deleteKv {db : MetaDb} (key : Bytes) (expected : Option Nat) :
      Move k (.deleteMetadata key expected) db
        { db with kvMetadata := db.kvMetadata.filter fun x => x.key ≠ key }
  | insertPin {db : MetaDb} (r : SnapshotRef) (note : Option String) :
      Move k (.pin r note) db { db with pins := ⟨r, note, k⟩ :: db.pins }
  | unpin {db : MetaDb} (r : SnapshotRef) :
      Move k (.unpin r) db { db with pins := db.pins.filter fun p => p.snapshotRef ≠ r }
  | prune {db : MetaDb} (exp : ExperimentId) (id : NodeId) (allowRoot : Bool)
      (hnode : (db.fetchNode exp id).isSome) :
      Move k (.pruneSubtree exp id allowRoot) db (db.pruned exp id k)
  | reap {db : MetaDb} (exp : ExperimentId) (id : NodeId) (hnode : (db.fetchNode exp id).isSome)
      (hpruned : ∀ n ∈ db.nodes, db.inSubtree exp id n = true → n.status = .pruned) :
      Move k (.reapTombstone exp id) db (db.reaped exp id)
  | setGcState {db : MetaDb} (state : GcStateRow) :
      Move k (.setGcState state) db (db.setGcState state)

variable {db db' : MetaDb} {m k : Nat}

theorem Move.gcState {cmd : ActorCmd} [Primitives] (hm : Move k cmd db db')
    (hcmd : ∀ state, cmd ≠ .setGcState state) : db'.gcState = db.gcState := by
  cases hm with
  | setGcState state => exact absurd rfl (hcmd state)
  | _ => rfl

theorem Move.hasRow {cmd : ActorCmd} [Primitives] {r : SnapshotRef} (hm : Move k cmd db db')
    (hr : db'.HasRow r) : db.HasRow r ∨ cmd.root = some r := by
  cases hm with
  | insertNode p depth _ _ _ =>
    rcases hr with ⟨n, hn, hnr⟩ | hpin
    · rcases List.mem_cons.mp hn with rfl | hn
      · exact .inr (congrArg some hnr)
      · exact .inl (.inl ⟨n, hn, hnr⟩)
    · exact .inl (.inr hpin)
  | insertPin q note =>
    rcases hr with hnode | ⟨p, hp, hpr⟩
    · exact .inl (.inl hnode)
    · rcases List.mem_cons.mp hp with rfl | hp
      · exact .inr (congrArg some hpr)
      · exact .inl (.inr ⟨p, hp, hpr⟩)
  | unpin q =>
    rcases hr with hnode | ⟨p, hp, hpr⟩
    · exact .inl (.inl hnode)
    · exact .inl (.inr ⟨p, (List.mem_filter.mp hp).1, hpr⟩)
  | updateNode _ _ _ _ | prune _ _ _ _ =>
    rcases hr with ⟨n, hn, hnr⟩ | hpin
    · obtain ⟨x, hx, rfl⟩ := List.mem_map.mp hn
      refine .inl (.inl ⟨x, hx, ?_⟩)
      split at hnr <;> exact hnr
    · exact .inl (.inr hpin)
  | reap _ _ _ _ =>
    rcases hr with ⟨n, hn, hnr⟩ | hpin
    · exact .inl (.inl ⟨n, (List.mem_filter.mp hn).1, hnr⟩)
    · exact .inl (.inr hpin)
  | _ => exact .inl hr

/-! ## The commands one by one -/

theorem pruneSubtree_ok {exp : ExperimentId} {id n : Nat} {allowRoot : Bool}
    (h : db.pruneSubtree exp id allowRoot k = .ok (n, db')) :
    (db.fetchNode exp id).isSome ∧ db' = db.pruned exp id k := by
  unfold pruneSubtree at h
  split at h
  · cases h
  · split at h
    · cases h
    · next row hrow =>
      cases h
      exact ⟨by rw [hrow]; rfl, rfl⟩

theorem reapTombstone_ok {exp : ExperimentId} {id n : Nat}
    (h : db.reapTombstone exp id = .ok (n, db')) :
    (db.fetchNode exp id = none ∧ db' = db) ∨
      (db.fetchNode exp id).isSome ∧ db' = db.reaped exp id ∧
        ∀ n ∈ db.nodes, db.inSubtree exp id n = true → n.status = .pruned := by
  unfold reapTombstone at h
  split at h
  · next hnone =>
    cases h
    exact .inl ⟨hnone, rfl⟩
  · next row hrow =>
    dsimp only at h
    split at h
    · cases h
    · next hzero =>
      cases h
      refine .inr ⟨by rw [hrow]; rfl, rfl, fun n hn hin => ?_⟩
      by_contra hne
      refine hzero (List.length_pos_of_mem (a := n) ?_)
      simp [hn, hin, hne]

theorem nodeDepth_congr (h : db'.nodes = db.nodes) (p : CreateNodeParams) :
    db'.nodeDepth p = db.nodeDepth p := by
  simp only [nodeDepth, fetchNode, h]

variable [Primitives]

theorem putInputLog_ok {logId : LogId} {container : Bytes} {b : Bool} {cmd : ActorCmd}
    (h : db.putInputLog logId container m k = .ok (b, db')) :
    ReflTransGen (Move k cmd) db db' ∧ db'.nodes = db.nodes ∧
      ∃ l ∈ db'.inputLogs, l.logId = logId := by
  unfold putInputLog at h
  split at h
  · cases h
  · split at h
    · cases h
    · split at h
      · cases h
      · next hid =>
        split at h
        · next hany =>
          cases h
          obtain ⟨l, hl, hlid⟩ := List.any_eq_true.mp hany
          exact ⟨.refl, rfl, l, hl, of_decide_eq_true hlid⟩
        · next hany =>
          cases h
          refine ⟨.single (.insertLog ⟨logId, _, container, k⟩ rfl (not_not.mp hid) ?_),
            rfl, _, List.mem_cons_self, rfl⟩
          intro l hl heq
          exact hany (List.any_eq_true.mpr ⟨l, hl, decide_eq_true heq⟩)

theorem ensureInputLog_ok {p : CreateNodeParams} {cmd : ActorCmd}
    (h : db.ensureInputLog p m k = .ok db') :
    ReflTransGen (Move k cmd) db db' ∧ db'.nodes = db.nodes ∧
      ∀ logId, p.inputLogId = some logId → ∃ l ∈ db'.inputLogs, l.logId = logId := by
  unfold ensureInputLog at h
  split at h
  · next hnone =>
    cases h
    exact ⟨.refl, rfl, fun logId hid => absurd (hnone.symm.trans hid) (by simp)⟩
  · next logId hsome =>
    have hself : ∀ id', p.inputLogId = some id' → id' = logId := fun id' hid' =>
      Option.some.inj (hid'.symm.trans hsome)
    split at h
    · next hany =>
      cases h
      obtain ⟨l, hl, hlid⟩ := List.any_eq_true.mp hany
      exact ⟨.refl, rfl, fun id' hid' => ⟨l, hl, (of_decide_eq_true hlid).trans (hself id' hid').symm⟩⟩
    · split at h
      · next container _ =>
        cases hput : db.putInputLog logId container m k with
        | error e => simp [hput, Except.map] at h
        | ok x =>
          simp only [hput, Except.map, Except.ok.injEq] at h
          subst h
          obtain ⟨hmoves, hnodes, l, hl, hlid⟩ := putInputLog_ok hput
          exact ⟨hmoves, hnodes, fun id' hid' => ⟨l, hl, hlid.trans (hself id' hid').symm⟩⟩
      · cases h

theorem createNodeImpl_moves (p : CreateNodeParams) :
    ReflTransGen (Move k (.createNode p)) db (db.createNodeImpl p m k).2 := by
  unfold createNodeImpl
  split
  · exact .refl
  · next depth hdepth =>
    split
    · exact .refl
    · next db₁ hlog =>
      obtain ⟨hmoves, hnodes, hlogs⟩ := ensureInputLog_ok hlog
      split
      · split <;> exact hmoves
      · next hnew =>
        rw [← nodeDepth_congr hnodes] at hdepth
        exact hmoves.tail (.insertNode p depth hdepth hlogs hnew)

theorem updateNodes_moves {exp : ExperimentId} {us : List NodeUpdate} {x : Nat × MetaDb}
    (h : db.updateNodes exp us k = .ok x) :
    ReflTransGen (Move k (.updateNodes exp us)) db x.2 := by
  have hfold : ∀ (vs : List NodeUpdate) (db₁ : MetaDb), (∀ v ∈ vs, v ∈ us) →
      ReflTransGen (Move k (.updateNodes exp us)) db₁ (vs.foldl (applyUpdate exp k) db₁) := by
    intro vs
    induction vs with
    | nil => exact fun _ _ => .refl
    | cons v vs ih =>
      intro db₁ hvs
      refine .head (.updateNode exp us v (hvs v List.mem_cons_self)) ?_
      exact ih _ fun u hu => hvs u (List.mem_cons_of_mem _ hu)
  unfold updateNodes at h
  dsimp only at h
  split at h
  · cases h
  · cases h
    exact hfold us db fun _ hu => hu

theorem settle_moves {α : Type} {cmd : ActorCmd} {value : α → CmdValue}
    {x : Except MetaError (α × MetaDb)} (h : ∀ y, x = .ok y → ReflTransGen (Move k cmd) db y.2) :
    ReflTransGen (Move k cmd) db (db.settle value x).2 := by
  cases x with
  | ok y => exact h y rfl
  | error e => exact .refl

theorem dispatchCmd_moves (m : Nat) (db : MetaDb) (cmd : ActorCmd) (k : Nat) :
    ReflTransGen (Move k cmd) db (db.dispatchCmd m cmd k).2 := by
  cases cmd with
  | createNode p => exact createNodeImpl_moves p
  | updateNodes exp us => exact settle_moves fun _ => updateNodes_moves
  | putInputLog logId container => exact settle_moves fun _ h => (putInputLog_ok h).1
  | putMetadata key value expected =>
    refine settle_moves fun y h => ?_
    rw [(putMetadata_ok h).write]
    exact .single (.upsertKv key value expected _ rfl)
  | deleteMetadata key expected =>
    refine settle_moves fun y h => ?_
    rcases deleteMetadata_ok h with ⟨hy, -⟩ | ⟨hy, -⟩
    · exact hy ▸ .refl
    · exact hy ▸ .single (.deleteKv key expected)
  | pin r note =>
    show ReflTransGen _ db (db.pin r note k)
    unfold MetaDb.pin
    split
    · exact .refl
    · exact .single (.insertPin r note)
  | unpin r => exact .single (.unpin r)
  | pruneSubtree exp id allowRoot =>
    refine settle_moves fun y h => ?_
    obtain ⟨hnode, hy⟩ := pruneSubtree_ok h
    exact hy ▸ .single (.prune exp id allowRoot hnode)
  | reapTombstone exp id =>
    refine settle_moves fun y h => ?_
    rcases reapTombstone_ok h with ⟨-, hy⟩ | ⟨hnode, hy, hpruned⟩
    · exact hy ▸ .refl
    · exact hy ▸ .single (.reap exp id hnode hpruned)
  | setGcState state => exact .single (.setGcState state)

theorem dispatchCmd_induction {P : MetaDb → Prop} {cmd : ActorCmd} (hdb : P db)
    (hmove : ∀ db db', P db → Move k cmd db db' → P db') : P (db.dispatchCmd m cmd k).2 := by
  have hmoves := dispatchCmd_moves m db cmd k
  generalize (db.dispatchCmd m cmd k).2 = db' at hmoves
  induction hmoves with
  | refl => exact hdb
  | tail _ hlast ih => exact hmove _ _ ih hlast

theorem after_induction {P : MetaDb → Prop} {cmd : ActorCmd} (hdb : P db)
    (hmove : ∀ db db', P db → Move k cmd db db' → P db') : P (db.after m cmd k) := by
  have h := dispatchCmd_induction (m := m) hdb hmove
  unfold after
  split
  · next heq =>
    rw [heq] at h
    exact h
  · exact hdb

end MetaDb

end SnapStore
