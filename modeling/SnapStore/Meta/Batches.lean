import SnapStore.Meta.Actor
import SnapStore.System

/-!
# Batches of commands

With a database that behaves, a batch does to the tables, the counter and the replies what its
commands do one after the other.  Without a `COMMIT` nothing of a batch stays, whatever the replies
say.
-/

namespace SnapStore

open Disk Sql

namespace MetaDb

def withCounter (db : MetaDb) (k : Nat) : MetaDb := { db with logicalCounter := k }

@[simp] theorem withCounter_withCounter (db : MetaDb) (j k : Nat) :
    (db.withCounter j).withCounter k = db.withCounter k := rfl

section

variable (db : MetaDb) (k : Nat)

@[simp] theorem nodes_withCounter : (db.withCounter k).nodes = db.nodes := rfl
@[simp] theorem pins_withCounter : (db.withCounter k).pins = db.pins := rfl
@[simp] theorem tombstones_withCounter : (db.withCounter k).tombstones = db.tombstones := rfl
@[simp] theorem inputLogs_withCounter : (db.withCounter k).inputLogs = db.inputLogs := rfl
@[simp] theorem fetchNode_withCounter : (db.withCounter k).fetchNode = db.fetchNode := rfl
@[simp] theorem fetchKv_withCounter : (db.withCounter k).fetchKv = db.fetchKv := rfl
@[simp] theorem nodeDepth_withCounter : (db.withCounter k).nodeDepth = db.nodeDepth := rfl

end

theorem subtreeLevels_withCounter (db : MetaDb) (k : Nat) (exp : ExperimentId) (n : Nat)
    (level : List NodeId) :
    (db.withCounter k).subtreeLevels exp n level = db.subtreeLevels exp n level := by
  induction n generalizing level with
  | zero => rfl
  | succ n ih => exact congrArg (level ++ ·) (ih (db.children exp level))

@[simp] theorem subtree_withCounter (db : MetaDb) (k : Nat) (exp : ExperimentId) (i : NodeId) :
    (db.withCounter k).subtree exp i = db.subtree exp i := subtreeLevels_withCounter ..

@[simp] theorem inSubtree_withCounter (db : MetaDb) (k : Nat) :
    (db.withCounter k).inSubtree = db.inSubtree := by
  funext exp i n
  simp [inSubtree]

def SameTables (a b : MetaDb) : Prop := a.withCounter b.logicalCounter = b

instance (a b : MetaDb) : Decidable (SameTables a b) := inferInstanceAs (Decidable (_ = _))

/-! ## Commands do not use the persisted counter -/

section

variable {α : Type} {db : MetaDb} {k c : Nat}

def mapCounter (k : Nat) (x : α × MetaDb) : α × MetaDb := (x.1, x.2.withCounter k)

theorem foldl_applyUpdate_withCounter {exp : ExperimentId} (us : List NodeUpdate) :
    us.foldl (applyUpdate exp c) (db.withCounter k) =
      (us.foldl (applyUpdate exp c) db).withCounter k := by
  induction us generalizing db with
  | nil => rfl
  | cons u us ih => exact @ih (applyUpdate exp c db u)

theorem updateNodes_withCounter {exp : ExperimentId} {us : List NodeUpdate} :
    (db.withCounter k).updateNodes exp us c = (db.updateNodes exp us c).map (mapCounter k) := by
  unfold updateNodes
  rw [fetchNode_withCounter, foldl_applyUpdate_withCounter]
  dsimp only
  split <;> rfl

theorem putMetadata_withCounter {key value : Bytes} {expected : Option Nat} :
    (db.withCounter k).putMetadata key value expected c =
      (db.putMetadata key value expected c).map (mapCounter k) := by
  unfold putMetadata
  rw [fetchKv_withCounter]
  cases checkKey key with
  | error e => rfl
  | ok _ =>
    simp only [bind, Except.bind]
    split
    · rfl
    · split
      · rfl
      · cases db.fetchKv key <;> rfl
      · cases db.fetchKv key with
        | none => rfl
        | some r =>
          dsimp only
          split <;> rfl

theorem deleteMetadata_withCounter {key : Bytes} {expected : Option Nat} :
    (db.withCounter k).deleteMetadata key expected =
      (db.deleteMetadata key expected).map (mapCounter k) := by
  unfold deleteMetadata
  rw [fetchKv_withCounter]
  cases checkKey key with
  | error e => rfl
  | ok _ =>
    simp only [bind, Except.bind]
    cases db.fetchKv key with
    | none => rfl
    | some r =>
      dsimp only
      split <;> rfl

theorem pruneSubtree_withCounter {exp : ExperimentId} {i : NodeId} {b : Bool} :
    (db.withCounter k).pruneSubtree exp i b c =
      (db.pruneSubtree exp i b c).map (mapCounter k) := by
  unfold pruneSubtree
  rw [fetchNode_withCounter, inSubtree_withCounter]
  split
  · rfl
  · cases db.fetchNode exp i <;> rfl

theorem reapTombstone_withCounter {exp : ExperimentId} {i : NodeId} :
    (db.withCounter k).reapTombstone exp i = (db.reapTombstone exp i).map (mapCounter k) := by
  unfold reapTombstone
  rw [fetchNode_withCounter, inSubtree_withCounter, nodes_withCounter]
  cases db.fetchNode exp i with
  | none => rfl
  | some row =>
    dsimp only
    split <;> rfl

theorem pin_withCounter {r : SnapshotRef} {note : Option String} :
    (db.withCounter k).pin r note c = (db.pin r note c).withCounter k := by
  unfold MetaDb.pin
  rw [pins_withCounter]
  split <;> rfl

theorem settle_map {value : α → CmdValue} (x : Except MetaError (α × MetaDb)) :
    (db.withCounter k).settle value (x.map (mapCounter k)) = mapCounter k (db.settle value x) := by
  cases x <;> rfl

end

end MetaDb

section Serial

variable [Primitives] {m : Nat}

namespace MetaDb

variable {db : MetaDb} {k c : Nat}

theorem putInputLog_withCounter {logId : LogId} {container : Bytes} :
    (db.withCounter k).putInputLog logId container m c =
      (db.putInputLog logId container m c).map (mapCounter k) := by
  unfold putInputLog
  rw [inputLogs_withCounter]
  split
  · rfl
  · split
    · rfl
    · split
      · rfl
      · split <;> rfl

theorem ensureInputLog_withCounter {p : CreateNodeParams} :
    (db.withCounter k).ensureInputLog p m c =
      (db.ensureInputLog p m c).map fun d => d.withCounter k := by
  unfold ensureInputLog
  rw [inputLogs_withCounter]
  split
  · rfl
  · split
    · rfl
    · split
      · rw [putInputLog_withCounter]
        cases db.putInputLog _ _ m c <;> rfl
      · rfl

theorem createNodeImpl_withCounter {p : CreateNodeParams} :
    (db.withCounter k).createNodeImpl p m c = mapCounter k (db.createNodeImpl p m c) := by
  unfold createNodeImpl
  rw [nodeDepth_withCounter, ensureInputLog_withCounter]
  cases db.nodeDepth p with
  | error e => rfl
  | ok depth =>
    cases db.ensureInputLog p m c with
    | error e => rfl
    | ok db' =>
      simp only [Except.map, fetchNode_withCounter]
      cases db'.fetchNode p.experimentId p.nodeId with
      | none => rfl
      | some row =>
        dsimp only
        split <;> rfl

theorem dispatchCmd_withCounter (cmd : ActorCmd) :
    (db.withCounter k).dispatchCmd m cmd c = mapCounter k (db.dispatchCmd m cmd c) := by
  cases cmd with
  | createNode p => exact createNodeImpl_withCounter
  | updateNodes exp us => simp only [dispatchCmd, updateNodes_withCounter, settle_map]
  | putInputLog id b => simp only [dispatchCmd, putInputLog_withCounter, settle_map]
  | putMetadata key value e => simp only [dispatchCmd, putMetadata_withCounter, settle_map]
  | deleteMetadata key e => simp only [dispatchCmd, deleteMetadata_withCounter, settle_map]
  | pin r note =>
    simp only [dispatchCmd, pin_withCounter]
    rfl
  | unpin r => rfl
  | pruneSubtree exp i b => simp only [dispatchCmd, pruneSubtree_withCounter, settle_map]
  | reapTombstone exp i => simp only [dispatchCmd, reapTombstone_withCounter, settle_map]
  | setGcState st => rfl

theorem after_withCounter (cmd : ActorCmd) :
    (db.withCounter k).after m cmd c = (db.after m cmd c).withCounter k := by
  unfold after
  rw [dispatchCmd_withCounter]
  unfold mapCounter
  generalize db.dispatchCmd m cmd c = x
  obtain ⟨r, d⟩ := x
  cases r <;> rfl

end MetaDb

/-! ## One command after the other -/

namespace WriterActor

def next (m : Nat) (a : WriterActor) (c : ActorCmd) : WriterActor :=
  ⟨(a.db.after m c a.counter).withCounter (a.counter + 1), a.counter + 1⟩

def reply (m : Nat) (a : WriterActor) (c : ActorCmd) : CmdResult :=
  (a.db.dispatchCmd m c a.counter).1

def serial (m : Nat) : WriterActor → List ActorCmd → WriterActor × List CmdResult
  | a, [] => (a, [])
  | a, c :: cs => ((serial m (a.next m c) cs).1, a.reply m c :: (serial m (a.next m c) cs).2)

theorem serial_append (a : WriterActor) (cs ds : List ActorCmd) :
    serial m a (cs ++ ds) =
      ((serial m (serial m a cs).1 ds).1, (serial m a cs).2 ++ (serial m (serial m a cs).1 ds).2) := by
  induction cs generalizing a with
  | nil => rfl
  | cons c cs ih => simp only [List.cons_append, serial, ih]

theorem next_withCounter (a : WriterActor) (k : Nat) (c : ActorCmd) :
    next m ⟨a.db.withCounter k, a.counter⟩ c = next m a c := by
  simp only [next, MetaDb.after_withCounter, MetaDb.withCounter_withCounter]

theorem reply_withCounter (a : WriterActor) (k : Nat) (c : ActorCmd) :
    reply m ⟨a.db.withCounter k, a.counter⟩ c = reply m a c := by
  simp only [reply, MetaDb.dispatchCmd_withCounter, MetaDb.mapCounter]

theorem serial_withCounter (a : WriterActor) (k : Nat) (c : ActorCmd) (cs : List ActorCmd) :
    serial m ⟨a.db.withCounter k, a.counter⟩ (c :: cs) = serial m a (c :: cs) := by
  simp only [serial, next_withCounter, reply_withCounter]

end WriterActor

def BatchLoop.view (l : BatchLoop) : WriterActor := ⟨l.tx.current.withCounter l.counter, l.counter⟩

omit [Primitives] in
theorem current_closeSavepoint (o : Outcomes) (i : Nat) (succeeded : Bool)
    (tx : Transaction MetaDb) (db : MetaDb) :
    (closeSavepoint o i succeeded ((tx.savepoint i).write db)).current =
      if succeeded = true ∨ o.rollbackTo i = false then db else tx.current := by
  unfold closeSavepoint
  cases succeeded <;> cases o.rollbackTo i <;> cases o.release i <;> simp

theorem current_execCmd (o : Outcomes) (l : BatchLoop) (c : ActorCmd) (i : Nat) :
    (execCmd m o l (c, i)).tx.current =
      if o.savepoint i then
        if (l.tx.current.dispatchCmd m c l.counter).1.isOk = true ∨ o.rollbackTo i = false then
          (l.tx.current.dispatchCmd m c l.counter).2
        else l.tx.current
      else l.tx.current := by
  unfold execCmd
  split
  · exact current_closeSavepoint ..
  · rfl

theorem view_execCmd_good (l : BatchLoop) (c : ActorCmd) (i : Nat) :
    (execCmd m .good l (c, i)).view = l.view.next m c ∧
      (execCmd m .good l (c, i)).replies = l.replies ++ [l.view.reply m c] ∧
      (execCmd m .good l (c, i)).counterDirty = true := by
  have hcur : (execCmd m .good l (c, i)).tx.current = l.tx.current.after m c l.counter := by
    rw [current_execCmd, MetaDb.after]
    generalize l.tx.current.dispatchCmd m c l.counter = x
    obtain ⟨r, d⟩ := x
    cases r <;> rfl
  have hreply : l.view.reply m c = (l.tx.current.dispatchCmd m c l.counter).1 :=
    WriterActor.reply_withCounter ⟨l.tx.current, l.counter⟩ _ c
  have hnext : l.view.next m c = WriterActor.next m ⟨l.tx.current, l.counter⟩ c :=
    WriterActor.next_withCounter ⟨l.tx.current, l.counter⟩ _ c
  refine ⟨?_, ?_, rfl⟩
  · rw [hnext, BatchLoop.view, hcur]
    rfl
  · rw [hreply]
    rfl

theorem view_foldl_execCmd_good (cs : List ActorCmd) :
    ∀ (n : Nat) (l : BatchLoop), l.counterDirty = true →
      ((cs.zipIdx n).foldl (execCmd m .good) l).view = (l.view.serial m cs).1 ∧
      ((cs.zipIdx n).foldl (execCmd m .good) l).replies = l.replies ++ (l.view.serial m cs).2 ∧
      ((cs.zipIdx n).foldl (execCmd m .good) l).counterDirty = true := by
  induction cs with
  | nil =>
    intro n l hd
    simp [WriterActor.serial, hd]
  | cons c cs ih =>
    intro n l _
    obtain ⟨hview, hreplies, hdirty⟩ := view_execCmd_good (m := m) l c n
    obtain ⟨hv, hr, hd⟩ := ih (n + 1) (execCmd m .good l (c, n)) hdirty
    rw [List.zipIdx_cons, List.foldl_cons, hv, hr, hview, hreplies]
    refine ⟨rfl, ?_, hd⟩
    rw [List.append_assoc]
    rfl

theorem executeBatch_good (a : WriterActor) (batch : List ActorCmd) :
    executeBatch m .good a batch = a.serial m batch := by
  cases batch with
  | nil => rfl
  | cons c cs =>
    obtain ⟨hview, hreplies, hdirty⟩ :=
      view_execCmd_good (m := m) ⟨.begin a.db, a.counter, false, []⟩ c 0
    obtain ⟨hv, hr, hd⟩ := view_foldl_execCmd_good (m := m) cs 1 _ hdirty
    have hserial : WriterActor.serial m ⟨a.db.withCounter a.counter, a.counter⟩ (c :: cs) =
        a.serial m (c :: cs) := WriterActor.serial_withCounter a a.counter c cs
    rw [hview, hreplies] at hr
    rw [hview] at hv
    rw [← hserial]
    have hflushed : (execCmds m .good a (c :: cs)).flushed =
        (execCmds m .good a (c :: cs)).view.db := if_pos hd
    refine Prod.ext ?_ hr
    refine Eq.trans ?_ hv
    exact congrArg (WriterActor.mk · _) hflushed

theorem runBatches_eq_serial (bs : List (List ActorCmd)) (a : WriterActor) :
    runBatches m a bs = a.serial m bs.flatten := by
  induction bs generalizing a with
  | nil => rfl
  | cons b bs ih =>
    simp only [runBatches, ih, executeBatch_good, List.flatten_cons, WriterActor.serial_append]

/-! ## Batching is unobservable -/

omit [Primitives] in
theorem Drained.flatten {batchMax : Nat} {cmds : List ActorCmd} {bs : List (List ActorCmd)}
    (h : Drained batchMax cmds bs) : bs.flatten = cmds := by
  induction h with
  | done => rfl
  | batch first more rest bs _ _ ih => rw [List.flatten_cons, ih, List.cons_append]

theorem current_execCmd_error {l : BatchLoop} {c : ActorCmd} {i : Nat} {e : MetaError}
    (h : (execCmd m .good l (c, i)).replies = l.replies ++ [.error e]) :
    (execCmd m .good l (c, i)).tx.current = l.tx.current := by
  have hr : (l.tx.current.dispatchCmd m c l.counter).1 = .error e := by
    have h' : l.replies ++ [(l.tx.current.dispatchCmd m c l.counter).1] =
      l.replies ++ [.error e] := h
    simpa using h'
  rw [current_execCmd, hr]
  rfl

theorem executeBatch_error {a : WriterActor} {c : ActorCmd} {e : MetaError}
    (h : (executeBatch m .good a [c]).2 = [.error e]) :
    MetaDb.SameTables (executeBatch m .good a [c]).1.db a.db ∧
      (executeBatch m .good a [c]).1.db.logicalCounter = a.counter + 1 := by
  have hcur : (execCmds m .good a [c]).tx.current = a.db :=
    current_execCmd_error (l := ⟨.begin a.db, a.counter, false, []⟩) h
  refine ⟨?_, rfl⟩
  show MetaDb.withCounter (MetaDb.withCounter _ _) _ = _
  rw [hcur]
  rfl

/-- However the commands are split into batches, the database, the persisted counter and the
replies are those of one command per batch; and a command that fails changes no table, alone or
inside a batch. -/
theorem batching_unobservable (m batchMax : Nat) (cmds : List ActorCmd)
    (bs : List (List ActorCmd)) (hbs : Drained batchMax cmds bs) (a : WriterActor) :
    runBatches m a bs = runBatches m a (cmds.map ([·])) ∧
      (∀ (a' : WriterActor) (c : ActorCmd) (e : MetaError),
        (executeBatch m .good a' [c]).2 = [.error e] →
        MetaDb.SameTables (executeBatch m .good a' [c]).1.db a'.db ∧
          (executeBatch m .good a' [c]).1.db.logicalCounter = a'.counter + 1) ∧
      ∀ (l : BatchLoop) (c : ActorCmd) (i : Nat) (e : MetaError),
        (execCmd m .good l (c, i)).replies = l.replies ++ [.error e] →
        (execCmd m .good l (c, i)).tx.current = l.tx.current := by
  refine ⟨?_, fun _ _ _ => executeBatch_error, fun _ _ _ _ => current_execCmd_error⟩
  rw [runBatches_eq_serial, runBatches_eq_serial, hbs.flatten, ← List.flatMap_def,
    List.flatMap_singleton']

end Serial

section Sample

attribute [local instance] Sample.primitives

theorem batching_unobservable_pins :
    let cmds : List ActorCmd := [.pin Sample.ref none,
      .updateNodes "e" [⟨5, none, none, none, 1, true, none, none⟩], .unpin Sample.ref]
    let bs := [cmds.take 2, cmds.drop 2]
    let a : WriterActor := ⟨MetaDb.empty, 1⟩
    Drained 2 cmds bs ∧ runBatches 100 a bs = runBatches 100 a (cmds.map ([·])) ∧
      ∃ e, (executeBatch 100 .good a (cmds.tail.take 1)).2 = [.error e] ∧
        MetaDb.SameTables (executeBatch 100 .good a (cmds.tail.take 1)).1.db a.db := by
  intro cmds bs a
  have hbs : Drained 2 cmds bs :=
    .batch _ [_] [_] _ (by decide) (.batch _ [] [] _ (by decide) .done)
  obtain ⟨hrun, herr, -⟩ := batching_unobservable 100 2 cmds bs hbs a
  exact ⟨hbs, hrun, .missingNodes [5], rfl, (herr a _ _ rfl).1⟩

end Sample

/-! ## Replies and commits -/

section Commits

variable [Primitives] {m : Nat}

def loopAt (m : Nat) (o : Outcomes) (a : WriterActor) (batch : List ActorCmd) (i : Nat) :
    BatchLoop :=
  (batch.zipIdx.take i).foldl (execCmd m o) ⟨.begin a.db, a.counter, false, []⟩

def written (m : Nat) (o : Outcomes) (a : WriterActor) (batch : List ActorCmd) (i : Nat)
    (c : ActorCmd) : MetaDb :=
  ((loopAt m o a batch i).tx.current.dispatchCmd m c (loopAt m o a batch i).counter).2

def carried (m : Nat) (o : Outcomes) (a : WriterActor) (batch : List ActorCmd) (i : Nat)
    (c : ActorCmd) : MetaDb :=
  ((batch.zipIdx.drop (i + 1)).foldl (execCmd m o)
    ⟨.begin (written m o a batch i c), (loopAt m o a batch i).counter + 1, true, []⟩).tx.current

def ToldOk (m : Nat) (o : Outcomes) (a : WriterActor) (batch : List ActorCmd) (i : Nat)
    (c : ActorCmd) : Prop :=
  batch[i]? = some c ∧ (∃ v, (executeBatch m o a batch).2[i]? = some (.ok v)) ∧
    ¬ MetaDb.SameTables (loopAt m o a batch i).tx.current (written m o a batch i c)

def told (m : Nat) (o : Outcomes) (l : BatchLoop) (c : ActorCmd × Nat) : CmdResult :=
  if o.savepoint c.2 then (l.tx.current.dispatchCmd m c.1 l.counter).1
  else .error (.io "savepoint creation failed")

theorem replies_execCmd (o : Outcomes) (l : BatchLoop) (c : ActorCmd × Nat) :
    (execCmd m o l c).replies = l.replies ++ [told m o l c] := by
  unfold execCmd told
  split <;> rfl

theorem replies_foldl_execCmd (o : Outcomes) (cs : List (ActorCmd × Nat)) (l : BatchLoop) :
    ∃ rs : List CmdResult, rs.length = cs.length ∧
      (cs.foldl (execCmd m o) l).replies = l.replies ++ rs := by
  induction cs generalizing l with
  | nil => exact ⟨[], rfl, (List.append_nil _).symm⟩
  | cons c cs ih =>
    obtain ⟨rs, hlen, hrs⟩ := ih (execCmd m o l c)
    refine ⟨told m o l c :: rs, congrArg (· + 1) hlen, ?_⟩
    rw [List.foldl_cons, hrs, replies_execCmd, List.append_assoc]
    rfl

theorem execCmd_congr (o : Outcomes) {l l' : BatchLoop} (c : ActorCmd × Nat)
    (hcur : l.tx.current = l'.tx.current) (hk : l.counter = l'.counter) :
    (execCmd m o l c).tx.current = (execCmd m o l' c).tx.current ∧
      (execCmd m o l c).counter = (execCmd m o l' c).counter := by
  obtain ⟨c, i⟩ := c
  constructor
  · rw [current_execCmd, current_execCmd, hcur, hk]
  · unfold execCmd
    split <;> simp [hk]

theorem foldl_execCmd_congr (o : Outcomes) (cs : List (ActorCmd × Nat)) {l l' : BatchLoop}
    (hcur : l.tx.current = l'.tx.current) (hk : l.counter = l'.counter) :
    (cs.foldl (execCmd m o) l).tx.current = (cs.foldl (execCmd m o) l').tx.current := by
  induction cs generalizing l l' with
  | nil => exact hcur
  | cons c cs ih =>
    obtain ⟨hcur', hk'⟩ := execCmd_congr o c hcur hk
    exact ih hcur' hk'

variable {o : Outcomes} {a : WriterActor} {batch : List ActorCmd} {i : Nat} {c : ActorCmd}

theorem execCmds_split (hc : batch[i]? = some c) :
    execCmds m o a batch =
      (batch.zipIdx.drop (i + 1)).foldl (execCmd m o)
        (execCmd m o (loopAt m o a batch i) (c, i)) := by
  obtain ⟨hi, hget⟩ := List.getElem?_eq_some_iff.mp hc
  have hz : i < batch.zipIdx.length := by rwa [List.length_zipIdx]
  have hsplit : batch.zipIdx = batch.zipIdx.take i ++ (c, i) :: batch.zipIdx.drop (i + 1) := by
    have hd := List.drop_eq_getElem_cons hz
    rw [List.getElem_zipIdx, hget, Nat.zero_add] at hd
    rw [← hd, List.take_append_drop]
  unfold execCmds loopAt
  conv_lhs => rw [hsplit]
  rw [List.foldl_append, List.foldl_cons]

theorem replies_execCmds (hc : batch[i]? = some c) :
    (execCmds m o a batch).replies[i]? = some (told m o (loopAt m o a batch i) (c, i)) := by
  have hi : i < batch.length := (List.getElem?_eq_some_iff.mp hc).1
  obtain ⟨before, hbefore, hb⟩ := replies_foldl_execCmd (m := m) o (batch.zipIdx.take i)
    ⟨.begin a.db, a.counter, false, []⟩
  obtain ⟨rest, -, hr⟩ := replies_foldl_execCmd (m := m) o (batch.zipIdx.drop (i + 1))
    (execCmd m o (loopAt m o a batch i) (c, i))
  have hlen : before.length = i := by
    rw [hbefore, List.length_take, List.length_zipIdx]
    omega
  have hloop : (loopAt m o a batch i).replies = before := hb
  rw [execCmds_split hc, hr, replies_execCmd, hloop, List.append_assoc, ← hlen]
  simp

theorem current_execCmds {v : CmdValue} (hc : batch[i]? = some c)
    (hok : (execCmds m o a batch).replies[i]? = some (.ok v)) :
    (execCmds m o a batch).tx.current = carried m o a batch i c := by
  rw [replies_execCmds hc, Option.some.injEq, told] at hok
  split at hok
  · next hsp =>
    rw [execCmds_split hc]
    refine foldl_execCmd_congr o _ ?_ ?_
    · rw [current_execCmd, if_pos hsp, hok, if_pos (.inl rfl)]
      rfl
    · simp only [execCmd, if_pos hsp]
  · cases hok

theorem executeBatch_begin_failed (h : o.begin = false) :
    executeBatch m o a batch = (a, batch.map fun _ => .error (.io "BEGIN IMMEDIATE failed")) := by
  rw [executeBatch, h]
  rfl

theorem executeBatch_begun (h : o.begin = true) :
    executeBatch m o a batch =
      (⟨if o.commit then (execCmds m o a batch).flushed else a.db, (execCmds m o a batch).counter⟩,
        (execCmds m o a batch).replies) := by
  rw [executeBatch, if_pos h]

theorem not_toldOk_of_begin_failed (h : o.begin = false) : ¬ ToldOk m o a batch i c := by
  rintro ⟨hc, ⟨v, hv⟩, -⟩
  rw [executeBatch_begin_failed h, List.getElem?_map, hc] at hv
  cases hv

theorem ToldOk.current_eq (h : ToldOk m o a batch i c) :
    (execCmds m o a batch).tx.current = carried m o a batch i c := by
  have hb : o.begin = true := by
    by_contra hb
    exact not_toldOk_of_begin_failed (by simpa using hb) h
  obtain ⟨hc, ⟨v, hv⟩, -⟩ := h
  rw [executeBatch_begun hb] at hv
  exact current_execCmds hc hv

omit [Primitives] in
theorem BatchLoop.sameTables_flushed (l : BatchLoop) :
    MetaDb.SameTables l.flushed l.tx.current := by
  unfold BatchLoop.flushed
  split <;> rfl

end Commits

section Sample

attribute [local instance] Sample.primitives

end Sample

end SnapStore
