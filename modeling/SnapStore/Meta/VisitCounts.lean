import SnapStore.Meta.NodeForest
import SnapStore.Sql.Numeric

/-!
# The column `visit_count`

The database adds the deltas of `update_nodes` itself, as SQLite adds.  `VisitDb` keeps the column
beside the tables of `MetaDb`, where `visitCount` is the exact sum.  As long as every sum fits, the
column is the sum.
-/

namespace SnapStore

open Sql

def visitDeltas (us : List NodeUpdate) (id : NodeId) : Int :=
  ((us.filter fun u => u.nodeId = id).map (·.visitCountDelta)).sum

@[simp] theorem visitDeltas_nil (id : NodeId) : visitDeltas [] id = 0 := rfl

theorem visitDeltas_cons (u : NodeUpdate) (us : List NodeUpdate) (id : NodeId) :
    visitDeltas (u :: us) id = (if u.nodeId = id then u.visitCountDelta else 0) + visitDeltas us id := by
  unfold visitDeltas
  by_cases h : u.nodeId = id
  · rw [List.filter_cons_of_pos (by simpa using h), if_pos h, List.map_cons, List.sum_cons]
  · rw [List.filter_cons_of_neg (by simpa using h), if_neg h, Int.zero_add]

abbrev VisitColumn := ExperimentId → NodeId → Number

namespace VisitColumn

def set (c : VisitColumn) (exp : ExperimentId) (id : NodeId) (x : Number) : VisitColumn :=
  fun e i => if e = exp ∧ i = id then x else c e i

/-- `UPDATE nodes SET visit_count=visit_count+?1` for one update, unless it adds nothing. -/
def update (exp : ExperimentId) (c : VisitColumn) (u : NodeUpdate) : VisitColumn :=
  if u.visitCountDelta = 0 then c
  else c.set exp u.nodeId ((c exp u.nodeId).add u.visitCountDelta).stored

theorem set_self (c : VisitColumn) (exp : ExperimentId) (id : NodeId) (x : Number) :
    c.set exp id x exp id = x := if_pos ⟨rfl, rfl⟩

theorem set_of_ne {c : VisitColumn} {exp e : ExperimentId} {id i : NodeId} {x : Number}
    (h : ¬ (e = exp ∧ i = id)) : c.set exp id x e i = c e i := if_neg h

end VisitColumn

structure VisitDb where
  db : MetaDb
  visitCount : VisitColumn

namespace VisitDb

/-- `row_to_node`: the `visit_count` of the row as a `u64`. -/
def rowToNode (v : VisitDb) (n : NodeRow) : Except MetaError NodeRow :=
  match (v.visitCount n.experimentId n.nodeId).getI64 with
  | some c => .ok { n with visitCount := c % 2 ^ 64 }
  | none => .error .sqlite

def fetchNode (v : VisitDb) (exp : ExperimentId) (id : NodeId) : Except MetaError (Option NodeRow) :=
  match v.db.fetchNode exp id with
  | none => .ok none
  | some n => (v.rowToNode n).map some

/-- The depth of a new node.  Its parent is read once the ids have passed the root rule. -/
def nodeDepth (v : VisitDb) (p : CreateNodeParams) : Except MetaError Nat :=
  match p.parentNodeId with
  | none => v.db.nodeDepth p
  | some parentId =>
    if p.nodeId = 0 then v.db.nodeDepth p
    else do
      let _ ← v.fetchNode p.experimentId parentId
      v.db.nodeDepth p

variable [Primitives]

def createNodeImpl (v : VisitDb) (p : CreateNodeParams) (inputLogMaxBytes counter : Nat) :
    CmdResult × VisitDb :=
  match v.nodeDepth p with
  | .error e => (.error e, v)
  | .ok depth =>
    match v.db.ensureInputLog p inputLogMaxBytes counter with
    | .error e => (.error e, v)
    | .ok db' =>
      match db'.fetchNode p.experimentId p.nodeId with
      | some existing =>
        match v.rowToNode existing with
        | .error e => (.error e, { v with db := db' })
        | .ok row =>
          if existing.parentNodeId = p.parentNodeId ∧ existing.snapshotRef = p.snapshotRef ∧
              existing.inputLogId = p.inputLogId then
            (.ok (.nodeRow row), { v with db := db' })
          else (.error .alreadyExists, { v with db := db' })
      | none =>
        let row := MetaDb.newNode p depth counter
        (.ok (.nodeRow row), ⟨{ db' with nodes := row :: db'.nodes },
          v.visitCount.set p.experimentId p.nodeId (.int 0)⟩)

def dispatchCmd (inputLogMaxBytes : Nat) (v : VisitDb) (cmd : ActorCmd) (counter : Nat) :
    CmdResult × VisitDb :=
  match cmd with
  | .createNode p => v.createNodeImpl p inputLogMaxBytes counter
  | .updateNodes exp updates =>
    match v.db.updateNodes exp updates counter with
    | .ok (n, db') => (.ok (.u64 n), ⟨db', updates.foldl (VisitColumn.update exp) v.visitCount⟩)
    | .error e => (.error e, v)
  | cmd =>
    let (r, db') := v.db.dispatchCmd inputLogMaxBytes cmd counter
    (r, { v with db := db' })

end VisitDb

/-! ## Counts that fit -/

abbrev Sums := ExperimentId → NodeId → Int

def Sums.after (db : MetaDb) (cmd : ActorCmd) (r : CmdResult) (sums : Sums) : Sums :=
  match cmd, r with
  | .createNode p, .ok _ => fun e i =>
    if e = p.experimentId ∧ i = p.nodeId ∧ (db.fetchNode e i).isNone then 0 else sums e i
  | .updateNodes exp us, .ok _ => fun e i =>
    if e = exp then sums e i + visitDeltas us i else sums e i
  | _, _ => sums

def InRange (lo v : Int) : Prop := lo ≤ v ∧ v < 2 ^ 63

namespace MetaDb

/-- No update of the command takes a count out of the range, not even for a moment. -/
def VisitsFit (lo : Int) (db : MetaDb) (cmd : ActorCmd) : Prop :=
  ∀ exp us, cmd = .updateNodes exp us → ∀ pre, pre <+: us →
    ∀ n ∈ db.nodes, n.experimentId = exp → InRange lo (n.visitCount + visitDeltas pre n.nodeId)

end MetaDb

namespace VisitDb

structure Tallied (lo : Int) (v : VisitDb) (sums : Sums) : Prop where
  cell : ∀ n ∈ v.db.nodes, v.visitCount n.experimentId n.nodeId = .int n.visitCount
  sum : ∀ n ∈ v.db.nodes, n.visitCount = sums n.experimentId n.nodeId
  within : ∀ n ∈ v.db.nodes, InRange lo n.visitCount

variable {lo : Int} {v : VisitDb} {sums : Sums}

def added (exp : ExperimentId) (u : NodeUpdate) (e : ExperimentId) (i : NodeId) : Int :=
  if e = exp then visitDeltas [u] i else 0

theorem update_cell {exp e : ExperimentId} {i : NodeId} {u : NodeUpdate} {c : VisitColumn} {x : Int}
    (hc : c e i = .int x) (hfits : InI64 (x + added exp u e i)) :
    VisitColumn.update exp c u e i = .int (x + added exp u e i) := by
  unfold VisitColumn.update
  by_cases hkey : e = exp ∧ i = u.nodeId
  · obtain ⟨rfl, rfl⟩ := hkey
    have hadded : added e u e u.nodeId = u.visitCountDelta := by
      rw [added, if_pos rfl, visitDeltas_cons, if_pos rfl, visitDeltas_nil, Int.add_zero]
    rw [hadded] at hfits ⊢
    split
    · next hzero => rw [hc, hzero, Int.add_zero]
    · rw [VisitColumn.set_self, hc, Number.add_of_inI64 hfits, Number.stored_int]
  · have hadded : added exp u e i = 0 := by
      unfold added
      split
      · next he =>
        have hi : u.nodeId ≠ i := fun hi => hkey ⟨he, hi.symm⟩
        rw [visitDeltas_cons, if_neg hi, visitDeltas_nil, Int.add_zero]
      · rfl
    rw [hadded, Int.add_zero]
    split
    · exact hc
    · rw [VisitColumn.set_of_ne hkey, hc]

theorem mem_applyUpdate {exp : ExperimentId} {k : Nat} {u : NodeUpdate} {db : MetaDb} {n' : NodeRow}
    (h : n' ∈ (MetaDb.applyUpdate exp k db u).nodes) :
    ∃ n ∈ db.nodes, n'.experimentId = n.experimentId ∧ n'.nodeId = n.nodeId ∧
      n'.visitCount = n.visitCount + added exp u n.experimentId n.nodeId := by
  obtain ⟨n, hn, rfl⟩ := List.mem_map.mp h
  refine ⟨n, hn, ?_⟩
  by_cases hkey : n.experimentId = exp ∧ n.nodeId = u.nodeId
  · rw [if_pos hkey]
    refine ⟨rfl, rfl, ?_⟩
    rw [added, if_pos hkey.1, visitDeltas_cons, if_pos hkey.2.symm, visitDeltas_nil, Int.add_zero]
    rfl
  · rw [if_neg hkey]
    refine ⟨rfl, rfl, ?_⟩
    unfold added
    split
    · next he =>
      have hi : u.nodeId ≠ n.nodeId := fun hi => hkey ⟨he, hi.symm⟩
      rw [visitDeltas_cons, if_neg hi, visitDeltas_nil, Int.add_zero, Int.add_zero]
    · rw [Int.add_zero]

theorem Tallied.update (hlo : -2 ^ 63 ≤ lo) (h : Tallied lo v sums) {exp : ExperimentId} {k : Nat}
    {u : NodeUpdate} (hfits : ∀ n ∈ v.db.nodes,
      InRange lo (n.visitCount + added exp u n.experimentId n.nodeId)) :
    Tallied lo ⟨MetaDb.applyUpdate exp k v.db u, VisitColumn.update exp v.visitCount u⟩
      (fun e i => sums e i + added exp u e i) := by
  constructor
  · intro n' hn'
    obtain ⟨n, hn, he, hi, hcount⟩ := mem_applyUpdate hn'
    rw [he, hi, hcount]
    exact update_cell (h.cell n hn) ⟨hlo.trans (hfits n hn).1, (hfits n hn).2⟩
  · intro n' hn'
    obtain ⟨n, hn, he, hi, hcount⟩ := mem_applyUpdate hn'
    rw [he, hi, hcount, h.sum n hn]
  · intro n' hn'
    obtain ⟨n, hn, -, -, hcount⟩ := mem_applyUpdate hn'
    rw [hcount]
    exact hfits n hn

theorem Tallied.updates (hlo : -2 ^ 63 ≤ lo) (h : Tallied lo v sums) {exp : ExperimentId} {k : Nat}
    {us : List NodeUpdate} (hfits : ∀ pre, pre <+: us → ∀ n ∈ v.db.nodes, n.experimentId = exp →
      InRange lo (n.visitCount + visitDeltas pre n.nodeId)) :
    Tallied lo ⟨us.foldl (MetaDb.applyUpdate exp k) v.db,
        us.foldl (VisitColumn.update exp) v.visitCount⟩
      (fun e i => if e = exp then sums e i + visitDeltas us i else sums e i) := by
  induction us generalizing v sums with
  | nil =>
    have hsums : (fun e i => if e = exp then sums e i + visitDeltas [] i else sums e i) = sums := by
      funext e i
      rw [visitDeltas_nil, Int.add_zero, ite_self]
    rw [hsums]
    exact h
  | cons u us ih =>
    have hfirst : ∀ n ∈ v.db.nodes,
        InRange lo (n.visitCount + added exp u n.experimentId n.nodeId) := by
      intro n hn
      unfold added
      split
      · next he => exact hfits [u] (by simp) n hn he
      · rw [Int.add_zero]
        exact h.within n hn
    have hrest := ih (h.update hlo (k := k) hfirst) (by
      intro pre hpre n' hn' he'
      obtain ⟨n, hn, he, hi, hcount⟩ := mem_applyUpdate hn'
      have hall := hfits (u :: pre) (List.cons_prefix_cons.mpr ⟨rfl, hpre⟩) n hn (he ▸ he')
      rw [visitDeltas_cons, ← Int.add_assoc] at hall
      rw [hcount, hi, added, if_pos (he ▸ he'), visitDeltas_cons, visitDeltas_nil, Int.add_zero]
      exact hall)
    have hsums : (fun e i => if e = exp then sums e i + visitDeltas (u :: us) i else sums e i) =
        fun e i => if e = exp then sums e i + added exp u e i + visitDeltas us i
          else sums e i + added exp u e i := by
      funext e i
      by_cases he : e = exp
      · rw [if_pos he, if_pos he, added, if_pos he, visitDeltas_cons, visitDeltas_cons,
          visitDeltas_nil, Int.add_zero, Int.add_assoc]
      · rw [if_neg he, if_neg he, added, if_neg he, Int.add_zero]
    rw [hsums]
    exact hrest

theorem Tallied.of_rows (h : Tallied lo v sums) {db' : MetaDb} {sums' : Sums}
    (hrows : ∀ n' ∈ db'.nodes, ∃ n ∈ v.db.nodes, n'.experimentId = n.experimentId ∧
      n'.nodeId = n.nodeId ∧ n'.visitCount = n.visitCount)
    (hsums : ∀ n ∈ v.db.nodes,
      sums' n.experimentId n.nodeId = sums n.experimentId n.nodeId) :
    Tallied lo ⟨db', v.visitCount⟩ sums' := by
  constructor
  · intro n' hn'
    obtain ⟨n, hn, he, hi, hcount⟩ := hrows n' hn'
    rw [he, hi, hcount]
    exact h.cell n hn
  · intro n' hn'
    obtain ⟨n, hn, he, hi, hcount⟩ := hrows n' hn'
    rw [he, hi, hcount, hsums n hn]
    exact h.sum n hn
  · intro n' hn'
    obtain ⟨n, hn, -, -, hcount⟩ := hrows n' hn'
    rw [hcount]
    exact h.within n hn

theorem Tallied.rowToNode (h : Tallied lo v sums) {n : NodeRow} (hn : n ∈ v.db.nodes) :
    v.rowToNode n = .ok { n with visitCount := n.visitCount % 2 ^ 64 } := by
  rw [VisitDb.rowToNode, h.cell n hn]
  rfl

theorem Tallied.nodeDepth (h : Tallied lo v sums) (p : CreateNodeParams) :
    v.nodeDepth p = v.db.nodeDepth p := by
  unfold VisitDb.nodeDepth
  split
  · rfl
  · next parentId _ =>
    split
    · rfl
    · unfold VisitDb.fetchNode
      cases hparent : v.db.fetchNode p.experimentId parentId with
      | none => rfl
      | some n =>
        dsimp only
        rw [h.rowToNode (MetaDb.mem_of_fetchNode hparent).1]
        rfl

variable [Primitives] {m k : Nat}

theorem rows_of_other {cmd : ActorCmd} {db : MetaDb} (hcreate : ∀ p, cmd ≠ .createNode p)
    (hupdate : ∀ exp us, cmd ≠ .updateNodes exp us) :
    ∀ n' ∈ (db.dispatchCmd m cmd k).2.nodes, ∃ n ∈ db.nodes, n'.experimentId = n.experimentId ∧
      n'.nodeId = n.nodeId ∧ n'.visitCount = n.visitCount := by
  refine MetaDb.dispatchCmd_induction (P := fun db' => ∀ n' ∈ db'.nodes, ∃ n ∈ db.nodes,
    n'.experimentId = n.experimentId ∧ n'.nodeId = n.nodeId ∧ n'.visitCount = n.visitCount)
    (fun n hn => ⟨n, hn, rfl, rfl, rfl⟩) fun db₁ db₂ h hm => ?_
  cases hm with
  | insertNode p => exact absurd rfl (hcreate p)
  | updateNode exp us => exact absurd rfl (hupdate exp us)
  | prune exp id allowRoot hnode =>
    intro n' hn'
    obtain ⟨n₁, hn₁, rfl⟩ := List.mem_map.mp hn'
    obtain ⟨n, hn, he, hi, hcount⟩ := h n₁ hn₁
    refine ⟨n, hn, ?_⟩
    split
    · exact ⟨he, hi, hcount⟩
    · exact ⟨he, hi, hcount⟩
  | reap exp id hnode hpruned => exact fun n' hn' => h n' (List.mem_filter.mp hn').1
  | _ => exact h

omit [Primitives] in
theorem Tallied.insert (hlo : lo ≤ 0) (h : Tallied lo v sums) {p : CreateNodeParams} {depth : Nat}
    {db' : MetaDb} (hnew : v.db.fetchNode p.experimentId p.nodeId = none)
    (hnodes : db'.nodes = MetaDb.newNode p depth k :: v.db.nodes) :
    Tallied lo ⟨db', v.visitCount.set p.experimentId p.nodeId (.int 0)⟩
      (fun e i => if e = p.experimentId ∧ i = p.nodeId ∧ (v.db.fetchNode e i).isNone then 0
        else sums e i) := by
  have hother : ∀ n ∈ v.db.nodes, ¬ (n.experimentId = p.experimentId ∧ n.nodeId = p.nodeId) :=
    MetaDb.fetchNode_eq_none.mp hnew
  have hzero : InRange lo 0 := ⟨hlo, by decide⟩
  constructor
  · rw [hnodes]
    refine List.forall_mem_cons.mpr ⟨VisitColumn.set_self _ _ _ _, fun n hn => ?_⟩
    exact (VisitColumn.set_of_ne (hother n hn)).trans (h.cell n hn)
  · rw [hnodes]
    refine List.forall_mem_cons.mpr ⟨?_, fun n hn => ?_⟩
    · exact (if_pos ⟨rfl, rfl, Option.isNone_iff_eq_none.mpr hnew⟩).symm
    · rw [if_neg fun hkey => hother n hn ⟨hkey.1, hkey.2.1⟩]
      exact h.sum n hn
  · rw [hnodes]
    exact List.forall_mem_cons.mpr ⟨hzero, h.within⟩

theorem Tallied.createNodeImpl (hlo : lo ≤ 0) (h : Tallied lo v sums) (p : CreateNodeParams) :
    (v.createNodeImpl p m k).2.db = (v.db.createNodeImpl p m k).2 ∧
      Tallied lo (v.createNodeImpl p m k).2
        (sums.after v.db (.createNode p) (v.createNodeImpl p m k).1) := by
  unfold VisitDb.createNodeImpl MetaDb.createNodeImpl
  rw [h.nodeDepth]
  cases hdepth : v.db.nodeDepth p with
  | error e => exact ⟨rfl, h⟩
  | ok depth =>
    dsimp only
    cases hensure : v.db.ensureInputLog p m k with
    | error e => exact ⟨rfl, h⟩
    | ok db' =>
      have hmoves : Relation.ReflTransGen (MetaDb.Move k (.createNode p)) v.db db' ∧
          db'.nodes = v.db.nodes ∧ _ := MetaDb.ensureInputLog_ok hensure
      have hnodes := hmoves.2.1
      have hfetch : db'.fetchNode p.experimentId p.nodeId =
          v.db.fetchNode p.experimentId p.nodeId := by simp only [MetaDb.fetchNode, hnodes]
      dsimp only
      rw [hfetch]
      cases hrow : v.db.fetchNode p.experimentId p.nodeId with
      | none =>
        refine ⟨rfl, ?_⟩
        exact h.insert hlo hrow (by rw [hnodes])
      | some existing =>
        have hkeep : Tallied lo ⟨db', v.visitCount⟩ sums :=
          h.of_rows (fun n hn => ⟨n, hnodes ▸ hn, rfl, rfl, rfl⟩) fun _ _ => rfl
        dsimp only
        rw [h.rowToNode (MetaDb.mem_of_fetchNode hrow).1]
        dsimp only
        split
        · refine ⟨rfl, h.of_rows (fun n hn => ⟨n, hnodes ▸ hn, rfl, rfl, rfl⟩) fun n hn => ?_⟩
          refine if_neg fun h => ?_
          exact MetaDb.fetchNode_eq_none.mp (Option.isNone_iff_eq_none.mp h.2.2) n hn ⟨rfl, rfl⟩
        · exact ⟨rfl, hkeep⟩

/-- As long as the counts fit, the commands do with the column what they do without it, and the
column keeps the sums. -/
theorem Tallied.dispatchCmd (hlo : -2 ^ 63 ≤ lo) (hlo' : lo ≤ 0) (h : Tallied lo v sums)
    {cmd : ActorCmd} (hfits : v.db.VisitsFit lo cmd) :
    (v.dispatchCmd m cmd k).2.db = (v.db.dispatchCmd m cmd k).2 ∧
      Tallied lo (v.dispatchCmd m cmd k).2 (sums.after v.db cmd (v.dispatchCmd m cmd k).1) := by
  have hother (hcreate : ∀ p, cmd ≠ .createNode p) (hupdate : ∀ exp us, cmd ≠ .updateNodes exp us) :
      Tallied lo ⟨(v.db.dispatchCmd m cmd k).2, v.visitCount⟩ sums :=
    h.of_rows (rows_of_other hcreate hupdate) fun _ _ => rfl
  cases cmd with
  | createNode p => exact h.createNodeImpl hlo' p
  | updateNodes exp us =>
    have hupdated := h.updates hlo (k := k) (hfits exp us rfl)
    unfold VisitDb.dispatchCmd MetaDb.dispatchCmd
    dsimp only
    cases hrun : v.db.updateNodes exp us k with
    | error e => exact ⟨rfl, h⟩
    | ok x =>
      refine ⟨rfl, ?_⟩
      unfold MetaDb.updateNodes at hrun
      dsimp only at hrun
      split at hrun
      · cases hrun
      · cases hrun
        exact hupdated
  | _ => exact ⟨rfl, hother (fun _ h => nomatch h) fun _ _ h => nomatch h⟩

end VisitDb

/-! ## Reading rows without the column -/

namespace MetaDb

/-- `row_to_node` of a row whose count is the sum of its deltas and has fitted the column so far: the
update that takes the sum out of range makes the row unreadable. -/
def readNode (n : NodeRow) : Except MetaError NodeRow :=
  if InI64 n.visitCount then .ok { n with visitCount := n.visitCount % 2 ^ 64 } else .error .sqlite

def cast (n : NodeRow) : NodeRow := { n with visitCount := n.visitCount % 2 ^ 64 }

theorem readNode_ok {n : NodeRow} (h : InI64 n.visitCount) : readNode n = .ok (cast n) := if_pos h

theorem readNodes_ok {rows : List NodeRow} (h : ∀ n ∈ rows, InI64 n.visitCount) :
    rows.mapM readNode = .ok (rows.map cast) := by
  induction rows with
  | nil => rfl
  | cons n rows ih =>
    rw [List.mapM_cons, readNode_ok (h n List.mem_cons_self),
      ih fun n' hn' => h n' (List.mem_cons_of_mem n hn')]
    rfl

theorem readNodes_error {rows : List NodeRow} {n : NodeRow} (hn : n ∈ rows)
    (h : ¬ InI64 n.visitCount) : rows.mapM readNode = .error .sqlite := by
  induction rows with
  | nil => cases hn
  | cons n' rows ih =>
    rw [List.mapM_cons]
    by_cases hfirst : InI64 n'.visitCount
    · have hrest : n ∈ rows := by
        rcases List.mem_cons.mp hn with rfl | hrest
        · exact absurd hfirst h
        · exact hrest
      rw [readNode_ok hfirst, ih hrest]
      rfl
    · rw [readNode, if_neg hfirst]
      rfl

theorem inI64_of_within {lo x : Int} (hlo : -2 ^ 63 ≤ lo) (h : InRange lo x) : InI64 x :=
  ⟨hlo.trans h.1, h.2⟩

theorem rowToNode_eq_readNode {lo : Int} (hlo : -2 ^ 63 ≤ lo) {v : VisitDb} {sums : Sums}
    (h : v.Tallied lo sums) {n : NodeRow} (hn : n ∈ v.db.nodes) : v.rowToNode n = readNode n := by
  rw [h.rowToNode hn, readNode_ok (inI64_of_within hlo (h.within n hn))]
  rfl

variable [Primitives] {m : Nat} {lo : Int} {db : MetaDb}

def VisitsWithin (lo : Int) (db : MetaDb) : Prop := ∀ n ∈ db.nodes, InRange lo n.visitCount

omit [Primitives] in
theorem mem_updates {exp : ExperimentId} {us : List NodeUpdate} {k : Nat} {n' : NodeRow}
    (h : n' ∈ (us.foldl (applyUpdate exp k) db).nodes) :
    ∃ n ∈ db.nodes, n'.experimentId = n.experimentId ∧ n'.nodeId = n.nodeId ∧
      n'.visitCount = n.visitCount + if n.experimentId = exp then visitDeltas us n.nodeId else 0 := by
  induction us generalizing db with
  | nil =>
    refine ⟨n', h, rfl, rfl, ?_⟩
    rw [visitDeltas_nil, ite_self, Int.add_zero]
  | cons u us ih =>
    obtain ⟨n₁, hn₁, he₁, hi₁, hcount₁⟩ := ih h
    obtain ⟨n, hn, he, hi, hcount⟩ := VisitDb.mem_applyUpdate hn₁
    refine ⟨n, hn, he₁.trans he, hi₁.trans hi, ?_⟩
    rw [hcount₁, hcount, he, hi, VisitDb.added]
    by_cases hexp : n.experimentId = exp
    · rw [if_pos hexp, if_pos hexp, if_pos hexp, visitDeltas_cons u us, visitDeltas_cons,
        visitDeltas_nil, Int.add_zero, Int.add_assoc]
    · rw [if_neg hexp, if_neg hexp, if_neg hexp, Int.add_zero]

theorem VisitsWithin.dispatchCmd (hlo : lo ≤ 0) (h : db.VisitsWithin lo) {cmd : ActorCmd} {k : Nat}
    (hfits : db.VisitsFit lo cmd) : (db.dispatchCmd m cmd k).2.VisitsWithin lo := by
  have hother (hcreate : ∀ p, cmd ≠ .createNode p) (hupdate : ∀ exp us, cmd ≠ .updateNodes exp us) :
      (db.dispatchCmd m cmd k).2.VisitsWithin lo := by
    intro n' hn'
    obtain ⟨n, hn, -, -, hcount⟩ := VisitDb.rows_of_other hcreate hupdate n' hn'
    rw [hcount]
    exact h n hn
  cases cmd with
  | createNode p =>
    refine dispatchCmd_induction (P := VisitsWithin lo) h fun db₁ db₂ h₁ hm => ?_
    cases hm with
    | insertLog => exact h₁
    | insertNode => exact List.forall_mem_cons.mpr ⟨⟨hlo, (by decide : (0 : Int) < 2 ^ 63)⟩, h₁⟩
  | updateNodes exp us =>
    unfold MetaDb.dispatchCmd MetaDb.updateNodes
    dsimp only
    split
    · exact h
    · intro n' hn'
      obtain ⟨n, hn, -, -, hcount⟩ := mem_updates hn'
      rw [hcount]
      split
      · next hexp => exact hfits exp us rfl us List.prefix_rfl n hn hexp
      · rw [Int.add_zero]
        exact h n hn
  | _ => exact hother (fun _ h => nomatch h) fun _ _ h => nomatch h

end MetaDb

theorem History.Reach.inI64 [Primitives] {m : Nat} {lo : Int} (hlo : -2 ^ 63 ≤ lo) (hlo' : lo ≤ 0)
    {s : History} (h : Reach m (MetaDb.VisitsFit lo) s) :
    ∀ n ∈ s.actor.db.nodes, InI64 n.visitCount := by
  have hwithin := (h.invariant (P := MetaDb.VisitsWithin lo) (fun n hn => nomatch hn)
    (fun _ _ hdb => hdb) fun _ _ _ hdb hc => hdb.dispatchCmd hlo' hc).1
  exact fun n hn => MetaDb.inI64_of_within hlo (hwithin n hn)

/-! ## Runs -/

/-- The committed tables and those of the open transaction, each with the sums. -/
structure VisitState where
  committed : VisitDb × Sums
  current : VisitDb × Sums

namespace VisitState

def initial : VisitState :=
  let x := (⟨MetaDb.empty, fun _ _ => .int 0⟩, fun _ _ => 0)
  ⟨x, x⟩

variable [Primitives]

/-- A command in its savepoint.  What a failed command has written is undone, unless the rollback
fails. -/
def execute (m : Nat) (x : VisitDb × Sums) (cmd : ActorCmd) (k : Nat) (undone : Bool) :
    VisitDb × Sums :=
  let (r, v') := x.1.dispatchCmd m cmd k
  if r.isOk || !undone then (v', x.2.after x.1.db cmd r) else x

/-- The actor executes a command that meets `ok`, commits, or loses the transaction by a failed
`COMMIT` or a kill. -/
inductive Step (m : Nat) (ok : MetaDb → ActorCmd → Prop) : VisitState → VisitState → Prop where
  | command {s : VisitState} (cmd : ActorCmd) (k : Nat) (undone : Bool)
      (hok : ok s.current.1.db cmd) :
      Step m ok s { s with current := execute m s.current cmd k undone }
  | commit {s : VisitState} : Step m ok s { s with committed := s.current }
  | abandon {s : VisitState} : Step m ok s { s with current := s.committed }

inductive Reach (m : Nat) (ok : MetaDb → ActorCmd → Prop) : VisitState → Prop where
  | initial : Reach m ok initial
  | step {s s' : VisitState} (hr : Reach m ok s) (hs : Step m ok s s') : Reach m ok s'

variable {m : Nat} {lo : Int} {s s' : VisitState}

theorem execute_tallied (hlo : -2 ^ 63 ≤ lo) (hlo' : lo ≤ 0) {x : VisitDb × Sums}
    (h : x.1.Tallied lo x.2) {cmd : ActorCmd} (hfits : x.1.db.VisitsFit lo cmd) (k : Nat)
    (undone : Bool) : (execute m x cmd k undone).1.Tallied lo (execute m x cmd k undone).2 := by
  have hcmd := (h.dispatchCmd (m := m) (k := k) hlo hlo' hfits).2
  unfold execute
  dsimp only
  split
  · exact hcmd
  · exact h

theorem Reach.tallied (hlo : -2 ^ 63 ≤ lo) (hlo' : lo ≤ 0)
    (h : Reach m (MetaDb.VisitsFit lo) s) :
    s.committed.1.Tallied lo s.committed.2 ∧ s.current.1.Tallied lo s.current.2 := by
  induction h with
  | initial =>
    have hempty : (VisitState.initial.committed.1).Tallied lo VisitState.initial.committed.2 :=
      ⟨fun _ hn => (nomatch hn), fun _ hn => (nomatch hn), fun _ hn => (nomatch hn)⟩
    exact ⟨hempty, hempty⟩
  | step hr hs ih =>
    cases hs with
    | command cmd k undone hok => exact ⟨ih.1, execute_tallied hlo hlo' ih.2 hok k undone⟩
    | commit => exact ⟨ih.2, ih.2⟩
    | abandon => exact ⟨ih.1, ih.1⟩

end VisitState

section

variable [Primitives]

/-- In every run whose updates keep the counts at 0 or above and below `2 ^ 63`: every existing node
can be read, by the actor and by the pool, and its `visit_count` is the sum of the deltas that were
applied to it. -/
theorem visit_count_is_sum (m : Nat) (s : VisitState)
    (h : VisitState.Reach m (MetaDb.VisitsFit 0) s) :
    ∀ x, x = s.current ∨ x = s.committed → ∀ exp id n, x.1.db.fetchNode exp id = some n →
      x.1.fetchNode exp id = .ok (some { n with visitCount := x.2 exp id }) ∧
        0 ≤ x.2 exp id ∧ x.2 exp id < 2 ^ 63 := by
  have htallied := h.tallied (by decide) (Int.le_refl 0)
  intro x hx exp id n hn
  have hx' : x.1.Tallied 0 x.2 := by
    rcases hx with rfl | rfl
    · exact htallied.2
    · exact htallied.1
  obtain ⟨hmem, rfl, rfl⟩ := MetaDb.mem_of_fetchNode hn
  have hwithin := hx'.within n hmem
  rw [hx'.sum n hmem] at hwithin
  refine ⟨?_, hwithin.1, hwithin.2⟩
  have hmod : n.visitCount % 2 ^ 64 = x.2 n.experimentId n.nodeId := by
    rw [hx'.sum n hmem]
    exact Int.emod_eq_of_lt hwithin.1 (hwithin.2.trans (by decide))
  rw [VisitDb.fetchNode, hn]
  dsimp only
  rw [hx'.rowToNode hmem, hmod]
  rfl

end

namespace Sample

attribute [local instance] primitives

open VisitState

def rootNode : ActorCmd :=
  .createNode ⟨"e", 0, none, ref, none, none, .frontier, none, 0, 0, none⟩

def visitRoot (delta : Int) : ActorCmd :=
  .updateNodes "e" [⟨0, none, none, none, delta, false, none, none⟩]

def visitRun (s : VisitState) (k : Nat) : List ActorCmd → VisitState
  | [] => s
  | cmd :: cmds => visitRun { s with current := execute 100 s.current cmd k true } (k + 1) cmds

theorem reach_visitRun {s : VisitState} (hs : Reach 100 (fun _ _ => True) s) (k : Nat)
    (cmds : List ActorCmd) : Reach 100 (fun _ _ => True) (visitRun s k cmds) := by
  induction cmds generalizing s k with
  | nil => exact hs
  | cons cmd cmds ih => exact ih (.step hs (.command cmd k true trivial)) (k + 1)

/-- The root is there, its sum is `total`, and reading its row gives this. -/
def reads (s : VisitState) (total : Int) (r : Option Int) : Bool :=
  (s.current.1.db.fetchNode "e" 0).isSome && s.current.2 "e" 0 = total &&
    match s.current.1.fetchNode "e" 0 with
    | .ok (some n) => r = some n.visitCount
    | .ok none => false
    | .error _ => r = none

/-- A delta of -1 makes a count of `2 ^ 64 - 1`, and a sum of `2 ^ 63` an unreadable row. -/
theorem visit_count_leaves_range :
    (∃ s, Reach 100 (fun _ _ => True) s ∧ reads s (-1) (some (2 ^ 64 - 1)) = true) ∧
      ∃ s, Reach 100 (fun _ _ => True) s ∧ reads s (2 ^ 63) none = true := by
  constructor
  · exact ⟨_, reach_visitRun .initial 1 [rootNode, visitRoot (-1)], by decide +kernel⟩
  · exact ⟨_, reach_visitRun .initial 1 [rootNode, visitRoot (2 ^ 63 - 1), visitRoot 1],
      by decide +kernel⟩

theorem visit_count_is_three : ∃ s, Reach 100 (MetaDb.VisitsFit 0) s ∧
    ∃ n, s.current.1.db.fetchNode "e" 0 = some n ∧
      s.current.1.fetchNode "e" 0 = .ok (some { n with visitCount := 3 }) := by
  have hroot : Reach 100 (MetaDb.VisitsFit 0) (visitRun .initial 1 [rootNode]) :=
    .step .initial (.command rootNode 1 true fun _ _ h => nomatch h)
  have hzero : ∀ n ∈ (visitRun .initial 1 [rootNode]).current.1.db.nodes, n.visitCount = 0 := by
    decide +kernel
  have hfits : (visitRun .initial 1 [rootNode]).current.1.db.VisitsFit 0 (visitRoot 3) := by
    rintro exp us ⟨⟩ pre hpre n hn -
    rw [hzero n hn, Int.zero_add]
    cases pre with
    | nil =>
      rw [visitDeltas_nil]
      exact ⟨Int.le_refl 0, by decide⟩
    | cons u rest =>
      obtain ⟨rfl, hrest⟩ := List.cons_prefix_cons.mp hpre
      rw [List.prefix_nil.mp hrest, visitDeltas_cons, visitDeltas_nil]
      split <;> exact ⟨by decide, by decide⟩
  have hvisited := Reach.step hroot (.command (visitRoot 3) 2 true hfits)
  obtain ⟨n, hn⟩ : ∃ n, (visitRun .initial 1 [rootNode, visitRoot 3]).current.1.db.fetchNode "e" 0 =
      some n := Option.isSome_iff_exists.mp (by decide +kernel)
  have hsum : (visitRun .initial 1 [rootNode, visitRoot 3]).current.2 "e" 0 = 3 := by decide +kernel
  obtain ⟨hread, -, -⟩ := visit_count_is_sum 100 _ hvisited _ (.inl rfl) "e" 0 n hn
  have hsum' : (visitRun .initial 1 [rootNode, visitRoot 3]).current.1.fetchNode "e" 0 =
      .ok (some { n with visitCount := 3 }) := by
    rw [← hsum]
    exact hread
  exact ⟨_, hvisited, n, hn, hsum'⟩

end Sample

end SnapStore
