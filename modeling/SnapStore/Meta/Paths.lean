import SnapStore.Meta.VisitCounts
import Mathlib.Data.List.Chain

/-!
# `get_path`

A recursive query collects the ids from a node up to the root, and the rows with these ids are sorted
by their depth column.
-/

namespace SnapStore

open Disk

namespace MetaDb

/-- `SELECT n.parent_node_id FROM nodes n JOIN path_cte p ON … WHERE n.parent_node_id IS NOT NULL`
for one row of the queue. -/
def parentIds (db : MetaDb) (exp : ExperimentId) (nid : NodeId) : List NodeId :=
  (db.nodes.filter fun n => n.experimentId = exp ∧ n.nodeId = nid).filterMap (·.parentNodeId)

/-- The recursive query, row by row of its queue; `none` if the queue is not empty after `fuel`
rows. -/
def pathCte (db : MetaDb) (exp : ExperimentId) : Nat → List NodeId → Option (List NodeId)
  | 0, _ => none
  | _ + 1, [] => some []
  | fuel + 1, nid :: queue =>
    (pathCte db exp fuel (queue ++ db.parentIds exp nid)).map (nid :: ·)

def pathRows (db : MetaDb) (exp : ExperimentId) (nids : List NodeId) : List NodeRow :=
  (db.nodes.filter fun n => n.experimentId = exp ∧ n.nodeId ∈ nids).insertionSort
    fun a b => a.depth ≤ b.depth

def getInputLog (db : MetaDb) (logId : LogId) : Option Bytes :=
  (db.inputLogs.find? fun l => l.logId = logId).map (·.content)

/-- The rows of the path with their logs; `none` if the recursive query goes on. -/
def getPath (db : MetaDb) (exp : ExperimentId) (nodeId : NodeId) (includeLogs : Bool) (fuel : Nat) :
    Option (Except MetaError (List (NodeRow × Option Bytes))) :=
  let start := (db.nodes.filter fun n => n.experimentId = exp ∧ n.nodeId = nodeId).map (·.nodeId)
  (db.pathCte exp fuel start).map fun nids => do
    let nodes ← (db.pathRows exp nids).mapM readNode
    if !includeLogs then
      return nodes.map fun n => (n, none)
    else
      return nodes.map fun n => match n.inputLogId with
        | some logId => (n, db.getInputLog logId)
        | none => (n, none)

variable {db : MetaDb} {exp : ExperimentId}

/-! ## Climbing to the root -/

inductive Climb (db : MetaDb) : NodeRow → List NodeRow → Prop where
  | root {n : NodeRow} (hn : n ∈ db.nodes) (hp : n.parentNodeId = none) : Climb db n [n]
  | up {n q : NodeRow} {rows : List NodeRow} (hn : n ∈ db.nodes)
      (hq : q.experimentId = n.experimentId) (hp : n.parentNodeId = some q.nodeId)
      (h : Climb db q rows) : Climb db n (n :: rows)

theorem Depths.exists_climb (h : db.Depths) (hg : db.Grown) {n : NodeRow} (hn : n ∈ db.nodes) :
    ∃ rows, db.Climb n rows := by
  -- the depth column bounds the climb
  induction hd : n.depth generalizing n with
  | zero =>
    cases hp : n.parentNodeId with
    | none => exact ⟨[n], .root hn hp⟩
    | some p =>
      obtain ⟨q, hq, hexp, rfl⟩ := hg.parent n hn p hp
      have := h.parent n hn q hq hexp hp
      omega
  | succ d ih =>
    cases hp : n.parentNodeId with
    | none => exact ⟨[n], .root hn hp⟩
    | some p =>
      obtain ⟨q, hq, hexp, rfl⟩ := hg.parent n hn p hp
      have hqd := h.parent n hn q hq hexp hp
      obtain ⟨rows, hrows⟩ := ih hq (by omega)
      exact ⟨n :: rows, .up hn hexp hp hrows⟩

namespace Climb

variable {n : NodeRow} {rows : List NodeRow}

theorem head? (h : db.Climb n rows) : rows.head? = some n := by
  cases h <;> rfl

theorem start_mem (h : db.Climb n rows) : n ∈ db.nodes := by
  cases h with
  | root hn => exact hn
  | up hn => exact hn

theorem mem (h : db.Climb n rows) :
    ∀ a ∈ rows, a ∈ db.nodes ∧ a.experimentId = n.experimentId := by
  induction h with
  | root hn hp => exact List.forall_mem_singleton.mpr ⟨hn, rfl⟩
  | up hn hq hp h ih =>
    refine List.forall_mem_cons.mpr ⟨⟨hn, rfl⟩, fun a ha => ?_⟩
    exact ⟨(ih a ha).1, (ih a ha).2.trans hq⟩

theorem isChain (h : db.Climb n rows) :
    rows.IsChain fun a b => a.parentNodeId = some b.nodeId := by
  induction h with
  | root hn hp => exact .singleton _
  | @up n q rows hn hq hp h ih =>
    cases h with
    | root hq' hroot => exact .cons_cons hp ih
    | up => exact .cons_cons hp ih

theorem getLast? (hg : db.Grown) (h : db.Climb n rows) :
    ∃ r, rows.getLast? = some r ∧ r.nodeId = 0 := by
  induction h with
  | root hn hp => exact ⟨_, rfl, (hg.root _ hn).mpr hp⟩
  | up hn hq hp h ih =>
    obtain ⟨r, hr, hzero⟩ := ih
    refine ⟨r, ?_, hzero⟩
    rw [List.getLast?_cons, hr]
    rfl

theorem depth_lt (hd : db.Depths) (h : db.Climb n rows) :
    rows.Pairwise (fun a b => b.depth < a.depth) ∧ ∀ a ∈ rows, a.depth ≤ n.depth := by
  induction h with
  | root hn hp => exact ⟨List.pairwise_singleton _ _, List.forall_mem_singleton.mpr (Nat.le_refl _)⟩
  | up hn hq hp h ih =>
    obtain ⟨hsorted, hle⟩ := ih
    have hparent := hd.parent _ hn _ h.start_mem hq hp
    refine ⟨List.pairwise_cons.mpr ⟨fun a ha => ?_, hsorted⟩,
      List.forall_mem_cons.mpr ⟨Nat.le_refl _, fun a ha => ?_⟩⟩
    · have := hle a ha
      omega
    · have := hle a ha
      omega

end Climb

theorem Grown.filter_key (hg : db.Grown) {n : NodeRow} (hn : n ∈ db.nodes) :
    (db.nodes.filter fun a => a.experimentId = n.experimentId ∧ a.nodeId = n.nodeId) = [n] := by
  have hmem : ∀ a, a ∈ db.nodes.filter (fun a => a.experimentId = n.experimentId ∧
      a.nodeId = n.nodeId) ↔ a ∈ [n] := by
    intro a
    rw [List.mem_filter, decide_eq_true_eq, List.mem_singleton]
    constructor
    · rintro ⟨ha, hexp, hid⟩
      exact hg.eq_of_key ha hn hexp hid
    · rintro rfl
      exact ⟨hn, rfl, rfl⟩
  have hnodup : (db.nodes.filter fun a => a.experimentId = n.experimentId ∧
      a.nodeId = n.nodeId).Nodup := hg.nodup.filter _
  exact List.perm_singleton.mp ((List.perm_ext_iff_of_nodup hnodup (List.nodup_singleton n)).mpr hmem)

theorem Climb.pathCte (hg : db.Grown) {n : NodeRow} {rows : List NodeRow} (h : db.Climb n rows)
    {fuel : Nat} (hfuel : rows.length < fuel) :
    db.pathCte n.experimentId fuel [n.nodeId] = some (rows.map (·.nodeId)) := by
  induction h generalizing fuel with
  | root hn hp =>
    obtain ⟨k, rfl⟩ : ∃ k, fuel = k + 2 := Nat.exists_eq_add_of_le' hfuel
    rw [MetaDb.pathCte, parentIds, hg.filter_key hn]
    simp only [List.filterMap_cons, hp]
    rfl
  | @up n q rows hn hq hp h ih =>
    obtain ⟨fuel, rfl⟩ := Nat.exists_eq_succ_of_ne_zero (Nat.ne_zero_of_lt hfuel)
    rw [MetaDb.pathCte, parentIds, hg.filter_key hn]
    simp only [List.filterMap_cons, hp, List.filterMap_nil, List.nil_append]
    rw [← hq, ih (Nat.lt_of_succ_lt_succ hfuel)]
    rfl

theorem Climb.nodup (hd : db.Depths) {n : NodeRow} {rows : List NodeRow} (h : db.Climb n rows) :
    rows.Nodup := by
  refine (h.depth_lt hd).1.imp ?_
  rintro a b hlt rfl
  exact Nat.lt_irrefl _ hlt

theorem Climb.pathRows (hg : db.Grown) (hd : db.Depths) {n : NodeRow} {rows : List NodeRow}
    (h : db.Climb n rows) : db.pathRows n.experimentId (rows.map (·.nodeId)) = rows.reverse := by
  have hmem : ∀ a, a ∈ db.nodes.filter (fun a => a.experimentId = n.experimentId ∧
      a.nodeId ∈ rows.map (·.nodeId)) ↔ a ∈ rows := by
    intro a
    rw [List.mem_filter, decide_eq_true_eq, List.mem_map]
    constructor
    · rintro ⟨ha, hexp, b, hb, hid⟩
      rw [hg.eq_of_key ha (h.mem b hb).1 (hexp.trans (h.mem b hb).2.symm) hid.symm]
      exact hb
    · exact fun ha => ⟨(h.mem a ha).1, (h.mem a ha).2, a, ha, rfl⟩
  have hnodup : (db.nodes.filter fun a => a.experimentId = n.experimentId ∧
      a.nodeId ∈ rows.map (·.nodeId)).Nodup := hg.nodup.filter _
  have hperm := (List.perm_ext_iff_of_nodup hnodup (h.nodup hd)).mpr hmem
  have hsorted := (h.depth_lt hd).1
  have hdepths : (rows.map (·.depth)).Nodup := List.pairwise_map.mpr (hsorted.imp fun hlt => hlt.ne')
  rw [MetaDb.pathRows]
  refine List.Perm.eq_of_pairwise ?_
    (List.pairwise_insertionSort (fun a b : NodeRow => a.depth ≤ b.depth) _) ?_
    ((List.perm_insertionSort _ _).trans (hperm.trans rows.reverse_perm.symm))
  · intro a b ha hb hab hba
    have ha' := hperm.subset ((List.mem_insertionSort _).mp ha)
    exact List.inj_on_of_nodup_map hdepths ha' (List.mem_reverse.mp hb) (Nat.le_antisymm hab hba)
  · rw [List.pairwise_reverse]
    exact hsorted.imp fun hlt => hlt.le

theorem Climb.length_le (hd : db.Depths) {n : NodeRow} {rows : List NodeRow}
    (h : db.Climb n rows) : rows.length ≤ db.nodes.length :=
  (List.subperm_of_subset (h.nodup hd) fun a ha => (h.mem a ha).1).length_le

/-! ## Paths -/

def pathLog (db : MetaDb) (includeLogs : Bool) (n : NodeRow) : Option Bytes :=
  if includeLogs then n.inputLogId.bind db.getInputLog else none

theorem getPath_eq {i : NodeId} {includeLogs : Bool} {fuel : Nat} {nids : List NodeId}
    (hcte : db.pathCte exp fuel
      ((db.nodes.filter fun n => n.experimentId = exp ∧ n.nodeId = i).map (·.nodeId)) = some nids)
    (hread : ∀ n ∈ db.pathRows exp nids, Sql.InI64 n.visitCount) :
    db.getPath exp i includeLogs fuel =
      some (.ok ((db.pathRows exp nids).map fun n => (cast n, db.pathLog includeLogs n))) := by
  rw [getPath, hcte, Option.map_some, readNodes_ok hread]
  refine congrArg some ?_
  cases includeLogs with
  | false =>
    show Except.ok (((db.pathRows exp nids).map cast).map fun n => (n, none)) = _
    rw [List.map_map]
    rfl
  | true =>
    refine congrArg Except.ok ?_
    rw [List.map_map]
    refine List.map_congr_left fun n _ => ?_
    show (match n.inputLogId with
      | some logId => (cast n, db.getInputLog logId)
      | none => (cast n, none)) = (cast n, n.inputLogId.bind db.getInputLog)
    cases n.inputLogId <;> rfl

theorem getInputLog_of_stored {logId : LogId} (h : ∃ l ∈ db.inputLogs, l.logId = logId) :
    ∃ l ∈ db.inputLogs, l.logId = logId ∧ db.getInputLog logId = some l.content := by
  cases hfind : db.inputLogs.find? fun l => l.logId = logId with
  | none =>
    obtain ⟨l, hl, hid⟩ := h
    exact absurd (decide_eq_true hid) (List.find?_eq_none.mp hfind l hl)
  | some l =>
    have hid := List.find?_some hfind
    refine ⟨l, List.mem_of_find?_eq_some hfind, of_decide_eq_true hid, ?_⟩
    rw [getInputLog, hfind]
    rfl

end MetaDb

open MetaDb

section

variable [Primitives]

/-- `get_path` returns the rows from node 0 down to the node, each the parent of the next, with
their logs; and nothing for a missing node. -/
theorem get_path_is_ancestor_path (m : Nat) (s : History)
    (h : History.Reach m (fun db c => db.DepthFits c ∧ db.VisitsFit (-2 ^ 63) c) s)
    (exp : ExperimentId) (i : NodeId) (includeLogs : Bool) (fuel : Nat)
    (hfuel : s.actor.db.nodes.length < fuel) :
    (∀ n, s.actor.db.fetchNode exp i = some n →
      ∃ (path : List NodeRow) (log : NodeRow → Option Bytes),
        s.actor.db.getPath exp i includeLogs fuel =
          some (.ok (path.map fun a => (MetaDb.cast a, log a))) ∧
        (∀ a ∈ path, a ∈ s.actor.db.nodes ∧ a.experimentId = exp) ∧ path.Nodup ∧
        (∃ r, path.head? = some r ∧ r.nodeId = 0) ∧ path.getLast? = some n ∧
        path.IsChain (fun a b => b.parentNodeId = some a.nodeId) ∧
        ∀ a ∈ path, (includeLogs = false → log a = none) ∧
          (a.inputLogId = none → log a = none) ∧
          (includeLogs = true → ∀ logId, a.inputLogId = some logId →
            ∃ l ∈ s.actor.db.inputLogs, l.logId = logId ∧ log a = some l.content)) ∧
    (s.actor.db.fetchNode exp i = none →
      s.actor.db.getPath exp i includeLogs fuel = some (.ok [])) := by
  have hvisits := (h.mono fun _ _ hc => hc.2).inI64 (le_refl _) (by decide)
  obtain ⟨hg, hd, hl⟩ := (h.mono fun _ _ hc => hc.1).forest.1
  constructor
  · intro n hn
    obtain ⟨hmem, rfl, rfl⟩ := mem_of_fetchNode hn
    obtain ⟨rows, hrows⟩ := hd.exists_climb hg hmem
    have hcte : s.actor.db.pathCte n.experimentId fuel
        ((s.actor.db.nodes.filter fun a => a.experimentId = n.experimentId ∧
          a.nodeId = n.nodeId).map (·.nodeId)) = some (rows.map (·.nodeId)) := by
      rw [hg.filter_key hmem]
      exact hrows.pathCte hg ((hrows.length_le hd).trans_lt hfuel)
    have hsorted := hrows.pathRows hg hd
    have hin : ∀ a ∈ rows.reverse, a ∈ s.actor.db.nodes ∧ a.experimentId = n.experimentId :=
      fun a ha => hrows.mem a (List.mem_reverse.mp ha)
    refine ⟨rows.reverse, s.actor.db.pathLog includeLogs, ?_, hin, ?_, ?_, ?_, ?_, ?_⟩
    · rw [getPath_eq hcte, hsorted]
      rw [hsorted]
      exact fun a ha => hvisits a (hin a ha).1
    · exact List.nodup_reverse.mpr (hrows.nodup hd)
    · rw [List.head?_reverse]
      exact hrows.getLast? hg
    · rw [List.getLast?_reverse]
      exact hrows.head?
    · exact List.isChain_reverse.mpr hrows.isChain
    · intro a ha
      refine ⟨?_, ?_, ?_⟩
      · rintro rfl
        rfl
      · intro hnone
        rw [pathLog, hnone]
        split <;> rfl
      · rintro rfl logId hid
        obtain ⟨l, hmem, hlogId, hlog⟩ := getInputLog_of_stored (hl.stored a (hin a ha).1 logId hid)
        refine ⟨l, hmem, hlogId, ?_⟩
        rw [pathLog, if_pos rfl, hid]
        exact hlog
  · intro hn
    have hnone : (s.actor.db.nodes.filter fun a => a.experimentId = exp ∧ a.nodeId = i) = [] := by
      rw [List.filter_eq_nil_iff]
      exact fun a ha hkey => fetchNode_eq_none.mp hn a ha (of_decide_eq_true hkey)
    have hcte : s.actor.db.pathCte exp fuel
        ((s.actor.db.nodes.filter fun a => a.experimentId = exp ∧ a.nodeId = i).map (·.nodeId)) =
          some [] := by
      obtain ⟨k, rfl⟩ := Nat.exists_eq_succ_of_ne_zero (Nat.ne_zero_of_lt hfuel)
      rw [hnone]
      rfl
    have hrows : s.actor.db.pathRows exp [] = [] := by
      rw [pathRows, List.filter_eq_nil_iff.mpr]
      · rfl
      · simp
    rw [getPath_eq hcte (by rw [hrows]; exact List.forall_mem_nil _), hrows]
    rfl

end

namespace Sample

attribute [local instance] primitives

open History

/-- Visits that add up to `2 ^ 63` make the path of the node an error. -/
theorem visited_node_has_no_path :
    ∃ s, Reach 100 (fun _ _ => True) s ∧ (s.actor.db.fetchNode "e" 0).isSome ∧
      ∀ fuel, s.actor.db.getPath "e" 0 false (fuel + 2) = some (.error .sqlite) := by
  obtain ⟨s, hs, -, hactor⟩ := Reach.executeBatch (m := 100) .initial rfl .good
    [rootNode, visitRoot (2 ^ 63 - 1), visitRoot 1]
  have hstart : (s.actor.db.nodes.filter fun n => n.experimentId = "e" ∧ n.nodeId = 0).map
      (·.nodeId) = [0] ∧ s.actor.db.parentIds "e" 0 = [] := by
    rw [hactor]
    decide +kernel
  have hrow : ∃ n ∈ s.actor.db.pathRows "e" [0], ¬ Sql.InI64 n.visitCount := by
    rw [hactor]
    decide +kernel
  refine ⟨s, hs, ?_, fun fuel => ?_⟩
  · rw [hactor]
    decide +kernel
  · obtain ⟨n, hn, hcount⟩ := hrow
    have hcte : s.actor.db.pathCte "e" (fuel + 2) [0] = some [0] := by
      rw [pathCte, hstart.2]
      rfl
    rw [getPath, hstart.1, hcte, Option.map_some, readNodes_error hn hcount]
    rfl

def childWithLog : CreateNodeParams :=
  ⟨"e", 7, some 0, ref, some (blake3 ((List.replicate 60 1).take 28)), some (List.replicate 60 1),
    .frontier, none, 0, 0, none⟩

theorem path_of_child_with_log : ∃ (db : MetaDb) (n : NodeRow) (path : List NodeRow)
    (log : NodeRow → Option Bytes), n.nodeId = 7 ∧
      db.getPath "e" 7 true 3 = some (.ok (path.map fun a => (MetaDb.cast a, log a))) ∧
      path.getLast? = some n ∧ path.IsChain (fun a b => b.parentNodeId = some a.nodeId) ∧
      ∃ l ∈ db.inputLogs, log n = some l.content := by
  have hbegun : Reach 100 (fun db c => db.DepthFits c ∧ db.VisitsFit (-2 ^ 63) c) _ :=
    .step .initial (.begin rfl)
  have hroot := Reach.step hbegun (.command rfl .good rootNode rfl ⟨fun p _ q hq => (nomatch hq),
    nofun⟩)
  have hchild := Reach.step hroot (.command rfl .good (.createNode childWithLog) rfl
    ⟨fun p _ q hq _ _ => by
      have hdepth : ∀ q ∈ (execCmd 100 .good ⟨.begin initial.actor.db, initial.actor.counter, false,
          []⟩ (rootNode, 0)).tx.current.nodes, q.depth + 1 < 2 ^ 32 := by decide +kernel
      exact hdepth q hq, nofun⟩)
  obtain ⟨s, hs, hactor⟩ : ∃ s, Reach 100 (fun db c => db.DepthFits c ∧ db.VisitsFit (-2 ^ 63) c) s ∧
      s.actor = (executeBatch 100 .good initial.actor [rootNode, .createNode childWithLog]).1 :=
    ⟨_, .step hchild (.commit rfl), rfl⟩
  have hlength : s.actor.db.nodes.length < 3 := by
    rw [hactor]
    decide +kernel
  have hrow : ∃ n, s.actor.db.fetchNode "e" 7 = some n ∧ n.nodeId = 7 ∧
      n.inputLogId = some (blake3 ((List.replicate 60 1).take 28)) := by
    rw [hactor]
    exact ⟨_, rfl, rfl, rfl⟩
  obtain ⟨n, hn, hid, hlogId⟩ := hrow
  obtain ⟨path, log, hpath, -, -, -, hlast, hchain, hlogs⟩ :=
    (get_path_is_ancestor_path 100 s hs "e" 7 true 3 hlength).1 n hn
  obtain ⟨l, hl, -, hlog⟩ := (hlogs n (List.mem_of_getLast? hlast)).2.2 rfl _ hlogId
  exact ⟨_, n, path, log, hid, hpath, hlast, hchain, l, hl, hlog⟩

end Sample

end SnapStore
