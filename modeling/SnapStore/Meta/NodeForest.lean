import SnapStore.Forest
import SnapStore.Meta.History

/-!
# The node forest

In each experiment the nodes are a tree grown from node 0, whatever the commands were.  The input
logs that nodes refer to are stored and hash to their ids.
-/

namespace SnapStore

open Disk Relation

namespace MetaDb

def links (db : MetaDb) (exp : ExperimentId) : List (NodeId × NodeId) :=
  db.nodes.filterMap fun n =>
    if n.experimentId = exp then n.parentNodeId.map (n.nodeId, ·) else none

variable {db db' : MetaDb} {exp : ExperimentId} {i j : NodeId}

theorem mem_links {c p : NodeId} :
    (c, p) ∈ db.links exp ↔
      ∃ n ∈ db.nodes, n.experimentId = exp ∧ n.nodeId = c ∧ n.parentNodeId = some p := by
  simp only [links, List.mem_filterMap]
  refine exists_congr fun n => and_congr_right fun _ => ?_
  split
  · next he => cases n.parentNodeId <;> simp [he]
  · next he => simp [he]

theorem children_eq (ids : List NodeId) :
    db.children exp ids = Forest.children (db.links exp) ids := by
  unfold children Forest.children links
  induction db.nodes with
  | nil => rfl
  | cons n ns ih =>
    by_cases he : n.experimentId = exp
    · cases hp : n.parentNodeId with
      | none => simpa [he, hp] using ih
      | some p =>
        by_cases hmem : p ∈ ids
        · simpa [he, hp, hmem] using ih
        · simpa [he, hp, hmem] using ih
    · simpa [he] using ih

theorem subtreeLevels_eq (k : Nat) (level : List NodeId) :
    db.subtreeLevels exp k level = Forest.levels (db.links exp) k level := by
  induction k generalizing level with
  | zero => rfl
  | succ k ih => rw [subtreeLevels, Forest.levels, ih, children_eq]

/-- The nodes of every experiment were added one by one, each below an existing one. -/
structure Grown (db : MetaDb) : Prop where
  keys : db.nodes.Pairwise fun n n' => ¬ (n.experimentId = n'.experimentId ∧ n.nodeId = n'.nodeId)
  older : db.nodes.Pairwise fun n n' =>
    ¬ (n.experimentId = n'.experimentId ∧ n'.parentNodeId = some n.nodeId)
  irrefl : ∀ n ∈ db.nodes, n.parentNodeId ≠ some n.nodeId
  root : ∀ n ∈ db.nodes, n.nodeId = 0 ↔ n.parentNodeId = none
  parent : ∀ n ∈ db.nodes, ∀ p, n.parentNodeId = some p →
    ∃ q ∈ db.nodes, q.experimentId = n.experimentId ∧ q.nodeId = p

theorem Grown.links (h : db.Grown) (exp : ExperimentId) : Forest.Grown (db.links exp) := by
  -- what a row contributes to the links
  have hlink : ∀ (n : NodeRow) (e : NodeId × NodeId),
      (if n.experimentId = exp then n.parentNodeId.map (n.nodeId, ·) else none) = some e →
      n.experimentId = exp ∧ n.nodeId = e.1 ∧ n.parentNodeId = some e.2 := by
    intro n e he
    split at he
    · next hexp =>
      obtain ⟨p, hp, rfl⟩ := Option.map_eq_some_iff.mp he
      exact ⟨hexp, rfl, hp⟩
    · cases he
  constructor
  · refine List.pairwise_filterMap.mpr (h.older.imp ?_)
    intro n n' hnn' e he e' he' heq
    obtain ⟨hexp, hid, -⟩ := hlink n e he
    obtain ⟨hexp', -, hp'⟩ := hlink n' e' he'
    exact hnn' ⟨hexp.trans hexp'.symm, by rw [hp', hid, heq]⟩
  · intro e he heq
    obtain ⟨n, hn, hne⟩ := List.mem_filterMap.mp he
    obtain ⟨-, hid, hp⟩ := hlink n e hne
    exact h.irrefl n hn (by rw [hp, hid, heq])

theorem length_links_le (db : MetaDb) (exp : ExperimentId) :
    (db.links exp).length ≤ db.nodes.length := List.length_filterMap_le _ _

theorem Grown.mem_subtree (h : db.Grown) :
    j ∈ db.subtree exp i ↔ Forest.Descends (db.links exp) i j := by
  rw [subtree, subtreeLevels_eq]
  exact Forest.mem_levels_iff_descends (h.links exp) (db.length_links_le exp)

theorem mem_of_fetchNode {n : NodeRow} (h : db.fetchNode exp i = some n) :
    n ∈ db.nodes ∧ n.experimentId = exp ∧ n.nodeId = i := by
  have hp := List.find?_some h
  simp only [decide_eq_true_eq] at hp
  exact ⟨List.mem_of_find?_eq_some h, hp⟩

theorem fetchNode_eq_none :
    db.fetchNode exp i = none ↔ ∀ n ∈ db.nodes, ¬ (n.experimentId = exp ∧ n.nodeId = i) := by
  simp [fetchNode]

structure SameNode (n n' : NodeRow) : Prop where
  experimentId : n'.experimentId = n.experimentId
  nodeId : n'.nodeId = n.nodeId
  parentNodeId : n'.parentNodeId = n.parentNodeId
  depth : n'.depth = n.depth
  inputLogId : n'.inputLogId = n.inputLogId

theorem SameNode.refl (n : NodeRow) : SameNode n n := ⟨rfl, rfl, rfl, rfl, rfl⟩

theorem SameNode.update (exp : ExperimentId) (u : NodeUpdate) (k : Nat) (n : NodeRow) :
    SameNode n (if n.experimentId = exp ∧ n.nodeId = u.nodeId then updatedNode u k n else n) := by
  split
  · exact ⟨rfl, rfl, rfl, rfl, rfl⟩
  · exact .refl n

theorem SameNode.prune (db : MetaDb) (exp : ExperimentId) (i : NodeId) (k : Nat) (n : NodeRow) :
    SameNode n
      (if db.inSubtree exp i n then { n with status := .pruned, updatedAt := k } else n) := by
  split
  · exact ⟨rfl, rfl, rfl, rfl, rfl⟩
  · exact .refl n

theorem nodeDepth_ok {p : CreateNodeParams} {depth : Nat} (h : db.nodeDepth p = .ok depth) :
    (p.nodeId = 0 ∧ p.parentNodeId = none ∧ depth = 0) ∨
      ∃ q ∈ db.nodes, p.nodeId ≠ 0 ∧ p.parentNodeId = some q.nodeId ∧
        q.experimentId = p.experimentId ∧ q.status ≠ .pruned ∧ depth = (q.depth + 1) % 2 ^ 32 := by
  unfold nodeDepth at h
  split at h
  · cases h
  · next hroot =>
    split at h
    · cases h
    · next hother =>
      split at h
      · next hnone =>
        cases h
        refine .inl ⟨?_, hnone, rfl⟩
        by_contra hne
        exact hother ⟨hne, by rw [hnone]; rfl⟩
      · next parentId hsome =>
        split at h
        · cases h
        · next q hq =>
          split at h
          · cases h
          · next hstatus =>
            cases h
            obtain ⟨hmem, hexp, hid⟩ := mem_of_fetchNode hq
            refine .inr ⟨q, hmem, fun hzero => hroot ⟨hzero, by rw [hsome]; rfl⟩, ?_, hexp, hstatus,
              rfl⟩
            rw [hsome, hid]

namespace Grown

theorem empty : MetaDb.empty.Grown := by
  constructor <;> simp [MetaDb.empty]

theorem map (h : db.Grown) {f : NodeRow → NodeRow} (hf : ∀ n, SameNode n (f n))
    (hnodes : db'.nodes = db.nodes.map f) : db'.Grown := by
  constructor
  · rw [hnodes, List.pairwise_map]
    refine h.keys.imp fun {n n'} hnn' heq => hnn' ?_
    rwa [(hf n).experimentId, (hf n').experimentId, (hf n).nodeId, (hf n').nodeId] at heq
  · rw [hnodes, List.pairwise_map]
    refine h.older.imp fun {n n'} hnn' heq => hnn' ?_
    rwa [(hf n).experimentId, (hf n').experimentId, (hf n).nodeId, (hf n').parentNodeId] at heq
  · rw [hnodes]
    refine List.forall_mem_map.mpr fun n hn => ?_
    rw [(hf n).parentNodeId, (hf n).nodeId]
    exact h.irrefl n hn
  · rw [hnodes]
    refine List.forall_mem_map.mpr fun n hn => ?_
    rw [(hf n).parentNodeId, (hf n).nodeId]
    exact h.root n hn
  · rw [hnodes]
    refine List.forall_mem_map.mpr fun n hn p hp => ?_
    rw [(hf n).parentNodeId] at hp
    obtain ⟨q, hq, hexp, hid⟩ := h.parent n hn p hp
    refine ⟨f q, List.mem_map_of_mem hq, ?_, (hf q).nodeId.trans hid⟩
    rw [(hf q).experimentId, (hf n).experimentId, hexp]

theorem insert (h : db.Grown) {p : CreateNodeParams} {depth k : Nat}
    (hdepth : db.nodeDepth p = .ok depth) (hnew : db.fetchNode p.experimentId p.nodeId = none)
    (hnodes : db'.nodes = newNode p depth k :: db.nodes) : db'.Grown := by
  rw [fetchNode_eq_none] at hnew
  have hparent : ∀ i, p.parentNodeId = some i →
      ∃ q ∈ db.nodes, q.experimentId = p.experimentId ∧ q.nodeId = i := by
    intro i hi
    rcases nodeDepth_ok hdepth with ⟨-, hnone, -⟩ | ⟨q, hq, -, hid, hexp, -, -⟩
    · exact absurd (hnone.symm.trans hi) (by simp)
    · exact ⟨q, hq, hexp, Option.some.inj (hid.symm.trans hi)⟩
  constructor
  · rw [hnodes]
    refine List.pairwise_cons.mpr ⟨?_, h.keys⟩
    rintro n hn ⟨hexp, hid⟩
    exact hnew n hn ⟨hexp.symm, hid.symm⟩
  · -- a row whose parent is the new node would have had no parent before
    rw [hnodes]
    refine List.pairwise_cons.mpr ⟨?_, h.older⟩
    rintro n hn ⟨hexp, hid⟩
    obtain ⟨q, hq, hqexp, hqid⟩ := h.parent n hn _ hid
    exact hnew q hq ⟨hqexp.trans hexp.symm, hqid⟩
  · rw [hnodes]
    refine List.forall_mem_cons.mpr ⟨fun hself => ?_, h.irrefl⟩
    obtain ⟨q, hq, hexp, hid⟩ := hparent _ hself
    exact hnew q hq ⟨hexp, hid⟩
  · rw [hnodes]
    refine List.forall_mem_cons.mpr ⟨?_, h.root⟩
    rcases nodeDepth_ok hdepth with ⟨hid, hnone, -⟩ | ⟨q, -, hid, hsome, -, -, -⟩
    · exact ⟨fun _ => hnone, fun _ => hid⟩
    · exact ⟨fun hzero => absurd hzero hid, fun hnone => absurd (hsome.symm.trans hnone) (by simp)⟩
  · rw [hnodes]
    refine List.forall_mem_cons.mpr ⟨fun i hi => ?_, fun n hn i hi => ?_⟩
    · obtain ⟨q, hq, hexp, hid⟩ := hparent i hi
      exact ⟨q, List.mem_cons_of_mem _ hq, hexp, hid⟩
    · obtain ⟨q, hq, hexp, hid⟩ := h.parent n hn i hi
      exact ⟨q, List.mem_cons_of_mem _ hq, hexp, hid⟩

theorem inSubtree_child (h : db.Grown) {n q : NodeRow} (hn : n ∈ db.nodes)
    (hp : n.parentNodeId = some q.nodeId) (hexp : q.experimentId = n.experimentId)
    (hq : db.inSubtree exp i q = true) : db.inSubtree exp i n = true := by
  simp only [inSubtree, decide_eq_true_eq, h.mem_subtree] at hq ⊢
  obtain ⟨hqexp, hdesc⟩ := hq
  have hnexp : n.experimentId = exp := hexp.symm.trans hqexp
  exact ⟨hnexp, hdesc.tail (mem_links.mpr ⟨n, hn, hnexp, rfl, hp⟩)⟩

theorem reap (h : db.Grown) (hnodes : db'.nodes = db.survivors exp i) : db'.Grown := by
  have hsub : db'.nodes.Sublist db.nodes := hnodes ▸ List.filter_sublist
  refine ⟨h.keys.sublist hsub, h.older.sublist hsub, fun n hn => h.irrefl n (hsub.subset hn),
    fun n hn => h.root n (hsub.subset hn), fun n hn p hp => ?_⟩
  obtain ⟨q, hq, hexp, hid⟩ := h.parent n (hsub.subset hn) p hp
  refine ⟨q, ?_, hexp, hid⟩
  rw [hnodes, survivors, List.mem_filter, Bool.not_eq_true'] at hn ⊢
  refine ⟨hq, ?_⟩
  by_contra hin
  have hin' := h.inSubtree_child hn.1 (hp.trans (congrArg some hid.symm)) hexp
    (Bool.eq_true_of_not_eq_false hin)
  exact absurd (hn.2.symm.trans hin') (by simp)

end Grown

theorem subtree_map {f : NodeRow → NodeRow} (hf : ∀ n, SameNode n (f n))
    (hnodes : db'.nodes = db.nodes.map f) (exp : ExperimentId) (i : NodeId) :
    db'.subtree exp i = db.subtree exp i := by
  have hlinks : db'.links exp = db.links exp := by
    unfold links
    rw [hnodes, List.filterMap_map]
    refine List.filterMap_congr fun n _ => ?_
    simp only [Function.comp, (hf n).experimentId, (hf n).nodeId, (hf n).parentNodeId]
  rw [subtree, subtree, subtreeLevels_eq, subtreeLevels_eq, hlinks, hnodes, List.length_map]

theorem subtree_congr (hnodes : db'.nodes = db.nodes) (exp : ExperimentId) (i : NodeId) :
    db'.subtree exp i = db.subtree exp i :=
  subtree_map (f := fun n => n) .refl (by rw [hnodes, List.map_id'']; exact fun _ => rfl) exp i

/-! ## Depths -/

theorem Grown.eq_of_key (h : db.Grown) {n n' : NodeRow} (hn : n ∈ db.nodes) (hn' : n' ∈ db.nodes)
    (hexp : n.experimentId = n'.experimentId) (hid : n.nodeId = n'.nodeId) : n = n' := by
  have : Std.Symm fun n n' : NodeRow =>
      ¬ (n.experimentId = n'.experimentId ∧ n.nodeId = n'.nodeId) :=
    ⟨fun _ _ hnn' heq => hnn' ⟨heq.1.symm, heq.2.symm⟩⟩
  by_contra hne
  exact h.keys.forall hn hn' hne ⟨hexp, hid⟩

theorem Grown.nodup (h : db.Grown) : db.nodes.Nodup := by
  refine h.keys.imp ?_
  rintro n n' hne rfl
  exact hne ⟨rfl, rfl⟩

theorem Grown.fetchNode (h : db.Grown) {n : NodeRow} (hn : n ∈ db.nodes) :
    db.fetchNode n.experimentId n.nodeId = some n := by
  cases hf : db.fetchNode n.experimentId n.nodeId with
  | none => exact absurd ⟨rfl, rfl⟩ (fetchNode_eq_none.mp hf n hn)
  | some n' =>
    obtain ⟨hn', hexp, hid⟩ := mem_of_fetchNode hf
    rw [h.eq_of_key hn' hn hexp hid]

/-- The depth of a node is one more than that of its parent, and fits its column. -/
structure Depths (db : MetaDb) : Prop where
  root : ∀ n ∈ db.nodes, n.parentNodeId = none → n.depth = 0
  parent : ∀ n ∈ db.nodes, ∀ q ∈ db.nodes, q.experimentId = n.experimentId →
    n.parentNodeId = some q.nodeId → n.depth = q.depth + 1
  bound : ∀ n ∈ db.nodes, n.depth < 2 ^ 32

def DepthFits (db : MetaDb) (cmd : ActorCmd) : Prop :=
  ∀ p, cmd = .createNode p → ∀ q ∈ db.nodes, q.experimentId = p.experimentId →
    p.parentNodeId = some q.nodeId → q.depth + 1 < 2 ^ 32

theorem Depths.map (h : db.Depths) {f : NodeRow → NodeRow} (hf : ∀ n, SameNode n (f n))
    (hnodes : db'.nodes = db.nodes.map f) : db'.Depths := by
  constructor
  · rw [hnodes]
    refine List.forall_mem_map.mpr fun n hn hp => ?_
    rw [(hf n).parentNodeId] at hp
    exact (hf n).depth.trans (h.root n hn hp)
  · rw [hnodes]
    refine List.forall_mem_map.mpr fun n hn => List.forall_mem_map.mpr fun q hq hexp hp => ?_
    rw [(hf q).experimentId, (hf n).experimentId] at hexp
    rw [(hf n).parentNodeId, (hf q).nodeId] at hp
    rw [(hf n).depth, (hf q).depth]
    exact h.parent n hn q hq hexp hp
  · rw [hnodes]
    refine List.forall_mem_map.mpr fun n hn => ?_
    rw [(hf n).depth]
    exact h.bound n hn

theorem Depths.insert (h : db.Depths) (hg : db.Grown) {p : CreateNodeParams} {depth k : Nat}
    (hdepth : db.nodeDepth p = .ok depth) (hnew : db.fetchNode p.experimentId p.nodeId = none)
    (hfits : db.DepthFits (.createNode p))
    (hnodes : db'.nodes = newNode p depth k :: db.nodes) : db'.Depths := by
  have hnone := fetchNode_eq_none.mp hnew
  constructor
  · rw [hnodes]
    refine List.forall_mem_cons.mpr ⟨fun hp => ?_, h.root⟩
    rcases nodeDepth_ok hdepth with ⟨-, -, hzero⟩ | ⟨q, -, -, hsome, -, -, -⟩
    · exact hzero
    · exact absurd (hsome.symm.trans hp) (by simp)
  · rw [hnodes]
    refine List.forall_mem_cons.mpr ⟨List.forall_mem_cons.mpr ⟨?_, ?_⟩, fun n hn =>
      List.forall_mem_cons.mpr ⟨?_, h.parent n hn⟩⟩
    · exact fun _ hp => absurd hp ((hg.insert hdepth hnew hnodes).irrefl _
        (hnodes ▸ List.mem_cons_self))
    · -- the parent the command has checked is the row `q`
      intro q hq hexp hp
      rcases nodeDepth_ok hdepth with ⟨-, hroot, -⟩ | ⟨q', hq', -, hp', hexp', -, hd⟩
      · exact absurd (hroot.symm.trans hp) (by simp)
      · obtain rfl : q' = q := hg.eq_of_key hq' hq (hexp'.trans hexp.symm)
          (Option.some.inj (hp'.symm.trans hp))
        exact hd.trans (Nat.mod_eq_of_lt (hfits p rfl q' hq' hexp' hp'))
    · intro hexp hp
      obtain ⟨q, hq, hqexp, hqid⟩ := hg.parent n hn _ hp
      exact absurd ⟨hqexp.trans hexp.symm, hqid⟩ (hnone q hq)
  · rw [hnodes]
    refine List.forall_mem_cons.mpr ⟨?_, h.bound⟩
    rcases nodeDepth_ok hdepth with ⟨-, -, hd⟩ | ⟨q, -, -, -, -, -, hd⟩
    · exact hd ▸ Nat.two_pow_pos 32
    · exact hd ▸ Nat.mod_lt _ (Nat.two_pow_pos 32)

theorem Depths.reap (h : db.Depths) (hnodes : db'.nodes = db.survivors exp i) : db'.Depths := by
  have hsub : ∀ n ∈ db'.nodes, n ∈ db.nodes := fun n hn =>
    List.mem_of_mem_filter (hnodes ▸ hn)
  exact ⟨fun n hn => h.root n (hsub n hn), fun n hn q hq => h.parent n (hsub n hn) q (hsub q hq),
    fun n hn => h.bound n (hsub n hn)⟩

def ancestor (db : MetaDb) (exp : ExperimentId) : Nat → NodeId → Option NodeId
  | 0, i => some i
  | d + 1, i => ((db.fetchNode exp i).bind (·.parentNodeId)).bind (db.ancestor exp d)

theorem Depths.ancestor_eq (h : db.Depths) (hg : db.Grown) (d : Nat) :
    ∀ n ∈ db.nodes, n.depth = d → db.ancestor n.experimentId d n.nodeId = some 0 := by
  induction d with
  | zero =>
    intro n hn hd
    refine congrArg some ((hg.root n hn).mpr ?_)
    cases hp : n.parentNodeId with
    | none => rfl
    | some p =>
      obtain ⟨q, hq, hexp, rfl⟩ := hg.parent n hn p hp
      have := h.parent n hn q hq hexp hp
      omega
  | succ d ih =>
    intro n hn hd
    cases hp : n.parentNodeId with
    | none =>
      have := h.root n hn hp
      omega
    | some p =>
      obtain ⟨q, hq, hexp, rfl⟩ := hg.parent n hn p hp
      have hqd := h.parent n hn q hq hexp hp
      rw [ancestor, hg.fetchNode hn, Option.bind_some, hp, Option.bind_some, ← hexp]
      exact ih q hq (by omega)

/-! ## Moves and the forest -/

variable [Primitives] {k : Nat} {cmd : ActorCmd}

theorem Move.nodes (h : Move k cmd db db') :
    (∃ f : NodeRow → NodeRow, (∀ n, SameNode n (f n)) ∧ db'.nodes = db.nodes.map f) ∨
    (∃ p depth, cmd = .createNode p ∧ db.nodeDepth p = .ok depth ∧
      db.fetchNode p.experimentId p.nodeId = none ∧ db'.nodes = newNode p depth k :: db.nodes ∧
      ∀ logId, p.inputLogId = some logId → ∃ l ∈ db.inputLogs, l.logId = logId) ∨
    ∃ exp id, db'.nodes = db.survivors exp id := by
  have hsame : db'.nodes = db.nodes →
      ∃ f : NodeRow → NodeRow, (∀ n, SameNode n (f n)) ∧ db'.nodes = db.nodes.map f := fun heq =>
    ⟨fun n => n, fun n => .refl n, by rw [List.map_id'', heq]; exact fun _ => rfl⟩
  cases h with
  | insertLog row hstamp hid hnew => exact .inl (hsame rfl)
  | insertNode p depth hdepth hlog hnew => exact .inr (.inl ⟨p, depth, rfl, hdepth, hnew, rfl, hlog⟩)
  | updateNode exp us u hu => exact .inl ⟨_, .update exp u k, rfl⟩
  | upsertKv key value expected row hstamp => exact .inl (hsame rfl)
  | deleteKv key expected => exact .inl (hsame rfl)
  | insertPin r note => exact .inl (hsame rfl)
  | unpin r => exact .inl (hsame rfl)
  | prune exp id allowRoot hnode => exact .inl ⟨_, .prune db exp id k, rfl⟩
  | reap exp id hnode hpruned => exact .inr (.inr ⟨exp, id, rfl⟩)
  | setGcState state => exact .inl (hsame rfl)

theorem Grown.move (h : db.Grown) (hm : Move k cmd db db') : db'.Grown := by
  rcases hm.nodes with ⟨f, hf, hnodes⟩ | ⟨p, depth, -, hdepth, hnew, hnodes, -⟩ | ⟨exp, id, hnodes⟩
  · exact h.map hf hnodes
  · exact h.insert hdepth hnew hnodes
  · exact h.reap hnodes

theorem Depths.move (h : db.Depths) (hg : db.Grown) (hfits : db.DepthFits cmd)
    (hm : Move k cmd db db') : db'.Depths := by
  rcases hm.nodes with ⟨f, hf, hnodes⟩ | ⟨p, depth, rfl, hdepth, hnew, hnodes, -⟩ | ⟨exp, id, hnodes⟩
  · exact h.map hf hnodes
  · exact h.insert hg hdepth hnew hfits hnodes
  · exact h.reap hnodes

theorem DepthFits.move (h : db.DepthFits cmd) (hg : db.Grown) (hm : Move k cmd db db') :
    db'.DepthFits cmd := by
  rintro p rfl
  cases hm with
  | insertLog row hstamp hid hnew => exact h p rfl
  | insertNode p depth hdepth hlog hnew =>
    refine List.forall_mem_cons.mpr ⟨fun _ hp => ?_, h p rfl⟩
    have hg' : ({ db with nodes := newNode p depth k :: db.nodes } : MetaDb).Grown :=
      hg.insert hdepth hnew rfl
    exact absurd hp (hg'.irrefl _ List.mem_cons_self)

/-! ## Input logs -/

/-- The input logs of the nodes are stored, and every stored log hashes to its id. -/
structure LogsStored (db : MetaDb) : Prop where
  valid : ∀ l ∈ db.inputLogs, blake3 (l.content.take (l.content.length - 32)) = l.logId
  stored : ∀ n ∈ db.nodes, ∀ logId, n.inputLogId = some logId →
    ∃ l ∈ db.inputLogs, l.logId = logId

omit [Primitives] in
theorem Depths.empty : MetaDb.empty.Depths := by
  constructor <;> simp [MetaDb.empty]

omit [Primitives] in
theorem Grown.withCounter (h : db.Grown) (k : Nat) : (db.withCounter k).Grown :=
  ⟨h.keys, h.older, h.irrefl, h.root, h.parent⟩

theorem LogsStored.empty : MetaDb.empty.LogsStored := by
  constructor <;> simp [MetaDb.empty]

theorem LogsStored.map (h : db.LogsStored) {f : NodeRow → NodeRow} (hf : ∀ n, SameNode n (f n))
    (hnodes : db'.nodes = db.nodes.map f) (hlogs : db'.inputLogs = db.inputLogs) :
    db'.LogsStored := by
  refine ⟨hlogs ▸ h.valid, ?_⟩
  rw [hnodes, hlogs]
  refine List.forall_mem_map.mpr fun n hn logId hid => ?_
  rw [(hf n).inputLogId] at hid
  exact h.stored n hn logId hid

theorem LogsStored.reap (h : db.LogsStored) (exp : ExperimentId) (id : NodeId) :
    (db.reaped exp id).LogsStored := by
  refine ⟨fun l hl => h.valid l (List.mem_of_mem_filter hl), fun n hn logId hid => ?_⟩
  obtain ⟨l, hl, rfl⟩ := h.stored n (List.mem_of_mem_filter hn) logId hid
  -- the log has a node that survives, so it is not deleted
  refine ⟨l, List.mem_filter.mpr ⟨hl, ?_⟩, rfl⟩
  exact List.any_eq_true.mpr ⟨n, hn, decide_eq_true hid⟩

theorem LogsStored.move (h : db.LogsStored) (hm : Move k cmd db db') : db'.LogsStored := by
  cases hm with
  | insertLog row hstamp hid hnew =>
    refine ⟨List.forall_mem_cons.mpr ⟨hid, h.valid⟩, fun n hn logId hlog => ?_⟩
    obtain ⟨l, hl, hlid⟩ := h.stored n hn logId hlog
    exact ⟨l, List.mem_cons_of_mem _ hl, hlid⟩
  | insertNode p depth hdepth hlog hnew =>
    exact ⟨h.valid, List.forall_mem_cons.mpr ⟨hlog, h.stored⟩⟩
  | updateNode exp us u hu => exact h.map (.update exp u k) rfl rfl
  | upsertKv key value expected row hstamp => exact ⟨h.valid, h.stored⟩
  | deleteKv key expected => exact ⟨h.valid, h.stored⟩
  | insertPin r note => exact ⟨h.valid, h.stored⟩
  | unpin r => exact ⟨h.valid, h.stored⟩
  | prune exp id allowRoot hnode => exact h.map (.prune db exp id k) rfl rfl
  | reap exp id hnode hpruned => exact h.reap exp id
  | setGcState state => exact ⟨h.valid, h.stored⟩

/-! ## Integrity -/

/-- The node table is a forest rooted at the nodes 0, and its logs are stored. -/
structure Integrity (db : MetaDb) : Prop where
  root : ∀ n ∈ db.nodes, n.nodeId = 0 ↔ n.parentNodeId = none
  rootDepth : ∀ n ∈ db.nodes, n.nodeId = 0 → n.depth = 0
  parent : ∀ n ∈ db.nodes, n.nodeId ≠ 0 → ∃ q ∈ db.nodes, q.experimentId = n.experimentId ∧
    n.parentNodeId = some q.nodeId ∧ n.depth = q.depth + 1
  path : ∀ n ∈ db.nodes, db.ancestor n.experimentId n.depth n.nodeId = some 0
  logs : ∀ n ∈ db.nodes, ∀ logId, n.inputLogId = some logId →
    ∃ l ∈ db.inputLogs, l.logId = logId ∧
      blake3 (l.content.take (l.content.length - 32)) = logId
  depthBound : ∀ n ∈ db.nodes, n.depth < 2 ^ 32

theorem Integrity.of_parts (hg : db.Grown) (hd : db.Depths) (hl : db.LogsStored) :
    db.Integrity where
  root := hg.root
  rootDepth n hn hid := hd.root n hn ((hg.root n hn).mp hid)
  parent n hn hid := by
    cases hp : n.parentNodeId with
    | none => exact absurd ((hg.root n hn).mpr hp) hid
    | some p =>
      obtain ⟨q, hq, hexp, rfl⟩ := hg.parent n hn p hp
      exact ⟨q, hq, hexp, rfl, hd.parent n hn q hq hexp hp⟩
  path n hn := hd.ancestor_eq hg n.depth n hn rfl
  logs n hn logId hid := by
    obtain ⟨l, hmem, rfl⟩ := hl.stored n hn logId hid
    exact ⟨l, hmem, rfl, hl.valid l hmem⟩
  depthBound := hd.bound

end MetaDb

namespace History

open MetaDb

variable [Primitives] {m : Nat} {ok : MetaDb → ActorCmd → Prop} {s : History}

theorem Reach.grown (h : Reach m ok s) :
    s.actor.db.Grown ∧ ∀ l i, s.batch = some (l, i) → l.tx.current.Grown := by
  refine h.invariant .empty (fun db k hdb => hdb.withCounter k) fun db c k hdb _ => ?_
  exact dispatchCmd_induction (P := Grown) hdb fun _ _ hg => hg.move

theorem Reach.forest (h : Reach m DepthFits s) :
    (s.actor.db.Grown ∧ s.actor.db.Depths ∧ s.actor.db.LogsStored) ∧
      ∀ l i, s.batch = some (l, i) →
        l.tx.current.Grown ∧ l.tx.current.Depths ∧ l.tx.current.LogsStored := by
  refine h.invariant (P := fun db => db.Grown ∧ db.Depths ∧ db.LogsStored)
    ⟨.empty, .empty, .empty⟩ (fun db k hdb => hdb.imp (fun hg => hg.withCounter k)
      fun ⟨hd, hl⟩ => ⟨⟨hd.root, hd.parent, hd.bound⟩, hl.valid, hl.stored⟩)
    fun db c k hdb hfits => ?_
  -- each move of a command finds room below the parent
  have hmoves := dispatchCmd_induction (m := m) (k := k)
    (P := fun db => (db.Grown ∧ db.Depths ∧ db.LogsStored) ∧ db.DepthFits c) ⟨hdb, hfits⟩
    fun db₁ db₂ ⟨⟨hg, hd, hl⟩, hf⟩ hm =>
      ⟨⟨hg.move hm, hd.move hg hf hm, hl.move hm⟩, hf.move hg hm⟩
  exact hmoves.1

/-- The forest and its logs, in every state of every history of commands and failures, as long as
no depth leaves the 32 bits of its column. -/
theorem integrity_of_history (m : Nat) (s : History) (h : Reach m DepthFits s) :
    s.actor.db.Integrity ∧ ∀ l i, s.batch = some (l, i) → l.tx.current.Integrity := by
  obtain ⟨⟨hg, hd, hl⟩, hbatch⟩ := h.forest
  refine ⟨.of_parts hg hd hl, fun l i hb => ?_⟩
  obtain ⟨hg', hd', hl'⟩ := hbatch l i hb
  exact .of_parts hg' hd' hl'

end History

section Sample

attribute [local instance] Sample.primitives

open History MetaDb

theorem integrity_of_two_nodes :
    ∃ db : MetaDb, db.nodes.map (·.nodeId) = [7, 0] ∧ db.inputLogs.length = 1 ∧ db.Integrity := by
  let log : Bytes := List.replicate 60 1
  let root : CreateNodeParams := ⟨"e", 0, none, Sample.ref, none, none, .expanded, none, 0, 0, none⟩
  let child : CreateNodeParams := ⟨"e", 7, some 0, Sample.ref, some (blake3 (log.take 28)), some log,
    .frontier, none, 0, 0, none⟩
  have hbegun : Reach 100 DepthFits _ := .step .initial (.begin rfl)
  have hroot := Reach.step hbegun (.command rfl .good (.createNode root) rfl fun p _ q hq => by
    cases hq)
  have hchild := Reach.step hroot (.command rfl .good (.createNode child) rfl fun p _ q hq _ _ => by
    obtain rfl : q = newNode root 0 1 := List.mem_singleton.mp hq
    decide)
  have hint := (integrity_of_history 100 _ hchild).2 _ _ rfl
  exact ⟨_, by decide +kernel, by decide +kernel, hint⟩

end Sample

end SnapStore
