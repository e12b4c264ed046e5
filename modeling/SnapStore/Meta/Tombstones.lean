import SnapStore.Meta.NodeForest

/-!
# Tombstones

A tombstone names the root of a pruned subtree until the subtree is reaped.  Reaping deletes one
tombstone, whatever other tombstones the subtree holds; and an update may take a node of a tombstoned
subtree back to life.
-/

namespace SnapStore

open Disk Relation

namespace MetaDb

variable {db db' : MetaDb} {exp : ExperimentId} {i j : NodeId}

def HasNode (db : MetaDb) (exp : ExperimentId) (i : NodeId) : Prop :=
  ∃ n ∈ db.nodes, n.experimentId = exp ∧ n.nodeId = i

instance (db : MetaDb) (exp : ExperimentId) (i : NodeId) : Decidable (db.HasNode exp i) :=
  inferInstanceAs (Decidable (∃ n ∈ db.nodes, n.experimentId = exp ∧ n.nodeId = i))

theorem isSome_fetchNode : (db.fetchNode exp i).isSome ↔ db.HasNode exp i := by
  simp [fetchNode, HasNode, List.find?_isSome]

theorem HasNode.map {f : NodeRow → NodeRow} (hf : ∀ n, SameNode n (f n))
    (hnodes : db'.nodes = db.nodes.map f) : db'.HasNode exp i ↔ db.HasNode exp i := by
  constructor
  · rintro ⟨n, hn, hexp, hid⟩
    obtain ⟨n₀, hn₀, rfl⟩ := List.mem_map.mp (hnodes ▸ hn)
    exact ⟨n₀, hn₀, (hf n₀).experimentId ▸ hexp, (hf n₀).nodeId ▸ hid⟩
  · rintro ⟨n, hn, hexp, hid⟩
    exact ⟨f n, hnodes ▸ List.mem_map_of_mem hn, (hf n).experimentId.trans hexp,
      (hf n).nodeId.trans hid⟩

theorem self_mem_subtree (db : MetaDb) (exp : ExperimentId) (i : NodeId) :
    i ∈ db.subtree exp i := by
  rw [subtree, subtreeLevels_eq, Forest.mem_levels]
  exact ⟨i, List.mem_singleton_self i, 0, Nat.zero_le _, .nil⟩

theorem Grown.hasNode_of_mem_subtree (h : db.Grown) (hj : db.HasNode exp j)
    (hmem : j ∈ db.subtree exp i) : db.HasNode exp i := by
  rcases ((h.mem_subtree).mp hmem).cases_head with rfl | ⟨c, hc, -⟩
  · exact hj
  · obtain ⟨n, hn, hexp, -, hp⟩ := mem_links.mp hc
    obtain ⟨q, hq, hqexp, hqid⟩ := h.parent n hn i hp
    exact ⟨q, hq, hqexp.trans hexp, hqid⟩

/-! ## Tombstones name existing nodes -/

def TombstonesNamed (db : MetaDb) : Prop :=
  ∀ t ∈ db.tombstones, db.HasNode t.experimentId t.nodeId

def ReapsAlone (db : MetaDb) (cmd : ActorCmd) : Prop :=
  ∀ exp i, cmd = .reapTombstone exp i → db.HasNode exp i →
    (∀ n ∈ db.nodes, db.inSubtree exp i n = true → n.status = .pruned) →
    ∀ t ∈ db.tombstones, t.experimentId = exp → t.nodeId ∈ db.subtree exp i → t.nodeId = i

theorem mem_tombstones_reaped {t : TombstoneRow} : t ∈ (db.reaped exp i).tombstones ↔
    t ∈ db.tombstones ∧ ¬ (t.experimentId = exp ∧ t.nodeId = i) := by
  simp only [reaped, List.mem_filter, decide_eq_true_eq]

theorem TombstonesNamed.reap (h : db.TombstonesNamed)
    (halone : ∀ t ∈ db.tombstones, t.experimentId = exp → t.nodeId ∈ db.subtree exp i →
      t.nodeId = i) : (db.reaped exp i).TombstonesNamed := by
  intro t ht
  obtain ⟨ht, hne⟩ := mem_tombstones_reaped.mp ht
  obtain ⟨n, hn, hexp, hid⟩ := h t ht
  refine ⟨n, List.mem_filter.mpr ⟨hn, ?_⟩, hexp, hid⟩
  by_contra hin
  simp only [inSubtree, Bool.not_eq_true', decide_eq_false_iff_not, not_not] at hin
  refine hne ⟨hexp.symm.trans hin.1, halone t ht (hexp.symm.trans hin.1) ?_⟩
  exact hid ▸ hin.2

theorem mem_tombstones_pruned {k : Nat} {t : TombstoneRow} (ht : t ∈ (db.pruned exp i k).tombstones) :
    t ∈ db.tombstones ∨ t = ⟨exp, i, k⟩ := by
  unfold pruned at ht
  dsimp only at ht
  split at ht
  · exact .inl ht
  · exact (List.mem_cons.mp ht).symm

def TombstonesKeyed (db : MetaDb) : Prop :=
  db.tombstones.Pairwise fun t t' => ¬ (t.experimentId = t'.experimentId ∧ t.nodeId = t'.nodeId)

theorem TombstonesKeyed.prune (h : db.TombstonesKeyed) (exp : ExperimentId) (i : NodeId)
    (k : Nat) : (db.pruned exp i k).TombstonesKeyed := by
  unfold TombstonesKeyed pruned
  dsimp only
  split
  · exact h
  · next hnone =>
    refine List.pairwise_cons.mpr ⟨?_, h⟩
    rintro t ht ⟨hexp, hid⟩
    refine hnone (List.any_eq_true.mpr ⟨t, ht, decide_eq_true ?_⟩)
    exact ⟨hexp.symm, hid.symm⟩

theorem mem_listTombstones {horizon : Nat} {t : TombstoneRow} :
    t ∈ db.listTombstones horizon ↔
      t ∈ db.tombstones ∧ t.createdAt ≤ min horizon (2 ^ 63 - 1) := by
  rw [listTombstones, List.mem_insertionSort, List.mem_filter, decide_eq_true_eq]

theorem TombstonesKeyed.listTombstones (h : db.TombstonesKeyed) (horizon : Nat) :
    (db.listTombstones horizon).Pairwise fun t t' =>
      ¬ (t.experimentId = t'.experimentId ∧ t.nodeId = t'.nodeId) := by
  refine (List.Perm.pairwise_iff ?_ (List.perm_insertionSort _ _)).mpr (h.filter _)
  exact fun hne heq => hne ⟨heq.1.symm, heq.2.symm⟩

theorem TombstonesKeyed.eq (h : db.TombstonesKeyed) {t t' : TombstoneRow} (ht : t ∈ db.tombstones)
    (ht' : t' ∈ db.tombstones) (hkey : t.experimentId = t'.experimentId ∧ t.nodeId = t'.nodeId) :
    t = t' := by
  have hsymm : Std.Symm fun t t' : TombstoneRow =>
      ¬ (t.experimentId = t'.experimentId ∧ t.nodeId = t'.nodeId) :=
    ⟨fun _ _ hne heq => hne ⟨heq.1.symm, heq.2.symm⟩⟩
  by_contra hne
  exact List.Pairwise.forall h ht ht' hne hkey

/-! ## Tombstoned subtrees are pruned -/

/-- Every node below a tombstoned node is `PRUNED`. -/
def TombstonesPruned (db : MetaDb) : Prop :=
  ∀ t ∈ db.tombstones, db.HasNode t.experimentId t.nodeId →
    ∀ n ∈ db.nodes, db.inSubtree t.experimentId t.nodeId n = true → n.status = .pruned

/-- The command revives no node of a tombstoned subtree and creates no live node under the id of a
tombstone. -/
def KeepsPruned (db : MetaDb) : ActorCmd → Prop
  | .updateNodes exp us => ∀ u ∈ us, ∀ status, u.status = some status → status ≠ .pruned →
      ∀ t ∈ db.tombstones, t.experimentId = exp → db.HasNode exp t.nodeId →
        u.nodeId ∉ db.subtree exp t.nodeId
  | .createNode p => p.status ≠ .pruned → ¬ db.HasNode p.experimentId p.nodeId →
      ∀ t ∈ db.tombstones, ¬ (t.experimentId = p.experimentId ∧ t.nodeId = p.nodeId)
  | _ => True

theorem inSubtree_iff {n : NodeRow} :
    db.inSubtree exp i n = true ↔ n.experimentId = exp ∧ n.nodeId ∈ db.subtree exp i := by
  simp only [inSubtree, decide_eq_true_eq]

theorem TombstonesPruned.update (h : db.TombstonesPruned) {us : List NodeUpdate} {u : NodeUpdate}
    (hu : u ∈ us) (hkeeps : db.KeepsPruned (.updateNodes exp us)) (k : Nat) :
    (applyUpdate exp k db u).TombstonesPruned := by
  have hsame := SameNode.update exp u k
  intro t ht hnode
  refine List.forall_mem_map.mpr fun n hn hin => ?_
  rw [inSubtree_iff, (hsame n).experimentId, (hsame n).nodeId, subtree_map hsame rfl] at hin
  have hnode' := (HasNode.map hsame rfl).mp hnode
  have hpruned := h t ht hnode' n hn (inSubtree_iff.mpr hin)
  split
  · next hkey =>
    cases hstatus : u.status with
    | none => simpa [updatedNode, hstatus] using hpruned
    | some status =>
      simp only [updatedNode, hstatus, Option.getD_some]
      by_contra hne
      have hexp : t.experimentId = exp := hin.1.symm.trans hkey.1
      refine hkeeps u hu status hstatus hne t ht hexp (hexp ▸ hnode') ?_
      rw [← hkey.2, ← hexp]
      exact hin.2
  · exact hpruned

theorem TombstonesPruned.prune (h : db.TombstonesPruned) (exp : ExperimentId) (i : NodeId)
    (k : Nat) : (db.pruned exp i k).TombstonesPruned := by
  have hsame := SameNode.prune db exp i k
  intro t ht hnode
  refine List.forall_mem_map.mpr fun n hn hin => ?_
  rw [inSubtree_iff, (hsame n).experimentId, (hsame n).nodeId, subtree_map hsame rfl] at hin
  have hnode' := (HasNode.map hsame rfl).mp hnode
  split
  · rfl
  · next hout =>
    rcases mem_tombstones_pruned ht with ht | rfl
    · exact h t ht hnode' n hn (inSubtree_iff.mpr hin)
    · exact absurd (inSubtree_iff.mpr hin) hout

theorem TombstonesPruned.reap (h : db.TombstonesPruned) (hg : db.Grown) (exp : ExperimentId)
    (i : NodeId) : (db.reaped exp i).TombstonesPruned := by
  have hg' : (db.reaped exp i).Grown := hg.reap rfl
  rintro t ht ⟨q, hq, hkey⟩ n hn hin
  rw [inSubtree_iff, hg'.mem_subtree] at hin
  refine h t (mem_tombstones_reaped.mp ht).1 ⟨q, List.mem_of_mem_filter hq, hkey⟩ n
    (List.mem_of_mem_filter hn) (inSubtree_iff.mpr ⟨hin.1, hg.mem_subtree.mpr ?_⟩)
  refine ReflTransGen.mono (fun p c hc => ?_) _ _ hin.2
  obtain ⟨n', hn', hlink⟩ := mem_links.mp hc
  exact mem_links.mpr ⟨n', List.mem_of_mem_filter hn', hlink⟩

theorem Grown.mem_subtree_insert (hg : db.Grown) {p : CreateNodeParams} {depth k : Nat}
    (hdepth : db.nodeDepth p = .ok depth) (hnew : db.fetchNode p.experimentId p.nodeId = none)
    (hnodes : db'.nodes = newNode p depth k :: db.nodes) (hj : j ∈ db'.subtree exp i) :
    j ∈ db.subtree exp i ∨ (exp = p.experimentId ∧ j = p.nodeId ∧ ∃ q ∈ db.nodes,
      q.experimentId = exp ∧ q.status ≠ .pruned ∧ q.nodeId ∈ db.subtree exp i) := by
  have hg' := hg.insert hdepth hnew hnodes
  rw [hg'.mem_subtree, Forest.descends_iff_path] at hj
  obtain ⟨d, hpath⟩ := hj
  have hsame : db'.links exp = db.links exp → j ∈ db.subtree exp i := fun heq =>
    hg.mem_subtree.mpr (Forest.descends_iff_path.mpr ⟨d, heq ▸ hpath⟩)
  by_cases hexp : p.experimentId = exp
  · rcases nodeDepth_ok hdepth with ⟨-, hroot, -⟩ | ⟨q, hq, -, hp, hqexp, hstatus, -⟩
    · refine .inl (hsame ?_)
      simp [MetaDb.links, hnodes, newNode, hroot]
    · have hlinks : db'.links exp = (p.nodeId, q.nodeId) :: db.links exp := by
        simp [MetaDb.links, hnodes, newNode, hp, hexp]
      have hgl := hg'.links exp
      rw [hlinks] at hpath hgl
      rcases hpath.cases_cons hgl with hold | ⟨d', -, hj, hparent⟩
      · exact .inl (hg.mem_subtree.mpr (Forest.descends_iff_path.mpr ⟨d, hold⟩))
      · exact .inr ⟨hexp.symm, hj, q, hq, hqexp.trans hexp, hstatus,
          hg.mem_subtree.mpr (Forest.descends_iff_path.mpr ⟨d', hparent⟩)⟩
  · refine .inl (hsame ?_)
    simp [MetaDb.links, hnodes, newNode, hexp]

theorem TombstonesPruned.insert (h : db.TombstonesPruned) (hg : db.Grown) {p : CreateNodeParams}
    {depth k : Nat} (hdepth : db.nodeDepth p = .ok depth)
    (hnew : db.fetchNode p.experimentId p.nodeId = none) (hkeeps : db.KeepsPruned (.createNode p)) :
    ({ db with nodes := newNode p depth k :: db.nodes } : MetaDb).TombstonesPruned := by
  have hnone := fetchNode_eq_none.mp hnew
  intro t ht _
  refine List.forall_mem_cons.mpr ⟨fun hin => ?_, fun n hn hin => ?_⟩
  · -- the new node: below its parent, or under the id of the tombstone
    obtain ⟨hexp, hmem⟩ := inSubtree_iff.mp hin
    rcases hg.mem_subtree_insert hdepth hnew rfl hmem with hold | ⟨-, -, q, hq, hqexp, hlive, hqmem⟩
    · have hid : t.nodeId = p.nodeId := by
        rcases (hg.mem_subtree.mp hold).cases_tail with heq | ⟨b, -, hlink⟩
        · exact heq.symm
        · obtain ⟨n, hn, hnexp, hnid, -⟩ := mem_links.mp hlink
          exact absurd ⟨hnexp.trans hexp.symm, hnid⟩ (hnone n hn)
      by_contra hne
      exact hkeeps hne (fun ⟨n, hn, hkey⟩ => hnone n hn hkey) t ht ⟨hexp.symm, hid⟩
    · have hnode := hg.hasNode_of_mem_subtree ⟨q, hq, hqexp, rfl⟩ hqmem
      exact absurd (h t ht hnode q hq (inSubtree_iff.mpr ⟨hqexp, hqmem⟩)) hlive
  · obtain ⟨hexp, hmem⟩ := inSubtree_iff.mp hin
    rcases hg.mem_subtree_insert hdepth hnew rfl hmem with hold | ⟨hpexp, hid, -⟩
    · have hnode := hg.hasNode_of_mem_subtree ⟨n, hn, hexp, rfl⟩ hold
      exact h t ht hnode n hn (inSubtree_iff.mpr ⟨hexp, hold⟩)
    · exact absurd ⟨hexp.trans hpexp, hid⟩ (hnone n hn)

theorem TombstonesPruned.reapTombstone (h : db.TombstonesPruned) {t : TombstoneRow}
    (ht : t ∈ db.tombstones) : ∃ x, db.reapTombstone t.experimentId t.nodeId = .ok x := by
  unfold MetaDb.reapTombstone
  split
  · exact ⟨_, rfl⟩
  · next row hrow =>
    have hnode := isSome_fetchNode.mp (Option.isSome_of_eq_some hrow)
    have hnil : ((db.nodes.filter (db.inSubtree t.experimentId t.nodeId)).filter fun n =>
        n.status ≠ .pruned) = [] := by
      refine List.filter_eq_nil_iff.mpr fun n hn => ?_
      obtain ⟨hn, hin⟩ := List.mem_filter.mp hn
      simp [h t ht hnode n hn hin]
    simp only [hnil, List.length_nil, Nat.lt_irrefl, if_false]
    exact ⟨_, rfl⟩

/-! ## Moves -/

variable [Primitives] {k : Nat} {cmd : ActorCmd}

theorem TombstonesNamed.move (h : db.TombstonesNamed) (halone : db.ReapsAlone cmd)
    (hm : Move k cmd db db') : db'.TombstonesNamed := by
  cases hm with
  | insertLog row hstamp hid hnew => exact h
  | insertNode p depth hdepth hlog hnew =>
    intro t ht
    obtain ⟨n, hn, hkey⟩ := h t ht
    exact ⟨n, List.mem_cons_of_mem _ hn, hkey⟩
  | updateNode exp us u hu => exact fun t ht => (HasNode.map (.update exp u k) rfl).mpr (h t ht)
  | upsertKv key value expected row hstamp => exact h
  | deleteKv key expected => exact h
  | insertPin r note => exact h
  | unpin r => exact h
  | prune exp id allowRoot hnode =>
    intro t ht
    refine (HasNode.map (.prune db exp id k) rfl).mpr ?_
    rcases mem_tombstones_pruned ht with ht | rfl
    · exact h t ht
    · exact isSome_fetchNode.mp hnode
  | reap exp id hnode hpruned =>
    exact h.reap (halone exp id rfl (isSome_fetchNode.mp hnode) hpruned)
  | setGcState state => exact h

omit [Primitives] in
theorem not_hasNode_reaped : ¬ (db.reaped exp i).HasNode exp i := by
  rintro ⟨n, hn, hexp, hid⟩
  have hout := (List.mem_filter.mp hn).2
  simp only [inSubtree, hexp, hid, self_mem_subtree, and_self, decide_true, Bool.not_true] at hout
  cases hout

theorem ReapsAlone.move (h : db.ReapsAlone cmd) (hm : Move k cmd db db') : db'.ReapsAlone cmd := by
  rintro exp i rfl
  cases hm with
  | @insertLog _ _ row hstamp hid hnew =>
    have hsub : ∀ exp i, ({ db with inputLogs := row :: db.inputLogs } : MetaDb).subtree exp i =
        db.subtree exp i := subtree_congr rfl
    simpa only [inSubtree, HasNode, hsub] using h exp i rfl
  | reap exp id hnode hpruned => exact fun hnode' => absurd hnode' not_hasNode_reaped

omit [Primitives] in
theorem TombstonesNamed.reapTombstone (h : db.TombstonesNamed) (hg : db.Grown)
    (halone : db.ReapsAlone (.reapTombstone exp i)) {n : Nat}
    (hreap : db.reapTombstone exp i = .ok (n, db')) :
    ∀ t ∈ db'.tombstones, ¬ (t.experimentId = exp ∧ t.nodeId ∈ db.subtree exp i) := by
  rintro t ht ⟨rfl, hmem⟩
  rcases reapTombstone_ok hreap with ⟨hnone, rfl⟩ | ⟨hnode, rfl, hpruned⟩
  · have hnode := isSome_fetchNode.mpr (hg.hasNode_of_mem_subtree (h t ht) hmem)
    rw [hnone] at hnode
    cases hnode
  · obtain ⟨ht, hne⟩ := mem_tombstones_reaped.mp ht
    exact hne ⟨rfl, halone _ i rfl (isSome_fetchNode.mp hnode) hpruned t ht rfl hmem⟩

theorem TombstonesPruned.move (h : db.TombstonesPruned) (hg : db.Grown)
    (hkeeps : db.KeepsPruned cmd) (hm : Move k cmd db db') : db'.TombstonesPruned := by
  have hsame : db'.nodes = db.nodes → db'.tombstones = db.tombstones → db'.TombstonesPruned := by
    intro hnodes htomb t ht hnode n hn hin
    rw [inSubtree_iff, subtree_congr hnodes, ← inSubtree_iff] at hin
    refine h t (htomb ▸ ht) ?_ n (hnodes ▸ hn) hin
    rwa [HasNode, hnodes] at hnode
  cases hm with
  | insertLog row hstamp hid hnew => exact hsame rfl rfl
  | insertNode p depth hdepth hlog hnew => exact h.insert hg hdepth hnew hkeeps
  | updateNode exp us u hu => exact h.update hu hkeeps k
  | upsertKv key value expected row hstamp => exact hsame rfl rfl
  | deleteKv key expected => exact hsame rfl rfl
  | insertPin r note => exact hsame rfl rfl
  | unpin r => exact hsame rfl rfl
  | prune exp id allowRoot hnode => exact h.prune exp id k
  | reap exp id hnode hpruned => exact h.reap hg exp id
  | setGcState state => exact hsame rfl rfl

theorem TombstonesKeyed.move (h : db.TombstonesKeyed) (hm : Move k cmd db db') :
    db'.TombstonesKeyed := by
  cases hm with
  | prune exp id allowRoot hnode => exact h.prune exp id k
  | reap exp id hnode hpruned => exact h.filter _
  | _ => exact h

theorem Move.tombstones {t : TombstoneRow} (hm : Move k cmd db db') (ht : t ∈ db.tombstones) :
    t ∈ db'.tombstones ∨ cmd = .reapTombstone t.experimentId t.nodeId := by
  cases hm with
  | prune exp id allowRoot hnode =>
    refine .inl ?_
    unfold pruned
    dsimp only
    split
    · exact ht
    · exact List.mem_cons_of_mem _ ht
  | reap exp id hnode hpruned =>
    by_cases hkey : t.experimentId = exp ∧ t.nodeId = id
    · exact .inr (by rw [hkey.1, hkey.2])
    · exact .inl (mem_tombstones_reaped.mpr ⟨ht, hkey⟩)
  | _ => exact .inl ht

theorem Move.tombstones_new {t : TombstoneRow} (hm : Move k cmd db db')
    (ht : t ∈ db'.tombstones) : t ∈ db.tombstones ∨ t.createdAt = k := by
  cases hm with
  | prune exp id allowRoot hnode =>
    unfold pruned at ht
    dsimp only at ht
    split at ht
    · exact .inl ht
    · rcases List.mem_cons.mp ht with heq | hold
      · exact .inr (by rw [heq])
      · exact .inl hold
  | reap exp id hnode hpruned => exact .inl (List.mem_of_mem_filter ht)
  | _ => exact .inl ht

theorem KeepsPruned.move (h : db.KeepsPruned cmd) (hm : Move k cmd db db') :
    db'.KeepsPruned cmd := by
  cases hm with
  | @insertLog _ _ row hstamp hid hnew =>
    have hsub : ∀ exp i, ({ db with inputLogs := row :: db.inputLogs } : MetaDb).subtree exp i =
        db.subtree exp i := subtree_congr rfl
    cases cmd with
    | updateNodes exp us => simpa only [KeepsPruned, HasNode, hsub] using h
    | createNode p => exact h
    | _ => trivial
  | insertNode p depth hdepth hlog hnew =>
    exact fun _ hnone => absurd ⟨_, List.mem_cons_self, rfl, rfl⟩ hnone
  | updateNode exp us u hu =>
    intro v hv status hstatus hlive t ht hexp hnode
    rw [subtree_map (SameNode.update exp u k) rfl]
    exact h v hv status hstatus hlive t ht hexp ((HasNode.map (SameNode.update exp u k) rfl).mp hnode)
  | _ => trivial

structure Reapable (db : MetaDb) : Prop where
  grown : db.Grown
  keyed : db.TombstonesKeyed
  pruned : db.TombstonesPruned

omit [Primitives] in
theorem Reapable.empty : MetaDb.empty.Reapable :=
  ⟨.empty, .nil, fun _ ht => nomatch ht⟩

omit [Primitives] in
theorem Reapable.withCounter (h : db.Reapable) (k : Nat) : (db.withCounter k).Reapable := by
  refine ⟨h.grown.withCounter k, h.keyed, fun t ht hnode n hn hin => h.pruned t ht hnode n hn ?_⟩
  rwa [inSubtree_withCounter] at hin

theorem Reapable.move (h : db.Reapable) (hkeeps : db.KeepsPruned cmd) (hm : Move k cmd db db') :
    db'.Reapable :=
  ⟨h.grown.move hm, h.keyed.move hm, h.pruned.move h.grown hkeeps hm⟩

theorem Reapable.dispatchCmd {m : Nat} (h : db.Reapable) (hkeeps : db.KeepsPruned cmd) :
    (db.dispatchCmd m cmd k).2.Reapable :=
  (dispatchCmd_induction (P := fun db => db.Reapable ∧ db.KeepsPruned cmd) ⟨h, hkeeps⟩
    fun _ _ hp hm => ⟨hp.1.move hp.2 hm, hp.2.move hm⟩).1

theorem Reapable.after {m : Nat} (h : db.Reapable) (hkeeps : db.KeepsPruned cmd) :
    (db.after m cmd k).Reapable :=
  (after_induction (P := fun db => db.Reapable ∧ db.KeepsPruned cmd) ⟨h, hkeeps⟩
    fun _ _ hp hm => ⟨hp.1.move hp.2 hm, hp.2.move hm⟩).1

end MetaDb

namespace History

open MetaDb

section Named

variable [Primitives]

/-- As long as no reap deletes a subtree with a second tombstone in it: every tombstone names an
existing node, a reap leaves no tombstone in the subtree it deletes, and a node that is created
finds no tombstone under its id. -/
theorem tombstones_named_of_history (m : Nat) (s : History) (h : Reach m ReapsAlone s) :
    s.actor.db.TombstonesNamed ∧ ∀ l i, s.batch = some (l, i) →
      l.tx.current.TombstonesNamed ∧
      (∀ exp i n db', l.tx.current.ReapsAlone (.reapTombstone exp i) →
        l.tx.current.reapTombstone exp i = .ok (n, db') → ∀ t ∈ db'.tombstones,
          ¬ (t.experimentId = exp ∧ t.nodeId ∈ l.tx.current.subtree exp i)) ∧
      ∀ p : CreateNodeParams, l.tx.current.fetchNode p.experimentId p.nodeId = none →
        ∀ t ∈ l.tx.current.tombstones,
          ¬ (t.experimentId = p.experimentId ∧ t.nodeId = p.nodeId) := by
  have hinv := h.invariant (P := TombstonesNamed) (fun t ht => nomatch ht) (fun db k hdb => hdb)
    fun db c k hdb halone => (dispatchCmd_induction (m := m) (k := k)
      (P := fun db => db.TombstonesNamed ∧ db.ReapsAlone c) ⟨hdb, halone⟩
      fun _ _ hp hm => ⟨hp.1.move hp.2 hm, hp.2.move hm⟩).1
  refine ⟨hinv.1, fun l i hb => ?_⟩
  have hnamed := hinv.2 l i hb
  refine ⟨hnamed, fun exp i n db' halone hreap => ?_, ?_⟩
  · exact hnamed.reapTombstone (h.grown.2 l _ hb) halone hreap
  · rintro p hnone t ht ⟨hexp, hid⟩
    have hnode := isSome_fetchNode.mpr (hnamed t ht)
    rw [hexp, hid, hnone] at hnode
    cases hnode

end Named

section Sample

attribute [local instance] Sample.primitives

def Sample.root : CreateNodeParams :=
  ⟨"e", 0, none, Sample.ref, none, none, .expanded, none, 0, 0, none⟩

def Sample.child (i parent : NodeId) : CreateNodeParams :=
  ⟨"e", i, some parent, Sample.ref, none, none, .frontier, none, 0, 0, none⟩

/-- Nodes 1 and 2 below the root are pruned one after the other, and node 1 is reaped. -/
def Sample.reapedOnce : List ActorCmd :=
  [.createNode Sample.root, .createNode (Sample.child 1 0), .createNode (Sample.child 2 1),
    .pruneSubtree "e" 2 false, .pruneSubtree "e" 1 false, .reapTombstone "e" 1]

/-- The tombstone of node 2 stays when node 2 is deleted with node 1, and a new node 2 inherits
it. -/
theorem tombstone_left_behind :
    ∃ s, Reach 100 (fun _ _ => True) s ∧
      (∃ t ∈ s.actor.db.tombstones, ¬ s.actor.db.HasNode t.experimentId t.nodeId) ∧
      ∃ t ∈ (s.actor.db.after 100 (.createNode (Sample.child 2 0)) 9).tombstones,
        (s.actor.db.after 100 (.createNode (Sample.child 2 0)) 9).HasNode t.experimentId t.nodeId ∧
          t.createdAt < 9 := by
  obtain ⟨s, hs, -, hactor⟩ := Reach.executeBatch (m := 100) .initial rfl .good Sample.reapedOnce
  refine ⟨s, hs, ?_, ?_⟩ <;> rw [hactor] <;> decide +kernel

theorem tombstones_named_of_prune :
    ∃ db : MetaDb, db.tombstones = [⟨"e", 1, 3⟩] ∧ db.TombstonesNamed ∧
      ∃ n db', db.reapTombstone "e" 1 = .ok (n, db') ∧ ∀ t ∈ db'.tombstones,
        ¬ (t.experimentId = "e" ∧ t.nodeId ∈ db.subtree "e" 1) := by
  have hbegun : Reach 100 ReapsAlone _ := .step .initial (.begin rfl)
  have hroot := Reach.step hbegun (.command rfl .good (.createNode Sample.root) rfl nofun)
  have hchild := Reach.step hroot (.command rfl .good (.createNode (Sample.child 1 0)) rfl nofun)
  have hpruned := Reach.step hchild (.command rfl .good (.pruneSubtree "e" 1 false) rfl nofun)
  obtain ⟨hnamed, hreap, -⟩ := (tombstones_named_of_history 100 _ hpruned).2 _ _ rfl
  refine ⟨_, by decide +kernel, hnamed, _, _, rfl, hreap _ _ _ _ ?_ rfl⟩
  rintro exp i ⟨⟩ - - t ht - -
  obtain rfl : t = ⟨"e", 1, 3⟩ := List.mem_singleton.mp ht
  rfl

end Sample

end History

end SnapStore
