import SnapStore.Meta.Tombstones

/-!
# What a reap deletes

The node rows are deleted by subtree, the input logs by a query over all nodes.  So a reap takes
with it every log that no node refers to, also one that was uploaded and is not attached yet.
-/

namespace SnapStore

open Disk Relation

namespace MetaDb

variable {db db' : MetaDb} {exp : ExperimentId} {id : NodeId}

def Below (db : MetaDb) (exp : ExperimentId) (id : NodeId) (n : NodeRow) : Prop :=
  n.experimentId = exp ∧ Forest.Descends (db.links exp) id n.nodeId

def LogsAttached (db : MetaDb) : Prop :=
  ∀ l ∈ db.inputLogs, ∃ n ∈ db.nodes, n.inputLogId = some l.logId

instance : Decidable db.LogsAttached :=
  inferInstanceAs (Decidable (∀ l ∈ db.inputLogs, ∃ n ∈ db.nodes, n.inputLogId = some l.logId))

/-- Of the nodes only the subtree is deleted, of the tombstones only that of its root, and of the
pins and the key-value rows nothing. -/
structure OnlySubtree (db db' : MetaDb) (exp : ExperimentId) (id : NodeId) : Prop where
  nodes : db'.nodes.Sublist db.nodes ∧ ∀ n ∈ db.nodes, n ∉ db'.nodes ↔ db.Below exp id n
  pins : db'.pins = db.pins
  kvMetadata : db'.kvMetadata = db.kvMetadata
  tombstones : db'.tombstones.Sublist db.tombstones ∧ ∀ t ∈ db.tombstones,
    t ∉ db'.tombstones → t.experimentId = exp ∧ t.nodeId = id

/-- A log is deleted only if the subtree refers to it and no surviving node does. -/
def OnlyItsLogs (db db' : MetaDb) (exp : ExperimentId) (id : NodeId) : Prop :=
  db'.inputLogs.Sublist db.inputLogs ∧ ∀ l ∈ db.inputLogs, l ∉ db'.inputLogs →
    (∃ n ∈ db.nodes, db.Below exp id n ∧ n.inputLogId = some l.logId) ∧
      ∀ n ∈ db'.nodes, n.inputLogId ≠ some l.logId

theorem Grown.inSubtree_iff_below (h : db.Grown) {n : NodeRow} :
    db.inSubtree exp id n = true ↔ db.Below exp id n := by
  rw [inSubtree_iff, h.mem_subtree, Below]

theorem Grown.not_below (h : db.Grown) (hid : db.fetchNode exp id = none) {n : NodeRow}
    (hn : n ∈ db.nodes) : ¬ db.Below exp id n := by
  intro ⟨hexp, hbelow⟩
  have hnode : db.HasNode exp id := h.hasNode_of_mem_subtree ⟨n, hn, hexp, rfl⟩ (h.mem_subtree.mpr hbelow)
  rw [← isSome_fetchNode, hid] at hnode
  cases hnode

theorem mem_survivors (h : db.Grown) {n : NodeRow} :
    n ∈ db.survivors exp id ↔ n ∈ db.nodes ∧ ¬ db.Below exp id n := by
  rw [survivors, List.mem_filter, ← h.inSubtree_iff_below, Bool.not_eq_true', Bool.not_eq_true]

theorem mem_inputLogs_reaped {l : InputLogRow} : l ∈ (db.reaped exp id).inputLogs ↔
    l ∈ db.inputLogs ∧ ∃ n ∈ db.survivors exp id, n.inputLogId = some l.logId := by
  simp [reaped]

theorem onlySubtree_of_missing (h : db.Grown) (hid : db.fetchNode exp id = none) :
    OnlySubtree db db exp id := by
  refine ⟨⟨List.Sublist.refl _, fun n hn => ?_⟩, rfl, rfl, List.Sublist.refl _, ?_⟩
  · constructor
    · intro hnot
      exact absurd hn hnot
    · intro hbelow
      exact absurd hbelow (h.not_below hid hn)
  · intro t ht hnot
    exact absurd ht hnot

theorem onlySubtree_reaped (h : db.Grown) : OnlySubtree db (db.reaped exp id) exp id := by
  refine ⟨⟨List.filter_sublist, fun n hn => ?_⟩, rfl, rfl, List.filter_sublist, ?_⟩
  · show n ∉ db.survivors exp id ↔ _
    rw [mem_survivors h]
    simp [hn]
  · intro t ht hnot
    by_contra hother
    exact hnot (mem_tombstones_reaped.mpr ⟨ht, hother⟩)

theorem onlyItsLogs_reaped_iff (h : db.Grown) :
    OnlyItsLogs db (db.reaped exp id) exp id ↔ db.LogsAttached := by
  constructor
  · intro ⟨_, honly⟩ l hl
    by_cases hkept : l ∈ (db.reaped exp id).inputLogs
    · obtain ⟨-, n, hn, hlog⟩ := mem_inputLogs_reaped.mp hkept
      exact ⟨n, ((mem_survivors h).mp hn).1, hlog⟩
    · obtain ⟨⟨n, hn, -, hlog⟩, -⟩ := honly l hl hkept
      exact ⟨n, hn, hlog⟩
  · intro hattached
    refine ⟨List.filter_sublist, fun l hl hnot => ?_⟩
    have hlost : ∀ n ∈ db.survivors exp id, n.inputLogId ≠ some l.logId := fun n hn hlog =>
      hnot (mem_inputLogs_reaped.mpr ⟨hl, n, hn, hlog⟩)
    -- the node the log is attached to did not survive
    obtain ⟨n, hn, hlog⟩ := hattached l hl
    refine ⟨⟨n, hn, ?_, hlog⟩, hlost⟩
    by_contra hbelow
    exact hlost n ((mem_survivors h).mpr ⟨hn, hbelow⟩) hlog

end MetaDb

namespace History

open MetaDb

section

variable [Primitives]

theorem Reach.grown_contents {m : Nat} {ok : MetaDb → ActorCmd → Prop} {s : History}
    (h : Reach m ok s) : s.contents.Grown := by
  unfold contents
  split
  · next l i hb => exact h.grown.2 l i hb
  · exact h.grown.1

/-- A reap that succeeds deletes the rows of the subtree it is asked for and no others.  It deletes
only logs of the subtree exactly if the subtree is gone already or every stored log is attached to
a node. -/
theorem reap_touches_only_subtree (m : Nat) (s : History) (h : Reach m (fun _ _ => True) s)
    (exp : ExperimentId) (id : NodeId) (k : Nat) (db' : MetaDb)
    (hreap : s.contents.reapTombstone exp id = .ok (k, db')) :
    OnlySubtree s.contents db' exp id ∧
      (OnlyItsLogs s.contents db' exp id ↔
        (s.contents.fetchNode exp id = none ∨ s.contents.LogsAttached)) := by
  have hgrown := h.grown_contents
  rcases reapTombstone_ok hreap with ⟨hnone, rfl⟩ | ⟨hsome, rfl, -⟩
  · refine ⟨onlySubtree_of_missing hgrown hnone, fun _ => .inl hnone, fun _ => ?_⟩
    exact ⟨List.Sublist.refl _, fun l hl hnot => absurd hl hnot⟩
  · refine ⟨onlySubtree_reaped hgrown, ?_⟩
    rw [onlyItsLogs_reaped_iff hgrown]
    refine ⟨.inr, fun hor => hor.elim (fun hnone => ?_) fun hattached => hattached⟩
    rw [hnone] at hsome
    cases hsome

end

section Sample

attribute [local instance] Sample.primitives

def Sample.log : Bytes := List.replicate 60 1

def Sample.logId : LogId := blake3 (Sample.log.take 28)

def Sample.uploaded : List ActorCmd :=
  [.createNode Sample.root, .createNode (Sample.child 1 0), .putInputLog Sample.logId Sample.log,
    .pruneSubtree "e" 1 false]

theorem Sample.contents_after (batch : List ActorCmd) : ∃ s, Reach 100 (fun _ _ => True) s ∧
    s.contents = (executeBatch 100 .good History.initial.actor batch).1.db := by
  obtain ⟨s, hs, hbatch, hactor⟩ := Reach.executeBatch (m := 100) .initial rfl .good batch
  exact ⟨s, hs, by rw [contents, hbatch, hactor]⟩

/-- The log that waits for its node is deleted with another subtree. -/
theorem uploaded_log_is_reaped : ∃ s, Reach 100 (fun _ _ => True) s ∧
    ∃ k db', s.contents.reapTombstone "e" 1 = .ok (k, db') ∧
      ∃ l ∈ s.contents.inputLogs, l ∉ db'.inputLogs ∧
        ∀ n ∈ s.contents.nodes, n.inputLogId ≠ some l.logId := by
  obtain ⟨s, hs, hcontents⟩ := Sample.contents_after Sample.uploaded
  refine ⟨s, hs, 1, s.contents.reaped "e" 1, ?_, ?_⟩ <;>
  · rw [hcontents]
    decide +kernel

def Sample.attached : List ActorCmd :=
  [.createNode Sample.root,
    .createNode { Sample.child 1 0 with
      inputLogId := some Sample.logId, inlineLogContainer := some Sample.log },
    .pruneSubtree "e" 1 false]

theorem reap_touches_only_subtree_one : ∃ s db', Reach 100 (fun _ _ => True) s ∧
    s.contents.reapTombstone "e" 1 = .ok (1, db') ∧ s.contents.LogsAttached ∧
    s.contents.inputLogs.length = 1 ∧ db'.inputLogs = [] ∧ OnlySubtree s.contents db' "e" 1 ∧
    OnlyItsLogs s.contents db' "e" 1 := by
  obtain ⟨s, hs, hcontents⟩ := Sample.contents_after Sample.attached
  have hattached : s.contents.LogsAttached := by
    rw [hcontents]
    decide +kernel
  have hreap : s.contents.reapTombstone "e" 1 = .ok (1, s.contents.reaped "e" 1) := by
    rw [hcontents]
    decide +kernel
  obtain ⟨honly, hlogs⟩ := reap_touches_only_subtree 100 s hs "e" 1 1 _ hreap
  refine ⟨s, _, hs, hreap, hattached, ?_, ?_, honly, hlogs.mpr (.inr hattached)⟩ <;>
  · rw [hcontents]
    decide +kernel

end Sample

end History

end SnapStore
