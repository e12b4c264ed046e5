import SnapStore.Meta.ReapScope

/-!
# A repeated `create_node`

The parent is checked before the conflict is seen.  So a request that succeeded is refused when it is
sent again after the parent was pruned, although its row is still there.
-/

namespace SnapStore

open Disk Relation

namespace MetaDb

variable {db db' : MetaDb} {base : List NodeRow} {n n' row : NodeRow} {p : CreateNodeParams}

structure SameCreation (n n' : NodeRow) : Prop where
  experimentId : n'.experimentId = n.experimentId
  nodeId : n'.nodeId = n.nodeId
  createdAt : n'.createdAt = n.createdAt

instance : Decidable (SameCreation n n') :=
  decidable_of_iff (n'.experimentId = n.experimentId ∧ n'.nodeId = n.nodeId ∧
    n'.createdAt = n.createdAt) ⟨fun h => ⟨h.1, h.2.1, h.2.2⟩, fun h => ⟨h.1, h.2, h.3⟩⟩

structure SameRow (n n' : NodeRow) : Prop extends SameCreation n n' where
  parentNodeId : n'.parentNodeId = n.parentNodeId
  snapshotRef : n'.snapshotRef = n.snapshotRef
  inputLogId : n'.inputLogId = n.inputLogId

def Holds (db : MetaDb) (row : NodeRow) : Prop := ∃ n ∈ db.nodes, SameCreation row n

instance : Decidable (db.Holds row) :=
  inferInstanceAs (Decidable (∃ n ∈ db.nodes, SameCreation row n))

structure Requested (p : CreateNodeParams) (n : NodeRow) : Prop where
  experimentId : n.experimentId = p.experimentId
  nodeId : n.nodeId = p.nodeId
  parentNodeId : n.parentNodeId = p.parentNodeId
  snapshotRef : n.snapshotRef = p.snapshotRef
  inputLogId : n.inputLogId = p.inputLogId

def ParentOpen (db : MetaDb) (p : CreateNodeParams) : Prop :=
  ∀ q ∈ db.nodes, q.experimentId = p.experimentId → p.parentNodeId = some q.nodeId →
    q.status ≠ .pruned

instance : Decidable (db.ParentOpen p) :=
  inferInstanceAs (Decidable (∀ q ∈ db.nodes, q.experimentId = p.experimentId →
    p.parentNodeId = some q.nodeId → q.status ≠ .pruned))

theorem SameCreation.symm (h : SameCreation n n') : SameCreation n' n :=
  ⟨h.experimentId.symm, h.nodeId.symm, h.createdAt.symm⟩

theorem SameCreation.trans {n'' : NodeRow} (h : SameCreation n n') (h' : SameCreation n' n'') :
    SameCreation n n'' :=
  ⟨h'.experimentId.trans h.experimentId, h'.nodeId.trans h.nodeId, h'.createdAt.trans h.createdAt⟩

theorem SameRow.refl (n : NodeRow) : SameRow n n := ⟨⟨rfl, rfl, rfl⟩, rfl, rfl, rfl⟩

theorem SameRow.symm (h : SameRow n n') : SameRow n' n :=
  ⟨h.toSameCreation.symm, h.parentNodeId.symm, h.snapshotRef.symm, h.inputLogId.symm⟩

theorem SameRow.trans {n'' : NodeRow} (h : SameRow n n') (h' : SameRow n' n'') : SameRow n n'' :=
  ⟨h.toSameCreation.trans h'.toSameCreation, h'.parentNodeId.trans h.parentNodeId,
    h'.snapshotRef.trans h.snapshotRef, h'.inputLogId.trans h.inputLogId⟩

theorem Requested.of_sameRow (h : Requested p row) (hs : SameRow row n) : Requested p n :=
  ⟨hs.experimentId.trans h.experimentId, hs.nodeId.trans h.nodeId,
    hs.parentNodeId.trans h.parentNodeId, hs.snapshotRef.trans h.snapshotRef,
    hs.inputLogId.trans h.inputLogId⟩

/-- The rows of `db` that were created as one of `base` agree with it. -/
def Agrees (base : List NodeRow) (db : MetaDb) : Prop :=
  ∀ b ∈ base, ∀ n ∈ db.nodes, SameCreation b n → SameRow b n

theorem Grown.agrees (h : db.Grown) : Agrees db.nodes db := by
  intro b hb n hn hs
  rw [h.eq_of_key hn hb hs.experimentId hs.nodeId]
  exact .refl b

theorem Agrees.congr (h : Agrees base db) (hnodes : db'.nodes = db.nodes) : Agrees base db' := by
  rw [Agrees, hnodes]
  exact h

/-! ## Changes of the tables -/

section

variable [Primitives] {m k : Nat} {cmd : ActorCmd}

theorem Move.origin (hm : Move k cmd db db') (hn : n' ∈ db'.nodes) :
    n'.createdAt = k ∨ ∃ n ∈ db.nodes, SameRow n n' := by
  cases hm with
  | insertNode p depth hdepth hlog hnew =>
    rcases List.mem_cons.mp hn with rfl | hn
    · exact .inl rfl
    · exact .inr ⟨n', hn, .refl n'⟩
  | updateNode exp us u hu =>
    obtain ⟨n, hmem, rfl⟩ := List.mem_map.mp hn
    refine .inr ⟨n, hmem, ?_⟩
    split
    · exact ⟨⟨rfl, rfl, rfl⟩, rfl, rfl, rfl⟩
    · exact .refl n
  | prune exp id allowRoot hnode =>
    obtain ⟨n, hmem, rfl⟩ := List.mem_map.mp hn
    refine .inr ⟨n, hmem, ?_⟩
    split
    · exact ⟨⟨rfl, rfl, rfl⟩, rfl, rfl, rfl⟩
    · exact .refl n
  | reap exp id hnode hpruned => exact .inr ⟨n', List.mem_of_mem_filter hn, .refl n'⟩
  | _ => exact .inr ⟨n', hn, .refl n'⟩

theorem Agrees.move (h : Agrees base db) (hbase : ∀ b ∈ base, b.createdAt < k)
    (hm : Move k cmd db db') : Agrees base db' := by
  intro b hb n' hn' hs
  rcases hm.origin hn' with hk | ⟨n, hn, hsame⟩
  · have hlt := hbase b hb
    rw [← hk, hs.createdAt] at hlt
    exact absurd hlt (Nat.lt_irrefl _)
  · exact (h b hb n hn (hs.trans hsame.toSameCreation.symm)).trans hsame

theorem Agrees.dispatchCmd (h : Agrees base db) (hbase : ∀ b ∈ base, b.createdAt < k) :
    Agrees base (db.dispatchCmd m cmd k).2 :=
  dispatchCmd_induction (P := Agrees base) h fun _ _ hp hm => hp.move hbase hm

theorem createNodeImpl_ok (h : db.createNodeImpl p m k = (.ok (.nodeRow row), db')) :
    row ∈ db'.nodes ∧ Requested p row := by
  unfold createNodeImpl at h
  split at h
  · cases h
  · split at h
    · cases h
    · split at h
      · next existing hfetch =>
        split at h
        · next hsame =>
          cases h
          obtain ⟨hmem, hexp, hid⟩ := mem_of_fetchNode hfetch
          exact ⟨hmem, hexp, hid, hsame.1, hsame.2.1, hsame.2.2⟩
        · cases h
      · cases h
        exact ⟨List.mem_cons_self, rfl, rfl, rfl, rfl, rfl⟩

omit [Primitives] in
theorem Grown.nodeDepth_requested (h : db.Grown) (hn : n ∈ db.nodes) (hp : Requested p n) :
    (∃ depth, db.nodeDepth p = .ok depth) ↔ db.ParentOpen p := by
  have hroot := h.root n hn
  rw [hp.nodeId, hp.parentNodeId] at hroot
  constructor
  · intro ⟨depth, hdepth⟩ q hq hexp hparent
    rcases nodeDepth_ok hdepth with ⟨-, hnone, -⟩ | ⟨q', hq', -, hparent', hexp', hopen, -⟩
    · rw [hnone] at hparent
      cases hparent
    · rw [hparent, Option.some.injEq] at hparent'
      rw [h.eq_of_key hq hq' (hexp.trans hexp'.symm) hparent']
      exact hopen
  · intro hopen
    unfold nodeDepth
    cases hpar : p.parentNodeId with
    | none =>
      rw [hpar] at hroot
      simp [hroot.mpr rfl]
    | some i =>
      rw [hpar] at hroot
      have hid : p.nodeId ≠ 0 := fun h0 => nomatch hroot.mp h0
      obtain ⟨q, hq, hexp, hqid⟩ := h.parent n hn i (hp.parentNodeId.trans hpar)
      rw [hp.experimentId] at hexp
      have hstatus := hopen q hq hexp (by rw [hpar, hqid])
      have hfetch : db.fetchNode p.experimentId i = some q := by
        rw [← hexp, ← hqid]
        exact h.fetchNode hq
      simp [hid, hfetch, hstatus]

theorem LogsStored.ensureInputLog_requested (h : db.LogsStored) (hn : n ∈ db.nodes)
    (hp : Requested p n) : db.ensureInputLog p m k = .ok db := by
  unfold ensureInputLog
  split
  · rfl
  · next logId hlog =>
    obtain ⟨l, hl, hid⟩ := h.stored n hn logId (hp.inputLogId.trans hlog)
    rw [if_pos (List.any_eq_true.mpr ⟨l, hl, decide_eq_true hid⟩)]

theorem createNodeImpl_requested (hg : db.Grown) (hl : db.LogsStored) (hn : n ∈ db.nodes)
    (hp : Requested p n) :
    db.createNodeImpl p m k = (.ok (.nodeRow n), db) ↔ db.ParentOpen p := by
  rw [← hg.nodeDepth_requested hn hp]
  have hfetch : db.fetchNode p.experimentId p.nodeId = some n := by
    rw [← hp.experimentId, ← hp.nodeId]
    exact hg.fetchNode hn
  unfold createNodeImpl
  cases hdepth : db.nodeDepth p with
  | error e => simp
  | ok depth =>
    simp [hl.ensureInputLog_requested hn hp, hfetch, hp.parentNodeId, hp.snapshotRef, hp.inputLogId]

end

end MetaDb

namespace History

open MetaDb

section

variable {s s' : History} {row : NodeRow}

theorem contents_of_batch {l : BatchLoop} {i : Nat} (h : s.batch = some (l, i)) :
    s.contents = l.tx.current := by
  rw [contents, h]

theorem contents_of_idle (h : s.batch = none) : s.contents = s.actor.db := by
  rw [contents, h]

theorem nodes_flushed (l : BatchLoop) : l.flushed.nodes = l.tx.current.nodes := by
  unfold BatchLoop.flushed
  split <;> rfl

variable [Primitives] {m : Nat}

inductive Keeps (m : Nat) (row : NodeRow) : History → History → Prop where
  | refl (s : History) : Keeps m row s s
  | step {s s' s'' : History} (h : Keeps m row s s') (hs : Step m (fun _ _ => True) s' s'')
      (hrow : s''.contents.Holds row) : Keeps m row s s''

theorem Reach.keeps (h : Reach m (fun _ _ => True) s) (hk : Keeps m row s s') :
    Reach m (fun _ _ => True) s' := by
  induction hk with
  | refl => exact h
  | step _ hs _ ih => exact .step ih hs

theorem Reach.agrees {ok : MetaDb → ActorCmd → Prop} (h : Reach m ok s) {l : BatchLoop} {i : Nat}
    (hb : s.batch = some (l, i)) : Agrees s.actor.db.nodes l.tx.current := by
  induction h generalizing l i with
  | initial => cases hb
  | @step s s' hr hs ih =>
    cases hs with
    | begin hidle =>
      cases hb
      exact hr.grown.1.agrees
    | @command l i hb' o c hsp hok =>
      cases hb
      have hstamped := hr.stamped
      have hahead := hstamped.batch l i hb'
      have hbase : ∀ b ∈ s.actor.db.nodes, b.createdAt < l.counter := fun b hmem =>
        ((hstamped.stored.nodes b hmem).1.trans_le hstamped.persisted).trans_le hahead.counter
      rw [current_execCmd, if_pos hsp]
      split
      · exact (ih hb').dispatchCmd hbase
      · exact ih hb'
    | @skipped l i hb' o c hsp =>
      cases hb
      rw [current_execCmd, hsp]
      exact ih hb'
    | commit hb' => cases hb
    | commitFailed hb' => cases hb
    | reopen => cases hb

theorem agrees_actor (h : Reach m (fun _ _ => True) s) (hrow : s.contents.Holds row)
    (hagrees : Agrees [row] s.contents) : Agrees [row] s.actor.db := by
  cases hb : s.batch with
  | none =>
    rw [contents_of_idle hb] at hagrees
    exact hagrees
  | some li =>
    obtain ⟨l, i⟩ := li
    rw [contents_of_batch hb] at hrow hagrees
    obtain ⟨n, hn, hcreated⟩ := hrow
    intro b hmem n₀ hn₀ hs
    have hb₀ := List.mem_singleton.mp hmem
    subst hb₀
    have hsame := h.agrees hb n₀ hn₀ n hn (hs.symm.trans hcreated)
    exact (hagrees b hmem n hn hcreated).trans hsame.symm

theorem agrees_step (h : Reach m (fun _ _ => True) s) (hrow : s.contents.Holds row)
    (hagrees : Agrees [row] s.contents) (hs : Step m (fun _ _ => True) s s') :
    Agrees [row] s'.contents := by
  cases hs with
  | begin hidle =>
    rw [contents_of_idle hidle] at hagrees
    exact hagrees
  | @command l i hb o c hsp hok =>
    rw [contents_of_batch hb] at hrow hagrees
    obtain ⟨n, hn, hcreated⟩ := hrow
    have hbase : ∀ b ∈ [row], b.createdAt < l.counter := by
      intro b hmem
      rw [List.mem_singleton.mp hmem, ← hcreated.createdAt]
      exact ((h.stamped.batch l i hb).stored.nodes n hn).1
    show Agrees [row] (execCmd m o l (c, i)).tx.current
    rw [current_execCmd, if_pos hsp]
    split
    · exact hagrees.dispatchCmd hbase
    · exact hagrees
  | @skipped l i hb o c hsp =>
    rw [contents_of_batch hb] at hagrees
    show Agrees [row] (execCmd m o l (c, i)).tx.current
    rw [current_execCmd, hsp]
    exact hagrees
  | @commit l i hb =>
    rw [contents_of_batch hb] at hagrees
    exact hagrees.congr (nodes_flushed l)
  | commitFailed hb =>
    have hactor := agrees_actor h hrow hagrees
    exact hactor
  | reopen =>
    have hactor := agrees_actor h hrow hagrees
    exact hactor

theorem Keeps.agrees (h : Reach m (fun _ _ => True) s) (hrow : s.contents.Holds row)
    (hagrees : Agrees [row] s.contents) (hk : Keeps m row s s') :
    s'.contents.Holds row ∧ Agrees [row] s'.contents := by
  induction hk with
  | refl => exact ⟨hrow, hagrees⟩
  | step hk hs hrow' ih => exact ⟨hrow', agrees_step (h.keeps hk) ih.1 ih.2 hs⟩

theorem Reach.logsStored_contents (h : Reach m (fun _ _ => True) s) : s.contents.LogsStored := by
  have hinv := h.invariant (P := LogsStored) .empty (fun _ _ hdb => ⟨hdb.valid, hdb.stored⟩)
    fun db c k hdb _ => dispatchCmd_induction (P := LogsStored) hdb fun _ _ hl => hl.move
  unfold contents
  split
  · next l i hb => exact hinv.2 l i hb
  · exact hinv.1

end

section Sample

attribute [local instance] Sample.primitives

end Sample

end History

end SnapStore
