import SnapStore.Meta.History
import SnapStore.Paging

/-!
# Queries of the read pool

`query_nodes` with its filters and its page limit, and the list of experiments.  The integer
columns are signed, so a `u64` of a filter is compared after a cast.
-/

namespace SnapStore

def asI64 (v : Nat) : Int := (BitVec.ofNat 64 v).toInt

theorem asI64_inj {v w : Nat} (hv : v < 2 ^ 64) (hw : w < 2 ^ 64) (h : asI64 v = asI64 w) :
    v = w := by
  have hbits := congrArg BitVec.toNat (BitVec.eq_of_toInt_eq h)
  rwa [BitVec.toNat_ofNat, BitVec.toNat_ofNat, Nat.mod_eq_of_lt hv, Nat.mod_eq_of_lt hw] at hbits

theorem asI64_of_lt {v : Nat} (hv : v < 2 ^ 63) : asI64 v = v := by
  have hbound : 2 * v < 2 ^ 64 := by omega
  rw [asI64, BitVec.toInt_eq_toNat_of_lt, BitVec.toNat_ofNat, Nat.mod_eq_of_lt (by omega)]
  rwa [BitVec.toNat_ofNat, Nat.mod_eq_of_lt (by omega)]

theorem asI64_lt_iff {v w : Nat} (hv : v < 2 ^ 63) (hw : w < 2 ^ 63) :
    asI64 v < asI64 w ↔ v < w := by
  rw [asI64_of_lt hv, asI64_of_lt hw, Int.ofNat_lt]

theorem asI64_le_iff {v w : Nat} (hv : v < 2 ^ 63) (hw : w < 2 ^ 63) :
    asI64 v ≤ asI64 w ↔ v ≤ w := by
  rw [asI64_of_lt hv, asI64_of_lt hw, Int.ofNat_le]

inductive QueryOrder where
  | createdAt
  | updatedAt
  | nodeId

def QueryOrder.key : QueryOrder → NodeRow → Int
  | .createdAt, n => asI64 n.createdAt
  | .updatedAt, n => asI64 n.updatedAt
  | .nodeId, n => asI64 n.nodeId

structure QueryFilter where
  experimentId : ExperimentId
  status : Option NodeStatus
  parentNodeId : Option NodeId
  minDepth : Option Nat
  maxDepth : Option Nat
  order : QueryOrder
  createdAfter : Option Nat
  updatedAfter : Option Nat
  limit : Option Nat

namespace QueryFilter

def new (exp : ExperimentId) : QueryFilter :=
  ⟨exp, none, none, none, none, .createdAt, none, none, none⟩

def effectiveLimit (f : QueryFilter) : Nat := min (f.limit.getD 512) 4096

def selects (f : QueryFilter) (n : NodeRow) : Bool :=
  n.experimentId = f.experimentId ∧
  (f.status.all fun s => n.status = s) ∧
  (f.parentNodeId.all fun p => n.parentNodeId.any fun q => asI64 q = asI64 p) ∧
  (f.minDepth.all fun d => d ≤ n.depth) ∧
  (f.maxDepth.all fun d => n.depth ≤ d) ∧
  (f.createdAfter.all fun v => asI64 v < asI64 n.createdAt) ∧
  (f.updatedAfter.all fun v => asI64 v < asI64 n.updatedAt)

end QueryFilter

namespace MetaDb

def queryNodes (db : MetaDb) (f : QueryFilter) : List NodeRow :=
  Paging.page f.order.key f.effectiveLimit (db.nodes.filter f.selects)

def listExperiments (db : MetaDb) : List ExperimentId :=
  (db.nodes.map (·.experimentId)).dedup.insertionSort (· ≤ ·)

theorem mem_listExperiments {db : MetaDb} {exp : ExperimentId} :
    exp ∈ db.listExperiments ↔ ∃ n ∈ db.nodes, n.experimentId = exp := by
  rw [listExperiments, List.mem_insertionSort, List.mem_dedup, List.mem_map]

/-! ## Creation stamps -/

def CreatedOnce (db : MetaDb) : Prop :=
  ∀ n ∈ db.nodes, ∀ n' ∈ db.nodes, n.createdAt = n'.createdAt → n = n'

variable {db db' : MetaDb}

theorem CreatedOnce.map (h : db.CreatedOnce) {f : NodeRow → NodeRow}
    (hf : ∀ n, (f n).createdAt = n.createdAt) (hnodes : db'.nodes = db.nodes.map f) :
    db'.CreatedOnce := by
  intro n hn n' hn' heq
  rw [hnodes] at hn hn'
  obtain ⟨a, ha, rfl⟩ := List.mem_map.mp hn
  obtain ⟨b, hb, rfl⟩ := List.mem_map.mp hn'
  rw [hf, hf] at heq
  rw [h a ha b hb heq]

variable [Primitives] {cmd : ActorCmd} {k m : Nat}

def FreshFor (cmd : ActorCmd) (k : Nat) (db : MetaDb) : Prop :=
  ∀ p, cmd = .createNode p →
    (∀ n ∈ db.nodes, n.createdAt < k) ∨ (db.fetchNode p.experimentId p.nodeId).isSome

theorem FreshFor.move (h : db.FreshFor cmd k) (hm : Move k cmd db db') : db'.FreshFor cmd k := by
  intro p hp
  subst hp
  cases hm with
  | insertLog row hstamp hid hnew => exact h p rfl
  | insertNode p depth hdepth hlog hnew =>
    refine .inr ?_
    simp [fetchNode, newNode]

theorem CreatedOnce.move (h : db.CreatedOnce) (hfresh : db.FreshFor cmd k)
    (hm : Move k cmd db db') : db'.CreatedOnce := by
  cases hm with
  | insertNode p depth hdepth hlog hnew =>
    have hbelow : ∀ n ∈ db.nodes, n.createdAt < k := by
      rcases hfresh p rfl with hlt | hsome
      · exact hlt
      · rw [hnew] at hsome
        cases hsome
    intro n hn n' hn' heq
    rcases List.mem_cons.mp hn with rfl | hn
    · rcases List.mem_cons.mp hn' with rfl | hn'
      · rfl
      · exact absurd heq (hbelow n' hn').ne'
    · rcases List.mem_cons.mp hn' with rfl | hn'
      · exact absurd heq (hbelow n hn).ne
      · exact h n hn n' hn' heq
  | updateNode exp us u hu =>
    refine h.map (fun n => ?_) rfl
    split <;> rfl
  | prune exp id allowRoot hnode =>
    refine h.map (fun n => ?_) rfl
    split <;> rfl
  | reap exp id hnode hpruned =>
    exact fun n hn n' hn' =>
      h n (List.mem_filter.mp hn).1 n' (List.mem_filter.mp hn').1
  | _ => exact h

theorem CreatedOnce.dispatchCmd (h : db.CreatedOnce) (hk : db.StampsBelow k) :
    (db.dispatchCmd m cmd k).2.CreatedOnce := by
  have hfresh : db.FreshFor cmd k := fun _ _ => .inl fun n hn => (hk.nodes n hn).1
  exact (dispatchCmd_induction (P := fun db => db.CreatedOnce ∧ db.FreshFor cmd k) ⟨h, hfresh⟩
    fun _ _ h hm => ⟨h.1.move h.2 hm, h.2.move hm⟩).1

def Intact (db : MetaDb) : Prop :=
  ∃ m s, History.Reach m (fun _ _ => True) s ∧ s.actor.db = db

end MetaDb

theorem History.Reach.createdOnce [Primitives] {m : Nat} {ok : MetaDb → ActorCmd → Prop}
    {s : History} (h : Reach m ok s) : s.actor.db.CreatedOnce :=
  (h.invariant_of_stamps (P := MetaDb.CreatedOnce) (fun _ hn => nomatch hn) (fun _ _ h => h)
    fun _ _ _ h hk _ => h.dispatchCmd hk).1

theorem MetaDb.Intact.createdOnce [Primitives] {db : MetaDb} (h : db.Intact) : db.CreatedOnce := by
  obtain ⟨m, s, hr, rfl⟩ := h
  exact hr.createdOnce

end SnapStore
