import SnapStore.Service.QueryNodes

/-!
# `QueryNodes` by update and by node id

A bulk update gives many rows one `updated_at`, and the cursor skips the rows of such a run that did
not fit its page.  For the order by node id there is no cursor: the stream is its first page.
-/

namespace SnapStore

open Disk

namespace Service

instance (r : QueryNodesRequest) (exp : ExperimentId) (n : NodeRow) : Decidable (Matches r exp n) :=
  decidable_of_iff
    (n.experimentId = exp ∧ (∀ s ∈ statusFilter r.status, n.status = s) ∧
      (∀ p ∈ r.parentNodeId, n.parentNodeId = some p) ∧ (∀ d ∈ r.minDepth, d ≤ n.depth) ∧
      (∀ d ∈ r.maxDepth, n.depth ≤ d) ∧ (∀ v ∈ r.createdAfter, v < n.createdAt) ∧
      ∀ v ∈ r.updatedAfter, v < n.updatedAt)
    ⟨fun ⟨h1, h2, h3, h4, h5, h6, h7⟩ => ⟨h1, h2, h3, h4, h5, h6, h7⟩,
      fun ⟨h1, h2, h3, h4, h5, h6, h7⟩ => ⟨h1, h2, h3, h4, h5, h6, h7⟩⟩

def matching (r : QueryNodesRequest) (exp : ExperimentId) (db : MetaDb) : List NodeRow :=
  db.nodes.filter fun n => Matches r exp n

variable {r : QueryNodesRequest} {exp : ExperimentId} {db : MetaDb} {fuel : Nat}

theorem mem_matching {n : NodeRow} : n ∈ matching r exp db ↔ n ∈ db.nodes ∧ Matches r exp n := by
  rw [matching, List.mem_filter, decide_eq_true_eq]

theorem length_matching_le : (matching r exp db).length ≤ db.nodes.length := List.length_filter_le _ _

theorem filter_selects (hr : RequestFits r) (hfits : ∀ n ∈ db.nodes, RowFits n) :
    db.nodes.filter (pageFilter r exp r.createdAfter r.updatedAfter).selects =
      matching r exp db := by
  refine List.filter_congr fun n hn => ?_
  rw [Bool.eq_iff_iff, selects_pageFilter hr (hfits n hn), decide_eq_true_eq]

section Static

variable (hr : RequestFits r) (hdb : Streamable db)

include hdb

/-! ## By update -/

theorem stream_by_update (hord : queryOrder r.order = .updatedAt)
    (hfuel : db.nodes.length < fuel) :
    ∃ ps, streamNodes r exp (fun _ => db) fuel 0 (r.createdAfter, r.updatedAfter) =
        some ((ps.filter fun p => !p.isEmpty).map message) ∧
      Paging.pages QueryOrder.updatedAt.key internalBatch
        (fun _ => selected r exp .updatedAt r.createdAfter db) fuel 0
        (r.updatedAfter.map asI64) = some ps := by
  let K := (db.nodes.map QueryOrder.updatedAt.key).toFinset
  have hK : ∀ _ : Nat, ∀ n ∈ selected r exp .updatedAt r.createdAfter db,
      QueryOrder.updatedAt.key n ∈ K :=
    fun _ n hn => List.mem_toFinset.mpr (List.mem_map_of_mem (mem_selected hn))
  have hcard : (K.filter fun k => (r.updatedAfter.map asI64).all (· < k)).card < fuel := by
    refine lt_of_le_of_lt ((Finset.card_filter_le _ _).trans (List.toFinset_card_le _)) ?_
    rwa [List.length_map]
  obtain ⟨ps, hps⟩ := Paging.exists_pages (i := 0) internalBatch_pos hK hcard
  have heq : streamNodes r exp (fun _ => db) fuel 0 (r.createdAfter, r.updatedAfter) = _ :=
    streamNodes_eq (o := .updatedAt) (c := r.updatedAfter) (d := r.createdAfter) hord
      (fun h => nomatch h) fun _ => hdb.readable
  rw [hps, Option.map_some, flatMap_pageMessages] at heq
  · exact ⟨ps, heq, hps⟩
  · intro p hp
    rw [← internalBatch_eq]
    exact Paging.length_le_of_mem_pages internalBatch_pos hps p hp

include hr

theorem behind_updatedAt :
    Paging.behind QueryOrder.updatedAt.key (r.updatedAfter.map asI64)
      (selected r exp .updatedAt r.createdAfter db) = matching r exp db := by
  rw [← filter_selects hr hdb.fits]
  exact (filter_pageFilter (o := .updatedAt) (fun h => nomatch h) db).symm

theorem rows_by_update (hord : queryOrder r.order = .updatedAt)
    (haligned : Paging.Aligned QueryOrder.updatedAt.key 512 (matching r exp db))
    (hfuel : db.nodes.length < fuel) :
    ∃ ps : List (List NodeRow),
      streamNodes r exp (fun _ => db) fuel 0 (r.createdAfter, r.updatedAfter) =
        some (ps.map message) ∧ ps.flatten.Perm (matching r exp db) ∧
      ps.flatten.Pairwise fun n n' => n.updatedAt ≤ n'.updatedAt := by
  obtain ⟨ps, hstream, hps⟩ : ∃ ps, streamNodes r exp (fun _ => db) fuel 0 _ = _ ∧ _ :=
    stream_by_update hdb hord hfuel
  rw [← behind_updatedAt hr hdb, ← internalBatch_eq] at haligned
  obtain ⟨hperm, hsorted⟩ := Paging.pages_aligned internalBatch_pos haligned hps
  rw [behind_updatedAt hr hdb] at hperm
  refine ⟨_, hstream, ?_⟩
  rw [List.flatten_filter_not_isEmpty]
  refine ⟨hperm, hsorted.imp_of_mem ?_⟩
  intro n n' hn hn' hle
  have hmem := (mem_matching.mp (hperm.subset hn)).1
  have hmem' := (mem_matching.mp (hperm.subset hn')).1
  exact (asI64_le_iff (hdb.fits n hmem).updatedAt (hdb.fits n' hmem').updatedAt).mp hle

/-! ## By node id -/

theorem stream_by_id (hord : queryOrder r.order = .nodeId) (fuel : Nat) :
    streamNodes r exp (fun _ => db) (fuel + 1) 0 (r.createdAfter, r.updatedAfter) =
      some (([Paging.page QueryOrder.nodeId.key internalBatch (matching r exp db)].filter
        fun p => !p.isEmpty).map message) := by
  have hpage : db.queryNodes (pageFilter r exp r.createdAfter r.updatedAfter) =
      Paging.page QueryOrder.nodeId.key internalBatch (matching r exp db) := by
    have hkey : (pageFilter r exp r.createdAfter r.updatedAfter).order = .nodeId := hord
    rw [MetaDb.queryNodes, filter_selects hr hdb.fits, effectiveLimit_pageFilter, hkey]
  rw [streamNodes, hpage]
  generalize hp : Paging.page QueryOrder.nodeId.key internalBatch (matching r exp db) = p
  have hread : ∀ n ∈ p, Sql.InI64 n.visitCount := by
    intro n hn
    rw [← hp] at hn
    exact hdb.readable n (mem_matching.mp (Paging.mem_of_mem_page hn)).1
  have hshort : p.length ≤ 512 := by
    rw [← hp, Paging.length_page, internalBatch_eq]
    exact Nat.min_le_left _ _
  have hmsgs := flatMap_pageMessages (List.forall_mem_singleton.mpr hshort)
  rw [List.flatMap_singleton] at hmsgs
  rw [MetaDb.readNodes_ok hread, ← hmsgs]
  dsimp only
  split
  · rfl
  · next hfull =>
    rw [List.getLast?_map]
    cases hlast : p.getLast? with
    | none =>
      rw [List.getLast?_eq_none_iff.mp hlast] at hfull
      exact absurd internalBatch_pos hfull
    | some last =>
      rw [hord]
      rfl

theorem rows_by_id (hord : queryOrder r.order = .nodeId)
    (hshort : (matching r exp db).length ≤ 512)
    (hids : ∀ n ∈ matching r exp db, n.nodeId < 2 ^ 63) (fuel : Nat) :
    ∃ ps : List (List NodeRow),
      streamNodes r exp (fun _ => db) (fuel + 1) 0 (r.createdAfter, r.updatedAfter) =
        some (ps.map message) ∧ ps.flatten.Perm (matching r exp db) ∧
      ps.flatten.Pairwise fun n n' => n.nodeId ≤ n'.nodeId := by
  refine ⟨_, stream_by_id hr hdb hord fuel, ?_⟩
  rw [List.flatten_filter_not_isEmpty, List.flatten_singleton]
  have hperm : (Paging.page QueryOrder.nodeId.key internalBatch (matching r exp db)).Perm
      (matching r exp db) := by
    apply Paging.page_perm
    rwa [internalBatch_eq]
  refine ⟨hperm, Paging.pairwise_page.imp_of_mem ?_⟩
  intro n n' hn hn' hle
  exact (asI64_le_iff (hids n (hperm.subset hn)) (hids n' (hperm.subset hn'))).mp hle

end Static

variable [Primitives]

omit [Primitives] in
theorem stream_of_one_stamp (hr : RequestFits r) (hdb : Streamable db)
    (hord : queryOrder r.order = .updatedAt) (hmany : 512 < (matching r exp db).length) {k : Nat}
    (hsame : ∀ n ∈ db.nodes, n.updatedAt = k) (hfuel : db.nodes.length < fuel) :
    ∃ ps : List (List NodeRow),
      streamNodes r exp (fun _ => db) fuel 0 (r.createdAfter, r.updatedAfter) =
        some (ps.map message) ∧ ps.flatten.length = 512 := by
  obtain ⟨ps, hstream, hps⟩ : ∃ ps, streamNodes r exp (fun _ => db) fuel 0 _ = _ ∧ _ :=
    stream_by_update hdb hord hfuel
  refine ⟨_, hstream, ?_⟩
  rw [List.flatten_filter_not_isEmpty]
  obtain ⟨fuel, rfl⟩ := Nat.exists_eq_succ_of_ne_zero (Nat.ne_zero_of_lt hfuel)
  rcases Paging.pages_cases internalBatch_pos hps with ⟨hlt, -⟩ | ⟨last, rest, hlast, hlen, hrest, rfl⟩
  · rw [behind_updatedAt hr hdb, Paging.length_page, internalBatch_eq] at hlt
    omega
  · -- a row of a later page would have a larger stamp
    have hempty : rest.flatten = [] := by
      rw [List.eq_nil_iff_forall_not_mem]
      intro n hn
      obtain ⟨⟨_, hmem⟩, hbehind⟩ := Paging.mem_of_mem_pages internalBatch_pos hrest hn
      have hlast' := (Paging.mem_page_behind (List.mem_of_getLast? hlast)).1
      have hlt := hbehind _ rfl
      rw [QueryOrder.key, QueryOrder.key, hsame n (mem_selected hmem),
        hsame last (mem_selected hlast')] at hlt
      exact lt_irrefl _ hlt
    rw [List.flatten_cons, hempty, List.append_nil, hlen, internalBatch_eq]

omit [Primitives] in
theorem stream_of_many_ids (hr : RequestFits r) (hdb : Streamable db)
    (hord : queryOrder r.order = .nodeId) (hmany : 512 < (matching r exp db).length) (fuel : Nat) :
    ∃ ps : List (List NodeRow),
      streamNodes r exp (fun _ => db) (fuel + 1) 0 (r.createdAfter, r.updatedAfter) =
        some (ps.map message) ∧ ps.flatten.length = 512 := by
  refine ⟨_, stream_by_id hr hdb hord fuel, ?_⟩
  rw [List.flatten_filter_not_isEmpty, List.flatten_singleton, Paging.length_page,
    internalBatch_eq]
  omega

end Service

namespace MetaDb

variable {exp : ExperimentId} {k : Nat} {db : MetaDb}

theorem length_updates (us : List NodeUpdate) :
    (us.foldl (applyUpdate exp k) db).nodes.length = db.nodes.length := by
  induction us generalizing db with
  | nil => rfl
  | cons u us ih =>
    rw [List.foldl_cons, ih]
    exact List.length_map _

theorem updatedAt_updates {us : List NodeUpdate} {n : NodeRow}
    (h : n ∈ (us.foldl (applyUpdate exp k) db).nodes) (hexp : n.experimentId = exp)
    (hus : n.nodeId ∈ us.map (·.nodeId)) : n.updatedAt = k := by
  induction us using List.reverseRecOn generalizing n with
  | nil => cases hus
  | append_singleton us u ih =>
    rw [List.foldl_append] at h
    obtain ⟨n, hn, rfl⟩ := List.mem_map.mp h
    by_cases hu : n.experimentId = exp ∧ n.nodeId = u.nodeId
    · rw [if_pos hu]
      rfl
    · rw [if_neg hu] at hexp hus ⊢
      refine ih hn hexp ?_
      rw [List.map_append, List.mem_append] at hus
      rcases hus with hus | hlast
      · exact hus
      · exact absurd ⟨hexp, List.mem_singleton.mp hlast⟩ hu

end MetaDb

namespace Sample

attribute [local instance] primitives

open History Service

def wideChild (i : Nat) : CreateNodeParams := { childParams with nodeId := i }

structure Wide (k : Nat) (a : WriterActor) : Prop where
  length : a.db.nodes.length = k + 1
  rows : ∀ n ∈ a.db.nodes, n.experimentId = "e" ∧ n.nodeId ≤ k ∧ n.status = .frontier
  ids : ∀ i ≤ k, ∃ n ∈ a.db.nodes, n.nodeId = i
  counter : a.counter = k + 2

theorem Wide.fetchNode {k i : Nat} {a : WriterActor} (h : Wide k a) (hi : i ≤ k) :
    ∃ n, a.db.fetchNode "e" i = some n ∧ n.status = .frontier := by
  obtain ⟨n, hn, rfl⟩ := h.ids i hi
  cases hfetch : a.db.fetchNode "e" n.nodeId with
  | none => exact absurd ⟨(h.rows n hn).1, rfl⟩ (MetaDb.fetchNode_eq_none.mp hfetch n hn)
  | some n' => exact ⟨n', rfl, (h.rows n' (MetaDb.mem_of_fetchNode hfetch).1).2.2⟩

theorem Wide.create {k : Nat} {a : WriterActor} (h : Wide k a) :
    Wide (k + 1) (a.next 100 (.createNode (wideChild (k + 1)))) := by
  obtain ⟨q, hq, hstatus⟩ := h.fetchNode (Nat.zero_le k)
  have hdepth : a.db.nodeDepth (wideChild (k + 1)) = .ok ((q.depth + 1) % 2 ^ 32) := by
    have hparent : a.db.fetchNode (wideChild (k + 1)).experimentId 0 = some q := hq
    unfold MetaDb.nodeDepth
    rw [if_neg (by simp [wideChild]), if_neg (by simp [wideChild, childParams])]
    dsimp only [wideChild, childParams] at hparent ⊢
    rw [hparent]
    dsimp only
    rw [if_neg (by rw [hstatus]; decide)]
  have hnew : a.db.fetchNode (wideChild (k + 1)).experimentId (wideChild (k + 1)).nodeId = none := by
    rw [MetaDb.fetchNode_eq_none]
    rintro n hn ⟨-, hid⟩
    have hle := (h.rows n hn).2.1
    rw [hid] at hle
    exact absurd hle (Nat.not_succ_le_self k)
  have hlog : a.db.ensureInputLog (wideChild (k + 1)) 100 a.counter = .ok a.db := rfl
  have hnodes : (a.next 100 (.createNode (wideChild (k + 1)))).db.nodes =
      MetaDb.newNode (wideChild (k + 1)) ((q.depth + 1) % 2 ^ 32) a.counter :: a.db.nodes := by
    unfold WriterActor.next MetaDb.after MetaDb.dispatchCmd MetaDb.createNodeImpl
    dsimp only
    rw [hdepth]
    dsimp only
    rw [hlog]
    dsimp only
    rw [hnew]
    rfl
  constructor
  · rw [hnodes, List.length_cons, h.length]
  · rw [hnodes, List.forall_mem_cons]
    refine ⟨⟨rfl, Nat.le_refl _, rfl⟩, fun n hn => ?_⟩
    obtain ⟨hexp, hid, hst⟩ := h.rows n hn
    exact ⟨hexp, Nat.le_succ_of_le hid, hst⟩
  · intro i hi
    rw [hnodes]
    rcases Nat.le_succ_iff.mp hi with hi | rfl
    · obtain ⟨n, hn, hid⟩ := h.ids i hi
      exact ⟨n, List.mem_cons_of_mem _ hn, hid⟩
    · exact ⟨_, List.mem_cons_self, rfl⟩
  · show a.counter + 1 = _
    rw [h.counter]

theorem reach_wide (k : Nat) : ∃ s, Reach 100 (MetaDb.VisitsFit (-2 ^ 63)) s ∧ s.batch = none ∧
    Wide k s.actor := by
  induction k with
  | zero =>
    obtain ⟨s, hs, hidle, hactor⟩ := reach_fits .initial rfl (.createNode rootParams) nofun
    refine ⟨s, hs, hidle, ?_, ?_, ?_, ?_⟩
    · rw [hactor]
      decide +kernel
    · rw [hactor]
      decide +kernel
    · rw [hactor]
      decide +kernel
    · rw [hactor]
      decide +kernel
  | succ k ih =>
    obtain ⟨s, hs, hidle, hwide⟩ := ih
    obtain ⟨s', hs', hidle', hactor⟩ := reach_fits hs hidle (.createNode (wideChild (k + 1))) nofun
    refine ⟨s', hs', hidle', ?_⟩
    rw [hactor]
    exact hwide.create

def ordered (o : Int) : QueryNodesRequest := { allNodes with order := o }

theorem ordered_fits (o : Int) : RequestFits (ordered o) := ⟨nofun, nofun, nofun, nofun, nofun⟩

theorem matches_ordered {o : Int} {n : NodeRow} (h : n.experimentId = "e") :
    Matches (ordered o) "e" n := ⟨h, nofun, nofun, nofun, nofun, nofun, nofun⟩

theorem ordered_experimentId (o : Int) :
    validateExperimentId (ordered o).experimentId = .ok "e" := rfl

def bulk (k : Nat) : List NodeUpdate :=
  (List.range (k + 1)).map fun i => ⟨i, some .expanded, none, none, 0, false, none, none⟩

theorem visitDeltas_bulk {k : Nat} {us : List NodeUpdate} (h : us <+: bulk k) (id : NodeId) :
    visitDeltas us id = 0 := by
  have hzero : ∀ u ∈ us, u.visitCountDelta = 0 := by
    intro u hu
    obtain ⟨i, -, rfl⟩ := List.mem_map.mp (h.subset hu)
    rfl
  clear h
  induction us with
  | nil => rfl
  | cons u us ih =>
    rw [visitDeltas_cons, ih fun u' hu' => hzero u' (List.mem_cons_of_mem u hu'),
      hzero u List.mem_cons_self, ite_self]
    rfl

theorem reach_bulk (k : Nat) (hk : k + 3 < 2 ^ 63) :
    ∃ s, Reach 100 (MetaDb.VisitsFit (-2 ^ 63)) s ∧ s.actor.db.nodes.length = k + 1 ∧
      ∀ n ∈ s.actor.db.nodes, (n.experimentId = "e" ∧ n.nodeId ≤ k ∧ n.updatedAt = k + 2) ∧
        RowFits n := by
  obtain ⟨s, hs, hidle, hwide⟩ := reach_wide k
  have hfits : s.actor.db.VisitsFit (-2 ^ 63) (.updateNodes "e" (bulk k)) := by
    rintro exp us ⟨⟩ pre hpre n hn -
    rw [visitDeltas_bulk hpre, Int.add_zero]
    exact hs.inI64 (le_refl _) (by decide) n hn
  obtain ⟨s', hs', -, hactor⟩ := reach_fits hs hidle _ hfits
  have hmissing : ((bulk k).filter fun u => (s.actor.db.fetchNode "e" u.nodeId).isNone) = [] := by
    rw [List.filter_eq_nil_iff]
    intro u hu
    obtain ⟨i, hi, rfl⟩ := List.mem_map.mp hu
    obtain ⟨n, hn, -⟩ := hwide.fetchNode (Nat.le_of_lt_succ (List.mem_range.mp hi))
    rw [hn]
    exact Bool.false_ne_true
  have hnodes : s'.actor.db.nodes =
      ((bulk k).foldl (MetaDb.applyUpdate "e" s.actor.counter) s.actor.db).nodes := by
    rw [hactor]
    unfold WriterActor.next MetaDb.after MetaDb.dispatchCmd MetaDb.updateNodes
    dsimp only
    rw [hmissing, List.map_nil, if_neg (fun h => h rfl)]
    rfl
  have hcounter : s'.actor.counter = k + 3 := by
    rw [hactor]
    show s.actor.counter + 1 = _
    rw [hwide.counter]
  have hrows : ∀ n ∈ s'.actor.db.nodes,
      n.experimentId = "e" ∧ n.nodeId ≤ k ∧ n.updatedAt = k + 2 := by
    intro n hn
    rw [hnodes] at hn
    obtain ⟨n₀, hn₀, hexp, hid, -⟩ := MetaDb.mem_updates hn
    obtain ⟨hexp₀, hid₀, -⟩ := hwide.rows n₀ hn₀
    have hle : n.nodeId ≤ k := hid.trans_le hid₀
    refine ⟨hexp.trans hexp₀, hle, ?_⟩
    rw [← hwide.counter]
    refine MetaDb.updatedAt_updates hn (hexp.trans hexp₀) ?_
    rw [bulk, List.map_map]
    exact List.mem_map.mpr ⟨n.nodeId, List.mem_range.mpr (Nat.lt_succ_of_le hle), rfl⟩
  refine ⟨s', hs', ?_, fun n hn => ⟨hrows n hn, ?_, ?_, ?_⟩⟩
  · rw [hnodes, MetaDb.length_updates, hwide.length]
  · intro p hp
    obtain ⟨q, hq, -, rfl⟩ := hs'.grown.1.parent n hn p hp
    have hlt : k < 2 ^ 64 := by omega
    exact (hrows q hq).2.1.trans_lt hlt
  · have hstored := ((hs'.stamped.stored.mono hs'.stamped.persisted).nodes n hn).1
    rw [hcounter] at hstored
    exact hstored.trans hk
  · rw [(hrows n hn).2.2]
    omega

end Sample

end SnapStore
