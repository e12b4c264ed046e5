import SnapStore.Meta.Queries
import SnapStore.Meta.VisitCounts
import SnapStore.PageChannel.Channel
import SnapStore.Service.InlineLogs

/-!
# `QueryNodes`

The handler queries the database page by page and sends each page as a message.  A page starts
behind the stamp of the last row of the page before it.
-/

namespace SnapStore

open Disk

structure QueryNodesRequest where
  experimentId : String
  status : Option Int
  parentNodeId : Option Nat
  minDepth : Option Nat
  maxDepth : Option Nat
  createdAfter : Option Nat
  updatedAfter : Option Nat
  order : Int
  limit : Nat

structure NodeMeta where
  experimentId : String
  nodeId : Nat
  parentNodeId : Option Nat
  depth : Nat
  snapshotRef : Bytes
  inputLogId : Bytes
  status : Int
  score : Option UInt64
  visitCount : Int
  icount : Nat
  virtualNs : Nat
  createdAt : Nat
  updatedAt : Nat
  lastVisitedAt : Nat
  attrs : Bytes
deriving DecidableEq

namespace Service

open Client (Status metaErrorToStatus)

def typesStatusToProto : NodeStatus → Int
  | .frontier => 1
  | .expanded => 2
  | .pruned => 3
  | .goal => 4

def nodeRowToProto (row : NodeRow) : NodeMeta where
  experimentId := row.experimentId
  nodeId := row.nodeId
  parentNodeId := row.parentNodeId
  depth := row.depth
  snapshotRef := row.snapshotRef.bytes
  inputLogId := (row.inputLogId.map (·.bytes)).getD []
  status := typesStatusToProto row.status
  score := row.score
  visitCount := row.visitCount
  icount := row.icount
  virtualNs := row.virtualNs
  createdAt := row.createdAt
  updatedAt := row.updatedAt
  lastVisitedAt := row.lastVisitedAt
  attrs := row.attrs.getD []

def statusFilter (s : Option Int) : Option NodeStatus :=
  s.bind fun s => if s = 0 then none else some (protoStatusToTypes s)

def queryOrder (order : Int) : QueryOrder :=
  if order = 1 then .createdAt else if order = 2 then .updatedAt else if order = 3 then .nodeId
  else .createdAt

@[irreducible] def internalBatch : Nat := 512

theorem internalBatch_eq : internalBatch = 512 := by
  unfold internalBatch
  rfl

theorem internalBatch_pos : 0 < internalBatch := by
  rw [internalBatch_eq]
  decide

def pageFilter (r : QueryNodesRequest) (exp : ExperimentId)
    (cursorCreated cursorUpdated : Option Nat) : QueryFilter where
  experimentId := exp
  status := statusFilter r.status
  parentNodeId := r.parentNodeId
  minDepth := r.minDepth.map (· % 2 ^ 32)
  maxDepth := r.maxDepth.map (· % 2 ^ 32)
  order := queryOrder r.order
  createdAfter := cursorCreated
  updatedAfter := cursorUpdated
  limit := some internalBatch

abbrev QueryMessage := Except Status (List NodeMeta)

def pageMessages (rows : List NodeRow) : List QueryMessage :=
  (PageChannel.chunks 512 rows.length rows).map fun chunk => .ok (chunk.map nodeRowToProto)

/-- The cursors of the next page, behind the last row of a full one.  There is no cursor on the node
id, so that order ends here. -/
def nextCursors (order : QueryOrder) (cursorCreated cursorUpdated : Option Nat) (last : NodeRow) :
    Option (Option Nat × Option Nat) :=
  match order with
  | .createdAt => some (some last.createdAt, cursorUpdated)
  | .updatedAt => some (cursorCreated, some last.updatedAt)
  | .nodeId => none

/-- The loop of the handler from page `i` on, for a receiver that reads to the end.  `dbs i` is the
database that its query reads; `none` if the loop goes on after `fuel` pages. -/
def streamNodes (r : QueryNodesRequest) (exp : ExperimentId) (dbs : Nat → MetaDb) :
    Nat → Nat → Option Nat × Option Nat → Option (List QueryMessage)
  | 0, _, _ => none
  | fuel + 1, i, cursors =>
    match ((dbs i).queryNodes (pageFilter r exp cursors.1 cursors.2)).mapM MetaDb.readNode with
    | .error e => some [.error (metaErrorToStatus e)]
    | .ok rows =>
      if rows.length < internalBatch then some (pageMessages rows)
      else
        match rows.getLast? with
        | none => (streamNodes r exp dbs fuel (i + 1) cursors).map (pageMessages rows ++ ·)
        | some last =>
          match nextCursors (queryOrder r.order) cursors.1 cursors.2 last with
          | none => some (pageMessages rows)
          | some next => (streamNodes r exp dbs fuel (i + 1) next).map (pageMessages rows ++ ·)

def queryNodes (r : QueryNodesRequest) (dbs : Nat → MetaDb) (fuel : Nat) :
    Except Status (Option (List QueryMessage)) := do
  let exp ← validateExperimentId r.experimentId
  return streamNodes r exp dbs fuel 0 (r.createdAfter, r.updatedAfter)

/-! ## Messages of a page -/

theorem pageMessages_eq {rows : List NodeRow} (h : rows.length ≤ 512) :
    pageMessages rows = if rows = [] then [] else [.ok (rows.map nodeRowToProto)] := by
  unfold pageMessages
  cases rows with
  | nil => rfl
  | cons n rows =>
    rw [List.length_cons, PageChannel.chunks, List.take_of_length_le h, List.drop_of_length_le h]
    · cases rows <;> rfl
    · exact fun h => nomatch h

/-! ## The stream as pages behind a cursor -/

def createdCursor : QueryOrder → Option Nat → Option Nat → Option Nat
  | .updatedAt, _, d => d
  | _, c, _ => c

def updatedCursor : QueryOrder → Option Nat → Option Nat → Option Nat
  | .updatedAt, c, _ => c
  | _, _, d => d

def selected (r : QueryNodesRequest) (exp : ExperimentId) (o : QueryOrder) (d : Option Nat)
    (db : MetaDb) : List NodeRow :=
  db.nodes.filter (pageFilter r exp (createdCursor o none d) (updatedCursor o none d)).selects

variable {r : QueryNodesRequest} {exp : ExperimentId} {o : QueryOrder} {c d : Option Nat}
  {dbs : Nat → MetaDb} {fuel i : Nat}

theorem filter_pageFilter (ho : o ≠ .nodeId) (db : MetaDb) :
    db.nodes.filter (pageFilter r exp (createdCursor o c d) (updatedCursor o c d)).selects =
      Paging.behind o.key (c.map asI64) (selected r exp o d db) := by
  rw [selected, Paging.behind, List.filter_filter]
  refine List.filter_congr fun n _ => ?_
  rw [Bool.eq_iff_iff]
  cases o with
  | nodeId => exact absurd rfl ho
  | createdAt =>
    simp only [QueryFilter.selects, pageFilter, createdCursor, updatedCursor, QueryOrder.key,
      Bool.and_eq_true, decide_eq_true_eq, Option.all_map, Option.all_none]
    tauto
  | updatedAt =>
    simp only [QueryFilter.selects, pageFilter, createdCursor, updatedCursor, QueryOrder.key,
      Bool.and_eq_true, decide_eq_true_eq, Option.all_map, Option.all_none]
    tauto

theorem effectiveLimit_pageFilter : (pageFilter r exp c d).effectiveLimit = internalBatch := by
  rw [QueryFilter.effectiveLimit, pageFilter, Option.getD_some, internalBatch_eq]
  rfl

theorem queryNodes_pageFilter (hord : queryOrder r.order = o) (ho : o ≠ .nodeId) (db : MetaDb) :
    db.queryNodes (pageFilter r exp (createdCursor o c d) (updatedCursor o c d)) =
      Paging.page o.key internalBatch
        (Paging.behind o.key (c.map asI64) (selected r exp o d db)) := by
  have hkey : (pageFilter r exp (createdCursor o c d) (updatedCursor o c d)).order = o := hord
  rw [MetaDb.queryNodes, filter_pageFilter ho, effectiveLimit_pageFilter, hkey]

theorem mem_selected {n : NodeRow} {db : MetaDb} (h : n ∈ selected r exp o d db) : n ∈ db.nodes :=
  (List.mem_filter.mp h).1

theorem nextCursors_eq (ho : o ≠ .nodeId) (last : NodeRow) :
    ∃ c', nextCursors o (createdCursor o c d) (updatedCursor o c d) (MetaDb.cast last) =
        some (createdCursor o (some c') d, updatedCursor o (some c') d) ∧
      asI64 c' = o.key last := by
  cases o with
  | nodeId => exact absurd rfl ho
  | createdAt => exact ⟨last.createdAt, rfl, rfl⟩
  | updatedAt => exact ⟨last.updatedAt, rfl, rfl⟩

theorem streamNodes_eq (hord : queryOrder r.order = o) (ho : o ≠ .nodeId)
    (hread : ∀ j, ∀ n ∈ (dbs j).nodes, Sql.InI64 n.visitCount) :
    streamNodes r exp dbs fuel i (createdCursor o c d, updatedCursor o c d) =
      (Paging.pages o.key internalBatch (fun j => selected r exp o d (dbs j)) fuel i
        (c.map asI64)).map fun ps => ps.flatMap fun p => pageMessages (p.map MetaDb.cast) := by
  induction fuel generalizing i c with
  | zero => rfl
  | succ fuel ih =>
    rw [streamNodes, Paging.pages, queryNodes_pageFilter hord ho]
    generalize hp : Paging.page o.key internalBatch
      (Paging.behind o.key (c.map asI64) (selected r exp o d (dbs i))) = p
    have hmem : ∀ n ∈ p, n ∈ (dbs i).nodes := by
      intro n hn
      rw [← hp] at hn
      exact mem_selected (Paging.mem_page_behind hn).1
    rw [MetaDb.readNodes_ok fun n hn => hread i n (hmem n hn)]
    dsimp only
    rw [List.length_map, List.getLast?_map]
    by_cases hshort : p.length < internalBatch
    · rw [if_pos hshort, if_pos hshort]
      simp
    · rw [if_neg hshort, if_neg hshort]
      cases hlast : p.getLast? with
      | none =>
        simp only [Option.map_none, ih, Option.map_map]
        rfl
      | some last =>
        obtain ⟨c', hnext, hkey⟩ := nextCursors_eq (c := c) (d := d) ho last
        simp only [Option.map_some, hord, hnext, ih, Option.map_map, hkey]
        rfl

/-! ## Conditions of a request -/

/-- What a request asks of a row, with unsigned comparisons. -/
structure Matches (r : QueryNodesRequest) (exp : ExperimentId) (n : NodeRow) : Prop where
  experiment : n.experimentId = exp
  status : ∀ s, statusFilter r.status = some s → n.status = s
  parent : ∀ p, r.parentNodeId = some p → n.parentNodeId = some p
  minDepth : ∀ d, r.minDepth = some d → d ≤ n.depth
  maxDepth : ∀ d, r.maxDepth = some d → n.depth ≤ d
  createdAfter : ∀ v, r.createdAfter = some v → v < n.createdAt
  updatedAfter : ∀ v, r.updatedAfter = some v → v < n.updatedAt

/-- The depths of the request fit 32 bits, its stamps 63, and its parent is a `u64`. -/
structure RequestFits (r : QueryNodesRequest) : Prop where
  parent : ∀ p, r.parentNodeId = some p → p < 2 ^ 64
  minDepth : ∀ d, r.minDepth = some d → d < 2 ^ 32
  maxDepth : ∀ d, r.maxDepth = some d → d < 2 ^ 32
  createdAfter : ∀ v, r.createdAfter = some v → v < 2 ^ 63
  updatedAfter : ∀ v, r.updatedAfter = some v → v < 2 ^ 63

/-- The stamps of a row fit 63 bits, and its parent is a `u64`. -/
structure RowFits (n : NodeRow) : Prop where
  parent : ∀ p, n.parentNodeId = some p → p < 2 ^ 64
  createdAt : n.createdAt < 2 ^ 63
  updatedAt : n.updatedAt < 2 ^ 63

theorem parent_iff {p : Option NodeId} {q : NodeId} (hp : ∀ q, p = some q → q < 2 ^ 64)
    (hq : q < 2 ^ 64) : (p.any fun p => asI64 p = asI64 q) = true ↔ p = some q := by
  cases p with
  | none => simp
  | some p =>
    rw [Option.any_some, decide_eq_true_eq, Option.some.injEq]
    exact ⟨asI64_inj (hp p rfl) hq, congrArg asI64⟩

theorem selects_pageFilter {n : NodeRow} (hr : RequestFits r) (hn : RowFits n) :
    (pageFilter r exp r.createdAfter r.updatedAfter).selects n = true ↔ Matches r exp n := by
  have hparent : (r.parentNodeId.all fun p => n.parentNodeId.any fun q => asI64 q = asI64 p) =
      true ↔ ∀ p, r.parentNodeId = some p → n.parentNodeId = some p := by
    rw [Option.all_eq_true]
    exact forall₂_congr fun p hp => parent_iff hn.parent (hr.parent p hp)
  have hmin : ((r.minDepth.map (· % 2 ^ 32)).all fun d => d ≤ n.depth) = true ↔
      ∀ d, r.minDepth = some d → d ≤ n.depth := by
    rw [Option.all_map, Option.all_eq_true]
    refine forall₂_congr fun d hd => ?_
    rw [Nat.mod_eq_of_lt (hr.minDepth d hd), decide_eq_true_eq]
  have hmax : ((r.maxDepth.map (· % 2 ^ 32)).all fun d => n.depth ≤ d) = true ↔
      ∀ d, r.maxDepth = some d → n.depth ≤ d := by
    rw [Option.all_map, Option.all_eq_true]
    refine forall₂_congr fun d hd => ?_
    rw [Nat.mod_eq_of_lt (hr.maxDepth d hd), decide_eq_true_eq]
  have hcreated : (r.createdAfter.all fun v => asI64 v < asI64 n.createdAt) = true ↔
      ∀ v, r.createdAfter = some v → v < n.createdAt := by
    rw [Option.all_eq_true]
    refine forall₂_congr fun v hv => ?_
    rw [decide_eq_true_eq, asI64_lt_iff (hr.createdAfter v hv) hn.createdAt]
  have hupdated : (r.updatedAfter.all fun v => asI64 v < asI64 n.updatedAt) = true ↔
      ∀ v, r.updatedAfter = some v → v < n.updatedAt := by
    rw [Option.all_eq_true]
    refine forall₂_congr fun v hv => ?_
    rw [decide_eq_true_eq, asI64_lt_iff (hr.updatedAfter v hv) hn.updatedAt]
  have hstatus : ((statusFilter r.status).all fun s => n.status = s) = true ↔
      ∀ s, statusFilter r.status = some s → n.status = s := by
    rw [Option.all_eq_true]
    exact forall₂_congr fun s _ => decide_eq_true_iff
  simp only [QueryFilter.selects, pageFilter, decide_eq_true_eq, hparent, hmin, hmax, hcreated,
    hupdated, hstatus]
  constructor
  · rintro ⟨h1, h2, h3, h4, h5, h6, h7⟩
    exact ⟨h1, h2, h3, h4, h5, h6, h7⟩
  · rintro ⟨h1, h2, h3, h4, h5, h6, h7⟩
    exact ⟨h1, h2, h3, h4, h5, h6, h7⟩

/-! ## Streams by creation -/

def message (rows : List NodeRow) : QueryMessage :=
  .ok (rows.map fun n => nodeRowToProto (MetaDb.cast n))

theorem flatMap_pageMessages {ps : List (List NodeRow)} (h : ∀ p ∈ ps, p.length ≤ 512) :
    (ps.flatMap fun p => pageMessages (p.map MetaDb.cast)) =
      (ps.filter fun p => !p.isEmpty).map message := by
  induction ps with
  | nil => rfl
  | cons p ps ih =>
    obtain ⟨hp, hps⟩ := List.forall_mem_cons.mp h
    rw [List.flatMap_cons, ih hps, pageMessages_eq (by rwa [List.length_map])]
    cases p with
    | nil => rfl
    | cons n p => simp [message]

structure Streamable (db : MetaDb) : Prop where
  nodup : db.nodes.Nodup
  createdOnce : db.CreatedOnce
  readable : ∀ n ∈ db.nodes, Sql.InI64 n.visitCount
  fits : ∀ n ∈ db.nodes, RowFits n

theorem Streamable.nodup_keys {db : MetaDb} (h : Streamable db) :
    ((selected r exp .createdAt d db).map QueryOrder.createdAt.key).Nodup := by
  refine List.Nodup.map_on ?_ (h.nodup.filter _)
  intro n hn n' hn' hkey
  have hmem := mem_selected hn
  have hmem' := mem_selected hn'
  have hlt := (h.fits n hmem).createdAt
  have hlt' := (h.fits n' hmem').createdAt
  exact h.createdOnce n hmem n' hmem' (asI64_inj (by omega) (by omega) hkey)

theorem mem_behind_selected {db : MetaDb} (h : ∀ n ∈ db.nodes, RowFits n) (hr : RequestFits r)
    {n : NodeRow} :
    n ∈ Paging.behind QueryOrder.createdAt.key (r.createdAfter.map asI64)
        (selected r exp .createdAt r.updatedAfter db) ↔ n ∈ db.nodes ∧ Matches r exp n := by
  rw [← filter_pageFilter (o := .createdAt) (fun h => nomatch h), List.mem_filter]
  exact and_congr_right fun hn => selects_pageFilter hr (h n hn)

section Created

variable (hord : queryOrder r.order = .createdAt) (hr : RequestFits r)
  (hdbs : ∀ j, Streamable (dbs j))

include hord hdbs

theorem streamNodes_createdAt (fuel : Nat) :
    streamNodes r exp dbs fuel 0 (r.createdAfter, r.updatedAfter) =
      (Paging.pages QueryOrder.createdAt.key internalBatch
        (fun j => selected r exp .createdAt r.updatedAfter (dbs j)) fuel 0
        (r.createdAfter.map asI64)).map fun ps =>
          ps.flatMap fun p => pageMessages (p.map MetaDb.cast) :=
  streamNodes_eq hord (fun h => nomatch h) fun j => (hdbs j).readable

include hr in
theorem rows_of_streamNodes {msgs : List QueryMessage}
    (h : streamNodes r exp dbs fuel 0 (r.createdAfter, r.updatedAfter) = some msgs) :
    ∃ ps : List (List NodeRow), msgs = ps.map message ∧ (∀ p ∈ ps, p.length ≤ 512) ∧
      ps.flatten.Pairwise (fun n n' => n.createdAt < n'.createdAt) ∧
      (∀ n, Matches r exp n → (∀ j, n ∈ (dbs j).nodes) → n ∈ ps.flatten) ∧
      ∀ n ∈ ps.flatten, Matches r exp n ∧ ∃ j, n ∈ (dbs j).nodes := by
  rw [streamNodes_createdAt hord hdbs] at h
  obtain ⟨ps, hps, hmsgs⟩ := Option.map_eq_some_iff.mp h
  have hshort : ∀ p ∈ ps, p.length ≤ 512 := by
    intro p hp
    rw [← internalBatch_eq]
    exact Paging.length_le_of_mem_pages internalBatch_pos hps p hp
  have hkeys : ∀ j, ((selected r exp .createdAt r.updatedAfter (dbs j)).map
      QueryOrder.createdAt.key).Nodup := fun j => (hdbs j).nodup_keys
  -- a row of a page is a row behind the request's own cursor
  have hsent : ∀ n ∈ ps.flatten, ∃ j, n ∈ (dbs j).nodes ∧ Matches r exp n := by
    intro n hn
    obtain ⟨⟨j, hj⟩, hcursor⟩ := Paging.mem_of_mem_pages internalBatch_pos hps hn
    exact ⟨j, (mem_behind_selected (hdbs j).fits hr).mp (Paging.mem_behind.mpr ⟨hj, hcursor⟩)⟩
  refine ⟨ps.filter fun p => !p.isEmpty, ?_, ?_, ?_⟩
  · rw [← hmsgs, flatMap_pageMessages hshort]
  · exact fun p hp => hshort p (List.mem_filter.mp hp).1
  · rw [List.flatten_filter_not_isEmpty]
    refine ⟨?_, ?_, ?_⟩
    · refine (Paging.pairwise_pages hkeys internalBatch_pos hps).imp_of_mem ?_
      intro n n' hn hn' hlt
      obtain ⟨j, hj, -⟩ := hsent n hn
      obtain ⟨j', hj', -⟩ := hsent n' hn'
      exact (asI64_lt_iff ((hdbs j).fits n hj).createdAt ((hdbs j').fits n' hj').createdAt).mp hlt
    · intro n hn hall
      have hbehind (j : Nat) := Paging.mem_behind.mp
        ((mem_behind_selected (hdbs j).fits hr).mpr ⟨hall j, hn⟩)
      exact Paging.mem_pages hkeys internalBatch_pos hps (fun j => (hbehind j).1) (hbehind 0).2
    · intro n hn
      obtain ⟨j, hj, hmatch⟩ := hsent n hn
      exact ⟨hmatch, j, hj⟩

theorem streamNodes_ends {K : Finset Nat} (hK : ∀ j, ∀ n ∈ (dbs j).nodes, n.createdAt ∈ K)
    (hfuel : K.card < fuel) :
    ∃ msgs, streamNodes r exp dbs fuel 0 (r.createdAfter, r.updatedAfter) = some msgs := by
  have hkeys : ∀ j, ∀ n ∈ selected r exp .createdAt r.updatedAfter (dbs j),
      QueryOrder.createdAt.key n ∈ K.image asI64 :=
    fun j n hn => Finset.mem_image_of_mem asI64 (hK j n (mem_selected hn))
  have hcard : ((K.image asI64).filter fun k => (r.createdAfter.map asI64).all (· < k)).card <
      fuel :=
    lt_of_le_of_lt ((Finset.card_filter_le _ _).trans Finset.card_image_le) hfuel
  obtain ⟨ps, hps⟩ := Paging.exists_pages (i := 0) internalBatch_pos hkeys hcard
  rw [streamNodes_createdAt hord hdbs, hps]
  exact ⟨_, rfl⟩

end Created

theorem queryNodes_eq (hexp : validateExperimentId r.experimentId = .ok exp) :
    queryNodes r dbs fuel = .ok (streamNodes r exp dbs fuel 0 (r.createdAfter, r.updatedAfter)) := by
  rw [queryNodes, hexp]
  rfl

theorem streamNodes_unreadable {cursors : Option Nat × Option Nat} {n : NodeRow}
    (hn : n ∈ (dbs i).queryNodes (pageFilter r exp cursors.1 cursors.2))
    (hcount : ¬ Sql.InI64 n.visitCount) :
    streamNodes r exp dbs (fuel + 1) i cursors = some [.error (metaErrorToStatus .sqlite)] := by
  rw [streamNodes, MetaDb.readNodes_error hn hcount]

variable [Primitives] {m : Nat}

theorem streamable_of_reach {s : History} (h : History.Reach m (MetaDb.VisitsFit (-2 ^ 63)) s)
    (hfits : ∀ n ∈ s.actor.db.nodes, RowFits n) : Streamable s.actor.db where
  nodup := h.grown.1.nodup
  createdOnce := h.createdOnce
  readable := h.inI64 (le_refl _) (by decide)
  fits := hfits

/-- A stream by creation over the tables `s 0`, `s 1`, …, in all of which the matching rows of the
first one remain, sends these rows and no row twice.  It ends if finitely many rows are created
meanwhile. -/
theorem query_by_creation_complete (m : Nat) (s : Nat → History) (r : QueryNodesRequest)
    (exp : ExperimentId) (hexp : validateExperimentId r.experimentId = .ok exp)
    (hord : queryOrder r.order = .createdAt) (hr : RequestFits r)
    (hreach : ∀ i, History.Reach m (MetaDb.VisitsFit (-2 ^ 63)) (s i))
    (hfits : ∀ i, ∀ n ∈ (s i).actor.db.nodes, RowFits n)
    (hkept : ∀ n ∈ (s 0).actor.db.nodes, Matches r exp n → ∀ i, n ∈ (s i).actor.db.nodes) :
    (∀ fuel msgs, queryNodes r (fun i => (s i).actor.db) fuel = .ok (some msgs) →
      ∃ ps : List (List NodeRow), msgs = ps.map message ∧ (∀ p ∈ ps, p.length ≤ 512) ∧
        ps.flatten.Pairwise (fun n n' => n.createdAt < n'.createdAt) ∧
        (∀ n ∈ (s 0).actor.db.nodes, Matches r exp n → n ∈ ps.flatten) ∧
        ∀ n ∈ ps.flatten, Matches r exp n ∧ ∃ i, n ∈ (s i).actor.db.nodes) ∧
    ∀ K : Finset Nat, (∀ i, ∀ n ∈ (s i).actor.db.nodes, n.createdAt ∈ K) →
      ∀ fuel, K.card < fuel →
        ∃ msgs, queryNodes r (fun i => (s i).actor.db) fuel = .ok (some msgs) := by
  have hdbs : ∀ i, Streamable (s i).actor.db := fun i => streamable_of_reach (hreach i) (hfits i)
  constructor
  · intro fuel msgs h
    rw [queryNodes_eq hexp, Except.ok.injEq] at h
    obtain ⟨ps, hmsgs, hshort, hsorted, hall, hsent⟩ := rows_of_streamNodes hord hr hdbs h
    exact ⟨ps, hmsgs, hshort, hsorted, fun n hn hmatch => hall n hmatch (hkept n hn hmatch), hsent⟩
  · intro K hK fuel hfuel
    obtain ⟨msgs, h⟩ := streamNodes_ends (r := r) hord hdbs hK hfuel
    exact ⟨msgs, by rw [queryNodes_eq hexp, h]⟩

end Service

namespace Sample

attribute [local instance] primitives

open History Service

def allNodes : QueryNodesRequest := ⟨"e", none, none, none, none, none, none, 1, 0⟩

def rootParams : CreateNodeParams := ⟨"e", 0, none, ref, none, none, .frontier, none, 0, 0, none⟩

def childParams : CreateNodeParams :=
  ⟨"e", 7, some 0, ref, none, none, .frontier, none, 0, 0, none⟩

theorem reach_commands (cmds : List ActorCmd) : ∃ s, Reach 100 (fun _ _ => True) s ∧
    s.actor = (executeBatch 100 .good History.initial.actor cmds).1 := by
  obtain ⟨s, hs, -, hactor⟩ := Reach.executeBatch (m := 100) .initial rfl .good cmds
  exact ⟨s, hs, hactor⟩

/-- Visits that add up to `2 ^ 63` leave a row that no query by creation gets past. -/
theorem visited_row_ends_stream :
    ∃ s, Reach 100 (fun _ _ => True) s ∧
      (∃ n ∈ s.actor.db.nodes, RowFits n ∧ Matches allNodes "e" n) ∧
      ∀ fuel, Service.queryNodes allNodes (fun _ => s.actor.db) (fuel + 1) =
        .ok (some [.error (Client.metaErrorToStatus .sqlite)]) := by
  obtain ⟨s, hs, hactor⟩ := reach_commands [rootNode, visitRoot (2 ^ 63 - 1), visitRoot 1]
  have hpage : ∃ n ∈ s.actor.db.queryNodes (pageFilter allNodes "e" none none),
      ¬ Sql.InI64 n.visitCount := by
    rw [hactor]
    decide +kernel
  have hrow : ∃ n ∈ s.actor.db.nodes, n.experimentId = "e" ∧ n.parentNodeId = none ∧
      n.createdAt = 1 ∧ n.updatedAt = 3 := by
    rw [hactor]
    decide +kernel
  refine ⟨s, hs, ?_, fun fuel => ?_⟩
  · obtain ⟨n, hn, hexp, hparent, hcreated, hupdated⟩ := hrow
    refine ⟨n, hn, ⟨?_, by rw [hcreated]; decide, by rw [hupdated]; decide⟩, hexp, nofun, nofun,
      nofun, nofun, nofun, nofun⟩
    intro p hp
    rw [hparent] at hp
    cases hp
  · obtain ⟨n, hn, hcount⟩ := hpage
    rw [queryNodes_eq (rfl : validateExperimentId allNodes.experimentId = .ok "e"),
      streamNodes_unreadable hn hcount]

def sentIds (r : QueryNodesRequest) (db : MetaDb) : List NodeId :=
  match Service.queryNodes r (fun _ => db) 1 with
  | .ok (some msgs) => msgs.flatMap fun
    | .ok nodes => nodes.map (·.nodeId)
    | .error _ => []
  | _ => []

theorem reach_fits {s : History} (hs : Reach 100 (MetaDb.VisitsFit (-2 ^ 63)) s)
    (hidle : s.batch = none) (cmd : ActorCmd) (hcmd : s.actor.db.VisitsFit (-2 ^ 63) cmd) :
    ∃ s', Reach 100 (MetaDb.VisitsFit (-2 ^ 63)) s' ∧ s'.batch = none ∧
      s'.actor = s.actor.next 100 cmd := by
  have hbegun := Reach.step hs (.begin hidle)
  have hdone := Reach.step hbegun (.command rfl .good cmd rfl hcmd)
  refine ⟨_, .step hdone (.commit rfl), rfl, ?_⟩
  exact congrArg Prod.fst (executeBatch_good s.actor [cmd])

theorem rowFits_of {n : NodeRow} (h : n.parentNodeId.all (· < 2 ^ 64) ∧ n.createdAt < 2 ^ 63 ∧
    n.updatedAt < 2 ^ 63) : RowFits n := by
  refine ⟨fun p hp => ?_, h.2.1, h.2.2⟩
  have hlt := h.1
  rw [hp] at hlt
  exact of_decide_eq_true hlt

theorem matches_allNodes {n : NodeRow} (h : n.experimentId = "e") : Matches allNodes "e" n :=
  ⟨h, nofun, nofun, nofun, nofun, nofun, nofun⟩

theorem allNodes_fits : RequestFits allNodes := ⟨nofun, nofun, nofun, nofun, nofun⟩

theorem root_streamed_while_child_created :
    ∃ s : Nat → History, (s 1).actor.db.nodes.map (·.nodeId) = [7, 0] ∧
      ∃ ps : List (List NodeRow), Service.queryNodes allNodes (fun i => (s i).actor.db) 3 =
        .ok (some (ps.map message)) ∧ ∃ n ∈ ps.flatten, n.nodeId = 0 := by
  obtain ⟨a, ha, haidle, haactor⟩ := reach_fits .initial rfl (.createNode rootParams) nofun
  obtain ⟨b, hb, -, hbactor⟩ := reach_fits ha haidle (.createNode childParams) nofun
  rw [haactor] at hbactor
  have hreach : ∀ i : Nat, Reach 100 (MetaDb.VisitsFit (-2 ^ 63)) (if i = 0 then a else b) := by
    intro i
    split
    · exact ha
    · exact hb
  have hrows : ∀ i : Nat, ∀ n ∈ (if i = 0 then a else b).actor.db.nodes,
      RowFits n ∧ n.createdAt ∈ ({1, 2} : Finset Nat) := by
    have hone : ∀ n ∈ a.actor.db.nodes, (n.parentNodeId.all (· < 2 ^ 64) ∧ n.createdAt < 2 ^ 63 ∧
        n.updatedAt < 2 ^ 63) ∧ n.createdAt ∈ ({1, 2} : Finset Nat) := by
      rw [haactor]
      decide +kernel
    have hother : ∀ n ∈ b.actor.db.nodes, (n.parentNodeId.all (· < 2 ^ 64) ∧ n.createdAt < 2 ^ 63 ∧
        n.updatedAt < 2 ^ 63) ∧ n.createdAt ∈ ({1, 2} : Finset Nat) := by
      rw [hbactor]
      decide +kernel
    intro i n hn
    split at hn
    · exact ⟨rowFits_of (hone n hn).1, (hone n hn).2⟩
    · exact ⟨rowFits_of (hother n hn).1, (hother n hn).2⟩
  have hkept : ∀ n ∈ a.actor.db.nodes, n ∈ b.actor.db.nodes := by
    rw [haactor, hbactor]
    decide +kernel
  obtain ⟨hrun, hends⟩ := query_by_creation_complete 100 (fun i => if i = 0 then a else b) allNodes
    "e" rfl rfl allNodes_fits hreach (fun i n hn => (hrows i n hn).1) (by
      intro n hn _ i
      show n ∈ (if i = 0 then a else b).actor.db.nodes
      split
      · exact hn
      · exact hkept n hn)
  obtain ⟨msgs, hmsgs⟩ := hends {1, 2} (fun i n hn => (hrows i n hn).2) 3 (by decide)
  obtain ⟨ps, rfl, -, -, hall, -⟩ := hrun 3 msgs hmsgs
  have hroot : ∃ n ∈ a.actor.db.nodes, n.experimentId = "e" ∧ n.nodeId = 0 := by
    rw [haactor]
    decide +kernel
  obtain ⟨n, hn, hexp, hid⟩ := hroot
  refine ⟨_, ?_, ps, hmsgs, n, hall n hn (matches_allNodes hexp), hid⟩
  show b.actor.db.nodes.map (·.nodeId) = [7, 0]
  rw [hbactor]
  decide +kernel

end Sample

end SnapStore
