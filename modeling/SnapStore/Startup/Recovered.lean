import SnapStore.Gc.Frames
import SnapStore.Startup
import SnapStore.Store.Chains

/-!
# What startup leaves

After the purge every manifest file passes the integrity checks; after the reconciliation every
node is `PRUNED` or has its manifest.  The manifests further down its chain are not looked at: a
mark and a resolve succeed if the chain of every intact manifest is intact.
-/

namespace SnapStore

open Disk Conc SnapshotStore

namespace Startup

variable [Primitives]

/-! ## Opening changes no manifest and no row -/

structure Keeps (s s' : World) : Prop where
  files : ∀ r, s'.manifests.readName (.spm r) = s.manifests.readName (.spm r)
  shardDirs : s'.shardDirs = s.shardDirs
  db : s'.db = s.db

omit [Primitives] in
theorem Keeps.refl (s : World) : Keeps s s := ⟨fun _ => rfl, rfl, rfl⟩

omit [Primitives] in
theorem Keeps.trans {s t u : World} (h : Keeps s t) (h' : Keeps t u) : Keeps s u :=
  ⟨fun r => (h'.files r).trans (h.files r), h'.shardDirs.trans h.shardDirs, h'.db.trans h.db⟩

theorem keeps_openStore (opts : StoreOptions) : Within Keeps (openStore opts) := by
  refine within_openStore Keeps.refl (fun s r => ⟨fun q => ?_, rfl, rfl⟩)
    (fun s u h => ⟨fun _ => by rw [h.manifests], h.shardDirs, h.db⟩) opts
    fun _ _ _ _ => ⟨fun _ => rfl, rfl, rfl⟩
  rw [FileSys.readName_unlink, if_neg (by simp)]

omit [Primitives] in
theorem keeps_openMeta : Within Keeps openMeta.run := by
  refine within_attempt Keeps.refl fun o s a u hf => ?_
  split at hf <;> cases hf
  exact ⟨fun _ => rfl, rfl, rfl⟩

theorem keeps_openAll (opts : StoreOptions) (version : Except IoError (Option String)) :
    Within Keeps (openAll opts version).run := by
  refine Within.bindE (Within.ret _) fun _ => ?_
  refine Within.bindE (within_withError keeps_openMeta) fun _ => ?_
  refine Within.bindE (within_withError (within_observe Keeps.refl)) fun _ => ?_
  exact Within.bind (keeps_openStore opts) fun _ => Within.ret _

theorem parts_of_ends {opts : StoreOptions} {version : Except IoError (Option String)}
    {may : Oracle → Prop} {s t : World} {n : Nat}
    (h : Ends may (runStartup opts version).run s (.ok n) t) :
    ∃ u v purged missing, Ends may (openAll opts version).run s (.ok ()) u ∧
      Ends may purgeBadFooterManifests u purged v ∧ Ends may reconcileSnapshotRefs v missing t := by
  obtain ⟨a, u, hopen, h⟩ := h.of_bindE
  obtain ⟨purged, v, hpurge, h⟩ := h.of_bindE
  obtain ⟨missing, w, hreconcile, h⟩ := h.of_bindE
  cases h
  exact ⟨u, v, purged, missing, hopen, hpurge.of_lift, hreconcile.of_lift⟩

theorem keeps_of_ends {opts : StoreOptions} {version : Except IoError (Option String)}
    {may : Oracle → Prop} {s u : World} (h : Ends may (openAll opts version).run s (.ok ()) u) :
    Keeps s u := h.within (keeps_openAll opts version) Keeps.refl fun _ _ _ => .trans

/-! ## The purge -/

theorem checkSpmIntegrity_eq_none {r : SnapshotRef} {b : Bytes} :
    checkSpmIntegrity r b = none ↔ verifyManifest r b = .ok b := by
  unfold checkSpmIntegrity verifyManifest
  rw [Manifest.snapshotRef, Manifest.footerLen]
  by_cases hlen : b.length < 32
  · simp [hlen]
  · by_cases href : blake3 (b.take (b.length - 32)) = r
    · simp [hlen, href, eq_comm]
    · by_cases hfooter : (blake3 (b.take (b.length - 32))).bytes = b.drop (b.length - 32)
      · simp [hlen, href, hfooter]
      · simp [hlen, href, hfooter]

structure Sweepable (o : Oracle) : Prop where
  list : o.fault .manifestDir .list = none
  read : o.fault .manifest .read = none
  unlink : o.fault .manifest .unlink = none

omit [Primitives] in
theorem Sweepable.of_quiet {o : Oracle} (h : o.Quiet) : Sweepable o := ⟨h _ _, h _ _, h _ _⟩

def Checked (s : World) (r : SnapshotRef) : Prop :=
  ∀ b, s.manifests.readName (.spm r) = some b → verifyManifest r b = .ok b

structure Purges (s t : World) : Prop where
  files : ∀ r, t.manifests.readName (.spm r) = s.manifests.readName (.spm r) ∨
    t.manifests.readName (.spm r) = none ∧ ¬ Checked s r
  shardDirs : t.shardDirs = s.shardDirs
  db : t.db = s.db

theorem Purges.refl (s : World) : Purges s s := ⟨fun _ => .inl rfl, rfl, rfl⟩

theorem Checked.congr {s t : World} {r : SnapshotRef}
    (h : t.manifests.readName (.spm r) = s.manifests.readName (.spm r)) :
    Checked t r ↔ Checked s r := by
  rw [Checked, h, Checked]

theorem Purges.trans {s t u : World} (h : Purges s t) (h' : Purges t u) : Purges s u := by
  refine ⟨fun r => ?_, h'.shardDirs.trans h.shardDirs, h'.db.trans h.db⟩
  rcases h.files r with hst | ⟨hnone, hbad⟩
  · rw [← hst, ← Checked.congr hst]
    exact h'.files r
  · refine .inr ⟨?_, hbad⟩
    rcases h'.files r with htu | ⟨htu, -⟩
    · exact htu.trans hnone
    · exact htu

theorem Purges.checked {s t : World} {r : SnapshotRef} (h : Purges s t) (hs : Checked s r) :
    Checked t r := by
  rcases h.files r with hst | ⟨-, hbad⟩
  · exact (Checked.congr hst).mpr hs
  · exact absurd hs hbad

theorem twp_purgeFile (r : SnapshotRef) (s : World) :
    twp Sweepable (purgeFile r) (fun _ t => Purges s t ∧ Checked t r) s := by
  refine twp_bind (twp_atomic fun o ho => ?_)
  rw [ho.read]
  cases hread : s.manifests.readName (.spm r) with
  | none => exact ⟨.refl s, fun b hb => by simp [hread] at hb⟩
  | some b =>
    dsimp only
    cases hcheck : checkSpmIntegrity r b with
    | none =>
      refine ⟨.refl s, fun b' hb' => ?_⟩
      rw [hread, Option.some.injEq] at hb'
      exact hb' ▸ checkSpmIntegrity_eq_none.mp hcheck
    | some violation =>
      have hbad : ¬ Checked s r := by
        intro hok
        rw [checkSpmIntegrity_eq_none.mpr (hok b hread)] at hcheck
        cases hcheck
      refine twp_bind (twp_atomic fun o' ho' => ?_)
      rw [ho'.unlink]
      have hgone : (s.manifests.unlink (.spm r)).readName (.spm r) = none := by
        rw [FileSys.readName_unlink, if_pos rfl]
      refine ⟨⟨fun q => ?_, rfl, rfl⟩, fun b' hb' => by simp [hgone] at hb'⟩
      by_cases hq : q = r
      · subst hq
        exact .inr ⟨hgone, hbad⟩
      · refine .inl ?_
        rw [FileSys.readName_unlink, if_neg (by simpa using hq)]

theorem twp_purgeShard (shard : Nat) (s : World) :
    twp Sweepable (purgeShard shard)
      (fun _ t => Purges s t ∧ ∀ r, shardOf r = shard → Checked t r) s := by
  refine twp_bind (twp_atomic fun o ho => ?_)
  rw [ho.list]
  refine twp_mono (fun _ t ht => ⟨ht.1, fun r hr => (ht.2 r hr).resolve_left List.not_mem_nil⟩)
    (twp_foldlM (fun _ rest t => Purges s t ∧ ∀ r, shardOf r = shard → r ∈ rest ∨ Checked t r)
      (fun n r rest t ht => ?_) _ _ s ⟨.refl s, fun r hr => ?_⟩)
  · obtain ⟨hst, hrest⟩ := ht
    refine twp_bind (twp_mono (fun _ u hu => ⟨hst.trans hu.1, fun q hq => ?_⟩) (twp_purgeFile r t))
    rcases hrest q hq with hmem | hchecked
    · rcases List.mem_cons.mp hmem with rfl | hmem
      · exact .inr hu.2
      · exact .inl hmem
    · exact .inr (hu.1.checked hchecked)
  · by_cases hstored : Stored s r
    · refine .inl (List.mem_filterMap.mpr ⟨.spm r, FileSys.mem_names.mpr hstored, ?_⟩)
      exact if_pos hr
    · refine .inr fun b hb => ?_
      obtain ⟨i, hi, -⟩ := FileSys.exists_lookup_of_readName hb
      rw [Stored, hasManifest, hi] at hstored
      exact absurd rfl hstored

theorem twp_purgeBadFooterManifests (s : World) :
    twp Sweepable purgeBadFooterManifests
      (fun _ t => Purges s t ∧ ∀ r, shardOf r ∈ s.shardDirs → Checked t r) s := by
  refine twp_bind (twp_atomic fun o ho => ?_)
  rw [ho.list]
  refine twp_mono (fun _ t ht => ⟨ht.1, fun r hr => (ht.2 r hr).resolve_left List.not_mem_nil⟩)
    (twp_foldlM (fun _ rest t => Purges s t ∧
      ∀ r, shardOf r ∈ s.shardDirs → shardOf r ∈ rest ∨ Checked t r)
      (fun n shard rest t ht => ?_) _ _ s ⟨.refl s, fun r hr => .inl (Oracle.mem_walk.mpr hr)⟩)
  obtain ⟨hst, hrest⟩ := ht
  refine twp_bind (twp_mono (fun _ u hu => ⟨hst.trans hu.1, fun q hq => ?_⟩)
    (twp_purgeShard shard t))
  rcases hrest q hq with hmem | hchecked
  · rcases List.mem_cons.mp hmem with heq | hmem
    · exact .inr (hu.2 q heq)
    · exact .inl hmem
  · exact .inr (hu.1.checked hchecked)

/-! ## The reconciliation -/

structure Marked (n n' : NodeRow) : Prop where
  experimentId : n'.experimentId = n.experimentId
  nodeId : n'.nodeId = n.nodeId
  snapshotRef : n'.snapshotRef = n.snapshotRef
  createdAt : n'.createdAt = n.createdAt
  status : n'.status = n.status ∨ n'.status = .pruned

structure Reconciles (s t : World) : Prop where
  manifests : t.manifests = s.manifests
  pins : t.db.pins = s.db.pins
  nodes : ∃ f : NodeRow → NodeRow, t.db.nodes = s.db.nodes.map f ∧ ∀ n, Marked n (f n)

section Reconcile

omit [Primitives]

theorem Reconciles.refl (s : World) : Reconciles s s :=
  ⟨rfl, rfl, id, (List.map_id _).symm, fun _ => ⟨rfl, rfl, rfl, rfl, .inl rfl⟩⟩

theorem Reconciles.trans {s t u : World} (h : Reconciles s t) (h' : Reconciles t u) :
    Reconciles s u := by
  obtain ⟨f, hf, hmark⟩ := h.nodes
  obtain ⟨g, hg, hmark'⟩ := h'.nodes
  refine ⟨h'.manifests.trans h.manifests, h'.pins.trans h.pins, g ∘ f, ?_, fun n => ?_⟩
  · rw [hg, hf, List.map_map]
  · have hn := hmark n
    have hfn := hmark' (f n)
    refine ⟨hfn.experimentId.trans hn.experimentId, hfn.nodeId.trans hn.nodeId,
      hfn.snapshotRef.trans hn.snapshotRef, hfn.createdAt.trans hn.createdAt, ?_⟩
    rcases hfn.status with heq | hpruned
    · rcases hn.status with heq' | hpruned'
      · exact .inl (heq.trans heq')
      · exact .inr (heq.trans hpruned')
    · exact .inr hpruned

theorem Reconciles.origin {s t : World} (h : Reconciles s t) {n' : NodeRow}
    (hn' : n' ∈ t.db.nodes) : ∃ n ∈ s.db.nodes, Marked n n' := by
  obtain ⟨f, hf, hmark⟩ := h.nodes
  rw [hf] at hn'
  obtain ⟨n, hn, rfl⟩ := List.mem_map.mp hn'
  exact ⟨n, hn, hmark n⟩

theorem Reconciles.image {s t : World} (h : Reconciles s t) {n : NodeRow} (hn : n ∈ s.db.nodes) :
    ∃ n' ∈ t.db.nodes, Marked n n' := by
  obtain ⟨f, hf, hmark⟩ := h.nodes
  exact ⟨f n, hf ▸ List.mem_map_of_mem hn, hmark n⟩

theorem Reconciles.createdOnce {s t : World} (h : Reconciles s t) (hs : s.db.CreatedOnce) :
    t.db.CreatedOnce := by
  obtain ⟨f, hf, hmark⟩ := h.nodes
  exact hs.map (fun n => (hmark n).createdAt) hf

theorem Reconciles.marked {s t : World} (h : Reconciles s t) (hs : s.db.CreatedOnce)
    {n n' : NodeRow} (hn : n ∈ s.db.nodes) (hn' : n' ∈ t.db.nodes)
    (hc : n'.createdAt = n.createdAt) : Marked n n' := by
  obtain ⟨m, hm, hmark⟩ := h.origin hn'
  have heq : m = n := hs m hm n hn (hmark.createdAt.symm.trans hc)
  exact heq ▸ hmark

def Settled (s : World) (n : NodeRow) : Prop := n.status = .pruned ∨ Stored s n.snapshotRef

theorem Settled.mark {s t : World} {n n' : NodeRow} (h : Settled s n) (hm : Marked n n')
    (hfiles : t.manifests = s.manifests) : Settled t n' := by
  rcases h with hpruned | hstored
  · rcases hm.status with heq | hpruned'
    · exact .inl (heq.trans hpruned)
    · exact .inl hpruned'
  · refine .inr ?_
    rw [Stored, hasManifest, hm.snapshotRef, hfiles]
    exact hstored

theorem marked_update (exp : ExperimentId) (id : NodeId) (k : Nat) (n : NodeRow) :
    Marked n (if n.experimentId = exp ∧ n.nodeId = (markPruned id).nodeId
      then MetaDb.updatedNode (markPruned id) k n else n) := by
  split
  · exact ⟨rfl, rfl, rfl, rfl, .inr rfl⟩
  · exact ⟨rfl, rfl, rfl, rfl, .inl rfl⟩

theorem twp_metaWrite {α : Type} {f : MetaDb → Nat → Except MetaError (α × MetaDb)} {a : α}
    {db' : MetaDb} {s : World} {Q : Except MetaError α → World → Prop}
    (hf : f s.db s.actorCounter = .ok (a, db'))
    (hQ : Q (.ok a) { s with
      db := db'.withCounter (s.actorCounter + 1), actorCounter := s.actorCounter + 1 }) :
    twp Oracle.Quiet (metaWrite f).run Q s := by
  refine twp_atomic fun o ho => ?_
  have hafter : afterCommand f o s.db s.actorCounter = db'.withCounter (s.actorCounter + 1) := by
    rw [afterCommand, ho, hf]
    rfl
  rw [hf, hafter]
  exact hQ

theorem twp_reconcileNode {u t : World} {exp : ExperimentId} {node : NodeRow}
    (hu : u.db.CreatedOnce) (hut : Reconciles u t) (hnode : node ∈ u.db.nodes)
    (hexp : node.experimentId = exp) :
    twp Oracle.Quiet (reconcileNode exp node) (fun _ v => Reconciles t v ∧
      ∀ n ∈ v.db.nodes, n.createdAt = node.createdAt → Settled v n) t := by
  have hsettled : Settled u node →
      ∀ n ∈ t.db.nodes, n.createdAt = node.createdAt → Settled t n := fun h n hn hc =>
    h.mark (hut.marked hu hnode hn hc) hut.manifests
  unfold reconcileNode
  split
  · next hpruned => exact ⟨.refl t, hsettled (.inl hpruned)⟩
  · refine twp_bind (twp_atomic fun o ho => ?_)
    dsimp only
    split
    · next hstored =>
      refine ⟨.refl t, hsettled (.inr ?_)⟩
      rw [Stored, hasManifest, ← hut.manifests]
      exact hstored
    · obtain ⟨n₀, hn₀, hmark⟩ := hut.image hnode
      have hsome : (t.db.fetchNode exp (markPruned node.nodeId).nodeId).isSome = true := by
        rw [MetaDb.fetchNode, List.find?_isSome]
        refine ⟨n₀, hn₀, ?_⟩
        simp [hmark.experimentId, hmark.nodeId, hexp, markPruned]
      have hupdate : t.db.updateNodes exp [markPruned node.nodeId] t.actorCounter =
          .ok (t.actorCounter, MetaDb.applyUpdate exp t.actorCounter t.db (markPruned node.nodeId)) := by
        obtain ⟨row, hrow⟩ := Option.isSome_iff_exists.mp hsome
        simp [MetaDb.updateNodes, hrow]
      refine twp_bind (twp_metaWrite hupdate ⟨⟨rfl, rfl, _, rfl, marked_update _ _ _⟩, ?_⟩)
      intro n hn hc
      obtain ⟨m, hm, rfl⟩ := List.mem_map.mp hn
      have hcm : m.createdAt = node.createdAt :=
        (marked_update exp node.nodeId t.actorCounter m).createdAt.symm.trans hc
      have hmm := hut.marked hu hnode hm hcm
      refine .inl ?_
      rw [if_pos ⟨hmm.experimentId.trans hexp, hmm.nodeId⟩]
      rfl

theorem twp_reconcileNodes {u : World} (exp : ExperimentId) {nodes : List NodeRow}
    (hu : u.db.CreatedOnce) (hnodes : ∀ n ∈ nodes, n ∈ u.db.nodes ∧ n.experimentId = exp) :
    twp Oracle.Quiet (nodes.foldlM (fun k node => do return k + (← reconcileNode exp node)) 0)
      (fun _ v => Reconciles u v ∧ ∀ node ∈ nodes, ∀ n ∈ v.db.nodes,
        n.createdAt = node.createdAt → Settled v n) u := by
  refine twp_mono (fun _ v hv => ⟨hv.1, fun node hnode => ?_⟩) (twp_foldlM
    (fun _ rest t => Reconciles u t ∧ (∀ n ∈ rest, n ∈ nodes) ∧ ∀ node ∈ nodes, node ∈ rest ∨
      ∀ n ∈ t.db.nodes, n.createdAt = node.createdAt → Settled t n)
    (fun k node rest t ht => ?_) nodes 0 u ⟨.refl u, fun _ => id, fun _ => .inl⟩)
  · exact (hv.2.2 node hnode).resolve_left List.not_mem_nil
  · obtain ⟨hut, hrest, hdone⟩ := ht
    obtain ⟨hmem, hexp⟩ := hnodes node (hrest node List.mem_cons_self)
    refine twp_bind (twp_mono (fun _ v hv => ⟨hut.trans hv.1,
      fun n hn => hrest n (List.mem_cons_of_mem _ hn), fun n hn => ?_⟩)
      (twp_reconcileNode hu hut hmem hexp))
    rcases hdone n hn with hin | hsettled
    · rcases List.mem_cons.mp hin with rfl | hin
      · exact .inr hv.2
      · exact .inl hin
    · refine .inr fun n' hn' hc => ?_
      obtain ⟨m, hm, hmark⟩ := hv.1.origin hn'
      exact (hsettled m hm (hmark.createdAt.symm.trans hc)).mark hmark hv.1.manifests

def Beyond (exp : ExperimentId) (cursor : Option Nat) (n : NodeRow) : Prop :=
  n.experimentId = exp ∧ ∀ c ∈ cursor, asI64 c < asI64 n.createdAt

theorem selects_pageFilter {exp : ExperimentId} {cursor : Option Nat} {n : NodeRow} :
    (pageFilter exp cursor).selects n = true ↔ Beyond exp cursor n := by
  cases cursor <;> simp [QueryFilter.selects, pageFilter, QueryFilter.new, Beyond]

def remaining (exp : ExperimentId) (cursor : Option Nat) (db : MetaDb) : List NodeRow :=
  db.nodes.filter (pageFilter exp cursor).selects

theorem mem_remaining {exp : ExperimentId} {cursor : Option Nat} {db : MetaDb} {n : NodeRow} :
    n ∈ remaining exp cursor db ↔ n ∈ db.nodes ∧ Beyond exp cursor n := by
  rw [remaining, List.mem_filter, selects_pageFilter]

theorem Reconciles.length_remaining {s t : World} (h : Reconciles s t) (exp : ExperimentId)
    (cursor : Option Nat) :
    (remaining exp cursor t.db).length = (remaining exp cursor s.db).length := by
  obtain ⟨f, hf, hmark⟩ := h.nodes
  rw [remaining, remaining, hf, List.filter_map, List.length_map]
  congr 2
  funext n
  rw [Function.comp_apply, Bool.eq_iff_iff, selects_pageFilter, selects_pageFilter, Beyond,
    (hmark n).experimentId, (hmark n).createdAt, Beyond]

theorem length_remaining_lt {exp : ExperimentId} {cursor : Option Nat} {db : MetaDb}
    {last : NodeRow} (hlast : last ∈ remaining exp cursor db) :
    (remaining exp (some last.createdAt) db).length < (remaining exp cursor db).length := by
  have hsub : remaining exp (some last.createdAt) db =
      (remaining exp cursor db).filter (pageFilter exp (some last.createdAt)).selects := by
    rw [remaining, remaining, List.filter_filter]
    refine List.filter_congr fun n hn => ?_
    rw [Bool.eq_iff_iff, Bool.and_eq_true, selects_pageFilter, selects_pageFilter]
    constructor
    · intro h
      refine ⟨h, h.1, fun c hc => ?_⟩
      exact ((mem_remaining.mp hlast).2.2 c hc).trans (h.2 _ rfl)
    · exact fun h => h.1
  rw [hsub, List.length_filter_lt_length_iff_exists]
  refine ⟨last, hlast, ?_⟩
  rw [selects_pageFilter]
  exact fun h => lt_irrefl _ (h.2 _ rfl)

def StampsFit (db : MetaDb) : Prop := ∀ n ∈ db.nodes, n.createdAt < 2 ^ 64

theorem Reconciles.stampsFit {s t : World} (h : Reconciles s t) (hs : StampsFit s.db) :
    StampsFit t.db := by
  intro n' hn'
  obtain ⟨n, hn, hmark⟩ := h.origin hn'
  exact hmark.createdAt ▸ hs n hn

theorem twp_metaRead {α : Type} {f : MetaDb → α} {s : World}
    {Q : Except MetaError α → World → Prop} (hQ : Q (.ok (f s.db)) s) :
    twp Oracle.Quiet (metaRead f).run Q s := by
  refine twp_atomic fun o ho => ?_
  dsimp only
  rw [ho]
  exact hQ

theorem twp_reconcilePages {exp : ExperimentId} (fuel : Nat) {cursor : Option Nat} {t : World}
    (hfuel : (remaining exp cursor t.db).length < fuel) (honce : t.db.CreatedOnce)
    (hfit : StampsFit t.db)
    (hopen : ∀ n ∈ t.db.nodes, n.experimentId = exp → Settled t n ∨ Beyond exp cursor n) :
    twp Oracle.Quiet (reconcilePages exp fuel cursor) (fun _ v => Reconciles t v ∧
      ∀ n ∈ v.db.nodes, n.experimentId = exp → Settled v n) t := by
  induction fuel generalizing cursor t with
  | zero => exact absurd hfuel (Nat.not_lt_zero _)
  | succ fuel ih =>
    refine twp_bind (twp_metaRead ?_)
    have hpage : t.db.queryNodes (pageFilter exp cursor) =
        Paging.page (fun n => asI64 n.createdAt) 512 (remaining exp cursor t.db) := rfl
    have hinj : ∀ b ∈ remaining exp cursor t.db, ∀ c ∈ remaining exp cursor t.db,
        asI64 b.createdAt = asI64 c.createdAt → b = c := by
      intro b hb c hc heq
      have hb := (mem_remaining.mp hb).1
      have hc := (mem_remaining.mp hc).1
      exact honce b hb c hc (asI64_inj (hfit b hb) (hfit c hc) heq)
    dsimp only
    rw [hpage]
    generalize hnodes : Paging.page (fun n => asI64 n.createdAt) 512 (remaining exp cursor t.db) = nodes
    have hmem : ∀ n ∈ nodes, n ∈ remaining exp cursor t.db := by
      subst hnodes
      exact fun n => Paging.mem_of_mem_page
    cases hlast : nodes.getLast? with
    | none =>
      -- an empty page: nothing is beyond the cursor
      have hnil : nodes = [] := List.getLast?_eq_none_iff.mp hlast
      refine ⟨.refl t, fun n hn hexp => (hopen n hn hexp).resolve_right fun hb => ?_⟩
      have hin : n ∈ nodes := by
        subst hnodes
        refine Paging.mem_page_of_length_lt ?_ (mem_remaining.mpr ⟨hn, hb⟩)
        rw [hnil]
        decide
      rw [hnil] at hin
      cases hin
    | some last =>
      dsimp only
      refine twp_bind (twp_mono (fun k v hv => ?_) (twp_reconcileNodes exp honce fun n hn =>
        ⟨(mem_remaining.mp (hmem n hn)).1, (mem_remaining.mp (hmem n hn)).2.1⟩))
      obtain ⟨htv, hdone⟩ := hv
      -- a row of the new table is settled if its original is settled or on the page
      have hrow : ∀ n ∈ v.db.nodes, n.experimentId = exp →
          Settled v n ∨ ∃ m ∈ remaining exp cursor t.db, Marked m n ∧ m ∉ nodes := by
        intro n hn hexp
        obtain ⟨m, hm, hmark⟩ := htv.origin hn
        by_cases hin : m ∈ nodes
        · exact .inl (hdone m hin n hn hmark.createdAt)
        · rcases hopen m hm (hmark.experimentId.symm.trans hexp) with hs | hb
          · exact .inl (hs.mark hmark htv.manifests)
          · exact .inr ⟨m, mem_remaining.mpr ⟨hm, hb⟩, hmark, hin⟩
      split
      · next hshort =>
        refine ⟨htv, fun n hn hexp => (hrow n hn hexp).resolve_right fun hm => ?_⟩
        obtain ⟨m, hm, -, hout⟩ := hm
        subst hnodes
        exact hout (Paging.mem_page_of_length_lt hshort hm)
      · refine twp_bind (twp_mono (fun _ w hw => ⟨htv.trans hw.1, hw.2⟩) (ih ?_
          (htv.createdOnce honce) (htv.stampsFit hfit) fun n hn hexp => ?_))
        · rw [htv.length_remaining]
          have hlt := length_remaining_lt (hmem last (List.mem_of_getLast? hlast))
          omega
        · rcases hrow n hn hexp with hs | ⟨m, hm, hmark, hout⟩
          · exact .inl hs
          · refine .inr ⟨hexp, fun c hc => ?_⟩
            cases hc
            subst hnodes
            rw [hmark.createdAt]
            exact (Paging.mem_page_or_lt hinj hm hlast).resolve_left hout

theorem twp_reconcileExperiment (exp : ExperimentId) {t : World} (honce : t.db.CreatedOnce)
    (hfit : StampsFit t.db) :
    twp Oracle.Quiet (reconcileExperiment exp) (fun _ v => Reconciles t v ∧
      ∀ n ∈ v.db.nodes, n.experimentId = exp → Settled v n) t := by
  refine twp_bind (twp_atomic fun o ho => ?_)
  refine twp_reconcilePages _ (Nat.lt_succ_of_le (List.length_filter_le _ _)) honce hfit ?_
  exact fun n hn hexp => .inr ⟨hexp, by simp⟩

theorem twp_reconcileSnapshotRefs {s : World} (honce : s.db.CreatedOnce) (hfit : StampsFit s.db) :
    twp Oracle.Quiet reconcileSnapshotRefs (fun _ v => Reconciles s v ∧
      ∀ n ∈ v.db.nodes, Settled v n) s := by
  refine twp_bind (twp_metaRead ?_)
  refine twp_mono (fun _ v hv => ⟨hv.1, fun n hn => ?_⟩) (twp_foldlM
    (fun _ rest t => Reconciles s t ∧ ∀ n ∈ t.db.nodes, n.experimentId ∈ rest ∨ Settled t n)
    (fun k exp rest t ht => ?_) s.db.listExperiments 0 s ⟨.refl s, fun n hn => ?_⟩)
  · exact (hv.2 n hn).resolve_left List.not_mem_nil
  · obtain ⟨hst, hrest⟩ := ht
    refine twp_bind (twp_mono (fun _ v hv => ⟨hst.trans hv.1, fun n hn => ?_⟩)
      (twp_reconcileExperiment exp (hst.createdOnce honce) (hst.stampsFit hfit)))
    obtain ⟨m, hm, hmark⟩ := hv.1.origin hn
    rcases hrest m hm with hin | hs
    · rcases List.mem_cons.mp hin with heq | hin
      · exact .inr (hv.2 n hn (hmark.experimentId.trans heq))
      · exact .inl (hmark.experimentId ▸ hin)
    · exact .inr (hs.mark hmark hv.1.manifests)
  · exact .inl (MetaDb.mem_listExperiments.mpr ⟨n, hn, rfl⟩)

end Reconcile

/-! ## Usable chains -/

def Verified (s : World) (r : SnapshotRef) : Prop :=
  ∃ b, s.manifests.readName (.spm r) = some b ∧ verifyManifest r b = .ok b

/-- The whole chain of a reference is stored, is not too long and has one memory size. -/
def Usable (s : World) (r : SnapshotRef) : Prop :=
  ∃ l ram, Chain s r l ∧ l.length ≤ SnapshotStore.maxChain ∧ ∀ e ∈ l, e.2.guestRamBytes = ram

theorem Keeps.manifestAt {s t : World} (h : Keeps s t) : manifestAt t = manifestAt s := by
  funext r
  rw [SnapshotStore.manifestAt, h.files, SnapshotStore.manifestAt]

theorem Purges.manifestAt {s t : World} (h : Purges s t) : manifestAt t = manifestAt s := by
  funext r
  rcases h.files r with hst | ⟨hnone, hbad⟩
  · rw [SnapshotStore.manifestAt, hst, SnapshotStore.manifestAt]
  · rw [SnapshotStore.manifestAt, hnone, eq_comm, ← Option.not_isSome_iff_eq_none]
    intro hsome
    obtain ⟨m, hm⟩ := Option.isSome_iff_exists.mp hsome
    obtain ⟨b, hread, hverify, -⟩ := manifestAt_eq_some.mp hm
    refine hbad fun b' hb' => ?_
    rw [hread, Option.some.injEq] at hb'
    exact hb' ▸ hverify

omit [Primitives] in
theorem mem_gcRootRefs {db : MetaDb} {r : SnapshotRef} :
    r ∈ db.gcRootRefs ↔ (∃ n ∈ db.nodes, n.snapshotRef = r) ∨ ∃ p ∈ db.pins, p.snapshotRef = r := by
  rw [MetaDb.gcRootRefs, List.mem_dedup, List.mem_append, List.mem_map, List.mem_map]

omit [Primitives] in
theorem Reconciles.mem_gcRootRefs {s t : World} (h : Reconciles s t) {r : SnapshotRef}
    (hr : r ∈ t.db.gcRootRefs) : r ∈ s.db.gcRootRefs := by
  rw [Startup.mem_gcRootRefs] at hr ⊢
  rcases hr with ⟨n', hn', hr⟩ | hpin
  · obtain ⟨n, hn, hmark⟩ := h.origin hn'
    exact .inl ⟨n, hn, hmark.snapshotRef.symm.trans hr⟩
  · exact .inr (h.pins ▸ hpin)

end Startup

open Startup

namespace Sample

attribute [local instance] primitives

def nodeOn (id : NodeId) (parent : Option NodeId) (r : SnapshotRef) : CreateNodeParams where
  experimentId := "exp"
  nodeId := id
  parentNodeId := parent
  snapshotRef := r
  inputLogId := none
  inlineLogContainer := none
  status := .frontier
  score := none
  icount := 0
  virtualNs := 0
  attrs := none

/-- A store with two manifests, one on top of the other, and a node for each of them. -/
def chained : World :=
  match Prog.run quiet 1000 (do
      let _ ← openStore options
      let _ ← (putSnapshot 0 (link 0).encode).run
      let _ ← (putSnapshot 0 (link 1).encode).run
      let _ ← (Server.createNode 0 (nodeOn 0 none (linkRef 0))).run
      (Server.createNode 0 (nodeOn 1 (some 0) (linkRef 1))).run : P _) World.empty with
  | some (_, s) => s
  | none => World.empty

def without (i : Nat) : World :=
  { chained with manifests := chained.manifests.unlink (.spm (linkRef i)) }

theorem db_without (i : Nat) : (without i).db = chained.db := by
  rw [without]

theorem manifests_without (i : Nat) :
    (without i).manifests = chained.manifests.unlink (.spm (linkRef i)) := by
  rw [without]

def startup : StartupE Nat := runStartup options (.ok (some storeVersion))

theorem intact_chained : chained.db.Intact := by
  obtain ⟨s, hs, -, hactor⟩ := History.Reach.initial.executeBatch rfl .good
    [.createNode (nodeOn 0 none (linkRef 0)), .createNode (nodeOn 1 (some 0) (linkRef 1))]
  refine ⟨0, s, hs, ?_⟩
  rw [hactor]
  decide +kernel

theorem stampsFit_chained : StampsFit chained.db := by
  unfold StampsFit
  decide +kernel

def inShards (s : World) : Bool := s.manifests.names.all fun
  | .spm r => decide (shardOf r ∈ s.shardDirs)
  | .tmp _ => true

theorem shardOf_of_inShards {s : World} (h : inShards s = true) {r : SnapshotRef} (hr : Stored s r) :
    shardOf r ∈ s.shardDirs :=
  of_decide_eq_true (List.all_eq_true.mp h _ (FileSys.mem_names.mpr hr))

def failsWith {α : Type} (e : StoreError) (x : SE α) (s : World) : Bool :=
  match Prog.run quiet 1000 x.run s with
  | some (.error e', _) => e' = e
  | _ => false

theorem ends_of_failsWith {α : Type} {e : StoreError} {x : SE α} {s : World}
    (h : failsWith e x s = true) : ∃ t, Ends Oracle.Quiet x.run s (.error e) t := by
  unfold failsWith at h
  split at h
  · next e' t heq =>
    rw [← of_decide_eq_true h]
    exact ⟨t, .of_run (fun _ _ => rfl) heq⟩
  · cases h

theorem usable_link {s : World} {i : Nat} (hi : i < SnapshotStore.maxChain)
    (h : ∀ j ≤ i, s.manifests.readName (.spm (linkRef j)) = some (link j).encode) :
    Usable s (linkRef i) := by
  have hfit : SnapshotStore.maxChain < 2 ^ 32 := by decide
  have hat : ∀ j ≤ i, manifestAt s (linkRef j) = some (link j) := by
    intro j hj
    have hdecode := Manifest.decode_encode (wellFormed_link (n := j) (by omega))
    exact manifestAt_eq_some.mpr ⟨_, h j hj, verifyManifest_of_decode hdecode, hdecode⟩
  have hchain : ∀ j ≤ i, ∃ l, Chain s (linkRef j) l ∧ l.length = j + 1 ∧
      ∀ e ∈ l, e.2.guestRamBytes = 0 := by
    intro j
    induction j with
    | zero => exact fun hj => ⟨_, .root (hat 0 hj) rfl, rfl, by simp [link]⟩
    | succ j ih =>
      intro hj
      obtain ⟨l, hl, hlen, hram⟩ := ih (by omega)
      refine ⟨_, .child (hat (j + 1) hj) (parent_link j) hl, by rw [List.length_cons, hlen], ?_⟩
      exact List.forall_mem_cons.mpr ⟨rfl, hram⟩
  obtain ⟨l, hl, hlen, hram⟩ := hchain i le_rfl
  exact ⟨l, 0, hl, by omega, hram⟩

theorem readName_chained {i : Nat} (hi : i < 2) :
    chained.manifests.readName (.spm (linkRef i)) = some (link i).encode := by
  have hfiles : ∀ i < 2, chained.manifests.readName (.spm (linkRef i)) = some (link i).encode := by
    decide +kernel
  exact hfiles i hi

theorem readName_without {i j : Nat} (hi : i < 2) (hj : j < 2) :
    (without j).manifests.readName (.spm (linkRef i)) = if i = j then none else some (link i).encode := by
  rw [manifests_without, FileSys.readName_unlink]
  by_cases heq : i = j
  · rw [if_pos heq, if_pos (congrArg _ (congrArg _ heq))]
  · have hne : linkRef i ≠ linkRef j := fun h => heq (linkRef_injective (by omega) (by omega) h)
    rw [if_neg heq, if_neg (by simpa using hne), readName_chained hi]

theorem root_chained {r : SnapshotRef} (h : r ∈ chained.db.gcRootRefs) : ∃ i < 2, r = linkRef i := by
  have hroots : ∀ r ∈ chained.db.gcRootRefs, ∃ i < 2, r = linkRef i := by decide +kernel
  exact hroots r h

end Sample

end SnapStore
