import SnapStore.Gc.Engine
import SnapStore.Lineage
import SnapStore.Manifest.Codec
import SnapStore.Pagestore.Alone

/-!
# Resolving a snapshot

`resolve_pages` walks the parent chain of a reference and flattens it, as a whole or from a
baseline on.  A small cache keeps flattened chains.
-/

namespace SnapStore

open Disk Conc

structure FlattenCache where
  cap : Nat
  entries : List (SnapshotRef × List ManifestEntry)

namespace FlattenCache

def get (c : FlattenCache) (r : SnapshotRef) : Option (List ManifestEntry) :=
  (c.entries.find? fun e => e.1 = r).map (·.2)

def remove (c : FlattenCache) (r : SnapshotRef) : FlattenCache :=
  { c with entries := c.entries.eraseP fun e => e.1 = r }

def insert (c : FlattenCache) (r : SnapshotRef) (v : List ManifestEntry) : FlattenCache :=
  let entries := (r, v) :: (c.remove r).entries
  { c with entries := if c.cap < entries.length then entries.dropLast else entries }

end FlattenCache

/-- Page index, page hash and payload; there is no payload in hashes-only mode. -/
abbrev ResolvedPage := Nat × PageHash × Option Bytes

structure ResolvedPages where
  entries : List ManifestEntry
  pos : Nat
  hashesOnly : Bool
  chunk : List (Except StoreError ResolvedPage)

def ResolvedPages.start (entries : List ManifestEntry) (hashesOnly : Bool) : ResolvedPages :=
  ⟨entries, 0, hashesOnly, []⟩

namespace SnapshotStore

variable [Primitives]

/-- The parent chain of a reference, child first; `fuel` counts down from `MAX_CHAIN`. -/
def walkChain : Nat → SnapshotRef → List (SnapshotRef × Manifest) →
    SE (List (SnapshotRef × Manifest))
  | 0, _, _ => throw .chainDepthExceeded
  | fuel + 1, cursor, chain => do
    let m ← readManifest cursor
    let chain := chain ++ [(cursor, m)]
    if m.delta then
      match m.parent with
      | some p => walkChain fuel p chain
      | none => throw (.pageStore .panicked)
    else return chain

omit [Primitives] in
/-- `flatten_chain`: from the cache, or computed and cached. -/
def flattenChain (cache : FlattenCache) (chain : List (SnapshotRef × Manifest)) (r : SnapshotRef) :
    Except StoreError (List ManifestEntry × FlattenCache) :=
  match cache.get r with
  | some entries => .ok (entries, cache)
  | none =>
    match Manifest.flatten (chain.map (·.2)) with
    | .error e => .error (.flatten e)
    | .ok entries => .ok (entries, cache.insert r entries)

/-- Resolve a reference: the whole chain, or the DELTA manifests below the baseline. -/
def resolvePages (cache : FlattenCache) (r : SnapshotRef) (baseline : Option SnapshotRef)
    (hashesOnly : Bool) : SE (ResolvedPages × FlattenCache) := do
  let chain ← walkChain maxChain r []
  match baseline with
  | none =>
    let (entries, cache) ← ofExcept id (flattenChain cache chain r)
    return (.start entries hashesOnly, cache)
  | some b =>
    match chain.findIdx? fun e => e.1 = b with
    | none => throw .baselineNotAncestor
    | some pos =>
      let segment := (chain.take pos).map (·.2)
      if segment = [] then return (.start [] hashesOnly, cache) else
      let merged ← ofExcept .flatten (Manifest.flattenDelta segment)
      return (.start merged hashesOnly, cache)

/-! ## Stored chains -/

def manifestAt (s : World) (r : SnapshotRef) : Option Manifest :=
  match s.manifests.readName (.spm r) with
  | none => none
  | some b => if verifyManifest r b = .ok b then (Manifest.decode b).toOption else none

abbrev Chain (s : World) : SnapshotRef → List (SnapshotRef × Manifest) → Prop :=
  Lineage (manifestAt s) (·.parent)

theorem manifestAt_eq_some {s : World} {r : SnapshotRef} {m : Manifest} :
    manifestAt s r = some m ↔ ∃ b, s.manifests.readName (.spm r) = some b ∧
      verifyManifest r b = .ok b ∧ Manifest.decode b = .ok m := by
  unfold manifestAt
  cases hr : s.manifests.readName (.spm r) with
  | none => simp
  | some b =>
    constructor
    · intro h
      dsimp only at h
      split at h
      · next hv =>
        refine ⟨b, rfl, hv, ?_⟩
        cases hd : Manifest.decode b with
        | ok m' =>
          rw [hd] at h
          rw [Option.some.inj h]
        | error e =>
          rw [hd] at h
          cases h
      · cases h
    · intro h
      obtain ⟨b', hb, hv, hd⟩ := h
      cases hb
      dsimp only
      rw [if_pos hv, hd]
      rfl

end SnapshotStore

open SnapshotStore

variable [Primitives]

/-! ## Walks along a stored chain -/

section Walks

variable {s : World} {r : SnapshotRef} {m : Manifest} {l : List (SnapshotRef × Manifest)}

theorem hasManifest_of_manifestAt (h : manifestAt s r = some m) : hasManifest s r = true := by
  obtain ⟨b, hread, -⟩ := manifestAt_eq_some.mp h
  rw [FileSys.readName, Option.map_eq_some_iff] at hread
  obtain ⟨i, hi, -⟩ := hread
  rw [hasManifest, hi]
  rfl

theorem twpE_readManifestBytesNoting {bad : StoreError → World → Prop} (note : Ghost → Ghost)
    (h : manifestAt s r = some m) :
    twpE Oracle.Quiet bad (readManifestBytesNoting note r)
      (fun b t => Manifest.decode b = .ok m ∧ t = s) s := by
  obtain ⟨b, hread, hverify, hdecode⟩ := manifestAt_eq_some.mp h
  have hhas := hasManifest_of_manifestAt h
  refine twpE_bind (twpE_action fun o _ => ⟨true, s, if_pos hhas, ?_⟩)
  refine twpE_bind (twpE_observe fun o ho => ⟨b, ?_, ?_⟩)
  · rw [ho, hread]
  · rw [hverify]
    exact ⟨hdecode, rfl⟩

theorem twpE_readManifest {bad : StoreError → World → Prop} (h : manifestAt s r = some m) :
    twpE Oracle.Quiet bad (readManifest r) (fun m' t => m' = m ∧ t = s) s := by
  refine twpE_seq (twpE_readManifestBytesNoting id h) fun b t hb => ?_
  obtain ⟨hdecode, rfl⟩ := hb
  rw [hdecode]
  exact ⟨rfl, rfl⟩

theorem delta_eq_isSome (h : manifestAt s r = some m) : m.delta = m.parent.isSome := by
  obtain ⟨b, -, -, hdecode⟩ := manifestAt_eq_some.mp h
  rw [Bool.eq_iff_iff]
  exact Manifest.decode_delta hdecode

theorem twp_walkChain (h : Chain s r l) (fuel : Nat) (acc : List (SnapshotRef × Manifest)) :
    twp Oracle.Quiet (walkChain fuel r acc).run (fun res t => t = s ∧
      res = if l.length ≤ fuel then .ok (acc ++ l) else .error .chainDepthExceeded) s := by
  induction fuel generalizing r l acc with
  | zero =>
    obtain ⟨m, t, rfl, -⟩ := h.head
    exact ⟨rfl, rfl⟩
  | succ fuel ih =>
    obtain ⟨m, t, hl, hm⟩ := h.head
    refine twp_seqE (twpE_readManifest hm) fun m' u hu => ?_
    obtain ⟨rfl, rfl⟩ := hu
    have hd := delta_eq_isSome hm
    cases h with
    | root hm' hp =>
      obtain rfl := Option.some.inj (hm.symm.trans hm')
      rw [hp, Option.isSome_none] at hd
      dsimp only
      rw [hd]
      exact ⟨rfl, by simp⟩
    | @child i p m'' l' hm' hp hl' =>
      obtain rfl := Option.some.inj (hm.symm.trans hm')
      rw [hp, Option.isSome_some] at hd
      dsimp only
      rw [hd, hp]
      refine twp_mono (fun res t ht => ?_) (ih hl' (acc ++ [(r, m')]))
      rw [ht.2, List.length_cons, List.append_assoc]
      exact ⟨ht.1, by simp⟩

theorem flattens_of_chain (h : Chain s r l) {ram : Nat}
    (hram : ∀ e ∈ l, e.2.guestRamBytes = ram) : Manifest.Flattens (l.map (·.2)) ram := by
  have hmem : ∀ m ∈ l.map (·.2), ∃ b, Manifest.decode b = .ok m ∧ m.guestRamBytes = ram := by
    intro m hm
    obtain ⟨⟨q, m'⟩, he, rfl⟩ := List.mem_map.mp hm
    obtain ⟨b, -, -, hdecode⟩ := manifestAt_eq_some.mp (h.find_of_mem he)
    exact ⟨b, hdecode, hram _ he⟩
  refine ⟨?_, fun m hm => ?_, fun m hm e he => ?_, fun m hm hfull => ?_⟩
  · obtain ⟨q, m, hlast, hp⟩ := h.getLast
    refine ⟨m, by rw [List.getLast?_map, hlast]; rfl, ?_⟩
    rw [delta_eq_isSome (h.find_of_mem (List.mem_of_getLast? hlast)), hp]
    rfl
  · obtain ⟨b, -, hr⟩ := hmem m hm
    exact hr
  · obtain ⟨b, hdecode, hr⟩ := hmem m hm
    rw [← hr]
    exact (Manifest.decode_entries hdecode).1 e he
  · obtain ⟨b, hdecode, hr⟩ := hmem m hm
    rw [← hr]
    exact (Manifest.decode_entries hdecode).2 hfull

theorem flattenChain_ok (h : Chain s r l) {ram : Nat} (hram : ∀ e ∈ l, e.2.guestRamBytes = ram)
    (cache : FlattenCache) : ∃ out, flattenChain cache l r = .ok out := by
  obtain ⟨entries, hflat, -⟩ := Manifest.flatten_ok (flattens_of_chain h hram)
  unfold flattenChain
  split
  · exact ⟨_, rfl⟩
  · rw [hflat]
    exact ⟨_, rfl⟩

theorem twp_resolvePages (h : Chain s r l) {ram : Nat} (hram : ∀ e ∈ l, e.2.guestRamBytes = ram)
    (cache : FlattenCache) (hashesOnly : Bool) :
    twp Oracle.Quiet (resolvePages cache r none hashesOnly).run (fun res _ =>
      (l.length ≤ SnapshotStore.maxChain → ∃ out, res = .ok out) ∧
      (SnapshotStore.maxChain < l.length → res = .error .chainDepthExceeded)) s := by
  refine twp_bind (twp_mono (fun res t ht => ?_) (twp_walkChain h SnapshotStore.maxChain []))
  obtain ⟨rfl, hres⟩ := ht
  by_cases hlen : l.length ≤ SnapshotStore.maxChain
  · rw [if_pos hlen, List.nil_append] at hres
    subst hres
    obtain ⟨⟨entries, cache'⟩, hflat⟩ := flattenChain_ok h hram cache
    have hres : twp Oracle.Quiet (ExceptT.run do
        let (entries, cache) ← ofExcept id (flattenChain cache l r)
        return (ResolvedPages.start entries hashesOnly, cache))
        (fun res _ => ∃ out, res = .ok out) t := by
      rw [hflat]
      exact ⟨_, rfl⟩
    exact twp_mono (fun _ _ hok => ⟨fun _ => hok, fun hlt => absurd hlen (Nat.not_le.mpr hlt)⟩) hres
  · rw [if_neg hlen] at hres
    subst hres
    exact ⟨fun hle => absurd hle hlen, fun _ => rfl⟩

theorem twpE_readForMark {bad : StoreError → World → Prop} (isRoot : Bool)
    (h : manifestAt s r = some m) :
    twpE Oracle.Quiet bad (Gc.readForMark isRoot r)
      (fun res t => (∃ b, res = some b ∧ Manifest.decode b = .ok m) ∧ t = s) s := by
  have hread : twpE Oracle.Quiet (fun _ _ => False)
      (readManifestBytesNoting (Gc.noteDangling isRoot r) r) _ s := twpE_readManifestBytesNoting _ h
  refine twp_bind (twp_mono (fun res t ht => ?_) hread)
  cases res with
  | ok b => exact ⟨⟨b, rfl, ht.1⟩, ht.2⟩
  | error e => exact ht.elim

theorem twp_markChain (h : Chain s r l) (fuel : Nat) (isRoot : Bool) (live : LiveSet)
    (report : SweepReport) :
    twp Oracle.Quiet (Gc.markChain fuel isRoot r (live, report)).run (fun res t => t = s ∧
      (l.length ≤ fuel → ∃ st, res = .ok st) ∧
      (fuel < l.length → (∀ e ∈ l, e.1 ∉ live.manifests) → res = .error .chainDepthExceeded)) s := by
  induction fuel generalizing r l isRoot live with
  | zero =>
    obtain ⟨m, t, rfl, -⟩ := h.head
    exact ⟨rfl, by simp, fun _ _ => rfl⟩
  | succ fuel ih =>
    obtain ⟨m, t, hl, hm⟩ := h.head
    rw [Gc.markChain]
    split
    · next hmarked =>
      exact ⟨rfl, fun _ => ⟨_, rfl⟩, fun _ hnone => absurd hmarked (hnone (r, m) (by simp [hl]))⟩
    · refine twp_seqE (twpE_readForMark isRoot hm) fun res u hu => ?_
      obtain ⟨⟨b, rfl, hdecode⟩, rfl⟩ := hu
      dsimp only
      rw [hdecode]
      refine twp_seqE (twpE_ofExcept (Q := fun m' t => m' = m ∧ t = u) ⟨rfl, rfl⟩) fun m' v hv => ?_
      obtain ⟨rfl, rfl⟩ := hv
      have hd := delta_eq_isSome hm
      cases h with
      | root hm' hp =>
        obtain rfl := Option.some.inj (hm.symm.trans hm')
        rw [hd, hp]
        exact ⟨rfl, fun _ => ⟨_, rfl⟩, by simp⟩
      | @child i p m'' l' hm' hp hl' =>
        obtain rfl := Option.some.inj (hm.symm.trans hm')
        rw [hd, hp]
        refine twp_mono (fun res t ht => ⟨ht.1, fun hle => ht.2.1 ?_, fun hlt hnone => ht.2.2 ?_ ?_⟩)
          (ih hl' false (Gc.LiveSet.mark live r m'))
        · exact Nat.le_of_succ_le_succ hle
        · exact Nat.lt_of_succ_lt_succ hlt
        · intro e he hmem
          have hnodup := (Lineage.child hm' hp hl').nodup
          rw [List.map_cons, List.nodup_cons] at hnodup
          rcases List.mem_insert_iff.mp hmem with heq | hmem
          · have hin : e.1 ∈ l'.map (·.1) := List.mem_map_of_mem he
            rw [heq] at hin
            exact hnodup.1 hin
          · exact hnone e (List.mem_cons_of_mem _ he) hmem

theorem twpE_markChain_missing {bad : StoreError → World → Prop} (h : hasManifest s r = false)
    (fuel : Nat) (live : LiveSet) (report : SweepReport) :
    twpE Oracle.Quiet bad (Gc.markChain (fuel + 1) true r (live, report))
      (fun st t => t.manifests = s.manifests ∧ (r ∉ live.manifests → st = (live,
        { report with missingRootManifests := report.missingRootManifests + 1 }))) s := by
  rw [Gc.markChain]
  split
  · next hlive => exact ⟨rfl, fun hnot => absurd hlive hnot⟩
  · have hread : twpE Oracle.Quiet (fun _ _ => False) (Gc.readForMark true r)
        (fun res t => res = none ∧ t.manifests = s.manifests) s := by
      refine twp_bind (twp_bind (twp_atomic fun o _ => ?_))
      rw [h]
      exact ⟨rfl, rfl⟩
    refine twp_seqE hread fun res t ht => ?_
    rw [ht.1]
    exact ⟨ht.2, fun _ => rfl⟩

theorem manifestAt_congr {t : World} (h : t.manifests = s.manifests) : manifestAt t = manifestAt s := by
  funext r
  rw [manifestAt, h, manifestAt]

theorem twpE_mark_stored {roots : List SnapshotRef}
    (h : ∀ r ∈ roots, hasManifest s r = true → ∃ l, Chain s r l ∧ l.length ≤ SnapshotStore.maxChain)
    (st : MarkState) :
    twpE Oracle.Quiet (fun _ _ => False) (Gc.mark roots st)
      (fun _ t => t.manifests = s.manifests) s := by
  refine twpE_mono (fun _ _ hI => hI.1) (twpE_foldlM
    (fun _ rest t => t.manifests = s.manifests ∧ ∀ r ∈ rest, r ∈ roots) ?_ roots st s
    ⟨rfl, fun _ => id⟩)
  intro st r rest t ht
  obtain ⟨hfiles, hrest⟩ := ht
  have hmark : twpE Oracle.Quiet (fun _ _ => False)
      (Gc.markChain SnapshotStore.maxChain true r st) (fun _ u => u.manifests = t.manifests) t := by
    cases hhas : hasManifest s r with
    | false =>
      refine twpE_mono (fun _ _ hu => hu.1) (twpE_markChain_missing ?_ 4095 st.1 st.2)
      rw [hasManifest, hfiles]
      exact hhas
    | true =>
      obtain ⟨l, hl, hlen⟩ := h r (hrest r List.mem_cons_self) hhas
      have hl' : Chain t r l := by
        rw [Chain, manifestAt_congr hfiles]
        exact hl
      refine twp_mono (fun res u hu => ?_)
        (twp_markChain hl' SnapshotStore.maxChain true st.1 st.2)
      obtain ⟨st', rfl⟩ := hu.2.1 hlen
      exact congrArg World.manifests hu.1
  refine twpE_mono (fun _ u hu => ⟨hu.trans hfiles, fun q hq => ?_⟩) hmark
  exact hrest q (List.mem_cons_of_mem r hq)

end Walks

end SnapStore
