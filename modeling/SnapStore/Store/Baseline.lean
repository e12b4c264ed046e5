import SnapStore.Store.Chains

/-!
# Restoring from a baseline

A client that holds the pages of an ancestor asks only for the pages that have changed since.
-/

namespace SnapStore

open Disk Conc SnapshotStore

/-- `full` is `old` with the pages of `delta`, which are in ascending order, in place of its own. -/
def Overlays (full delta old : List ManifestEntry) : Prop :=
  (delta.map (·.pageIndex)).Pairwise (· < ·) ∧
  ∀ i, full[i]? = (delta.find? fun e => e.pageIndex = i).or old[i]?

section Baseline

variable [Primitives] {s : World} {cache : FlattenCache} {r b : SnapshotRef}
  {l : List (SnapshotRef × Manifest)} {ram : Nat}

def FlattenCache.Coherent (cache : FlattenCache) (s : World) : Prop :=
  ∀ e ∈ cache.entries, ∀ l, Chain s e.1 l → Manifest.flatten (l.map (·.2)) = .ok e.2

/-- Without I/O errors `resolve_pages` succeeds with these entries, and the cache stays coherent. -/
def Yields (s : World) (cache : FlattenCache) (r : SnapshotRef) (baseline : Option SnapshotRef)
    (entries : List ManifestEntry) : Prop :=
  ∀ hashesOnly, twpE Oracle.Quiet (fun _ _ => False) (resolvePages cache r baseline hashesOnly)
    (fun out t => out.1 = .start entries hashesOnly ∧ out.2.Coherent t) s

theorem FlattenCache.Coherent.flattenChain {full : List ManifestEntry} (hc : cache.Coherent s)
    (hl : Chain s r l) (hfull : Manifest.flatten (l.map (·.2)) = .ok full) :
    ∃ cache', flattenChain cache l r = .ok (full, cache') ∧ cache'.Coherent s := by
  unfold SnapshotStore.flattenChain FlattenCache.get
  cases hget : cache.entries.find? fun e => e.1 = r with
  | some e =>
    obtain rfl : e.1 = r := by simpa using List.find?_some hget
    have heq := hc e (List.mem_of_find?_eq_some hget) l hl
    rw [hfull] at heq
    cases heq
    exact ⟨cache, rfl, hc⟩
  | none =>
    simp only [Option.map_none, hfull]
    refine ⟨_, rfl, fun e he l' hl' => ?_⟩
    have hmem : e ∈ (r, full) :: (cache.remove r).entries := by
      unfold FlattenCache.insert at he
      dsimp only at he
      split at he
      · exact List.mem_of_mem_dropLast he
      · exact he
    rcases List.mem_cons.mp hmem with rfl | hmem
    · rw [hl'.unique hl]
      exact hfull
    · exact hc e (List.eraseP_subset hmem) l' hl'

theorem twpE_walkChain (hl : Chain s r l) (hlen : l.length ≤ SnapshotStore.maxChain) :
    twpE Oracle.Quiet (fun _ _ => False) (walkChain SnapshotStore.maxChain r [])
      (fun l' t => l' = l ∧ t = s) s := by
  refine twp_mono (fun res t ht => ?_) (twp_walkChain hl SnapshotStore.maxChain [])
  rw [if_pos hlen] at ht
  rw [ht.2]
  exact ⟨rfl, ht.1⟩

theorem yields_flatten {full : List ManifestEntry} (hc : cache.Coherent s) (hl : Chain s r l)
    (hlen : l.length ≤ SnapshotStore.maxChain) (hfull : Manifest.flatten (l.map (·.2)) = .ok full) :
    Yields s cache r none full := by
  intro hashesOnly
  refine twpE_seq (twpE_walkChain hl hlen) fun l' t ht => ?_
  obtain ⟨rfl, rfl⟩ := ht
  obtain ⟨cache', hflat, hc'⟩ := hc.flattenChain hl hfull
  dsimp only
  rw [hflat]
  exact ⟨rfl, hc'⟩

theorem yields_flattenDelta {pre post : List (SnapshotRef × Manifest)} (hc : cache.Coherent s)
    (hl : Chain s r (pre ++ post)) (hpost : Chain s b post) (hb : b ∉ pre.map (·.1))
    (hlen : (pre ++ post).length ≤ SnapshotStore.maxChain) {delta : List ManifestEntry}
    (hdelta : pre = [] ∧ delta = [] ∨
      pre ≠ [] ∧ Manifest.flattenDelta (pre.map (·.2)) = .ok delta) :
    Yields s cache r (some b) delta := by
  intro hashesOnly
  refine twpE_seq (twpE_walkChain hl hlen) fun l' t ht => ?_
  obtain ⟨rfl, rfl⟩ := ht
  obtain ⟨m, rest, rfl, -⟩ := hpost.head
  have hpos : (pre ++ (b, m) :: rest).findIdx? (fun e => e.1 = b) = some pre.length := by
    rw [List.findIdx?_append, List.findIdx?_eq_none_iff.mpr, List.findIdx?_cons]
    · simp
    · intro e he
      exact decide_eq_false fun heq => hb (heq ▸ List.mem_map_of_mem he)
  dsimp only
  rw [hpos]
  dsimp only
  rw [List.take_left]
  rcases hdelta with ⟨rfl, rfl⟩ | ⟨hne, hdelta⟩
  · exact ⟨rfl, hc⟩
  · rw [if_neg (by simpa using hne), hdelta]
    exact ⟨rfl, hc⟩

end Baseline

namespace Sample

attribute [local instance] primitives

end Sample

end SnapStore
