import SnapStore.Gc.PackSweep
import SnapStore.Pagestore.Restart

/-!
# Complete sidecars

The sidecar of a sealed pack lists all its records.  A rotation takes the list from the index, so it
misses the records of pages that the index finds elsewhere.  This happens when the active pack was
reopened with records of pages that another pack has too; otherwise every sidecar is complete.
-/

namespace SnapStore

open Disk Conc Sharing

section Sidecars

variable [Primitives] {cap : Nat} {opts : StoreOptions} {s : World}

def SidecarsComplete (s : World) : Prop :=
  ∀ p pack e sidecar, s.pages.readName (.spk p) = some pack → PackReader.openSealed pack = .ok e →
    s.pages.readName (.idx p) = some sidecar →
    ∃ records entries, PackReader.scan pack e = .ok records ∧ decodeSidecar sidecar = .ok entries ∧
      entries.Perm (records.map fun r => (r.2, ⟨p, r.1⟩))

abbrev killedStore (opts : StoreOptions) : Machine Oracle World :=
  concurrentStore opts (fun _ => True) fun s s' => s' = s.kill

def NoFaults (opts : StoreOptions) : Label (killedStore opts) → World → World → Prop
  | .act _ o, _, _ => o.Quiet
  | .boot o, _, _ => o.Quiet
  | _, _, _ => True

/-- No write to a pack fails, and no runt file remains; at each kill the records of the pack that
the next recovery reopens are the only records of their pages. -/
def KillsApart (opts : StoreOptions) : Label (killedStore opts) → World → World → Prop
  | .act _ o, _, _ => Writes o
  | .boot o, _, _ => Recovery.Boots o
  | .crash, s, _ => Distinct s.pages
  | _, _, _ => True

theorem DiskSound.sidecarsComplete (h : DiskSound cap s.pages) (hcap : cap < recordOffset (2 ^ 32)) :
    SidecarsComplete s := by
  intro p pack e sidecar hpack hopen hsidecar
  obtain ⟨c, hc, rs, es, hclosed, hb, rfl, hlists⟩ := h.sidecar p sidecar hsidecar
  obtain rfl := Option.some.inj (hpack.symm.trans hc)
  have hn := hb.length_lt hcap
  obtain ⟨e', hopen', hscan⟩ := hclosed.scan (by omega)
  obtain rfl : e' = e := Except.ok.inj (hopen'.symm.trans hopen)
  obtain ⟨f, hlook, -⟩ := FileSys.exists_lookup_of_readName hpack
  have hid : p < 2 ^ 32 := h.ids p (by rw [hlook]; rfl)
  refine ⟨_, _, hscan, decodeSidecar_encodeSidecar (hlists.fits hid hn), ?_⟩
  have hall : Lists (fun _ => rs) p _ := .scan _ p
  refine (List.perm_ext_iff_of_nodup hlists.sortByHash.nodup hall.nodup).mpr fun x => ?_
  rw [hlists.sortByHash.mem x.1 x.2, hall.mem x.1 x.2]

theorem wp_openStore_inv {may : Oracle → World → World → Prop} (hcap : cap < recordOffset (2 ^ 32))
    (hmax : packMaxBytes ≤ cap) (hopts : opts.maxPackBytes ≤ cap)
    (hmay : ∀ o s s', may o s s' → Recovery.Boots o) (hd : Recovery.Down cap s.pages) :
    wp ⟨may, fun s => Recovery.Down cap s.pages, Eq, fun _ _ => True, fun _ => rfl,
        fun _ _ _ => Eq.trans⟩ (SnapshotStore.openStore opts)
      (fun b u => b = true → Inv cap u ∧ u.activeLock = none) s := by
  have hseed := wp_openStore_seeded (fun o _ => o.fault .pack .unlink = none) (fun _ _ => id) opts s
  have hrec : wp (Recovery.rules cap fun _ _ _ => True) _ _ _ :=
    Recovery.wp_openStore_recovered hcap hmax hopts hd
  refine wp_mono (fun b u hu hb => ?_) (wp_layer ?_ ?_ ?_ ?_ ?_ hseed hrec)
  · obtain ⟨hgc, rs, hr⟩ := hu.2 hb
    exact ⟨hr.inv hcap (hu.1 hb).1 hgc, (hu.1 hb).2⟩
  · exact fun o u v h => (hmay o u v h).unlink
  · exact fun o u v h _ _ _ => ⟨trivial, hmay o u v h⟩
  · exact fun u => (and_iff_right trivial).symm
  · exact fun u v h => ⟨h, h⟩
  · exact fun _ _ _ _ => trivial

def killedOutline (hcap : cap < recordOffset (2 ^ 32)) (hmax : packMaxBytes ≤ cap)
    (hopts : opts.maxPackBytes ≤ cap) : Outline (killedStore opts) (KillsApart opts) where
  inv := Inv cap
  down s := Recovery.Down cap s.pages
  rely c t := Rely (c.1.collects = true) t
  guar c t := Guar (c.1.collects = true) t
  post _ _ _ _ := True
  idle t s := s.activeLock ≠ some t
  rely_refl _ _ := Rely.refl
  rely_trans _ _ _ _ _ := Rely.trans
  guar_rely c d t u s s' htu hov _ _ hg :=
    ⟨hg.others u (Ne.symm htu), fun hd => hg.client fun hc => hov ⟨hc, hd⟩⟩
  guar_idle c t u s s' htu _ hg hidle hl := hidle (hg.lock u (Ne.symm htu) hl)
  body c t s _ _ _ _ := safe_call (le_trans (by decide) hmax) hopts c.1 s trivial
  boot s hd := by
    refine wp_mono (fun b u hu hb => ?_)
      (wp_openStore_inv hcap hmax hopts (fun _ _ _ h => h) hd)
    obtain ⟨hi, hl⟩ := hu hb
    refine ⟨hi, fun t ht => ?_, fun _ => trivial⟩
    rw [hl] at ht
    cases ht
  crash_up s s' hi hc hok := by
    subst hc
    exact ⟨hi.disk, hok⟩
  crash_down s s' hd hc _ := by
    subst hc
    exact hd

end Sidecars

/-! ## Samples -/

namespace Sample

attribute [local instance] primitives

instance : DecidableRel (killedStore options).overlap :=
  inferInstanceAs (DecidableRel (concurrentStore _ _ _).overlap)

def miscounted (s : World) (p : PackId) : Bool :=
  match s.pages.readName (.spk p), s.pages.readName (.idx p) with
  | some pack, some sidecar =>
    match PackReader.openSealed pack with
    | .ok e =>
      match PackReader.scan pack e, decodeSidecar sidecar with
      | .ok records, .ok entries => decide (entries.length ≠ records.length)
      | _, _ => false
    | .error _ => false
  | _, _ => false

theorem not_complete_of_miscounted {s : World} {p : PackId} (h : miscounted s p = true) :
    ¬ SidecarsComplete s := by
  intro hall
  unfold miscounted at h
  split at h
  · next pack sidecar hpack hsidecar =>
    split at h
    · next e hopen =>
      obtain ⟨records, entries, hscan, hdecode, hperm⟩ := hall p pack e sidecar hpack hopen hsidecar
      rw [hscan, hdecode] at h
      refine of_decide_eq_true h ?_
      rw [hperm.length_eq, List.length_map]
    · cases h
  · cases h

/-- A cycle has removed the page of the sealed pack from the index, and is killed before it has
unlinked the pack; in between the page was ingested again. -/
def ingestedAgain : List (Cmd (killedStore options)) :=
  [.boot quiet 100, .ready, .start ⟨.ingest [page 7], trivial⟩, .run 0 quiet 1000,
    .start ⟨.rotate, trivial⟩, .run 1 quiet 1000,
    .start ⟨.gcCycle cycle, trivial⟩, .run 2 quiet 283,
    .start ⟨.ingest [page 7], trivial⟩, .run 3 quiet 1000,
    .start ⟨.sync, trivial⟩, .run 4 quiet 1000, .crash World.kill,
    .boot quiet 1000, .ready, .start ⟨.rotate, trivial⟩, .run 0 quiet 1000]

def recordsDiffer (fs : PagesFs) : Bool :=
  let ids := fs.names.filterMap fun
    | .spk p => some p
    | _ => none
  decide (∀ p ∈ ids, ((recordsOf fs p).map Prod.snd).Nodup ∧
    ∀ q ∈ ids, q ≠ p → ∀ h ∈ (recordsOf fs p).map Prod.snd, h ∉ (recordsOf fs q).map Prod.snd)

theorem distinct_of_recordsDiffer {fs : PagesFs} (h : recordsDiffer fs = true) : Distinct fs := by
  have hmem : ∀ p, (fs.lookup (.spk p)).isSome = true → p ∈ fs.names.filterMap fun
      | .spk p => some p
      | _ => none := by
    intro p hp
    exact List.mem_filterMap.mpr ⟨.spk p, FileSys.mem_names.mpr hp, rfl⟩
  have hall := of_decide_eq_true h
  intro p hp
  obtain ⟨hnodup, hother⟩ := hall p (hmem p (Recovery.Unsealed.lookup hp.1))
  refine ⟨hnodup, fun q hq k hk => ?_⟩
  cases hlook : fs.lookup (.spk q) with
  | some f => exact hother q (hmem q (by rw [hlook]; rfl)) hq k hk
  | none =>
    rw [recordsOf_none hlook]
    exact List.not_mem_nil

end Sample

end SnapStore
