import Mathlib.Algebra.BigOperators.Group.Finset.Basic
import SnapStore.Manifest.Exact
import SnapStore.Startup.Recovered
import SnapStore.Store.Rejected

/-!
# The maintained counters

`manifests_total` and `logical_page_bytes` against the files they count: the walk that rebuilds
them when the store is opened, the purge of damaged files after it, and puts and deletions one
after the other.
-/

namespace SnapStore

open Disk Conc SnapshotStore

/-! ## What the counters stand for -/

def storedRefs (s : World) : Finset SnapshotRef :=
  (s.manifests.names.filterMap fun
    | .spm r => some r
    | .tmp _ => none).toFinset

theorem mem_storedRefs {s : World} {r : SnapshotRef} : r ∈ storedRefs s ↔ Stored s r := by
  rw [storedRefs, List.mem_toFinset, List.mem_filterMap]
  constructor
  · rintro ⟨n, hn, heq⟩
    cases n with
    | spm q =>
      cases heq
      exact FileSys.mem_names.mp hn
    | tmp q => cases heq
  · intro h
    exact ⟨.spm r, FileSys.mem_names.mpr h, rfl⟩

/-- The `guest_ram_bytes` field of a manifest file, if its header can be read. -/
def headerRam (s : World) (r : SnapshotRef) : Option Nat :=
  (s.manifests.readName (.spm r)).bind guestRamBytesOf

def totalRam (s : World) : Nat := ∑ r ∈ storedRefs s, (headerRam s r).getD 0

/-- The counters are the number of the stored manifests and the sum of their memory sizes. -/
structure CountersExact (s : World) : Prop where
  total : s.manifestsTotal.toNat = (storedRefs s).card
  bytes : s.logicalPageBytes.toNat = totalRam s

theorem headerRam_lt {s : World} {r : SnapshotRef} {n : Nat} (h : headerRam s r = some n) :
    n < 2 ^ 64 := by
  rw [headerRam, Option.bind_eq_some_iff] at h
  obtain ⟨b, -, hb⟩ := h
  unfold guestRamBytesOf at hb
  split at hb
  · cases hb
  · split at hb
    · cases hb
    · cases hb
      calc leNat (slice b 48 8) < 256 ^ (slice b 48 8).length := leNat_lt _
        _ ≤ 256 ^ 8 := Nat.pow_le_pow_right (by decide) (by rw [length_slice]; omega)

theorem toNat_saturatingAdd {a b : UInt64} (h : a.toNat + b.toNat < 2 ^ 64) :
    (saturatingAdd a b).toNat = a.toNat + b.toNat := by
  rw [saturatingAdd, if_pos h, UInt64.toNat_add, Nat.mod_eq_of_lt h]

theorem toNat_saturatingSub (a b : UInt64) :
    (saturatingSub a b).toNat = a.toNat - b.toNat := by
  unfold saturatingSub
  split
  · next h => exact UInt64.toNat_sub_of_le _ _ h
  · next h =>
    have hlt : a.toNat < b.toNat := by simpa [UInt64.le_iff_toNat_le] using h
    rw [UInt64.toNat_zero]
    omega

section Store

variable [Primitives]

theorem guestRamBytesOf_decode {c : Bytes} {m : Manifest} (h : Manifest.decode c = .ok m) :
    guestRamBytesOf c = some m.guestRamBytes := by
  have hc := Manifest.accepted_of_decode h
  have hlen := hc.length
  have hheader : Manifest.headerLen = 96 := rfl
  rw [guestRamBytesOf, if_neg (by omega), if_neg (not_not.mpr hc.magic), hc.ram]

/-! ## What a call does to the files and the counters -/

structure Leaves (s u : World) : Prop where
  total : u.manifestsTotal = s.manifestsTotal
  bytes : u.logicalPageBytes = s.logicalPageBytes
  names : ∀ q, Stored u q ↔ Stored s q
  files : s.manifests.Unaliased → u.manifests.Unaliased ∧
    ∀ q, u.manifests.readName (.spm q) = s.manifests.readName (.spm q)

structure Counts (c : Bytes) (m : Manifest) (s u : World) : Prop where
  new : ¬ Stored s (Manifest.snapshotRef c)
  self : u.manifests.readName (.spm (Manifest.snapshotRef c)) = some c
  names : ∀ q, q ≠ Manifest.snapshotRef c → (Stored u q ↔ Stored s q)
  files : s.manifests.Unaliased → u.manifests.Unaliased ∧ ∀ q, q ≠ Manifest.snapshotRef c →
    u.manifests.readName (.spm q) = s.manifests.readName (.spm q)
  total : u.manifestsTotal = s.manifestsTotal + 1
  bytes : u.logicalPageBytes = s.logicalPageBytes + UInt64.ofNat m.guestRamBytes

structure Uncounts (r : SnapshotRef) (n : Nat) (s u : World) : Prop where
  stored : Stored s r
  gone : ¬ Stored u r
  names : ∀ q, q ≠ r → (Stored u q ↔ Stored s q)
  files : s.manifests.Unaliased → u.manifests.Unaliased ∧ ∀ q, q ≠ r →
    u.manifests.readName (.spm q) = s.manifests.readName (.spm q)
  total : u.manifestsTotal = s.manifestsTotal - 1
  bytes : u.logicalPageBytes = saturatingSub s.logicalPageBytes (UInt64.ofNat n)

structure Tally (s : World) : Prop extends CountersExact s where
  unaliased : s.manifests.Unaliased
  headed : ∀ r, Stored s r → (headerRam s r).isSome = true

section Steps

variable {s u : World} {c : Bytes} {m : Manifest} {r : SnapshotRef} {n : Nat}

omit [Primitives] in
theorem headerRam_congr (h : u.manifests.readName (.spm r) = s.manifests.readName (.spm r)) :
    headerRam u r = headerRam s r := by
  rw [headerRam, h, headerRam]

omit [Primitives] in
theorem Leaves.tally (h : Leaves s u) (hs : Tally s) : Tally u := by
  obtain ⟨halias, hread⟩ := h.files hs.unaliased
  have hram : ∀ q, headerRam u q = headerRam s q := fun q => headerRam_congr (hread q)
  have hrefs : storedRefs u = storedRefs s := by
    ext q
    rw [mem_storedRefs, mem_storedRefs, h.names]
  refine ⟨⟨?_, ?_⟩, halias, fun q hq => ?_⟩
  · rw [h.total, hrefs, hs.total]
  · rw [h.bytes, hs.bytes, totalRam, totalRam, hrefs]
    exact Finset.sum_congr rfl fun q _ => by rw [hram]
  · rw [hram]
    exact hs.headed q ((h.names q).mp hq)

theorem Counts.tally (h : Counts c m s u) (hd : Manifest.decode c = .ok m) (hs : Tally s)
    (hcard : (storedRefs s).card + 1 < 2 ^ 64) (hsum : totalRam s + m.guestRamBytes < 2 ^ 64) :
    Tally u := by
  obtain ⟨halias, hread⟩ := h.files hs.unaliased
  have hself : headerRam u (Manifest.snapshotRef c) = some m.guestRamBytes := by
    rw [headerRam, h.self]
    exact guestRamBytesOf_decode hd
  have hstored : Stored u (Manifest.snapshotRef c) := stored_iff_readName.mpr (by rw [h.self]; rfl)
  have hrefs : storedRefs u = insert (Manifest.snapshotRef c) (storedRefs s) := by
    ext q
    rw [Finset.mem_insert, mem_storedRefs, mem_storedRefs]
    by_cases hq : q = Manifest.snapshotRef c
    · subst hq
      exact iff_of_true hstored (.inl rfl)
    · simp [hq, h.names q hq]
  have hnew : Manifest.snapshotRef c ∉ storedRefs s := fun hmem => h.new (mem_storedRefs.mp hmem)
  have hram : totalRam u = totalRam s + m.guestRamBytes := by
    rw [totalRam, hrefs, Finset.sum_insert hnew, hself, Option.getD_some, Nat.add_comm, totalRam]
    congr 1
    refine Finset.sum_congr rfl fun q hq => ?_
    rw [headerRam_congr (hread q fun heq => hnew (heq ▸ hq))]
  refine ⟨⟨?_, ?_⟩, halias, fun q hq => ?_⟩
  · rw [h.total, hrefs, Finset.card_insert_of_notMem hnew, UInt64.toNat_add, hs.total]
    exact Nat.mod_eq_of_lt hcard
  · have hfits : (UInt64.ofNat m.guestRamBytes).toNat = m.guestRamBytes :=
      UInt64.toNat_ofNat_of_lt' (by show m.guestRamBytes < 2 ^ 64; omega)
    rw [h.bytes, UInt64.toNat_add, hfits, hs.bytes, hram]
    exact Nat.mod_eq_of_lt hsum
  · by_cases heq : q = Manifest.snapshotRef c
    · rw [heq, hself]
      rfl
    · rw [headerRam_congr (hread q heq)]
      exact hs.headed q ((h.names q heq).mp hq)

omit [Primitives] in
theorem Uncounts.tally (h : Uncounts r n s u) (hs : Tally s) (hn : headerRam s r = some n) :
    Tally u := by
  obtain ⟨halias, hread⟩ := h.files hs.unaliased
  have hrefs : storedRefs u = (storedRefs s).erase r := by
    ext q
    rw [Finset.mem_erase, mem_storedRefs, mem_storedRefs]
    by_cases hq : q = r
    · subst hq
      exact iff_of_false h.gone fun hmem => hmem.1 rfl
    · simp [hq, h.names q hq]
  have hmem : r ∈ storedRefs s := mem_storedRefs.mpr h.stored
  have hram : totalRam u = totalRam s - n := by
    have hsplit := Finset.add_sum_erase (storedRefs s) (fun q => (headerRam s q).getD 0) hmem
    have hsame : totalRam u = ∑ q ∈ (storedRefs s).erase r, (headerRam s q).getD 0 := by
      rw [totalRam, hrefs]
      refine Finset.sum_congr rfl fun q hq => ?_
      rw [headerRam_congr (hread q (Finset.ne_of_mem_erase hq))]
    rw [hn, Option.getD_some] at hsplit
    rw [hsame, totalRam]
    omega
  refine ⟨⟨?_, ?_⟩, halias, fun q hq => ?_⟩
  · have hpos : 0 < (storedRefs s).card := Finset.card_pos.mpr ⟨r, hmem⟩
    have hle : (1 : UInt64) ≤ s.manifestsTotal := by
      rw [UInt64.le_iff_toNat_le, hs.total]
      exact hpos
    rw [h.total, UInt64.toNat_sub_of_le _ _ hle, hs.total, hrefs, Finset.card_erase_of_mem hmem]
    rfl
  · have hfits : (UInt64.ofNat n).toNat = n := UInt64.toNat_ofNat_of_lt' (headerRam_lt hn)
    rw [h.bytes, toNat_saturatingSub, hfits, hs.bytes, hram]
  · have hne : q ≠ r := fun heq => h.gone (heq ▸ hq)
    rw [headerRam_congr (hread q hne)]
    exact hs.headed q ((h.names q hne).mp hq)

end Steps

/-! ## The calls -/

section Calls

variable {s s' u u' : World} {c : Bytes} {m : Manifest} {t : Tid} {r : SnapshotRef}

omit [Primitives] in
theorem Leaves.of_manifests_eq (hm : u.manifests = s.manifests)
    (ht : u.manifestsTotal = s.manifestsTotal) (hb : u.logicalPageBytes = s.logicalPageBytes) :
    Leaves s u where
  total := ht
  bytes := hb
  names q := by rw [Stored, hasManifest, hm, Stored, hasManifest]
  files hs := by
    rw [hm]
    exact ⟨hs, fun _ => rfl⟩

omit [Primitives] in
theorem Leaves.of_bare (h : Leaves s' u') (hs : Bare s s') (hu : Bare u' u) : Leaves s u where
  total := (hu.total.trans h.total).trans hs.total
  bytes := (hu.bytes.trans h.bytes).trans hs.bytes
  names q := (hu.stored_iff q).trans ((h.names q).trans (hs.stored_iff q))
  files hun := by
    rw [hu.manifests, ← hs.manifests]
    exact h.files (hs.manifests ▸ hun)

theorem Counts.of_bare (h : Counts c m s' u') (hs : Bare s s') (hu : Bare u' u) :
    Counts c m s u where
  new hnew := h.new ((hs.stored_iff _).mpr hnew)
  self := by
    rw [hu.manifests]
    exact h.self
  names q hq := (hu.stored_iff q).trans ((h.names q hq).trans (hs.stored_iff q))
  files hun := by
    rw [hu.manifests, ← hs.manifests]
    exact h.files (hs.manifests ▸ hun)
  total := by rw [hu.total, h.total, hs.total]
  bytes := by rw [hu.bytes, h.bytes, hs.bytes]

def PutEffect (c : Bytes) (s u : World) : Prop :=
  Leaves s u ∨ ∃ m, Manifest.decode c = .ok m ∧ Counts c m s u

theorem PutEffect.of_bare (h : PutEffect c s' u') (hs : Bare s s') (hu : Bare u' u) :
    PutEffect c s u := by
  rcases h with hleaves | ⟨m, hd, hcounts⟩
  · exact .inl (hleaves.of_bare hs hu)
  · exact .inr ⟨m, hd, hcounts.of_bare hs hu⟩

def DirSyncs (o : Oracle) : Prop := o.fault .manifestDir .sync = none

omit [Primitives] in
theorem OnlyStaged.leaves (h : OnlyStaged r s u) : Leaves s u := by
  obtain ⟨⟨fs, dirs, g, rfl⟩, hnames, hfiles⟩ := h
  refine ⟨rfl, rfl, fun q => ?_, fun hs => ⟨(hfiles hs).unaliased, fun q => ?_⟩⟩
  · rw [Stored, hasManifest, hnames q]
    rfl
  · exact (hfiles hs).readName (by simp)

theorem Published.counts (h : Published (Manifest.snapshotRef c) c s u)
    (hnew : ¬ Stored s (Manifest.snapshotRef c)) (ep : Option (List SnapshotRef)) (g : Ghost) :
    Counts c m s { u with
      manifestsTotal := u.manifestsTotal + 1
      logicalPageBytes := u.logicalPageBytes + UInt64.ofNat m.guestRamBytes
      epoch := ep
      ghost := g } := by
  obtain ⟨⟨fs, dirs, g', rfl⟩, hself, hnames, hfiles⟩ := h
  refine ⟨hnew, hself, fun q hq => ?_, hfiles, rfl, rfl⟩
  rw [Stored, hasManifest, hnames q hq]
  rfl

theorem twp_register {Q : World → Prop} {may : Oracle → Prop} (hr : Stored u r)
    (hQ : ∀ ep g, Q { u with epoch := ep, ghost := g }) :
    twp may (ExceptT.run do
      withError (registerError r) (registerLiveRef t r)
      return r) (fun _ w => Q w) u := by
  refine twp_bind (twp_bind (twp_mono (fun res w hw => ?_) (twp_registerLiveRef t hr)))
  obtain ⟨⟨ep, g, rfl⟩, -⟩ := hw
  cases res with
  | ok x => exact hQ ep g
  | error e => exact hQ ep g

theorem twp_commit_effect (t : Tid) (hd : Manifest.decode c = .ok m) :
    twp DirSyncs (commit t c m).run (fun _ u => PutEffect c s u) s := by
  refine twp_bind (twp_atomic fun o _ => ?_)
  by_cases hstored : hasManifest s (Manifest.snapshotRef c) = true
  · simp only [hstored]
    exact twp_register (Q := PutEffect c s) hstored fun ep g => .inl (.of_manifests_eq rfl rfl rfl)
  · simp only [hstored]
    have hpub : twpE DirSyncs (fun (_ : PutError) u => Leaves s u)
        (withError PutError.io (publish t (Manifest.snapshotRef c) c))
        (fun _ u => Published (Manifest.snapshotRef c) c s u) s := by
      refine twpE_withError (twpE_publish t ⟨fun _ _ _ _ _ _ _ u hu => hu.leaves, ?_⟩)
      intro o n ho hf
      rw [ho] at hf
      cases hf
    refine twp_bind (twp_mono (fun res u hu => ?_) hpub)
    cases res with
    | error e => exact .inl hu
    | ok x =>
      have hu : Published (Manifest.snapshotRef c) c s u := hu
      have hself : Stored u (Manifest.snapshotRef c) := stored_iff_readName.mpr (by rw [hu.self]; rfl)
      refine twp_bind (twp_atomic fun _ _ => twp_register (Q := PutEffect c s) hself ?_)
      exact fun ep g => .inr ⟨m, hd, hu.counts hstored ep g⟩

theorem ends_putSnapshot_effect {res : Except PutError SnapshotRef}
    (h : Ends DirSyncs (putSnapshot t c).run s res u) : PutEffect c s u := by
  rcases ends_putSnapshot_cases h with ⟨rfl, -⟩ | ⟨m, hd, ⟨e, -, hearly⟩ | ⟨-, w, v, hw, hcommit, hv⟩⟩
  · exact .inl (.of_manifests_eq rfl rfl rfl)
  · exact .inl (.of_manifests_eq hearly.bare.manifests hearly.bare.total hearly.bare.bytes)
  · exact (hcommit.of_twp (twp_commit_effect t hd)).of_bare hw hv

omit [Primitives] in
theorem uncounts_of_unlink (hstored : Stored s r) (n : Nat) (g : Ghost) (keep : ManifestFile → Bool) :
    Uncounts r n s { s with
      manifests := (s.manifests.unlink (.spm r)).fsyncDir keep
      manifestsTotal := s.manifestsTotal - 1
      logicalPageBytes := saturatingSub s.logicalPageBytes (UInt64.ofNat n)
      ghost := g } := by
  refine ⟨hstored, ?_, fun q hq => ?_, fun hun => ?_, rfl, rfl⟩
  · show ¬ ((s.manifests.unlink (.spm r)).lookup (.spm r)).isSome = true
    simp [FileSys.lookup_unlink]
  · show ((s.manifests.unlink (.spm r)).lookup (.spm q)).isSome = true ↔ _
    rw [FileSys.lookup_unlink, if_neg (by simpa using hq)]
    rfl
  · have hsame := FileSys.SameBut.unlink hun (ManifestFile.spm r)
    refine ⟨⟨hsame.unaliased.injective, hsame.unaliased.born⟩, fun q hq => ?_⟩
    exact hsame.readName (by simpa using hq)

/-- Manifests can be read and the directory of a shard can be synced. -/
structure ReadsAndSyncs (o : Oracle) : Prop where
  read : o.fault .manifest .read = none
  sync : o.fault .manifestDir .sync = none

section Delete

omit [Primitives]

variable {may : Oracle → Prop} {bad : IoError → World → Prop}

theorem twpE_unlinkManifest (hstored : Stored s r) (hbad : ∀ e, bad e s) :
    twpE may bad (unlinkManifest r) (fun _ u => u = { s with
      manifests := s.manifests.unlink (.spm r)
      ghost := { s.ghost with sweeping := true } }) s := by
  obtain ⟨i, hi⟩ := Option.isSome_iff_exists.mp hstored
  refine twpE_attempt_fault .manifest .unlink (fun o n _ hf => ⟨_, by rw [hf], hbad _⟩)
    fun o _ hf => ⟨(), _, ?_, rfl⟩
  rw [hf, hi]

theorem twpE_fsyncDir (hbad : ∀ o n e, may o → o.fault .manifestDir .sync = some n → bad e s) :
    twpE may bad (fsyncShardDir r) (fun _ u => ∃ keep, u = { s with
      manifests := s.manifests.fsyncDir keep }) s := by
  refine twpE_attempt_fault .manifestDir .sync (fun o n ho hf => ⟨_, by rw [hf], ?_⟩)
    fun o _ hf => ⟨(), _, by rw [hf], _, rfl⟩
  exact hbad o n _ ho hf

def readRam (o : Oracle) (s : World) (r : SnapshotRef) : Nat :=
  match o.fault .manifest .read with
  | some _ => 0
  | none => (headerRam s r).getD 0

theorem twpE_deleteManifest {bad : StoreError → World → Prop} (hstored : Stored s r)
    (hunlink : ∀ e, bad e s)
    (hsync : ∀ o n e, may o → o.fault .manifestDir .sync = some n → bad e { s with
      manifests := s.manifests.unlink (.spm r)
      ghost := { s.ghost with sweeping := true } }) :
    twpE may bad (deleteManifest r)
      (fun _ u => ∃ o, may o ∧ Uncounts r (readRam o s r) s u) s := by
  refine twpE_seq (twpE_look (Q := fun a u => a = true ∧ u = s) ⟨hstored, rfl⟩) fun a u hu => ?_
  obtain ⟨rfl, rfl⟩ := hu
  refine twpE_seq (R := fun n w => w = u ∧ ∃ o, may o ∧ n = readRam o u r)
    (twpE_observe fun o ho => ⟨readRam o u r, ?_, rfl, o, ho, rfl⟩) fun n w hw => ?_
  · unfold readRam headerRam
    cases o.fault .manifest .read with
    | some k => rfl
    | none => cases u.manifests.readName (.spm r) <;> rfl
  obtain ⟨rfl, o, ho, rfl⟩ := hw
  refine twpE_seq (twpE_withError (twpE_unlinkManifest hstored fun e => hunlink _)) fun _ v hv => ?_
  subst hv
  refine twpE_seq (twpE_withError (twpE_fsyncDir fun o n e ho hf => hsync o n _ ho hf))
    fun _ v hv => ?_
  obtain ⟨keep, rfl⟩ := hv
  exact twpE_seq (twpE_change (Q := fun _ v => ∃ o, may o ∧ Uncounts r (readRam o w r) w v)
    ⟨o, ho, uncounts_of_unlink hstored _ _ keep⟩) fun _ v hv => twpE_pure hv

theorem ends_deleteManifest_absent {res : Except StoreError Bool} (hstored : ¬ Stored s r)
    (h : Ends may (deleteManifest r).run s res u) : u = s := by
  have hspec : twp may (deleteManifest r).run (fun _ u => u = s) s := by
    have habsent : hasManifest s r = false := by simpa [Stored] using hstored
    refine twp_bind (twp_atomic fun o _ => ?_)
    simp only [habsent]
    exact twp_ret rfl
  exact h.of_twp hspec

theorem ends_deleteManifest_effect {res : Except StoreError Bool}
    (h : Ends ReadsAndSyncs (deleteManifest r).run s res u) :
    Leaves s u ∨ Uncounts r ((headerRam s r).getD 0) s u := by
  by_cases hstored : Stored s r
  · have hspec : twpE ReadsAndSyncs (fun _ u => Leaves s u) (deleteManifest r) _ s :=
      twpE_deleteManifest hstored (fun _ => .of_manifests_eq rfl rfl rfl) fun o n e ho hf => by
        rw [ho.sync] at hf
        cases hf
    have hres := h.of_twp hspec
    cases res with
    | error e => exact .inl hres
    | ok x =>
      obtain ⟨o, ho, hres⟩ := hres
      rw [readRam, ho.read] at hres
      exact .inr hres
  · rw [ends_deleteManifest_absent hstored h]
    exact .inl (.of_manifests_eq rfl rfl rfl)

theorem ends_deleteManifest_le {res : Except StoreError Bool} (hs : CountersExact s)
    (h : Ends may (deleteManifest r).run s res u) :
    u.manifestsTotal ≤ s.manifestsTotal ∧ u.logicalPageBytes ≤ s.logicalPageBytes := by
  by_cases hstored : Stored s r
  · have hspec : twpE may (fun _ u => u.manifestsTotal = s.manifestsTotal ∧
        u.logicalPageBytes = s.logicalPageBytes) (deleteManifest r) _ s :=
      twpE_deleteManifest hstored (fun _ => ⟨rfl, rfl⟩) fun _ _ _ _ _ => ⟨rfl, rfl⟩
    have hres := h.of_twp hspec
    cases res with
    | error e =>
      obtain ⟨htotal, hbytes⟩ := hres
      rw [htotal, hbytes]
      exact ⟨UInt64.le_refl _, UInt64.le_refl _⟩
    | ok x =>
      obtain ⟨o, -, hres⟩ := hres
      have hpos : 0 < (storedRefs s).card := Finset.card_pos.mpr ⟨r, mem_storedRefs.mpr hstored⟩
      have hone : (1 : UInt64) ≤ s.manifestsTotal := by
        rw [UInt64.le_iff_toNat_le, hs.total]
        exact hpos
      rw [UInt64.le_iff_toNat_le, UInt64.le_iff_toNat_le, hres.total, hres.bytes,
        UInt64.toNat_sub_of_le _ _ hone, toNat_saturatingSub]
      exact ⟨Nat.sub_le _ _, Nat.sub_le _ _⟩
  · rw [ends_deleteManifest_absent hstored h]
    exact ⟨UInt64.le_refl _, UInt64.le_refl _⟩

end Delete

end Calls

/-! ## The walk over the manifest files -/

section Walk

omit [Primitives]

variable {s : World}

structure Shelved (s : World) : Prop where
  unaliased : s.manifests.Unaliased
  once : s.shardDirs.Nodup
  covers : ∀ r, Stored s r → shardOf r ∈ s.shardDirs

def tallyOne (s : World) (acc : UInt64 × UInt64) (r : SnapshotRef) : UInt64 × UInt64 :=
  match headerRam s r with
  | some n => (acc.1 + 1, saturatingAdd acc.2 (UInt64.ofNat n))
  | none => acc

theorem mem_shardRefs {shard : Nat} {r : SnapshotRef} :
    r ∈ shardRefs s shard ↔ Stored s r ∧ shardOf r = shard := by
  rw [shardRefs, List.mem_filterMap]
  constructor
  · rintro ⟨n, hn, heq⟩
    cases n with
    | tmp q => cases heq
    | spm q =>
      dsimp only at heq
      split at heq
      · next hshard =>
        cases heq
        exact ⟨FileSys.mem_names.mp hn, hshard⟩
      · cases heq
  · intro ⟨hstored, hshard⟩
    exact ⟨.spm r, FileSys.mem_names.mpr hstored, if_pos hshard⟩

theorem nodup_shardRefs (s : World) (shard : Nat) : (shardRefs s shard).Nodup := by
  refine List.Nodup.filterMap (fun n n' r hn hn' => ?_) s.manifests.dir.keys_nodup
  cases n <;> cases n' <;> grind

theorem twp_countShard (refs : List SnapshotRef) (acc : UInt64 × UInt64) :
    twp Startup.Sweepable (refs.foldlM countFile acc)
      (fun acc' u => u = s ∧ acc' = refs.foldl (tallyOne s) acc) s := by
  refine twp_foldlM (fun acc' rest u => u = s ∧
    rest.foldl (tallyOne s) acc' = refs.foldl (tallyOne s) acc) (fun acc' r rest u hu => ?_)
    refs acc s ⟨rfl, rfl⟩
  obtain ⟨rfl, hrest⟩ := hu
  refine twp_atomic fun o ho => ⟨rfl, ?_⟩
  rw [← hrest, List.foldl_cons]
  congr 1
  rw [ho.read, tallyOne, headerRam]
  cases (u.manifests.readName (.spm r)).bind guestRamBytesOf <;> rfl

theorem twp_walkManifestCounters (hs : Shelved s) :
    twp Startup.Sweepable walkManifestCounters (fun acc u => u = s ∧
      ∃ l : List SnapshotRef, l.Nodup ∧ (∀ r, r ∈ l ↔ Stored s r) ∧
        acc = l.foldl (tallyOne s) (0, 0)) s := by
  refine twp_bind (twp_atomic fun o ho => ?_)
  rw [ho.list]
  have hperm := o.walk_perm s.shardDirs
  -- what has been counted is what is stored in the shards that have been visited
  refine twp_mono (fun acc u hu => ?_) (twp_foldlM (fun acc rest u => u = s ∧ rest.Nodup ∧
    ∃ l : List SnapshotRef, l.Nodup ∧ (∀ r, r ∈ l ↔ Stored s r ∧ shardOf r ∉ rest) ∧
      acc = l.foldl (tallyOne s) (0, 0)) (fun acc shard rest u hu => ?_) _ _ s
    ⟨rfl, hperm.nodup_iff.mpr hs.once, [], List.nodup_nil, fun r => ?_, rfl⟩)
  · obtain ⟨rfl, -, l, hnodup, hmem, hacc⟩ := hu
    exact ⟨rfl, l, hnodup, fun r => by simpa using hmem r, hacc⟩
  · obtain ⟨rfl, hrest, l, hnodup, hmem, rfl⟩ := hu
    obtain ⟨hshard, hrest⟩ := List.nodup_cons.mp hrest
    refine twp_bind (twp_atomic fun o ho => ?_)
    rw [ho.list]
    refine twp_mono (fun acc' u' hu' => ?_) (twp_countShard (shardRefs u shard) _)
    obtain ⟨rfl, rfl⟩ := hu'
    refine ⟨rfl, hrest, l ++ shardRefs u' shard, ?_, fun r => ?_, (List.foldl_append ..).symm⟩
    · refine hnodup.append (nodup_shardRefs u' shard) fun r hr hr' => ?_
      exact ((hmem r).mp hr).2 (by rw [(mem_shardRefs.mp hr').2]; exact List.mem_cons_self)
    · rw [List.mem_append, hmem, mem_shardRefs, List.mem_cons]
      by_cases heq : shardOf r = shard
      · simp [heq, hshard]
      · simp [heq]
  · have hcovers := hs.covers r
    simpa using fun hr => hcovers hr

theorem toNat_foldl_tallyOne (l : List SnapshotRef) (acc : UInt64 × UInt64)
    (hcard : acc.1.toNat + (l.filterMap (headerRam s)).length < 2 ^ 64)
    (hsum : acc.2.toNat + (l.filterMap (headerRam s)).sum < 2 ^ 64) :
    (l.foldl (tallyOne s) acc).1.toNat = acc.1.toNat + (l.filterMap (headerRam s)).length ∧
      (l.foldl (tallyOne s) acc).2.toNat = acc.2.toNat + (l.filterMap (headerRam s)).sum := by
  induction l generalizing acc with
  | nil => exact ⟨rfl, rfl⟩
  | cons r l ih =>
    rw [List.foldl_cons]
    cases hram : headerRam s r with
    | none =>
      rw [List.filterMap_cons_none hram] at hcard hsum ⊢
      rw [tallyOne, hram]
      exact ih acc hcard hsum
    | some n =>
      rw [List.filterMap_cons_some hram, List.length_cons] at hcard
      rw [List.filterMap_cons_some hram, List.sum_cons] at hsum
      rw [List.filterMap_cons_some hram, List.length_cons, List.sum_cons, tallyOne, hram]
      have hn : (UInt64.ofNat n).toNat = n := UInt64.toNat_ofNat_of_lt' (headerRam_lt hram)
      have hone : (acc.1 + 1).toNat = acc.1.toNat + 1 := by
        rw [UInt64.toNat_add, UInt64.toNat_one]
        omega
      have hadd : (saturatingAdd acc.2 (UInt64.ofNat n)).toNat = acc.2.toNat + n := by
        rw [toNat_saturatingAdd (by omega), hn]
      have hrec := ih (acc.1 + 1, saturatingAdd acc.2 (UInt64.ofNat n))
        (by rw [hone]; omega) (by rw [hadd]; omega)
      rw [hone, hadd] at hrec
      exact ⟨by rw [hrec.1]; omega, by rw [hrec.2]; omega⟩

theorem sum_filterMap_headerRam (l : List SnapshotRef) :
    (l.filterMap (headerRam s)).sum = (l.map fun r => (headerRam s r).getD 0).sum := by
  induction l with
  | nil => rfl
  | cons r l ih =>
    cases hram : headerRam s r with
    | none => rw [List.filterMap_cons_none hram, List.map_cons, hram, List.sum_cons, ih]; simp
    | some n =>
      rw [List.filterMap_cons_some hram, List.map_cons, hram, List.sum_cons, List.sum_cons, ih]
      rfl

end Walk

/-! ## Startup -/

section Startup

open Startup

variable {s u v : World} {opts : StoreOptions} {version : Except IoError (Option String)}

structure Sweeps (s u : World) : Prop where
  unaliased : s.manifests.Unaliased → u.manifests.Unaliased
  total : u.manifestsTotal = s.manifestsTotal
  bytes : u.logicalPageBytes = s.logicalPageBytes

omit [Primitives] in
theorem Sweeps.refl (s : World) : Sweeps s s := ⟨id, rfl, rfl⟩

omit [Primitives] in
theorem Sweeps.trans (h : Sweeps s u) (h' : Sweeps u v) : Sweeps s v :=
  ⟨fun hs => h'.unaliased (h.unaliased hs), h'.total.trans h.total, h'.bytes.trans h.bytes⟩

theorem sweeps_purge : Within Sweeps purgeBadFooterManifests := by
  have hlist : ∀ s, Sweeps s s := Sweeps.refl
  refine Within.bind (Within.atomic fun _ s => hlist s) fun shards =>
    Within.foldlM (fun n shard => Within.bind ?_ fun _ => Within.ret _) _ _
  refine Within.bind (Within.atomic fun _ s => hlist s) fun refs =>
    Within.foldlM (fun n r => Within.bind ?_ fun _ => Within.ret _) _ _
  refine Within.bind (Within.atomic fun _ s => hlist s) fun violation => ?_
  cases violation with
  | none => exact Within.ret _
  | some _ =>
    refine Within.bind (Within.atomic fun o s => ?_) fun _ => Within.ret _
    split
    · exact .refl s
    · exact ⟨fun hs => (FileSys.SameBut.unlink hs _).unaliased, rfl, rfl⟩

def InDb (s u : World) : Prop := ∃ db k, u = { s with db := db, actorCounter := k }

section Reconcile

omit [Primitives]

theorem InDb.refl (s : World) : InDb s s := ⟨s.db, s.actorCounter, rfl⟩

theorem InDb.trans (h : InDb s u) (h' : InDb u v) : InDb s v := by
  obtain ⟨_, _, rfl⟩ := h
  obtain ⟨_, _, rfl⟩ := h'
  exact ⟨_, _, rfl⟩

theorem inDb_reconcileNode (exp : ExperimentId) (node : NodeRow) :
    Within InDb (reconcileNode exp node) := by
  unfold reconcileNode
  split
  · exact Within.ret _
  · refine Within.bind (Within.atomic fun _ s => .refl s) fun stored => ?_
    split
    · exact Within.ret _
    · exact Within.bind (within_action fun _ _ => ⟨_, _, rfl⟩) fun _ => Within.ret _

theorem inDb_reconcilePages (exp : ExperimentId) (fuel : Nat) (cursor : Option Nat) :
    Within InDb (reconcilePages exp fuel cursor) := by
  induction fuel generalizing cursor with
  | zero => exact Within.stuck
  | succ fuel ih =>
    refine Within.bind (within_observe InDb.refl) fun page => ?_
    split
    · exact Within.ret _
    · split
      · exact Within.ret _
      · refine Within.bind (Within.foldlM (fun n node =>
          Within.bind (inDb_reconcileNode exp node) fun _ => Within.ret _) _ _) fun n => ?_
        split
        · exact Within.ret _
        · exact Within.bind (ih _) fun _ => Within.ret _

theorem inDb_reconcile : Within InDb reconcileSnapshotRefs := by
  refine Within.bind (within_observe InDb.refl) fun experiments => ?_
  split
  · exact Within.ret _
  · refine Within.foldlM (fun n exp => Within.bind ?_ fun _ => Within.ret _) _ _
    exact Within.bind (Within.atomic fun _ s => .refl s) fun fuel => inDb_reconcilePages exp fuel _

end Reconcile

def StaysUnaliased (s u : World) : Prop := s.manifests.Unaliased → u.manifests.Unaliased

theorem staysUnaliased_opened (opts : StoreOptions) :
    Within StaysUnaliased ((do cleanTmpDir; PageStore.openPages opts : PE _).run) := by
  refine within_opened (fun _ => id) (fun s r hs => (FileSys.SameBut.unlink hs _).unaliased)
    (fun s u h hs => ?_) opts
  rwa [h.manifests]

omit [Primitives] in
theorem Shelved.of_keeps (h : Startup.Keeps s u) (hs : Shelved s) (hu : u.manifests.Unaliased) : Shelved u := by
  refine ⟨hu, h.shardDirs ▸ hs.once, fun r hr => ?_⟩
  rw [h.shardDirs]
  refine hs.covers r ?_
  rwa [stored_iff_readName, h.files, ← stored_iff_readName] at hr

theorem ends_openStore (hs : Shelved s) (h : Ends Sweepable (openStore opts) s true u) :
    Shelved u ∧ ∃ l : List SnapshotRef, l.Nodup ∧ (∀ r, r ∈ l ↔ Stored u r) ∧
      (u.manifestsTotal, u.logicalPageBytes) = l.foldl (tallyOne u) (0, 0) := by
  have hkeeps := h.within (keeps_openStore opts) Startup.Keeps.refl fun _ _ _ => .trans
  obtain ⟨opened, v, hopened, hrest⟩ := Ends.of_bind h
  have halias : StaysUnaliased s v :=
    hopened.within (staysUnaliased_opened opts) (fun _ => id) fun _ _ _ h h' hs => h' (h hs)
  cases opened with
  | error e => cases hrest
  | ok x =>
    obtain ⟨counters, w, hwalk, hrest⟩ := Ends.of_bind hrest
    obtain ⟨_, w', hinstall, hret⟩ := Ends.of_bind hrest
    cases hret
    obtain ⟨_, -, hinstall⟩ := Ends.of_atomic hinstall
    have hw : w = v := (hwalk.within (within_walkManifestCounters (R := fun s u => u = s)
      fun _ => rfl) (fun _ => rfl) fun _ _ _ h h' => h'.trans h)
    subst hw
    cases hinstall
    have hu := hs.of_keeps hkeeps (halias hs.unaliased)
    obtain ⟨-, l, hnodup, hmem, hacc⟩ :=
      hwalk.of_twp (twp_walkManifestCounters (s := w) ⟨hu.unaliased, hu.once, hu.covers⟩)
    exact ⟨hu, l, hnodup, hmem, hacc⟩

theorem ends_openAll (hs : Shelved s) (h : Ends Sweepable (openAll opts version).run s (.ok ()) u) :
    Shelved u ∧ ∃ l : List SnapshotRef, l.Nodup ∧ (∀ r, r ∈ l ↔ Stored u r) ∧
      (u.manifestsTotal, u.logicalPageBytes) = l.foldl (tallyOne u) (0, 0) := by
  obtain ⟨_, v, hversion, h⟩ := h.of_bindE
  obtain ⟨_, w, hmeta, h⟩ := h.of_bindE
  obtain ⟨_, w', hcheck, h⟩ := h.of_bindE
  have hopenMeta : Within InDb openMeta.run := by
    refine within_attempt InDb.refl fun o s a u hf => ?_
    split at hf <;> cases hf
    exact ⟨_, _, rfl⟩
  have htrans (a b c : World) : InDb a b → InDb b c → InDb a c := InDb.trans
  have hv : InDb s v := hversion.within (Within.ret _) InDb.refl htrans
  have hw : InDb v w := hmeta.within (within_withError hopenMeta) InDb.refl htrans
  have hw' : InDb w w' :=
    hcheck.within (within_withError (within_observe InDb.refl)) InDb.refl htrans
  obtain ⟨opened, x, hopen, hret⟩ := Ends.of_bind h
  obtain ⟨db, k, rfl⟩ := (hv.trans hw).trans hw'
  cases opened <;> cases hret
  exact ends_openStore (s := { s with db := db, actorCounter := k })
    ⟨hs.unaliased, hs.once, hs.covers⟩ hopen

/-- Startup removes the files whose headers it could not have counted, and no others. -/
def HeadersSound (s : World) : Prop := ∀ r b, s.manifests.readName (.spm r) = some b →
  ((guestRamBytesOf b).isSome = true ↔ checkSpmIntegrity r b = none)

theorem HeadersSound.checked_iff (h : HeadersSound s) {r : SnapshotRef} (hr : Stored s r) :
    Startup.Checked s r ↔ (headerRam s r).isSome = true := by
  obtain ⟨b, hb⟩ := Option.isSome_iff_exists.mp (stored_iff_readName.mp hr)
  have hram : headerRam s r = guestRamBytesOf b := by
    rw [headerRam, hb]
    rfl
  rw [hram, h r b hb, checkSpmIntegrity_eq_none, Startup.Checked, hb]
  simp

theorem stored_of_purges {r : SnapshotRef} (h : Purges s u) (hsound : HeadersSound s)
    (hchecked : Stored s r → Startup.Checked u r) :
    (Stored u r ↔ Stored s r ∧ (headerRam s r).isSome = true) ∧
      (Stored u r → headerRam u r = headerRam s r) := by
  have hsame : Stored u r → u.manifests.readName (.spm r) = s.manifests.readName (.spm r) := by
    intro hr
    rcases h.files r with heq | ⟨hnone, -⟩
    · exact heq
    · rw [stored_iff_readName, hnone] at hr
      cases hr
  refine ⟨⟨fun hr => ?_, fun ⟨hr, hhead⟩ => ?_⟩, fun hr => headerRam_congr (hsame hr)⟩
  · have hs : Stored s r := by
      rw [stored_iff_readName, ← hsame hr, ← stored_iff_readName]
      exact hr
    exact ⟨hs, (hsound.checked_iff hs).mp ((Startup.Checked.congr (hsame hr)).mp (hchecked hs))⟩
  · rcases h.files r with heq | ⟨-, hbad⟩
    · rw [stored_iff_readName, heq, ← stored_iff_readName]
      exact hr
    · exact absurd ((hsound.checked_iff hr).mpr hhead) hbad

theorem tally_of_startup {n : Nat} (hs : Shelved s) (hsound : HeadersSound s)
    (hcard : (storedRefs s).card < 2 ^ 64) (hsum : totalRam s < 2 ^ 64)
    (h : Ends Sweepable (runStartup opts version).run s (.ok n) v) : Tally v := by
  obtain ⟨u, w, _, _, hopen, hpurge, hreconcile⟩ := parts_of_ends h
  have hkeeps := keeps_of_ends hopen
  obtain ⟨hu, l, hnodup, hmem, hcounters⟩ := ends_openAll hs hopen
  obtain ⟨huw, hchecked⟩ := hpurge.of_twp (twp_purgeBadFooterManifests u)
  have hsweeps := hpurge.within sweeps_purge Sweeps.refl fun _ _ _ => .trans
  obtain ⟨db, k, rfl⟩ := hreconcile.within inDb_reconcile InDb.refl fun _ _ _ => .trans
  have hsoundu : HeadersSound u := fun r b hb => hsound r b (hkeeps.files r ▸ hb)
  have hkept (r : SnapshotRef) := stored_of_purges (r := r) huw hsoundu fun hr => hchecked r (hu.covers r hr)
  -- the walk has seen the files that were there before the startup
  have hrefs : l.toFinset = storedRefs s := by
    ext r
    rw [List.mem_toFinset, hmem, mem_storedRefs, stored_iff_readName, hkeeps.files,
      ← stored_iff_readName]
  have hlength : l.length = (storedRefs s).card := by rw [← hrefs, List.toFinset_card_of_nodup hnodup]
  have htotal : (l.map fun r => (headerRam u r).getD 0).sum = totalRam s := by
    rw [← List.sum_toFinset _ hnodup, hrefs, totalRam]
    exact Finset.sum_congr rfl fun r _ => by rw [headerRam_congr (hkeeps.files r)]
  obtain ⟨hcount, hbytes⟩ := toNat_foldl_tallyOne (s := u) l (0, 0)
    (by
      have hle := List.length_filterMap_le (headerRam u) l
      simp only [UInt64.toNat_zero]
      omega)
    (by
      rw [sum_filterMap_headerRam, htotal]
      simpa using hsum)
  rw [← hcounters] at hcount hbytes
  have hleft : storedRefs w = (l.filter fun r => (headerRam u r).isSome).toFinset := by
    ext r
    rw [mem_storedRefs, (hkept r).1, List.mem_toFinset, List.mem_filter, hmem]
  refine ⟨⟨?_, ?_⟩, hsweeps.unaliased hu.unaliased, fun r hr => ?_⟩
  · show w.manifestsTotal.toNat = (storedRefs w).card
    rw [hsweeps.total, hleft, List.toFinset_card_of_nodup (hnodup.filter _),
      ← List.countP_eq_length_filter, ← List.length_filterMap_eq_countP]
    exact hcount.trans (Nat.zero_add _)
  · show w.logicalPageBytes.toNat = totalRam w
    have hsub : storedRefs w ⊆ l.toFinset := by
      intro r hr
      rw [List.mem_toFinset, hmem]
      exact ((hkept r).1.mp (mem_storedRefs.mp hr)).1
    have hleftRam : totalRam w = ∑ r ∈ l.toFinset, (headerRam u r).getD 0 := by
      rw [totalRam, ← Finset.sum_subset hsub]
      · exact Finset.sum_congr rfl fun r hr => by rw [(hkept r).2 (mem_storedRefs.mp hr)]
      · intro r hr hnot
        rw [mem_storedRefs, (hkept r).1, ← hmem] at hnot
        have hnone : headerRam u r = none := by simpa [List.mem_toFinset.mp hr] using hnot
        rw [hnone]
        rfl
    rw [hsweeps.bytes, hleftRam, List.sum_toFinset _ hnodup, ← sum_filterMap_headerRam]
    exact hbytes.trans (Nat.zero_add _)
  · have hr : Stored w r := hr
    show (headerRam w r).isSome = true
    rw [(hkept r).2 hr]
    exact ((hkept r).1.mp hr).2

end Startup

/-! ## Histories -/

/-- What the environment and the arguments of the calls of a history satisfy. -/
structure Provisos where
  startup : Oracle → Prop
  put : Oracle → Prop
  delete : Oracle → Prop
  room : World → Bytes → Prop

def Provisos.any : Provisos := ⟨fun _ => True, fun _ => True, fun _ => True, fun _ _ => True⟩

/-- Startup can list, read and remove manifests; no put fails to sync a shard directory, and no
deletion fails to do so or to read the header; a new manifest does not make a counter overflow. -/
def Provisos.tidy : Provisos where
  startup := Startup.Sweepable
  put := DirSyncs
  delete := ReadsAndSyncs
  room s c := ∀ m, Manifest.decode c = .ok m →
    (storedRefs s).card + 1 < 2 ^ 64 ∧ totalRam s + m.guestRamBytes < 2 ^ 64

/-- The states between the calls of a store that starts up on the directory of `init` and then
serves puts and deletions, one after the other, with any results. -/
inductive Served (π : Provisos) (opts : StoreOptions) (version : Except IoError (Option String))
    (init : World) : World → Prop where
  | startup {n : Nat} {s : World}
      (h : Ends π.startup (Startup.runStartup opts version).run init (.ok n) s) :
      Served π opts version init s
  | put {s u : World} {t : Tid} {c : Bytes} {res : Except PutError SnapshotRef}
      (hs : Served π opts version init s) (hroom : π.room s c)
      (h : Ends π.put (putSnapshot t c).run s res u) : Served π opts version init u
  | delete {s u : World} {r : SnapshotRef} {res : Except StoreError Bool}
      (hs : Served π opts version init s) (h : Ends π.delete (deleteManifest r).run s res u) :
      Served π opts version init u

theorem Served.tally {opts : StoreOptions} {version : Except IoError (Option String)}
    {init s : World} (hinit : Shelved init) (hsound : HeadersSound init)
    (hcard : (storedRefs init).card < 2 ^ 64) (hsum : totalRam init < 2 ^ 64)
    (h : Served .tidy opts version init s) : Tally s := by
  induction h with
  | startup h => exact tally_of_startup hinit hsound hcard hsum h
  | put _ hroom h ih =>
    rcases ends_putSnapshot_effect h with hleaves | ⟨m, hd, hcounts⟩
    · exact hleaves.tally ih
    · obtain ⟨hfew, hsmall⟩ := hroom m hd
      exact hcounts.tally hd ih hfew hsmall
  | delete _ h ih =>
    rcases ends_deleteManifest_effect h with hleaves | huncounts
    · exact hleaves.tally ih
    · obtain ⟨n, hn⟩ := Option.isSome_iff_exists.mp (ih.headed _ huncounts.stored)
      rw [hn] at huncounts
      exact huncounts.tally ih hn

end Store

/-! ## A header that cannot be read, and a directory that cannot be synced -/

namespace Sample

attribute [local instance] primitives

def found : Except IoError (Option String) := .ok (some Startup.storeVersion)

theorem shelved_empty : Shelved World.empty where
  unaliased := .empty
  once := List.nodup_nil
  covers r hr := by cases hr

theorem started_of_run (w : World) (q : World → Bool)
    (h : (Prog.run quiet 1000 startup.run w).any (fun x => x.1.toOption.isSome && q x.2) = true) :
    ∃ n s, Prog.run quiet 1000 startup.run w = some (.ok n, s) ∧ q s = true := by
  rw [Option.any_eq_true] at h
  obtain ⟨⟨started, s⟩, hstart, hrest⟩ := h
  rw [Bool.and_eq_true] at hrest
  cases started with
  | error e => exact absurd hrest.1 Bool.false_ne_true
  | ok n => exact ⟨n, s, hstart, hrest.2⟩

def holding (r : SnapshotRef) (b : Bytes) : World :=
  { World.empty with
    manifests := (FileSys.empty.create (.spm r)).write 0 0 b
    shardDirs := [shardOf r] }

theorem names_holding (r : SnapshotRef) (b : Bytes) : (holding r b).manifests.names = [.spm r] := rfl

theorem shelved_holding (r : SnapshotRef) (b : Bytes) : Shelved (holding r b) where
  unaliased := by
    have h := FileSys.Unaliased.empty.create (ManifestFile.spm r)
    exact ⟨h.injective, h.born⟩
  once := List.nodup_singleton _
  covers q hq := by
    have hmem : ManifestFile.spm q ∈ (holding r b).manifests.names := FileSys.mem_names.mpr hq
    rw [names_holding, List.mem_singleton, ManifestFile.spm.injEq] at hmem
    rw [hmem]
    exact List.mem_singleton_self _

/-- A file that is only the footer of the empty body; it passes the integrity check. -/
def headless : World := holding (blake3 []) (blake3 []).bytes

def footless : World := holding (linkRef 0) ((link 0).body ++ Manifest.zeroHash)

def unsynced : Oracle where
  fault a op := if a = .manifestDir ∧ op = .sync then some 0 else none
  clock := 0
  order := 0

theorem not_exact_of_stored {s : World} {r : SnapshotRef} (h : Stored s r)
    (hzero : s.manifestsTotal = 0) : ¬ CountersExact s := by
  intro hexact
  have hpos : 0 < (storedRefs s).card := Finset.card_pos.mpr ⟨r, mem_storedRefs.mpr h⟩
  have htotal := hexact.total
  rw [hzero, UInt64.toNat_zero] at htotal
  omega

theorem headless_wraps : ∃ s u, Served .any options found headless s ∧ ¬ CountersExact s ∧
    Served .any options found headless u ∧ storedRefs u = ∅ ∧
    u.manifestsTotal.toNat = 2 ^ 64 - 1 := by
  have hrun := started_of_run headless
    (fun s => decide (s.manifestsTotal = 0) && hasManifest s (blake3 []) &&
      (Prog.run quiet 1000 (deleteManifest (blake3 [])).run s).any fun y =>
        decide (storedRefs y.2 = ∅ ∧ y.2.manifestsTotal.toNat = 2 ^ 64 - 1)) (by decide +kernel)
  obtain ⟨n, s, hstart, hrest⟩ := hrun
  simp only [Bool.and_eq_true, decide_eq_true_eq] at hrest
  obtain ⟨⟨hzero, hstored⟩, hrest⟩ := hrest
  rw [Option.any_eq_true] at hrest
  obtain ⟨⟨res, u⟩, hdelete, hu⟩ := hrest
  have hs : Served .any options found headless s := .startup (.of_run trivial hstart)
  have hu := of_decide_eq_true hu
  exact ⟨s, u, hs, not_exact_of_stored hstored hzero, .delete hs (.of_run trivial hdelete), hu⟩

theorem footless_stays_counted : ∃ s, Served .any options found footless s ∧ storedRefs s = ∅ ∧
    s.manifestsTotal = 1 := by
  have hrun := started_of_run footless
    (fun s => decide (storedRefs s = ∅ ∧ s.manifestsTotal = 1)) (by decide +kernel)
  obtain ⟨n, s, hstart, hrest⟩ := hrun
  exact ⟨s, .startup (.of_run trivial hstart), of_decide_eq_true hrest⟩

theorem unsynced_put_uncounted : ∃ s, Served .any options found World.empty s ∧
    ¬ CountersExact s := by
  have hrun := started_of_run World.empty
    (fun s => (Prog.run unsynced 1000 (putSnapshot 0 (link 0).encode).run s).any fun y =>
      decide (y.2.manifestsTotal = 0) && hasManifest y.2 (linkRef 0)) (by decide +kernel)
  obtain ⟨n, s, hstart, hrest⟩ := hrun
  rw [Option.any_eq_true] at hrest
  obtain ⟨⟨res, u⟩, hput, hu⟩ := hrest
  simp only [Bool.and_eq_true, decide_eq_true_eq] at hu
  have hs : Served .any options found World.empty s := .startup (.of_run trivial hstart)
  exact ⟨u, .put hs trivial (.of_run trivial hput), not_exact_of_stored hu.2 hu.1⟩

end Sample

end SnapStore
