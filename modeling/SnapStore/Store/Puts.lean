import SnapStore.Gc.Frames

/-!
# Concurrent puts

`put_snapshot` stages a container under a name that depends on its reference only.  Calls for
different references use different files and never meet; calls for the same reference share the
staging file.
-/

namespace SnapStore

open Disk Conc SnapshotStore

def counts (s : World) : List SnapshotRef := s.ghost.counted.map (·.1)

structure Untouched (r : SnapshotRef) (s s' : World) : Prop where
  spm : s'.manifests.lookup (.spm r) = s.manifests.lookup (.spm r)
  tmp : s'.manifests.lookup (.tmp r) = s.manifests.lookup (.tmp r)
  staged : ∀ i, s.manifests.lookup (.tmp r) = some i →
    s'.manifests.content i = s.manifests.content i
  counts : r ∈ counts s' ↔ r ∈ counts s

structure Aside (s s' : World) : Prop where
  epoch : s'.epoch = s.epoch
  index : s'.index = s.index
  names : s'.pages.lookup = s.pages.lookup
  packId : s'.active.packId = s.active.packId
  dirty : ∀ p ∈ s'.active.dirtySinceSync, p ∈ s.active.dirtySinceSync
  lookup : s'.manifests.lookup = s.manifests.lookup
  content : s'.manifests.content = s.manifests.content
  nextIno : s'.manifests.nextIno = s.manifests.nextIno
  counted : s'.ghost.counted = s.ghost.counted
  total : s'.manifestsTotal = s.manifestsTotal
  bytes : s'.logicalPageBytes = s.logicalPageBytes

structure PutRely (base : World) (r : SnapshotRef) (s s' : World) : Prop where
  stored : ∀ q, Stored s q → Stored s' q
  untouched : ¬ Stored base r → Untouched r s s'

theorem Untouched.refl (r : SnapshotRef) (s : World) : Untouched r s s :=
  ⟨rfl, rfl, fun _ _ => rfl, Iff.rfl⟩

theorem Untouched.trans {r : SnapshotRef} {s s' s'' : World} (h : Untouched r s s')
    (h' : Untouched r s' s'') : Untouched r s s'' where
  spm := h'.spm.trans h.spm
  tmp := h'.tmp.trans h.tmp
  staged i hi := (h'.staged i (h.tmp.trans hi)).trans (h.staged i hi)
  counts := h'.counts.trans h.counts

theorem Untouched.stored_iff {r : SnapshotRef} {s s' : World} (h : Untouched r s s') : Stored s' r ↔ Stored s r := by
  rw [Stored, Stored, hasManifest, hasManifest, h.spm]

def World.putPart (s : World) :=
  (s.epoch, s.index, s.pages.lookup, s.active.packId, s.active.dirtySinceSync, s.manifests.lookup,
    s.manifests.content, s.manifests.nextIno, s.ghost.counted, s.manifestsTotal, s.logicalPageBytes)

theorem Aside.of_part {s s' : World} (h : s'.putPart = s.putPart) : Aside s s' := by
  simp only [World.putPart, Prod.mk.injEq] at h
  obtain ⟨h₁, h₂, h₃, h₄, h₅, h₆, h₇, h₈, h₉, h₁₀, h₁₁⟩ := h
  exact ⟨h₁, h₂, h₃, h₄, fun p hp => by rwa [h₅] at hp, h₆, h₇, h₈, h₉, h₁₀, h₁₁⟩

theorem Aside.stored_iff {s s' : World} (h : Aside s s') (q : SnapshotRef) :
    Stored s' q ↔ Stored s q := by
  rw [Stored, Stored, hasManifest, hasManifest, h.lookup]

theorem Aside.putRely {base : World} {r : SnapshotRef} {s s' : World} (h : Aside s s') :
    PutRely base r s s' where
  stored q hq := (h.stored_iff q).mpr hq
  untouched _ := ⟨by rw [h.lookup], by rw [h.lookup], fun i _ => by rw [h.content],
    by rw [counts, h.counted, counts]⟩

theorem missingOf_map (hashes : List PageHash) (present : PageHash → Bool) :
    missingOf hashes (hashes.map present) = hashes.filter fun h => !present h := by
  induction hashes with
  | nil => rfl
  | cons h hashes ih =>
    rw [missingOf] at ih ⊢
    rw [List.map_cons, List.zip_cons_cons, List.filter_cons, List.filter_cons]
    split
    · rw [List.map_cons, ih]
    · exact ih

theorem missingOf_eq_nil (hashes : List PageHash) :
    missingOf hashes (hashes.map fun _ => true) = [] := by
  rw [missingOf_map]
  simp

theorem flushBuf_of_quiet {o : Oracle} (ho : o.Quiet) (w : PackWriter) (fs : PagesFs) :
    (w.flushBuf o fs).1 = .ok () ∧ (w.flushBuf o fs).2.2.lookup = fs.lookup := by
  unfold PackWriter.flushBuf
  split
  · exact ⟨rfl, rfl⟩
  · rw [PackWriter.writeAll, ho]
    exact ⟨rfl, rfl⟩

section Store

variable [Primitives]

/-- A container that `put_snapshot` accepts: it decodes, its pages are in the index, and its parent
is stored with the same amount of memory. -/
structure Acceptable (S : Set Bytes) (s : World) (c : Bytes) (m : Manifest) : Prop where
  mem : c ∈ S
  decode : Manifest.decode c = .ok m
  pages : ∀ h ∈ hashesOf m, (s.index.get h).isSome = true
  parent : ∀ p, m.parent = some p → Stored s p ∧ ∀ b ∈ S, Manifest.snapshotRef b = p →
    ∃ m', Manifest.decode b = .ok m' ∧ m'.guestRamBytes = m.guestRamBytes

def Exact (S : Set Bytes) (fs : ManifestsFs) : Prop :=
  ∀ r i, fs.lookup (.spm r) = some i → fs.content i ∈ S ∧ Manifest.snapshotRef (fs.content i) = r

structure PutInv (S : Set Bytes) (base s : World) : Prop where
  epoch : s.epoch = none
  index : s.index = base.index
  names : s.pages.lookup = base.pages.lookup
  packId : s.active.packId = base.active.packId
  dirty : ∀ p ∈ s.active.dirtySinceSync, p ∈ base.active.dirtySinceSync
  files : s.manifests.Unaliased
  exact : Exact S s.manifests
  kept : ∀ r, Stored base r → Stored s r
  once : (counts s).Nodup
  counted : ∀ x ∈ s.ghost.counted, ¬ Stored base x.1 ∧ Stored s x.1 ∧
    ∃ c m, c ∈ S ∧ Manifest.decode c = .ok m ∧ Manifest.snapshotRef c = x.1 ∧ m.guestRamBytes = x.2
  total : s.manifestsTotal = base.manifestsTotal + UInt64.ofNat s.ghost.counted.length
  bytes : s.logicalPageBytes = base.logicalPageBytes + UInt64.ofNat (s.ghost.counted.map (·.2)).sum

inductive PutMove (S : Set Bytes) (base : World) (r : SnapshotRef) (s : World) : World → Prop where
  | aside {s' : World} (h : Aside s s') : PutMove S base r s s'
  | stage : PutMove S base r s { s with manifests := (s.manifests.openTruncate (.tmp r)).2 }
  | write (f : Ino) (b : Bytes) (hf : s.manifests.lookup (.tmp r) = some f) :
      PutMove S base r s { s with manifests := s.manifests.write f 0 b }
  | rename (f : Ino) (pub : List (Tid × SnapshotRef)) (hf : s.manifests.lookup (.tmp r) = some f)
      (hmem : s.manifests.content f ∈ S) (href : Manifest.snapshotRef (s.manifests.content f) = r) :
      PutMove S base r s { s with
        manifests := s.manifests.rename (.tmp r) (.spm r) f
        ghost := { s.ghost with publishing := pub } }
  | count (c : Bytes) (m : Manifest) (hmem : c ∈ S) (hdecode : Manifest.decode c = .ok m)
      (href : Manifest.snapshotRef c = r) (hbase : ¬ Stored base r) (hst : Stored s r)
      (hnew : r ∉ counts s) :
      PutMove S base r s { s with
        manifestsTotal := s.manifestsTotal + 1
        logicalPageBytes := s.logicalPageBytes + UInt64.ofNat m.guestRamBytes
        ghost := { s.ghost with counted := (r, m.guestRamBytes) :: s.ghost.counted } }

namespace PutMove

variable {S : Set Bytes} {r q : SnapshotRef} {base s s' : World}

theorem spm_eq (h : PutMove S base r s s') (hne : q ≠ r) :
    s'.manifests.lookup (.spm q) = s.manifests.lookup (.spm q) := by
  cases h with
  | aside h => rw [h.lookup]
  | stage => exact FileSys.lookup_openTruncate_ne (by simp)
  | write f b hf => rfl
  | rename f pub hf hmem href =>
    rw [FileSys.lookup_rename, if_neg (by simpa using hne), if_neg (by simp)]
  | count c m hmem hdecode href hbase hst hnew => rfl

theorem stored (h : PutMove S base r s s') (hst : Stored s q) : Stored s' q := by
  by_cases hq : q = r
  · subst hq
    cases h with
    | aside h => exact (h.stored_iff q).mpr hst
    | stage =>
      rw [Stored, hasManifest, FileSys.lookup_openTruncate_ne (by simp)]
      exact hst
    | write f b hf => exact hst
    | rename f pub hf hmem href =>
      rw [Stored, hasManifest, FileSys.lookup_rename, if_pos rfl]
      rfl
    | count c m hmem hdecode href hbase hst hnew => exact hst
  · rw [Stored, hasManifest, h.spm_eq hq]
    exact hst

theorem untouched (h : PutMove S base r s s') (hi : s.manifests.Unaliased) (hne : q ≠ r) :
    Untouched q s s' := by
  refine ⟨h.spm_eq hne, ?_, ?_, ?_⟩
  · cases h with
    | aside h => rw [h.lookup]
    | stage => exact FileSys.lookup_openTruncate_ne (by simpa using hne)
    | write f b hf => rfl
    | rename f pub hf hmem href =>
      rw [FileSys.lookup_rename, if_neg (by simp), if_neg (by simpa using hne)]
    | count c m hmem hdecode href hbase hst hnew => rfl
  · intro i htmp
    have hname : ManifestFile.tmp q ≠ .tmp r := by simpa using hne
    cases h with
    | aside h => rw [h.content]
    | stage => exact hi.content_openTruncate hname htmp
    | write f b hf => exact hi.content_write hname hf htmp
    | rename f pub hf hmem href => rfl
    | count c m hmem hdecode href hbase hst hnew => rfl
  · cases h with
    | aside h => rw [counts, h.counted, counts]
    | stage => exact Iff.rfl
    | write f b hf => exact Iff.rfl
    | rename f pub hf hmem href => exact Iff.rfl
    | count c m hmem hdecode href hbase hst hnew =>
      simp only [counts, List.map_cons, List.mem_cons, hne, false_or]

theorem exact (h : PutMove S base r s s') (hi : s.manifests.Unaliased) (he : Exact S s.manifests) :
    Exact S s'.manifests := by
  cases h with
  | aside h =>
    unfold Exact
    rw [h.lookup, h.content]
    exact he
  | stage =>
    intro q i hq
    rw [FileSys.lookup_openTruncate_ne (by simp)] at hq
    rw [hi.content_openTruncate (by simp) hq]
    exact he q i hq
  | write f b hf =>
    intro q i hq
    rw [hi.content_write (by simp) hf hq]
    exact he q i hq
  | rename f pub hf hmem href =>
    intro q i hq
    rw [FileSys.lookup_rename] at hq
    split at hq
    · next heq =>
      cases hq
      cases heq
      exact ⟨hmem, href⟩
    · rw [if_neg (by simp)] at hq
      exact he q i hq
  | count c m hmem hdecode href hbase hst hnew => exact he

theorem unaliased (h : PutMove S base r s s') (hi : s.manifests.Unaliased) :
    s'.manifests.Unaliased := by
  cases h with
  | aside h =>
    refine ⟨?_, ?_⟩
    · rw [h.lookup]
      exact hi.injective
    · rw [h.lookup, h.nextIno]
      exact hi.born
  | stage => exact hi.openTruncate _
  | write f b hf => exact ⟨hi.injective, hi.born⟩
  | rename f pub hf hmem href => exact hi.rename hf
  | count c m hmem hdecode href hbase hst hnew => exact hi

theorem counted_cases (h : PutMove S base r s s') :
    (s'.ghost.counted = s.ghost.counted ∧ s'.manifestsTotal = s.manifestsTotal ∧
      s'.logicalPageBytes = s.logicalPageBytes) ∨
    ∃ c m, c ∈ S ∧ Manifest.decode c = .ok m ∧ Manifest.snapshotRef c = r ∧ ¬ Stored base r ∧
      Stored s r ∧ r ∉ counts s ∧ s'.ghost.counted = (r, m.guestRamBytes) :: s.ghost.counted ∧
      s'.manifestsTotal = s.manifestsTotal + 1 ∧
      s'.logicalPageBytes = s.logicalPageBytes + UInt64.ofNat m.guestRamBytes := by
  cases h with
  | aside h => exact .inl ⟨h.counted, h.total, h.bytes⟩
  | stage => exact .inl ⟨rfl, rfl, rfl⟩
  | write f b hf => exact .inl ⟨rfl, rfl, rfl⟩
  | rename f pub hf hmem href => exact .inl ⟨rfl, rfl, rfl⟩
  | count c m hmem hdecode href hbase hst hnew =>
    exact .inr ⟨c, m, hmem, hdecode, href, hbase, hst, hnew, rfl, rfl, rfl⟩

theorem fixed (h : PutMove S base r s s') : s'.epoch = s.epoch ∧ s'.index = s.index ∧
    s'.pages.lookup = s.pages.lookup ∧ s'.active.packId = s.active.packId ∧
    ∀ p ∈ s'.active.dirtySinceSync, p ∈ s.active.dirtySinceSync := by
  cases h with
  | aside h => exact ⟨h.epoch, h.index, h.names, h.packId, h.dirty⟩
  | stage => exact ⟨rfl, rfl, rfl, rfl, fun _ => id⟩
  | write f b hf => exact ⟨rfl, rfl, rfl, rfl, fun _ => id⟩
  | rename f pub hf hmem href => exact ⟨rfl, rfl, rfl, rfl, fun _ => id⟩
  | count c m hmem hdecode href hbase hst hnew => exact ⟨rfl, rfl, rfl, rfl, fun _ => id⟩

theorem inv (h : PutMove S base r s s') (hi : PutInv S base s) : PutInv S base s' := by
  obtain ⟨hepoch, hindex, hnames, hpack, hdirty⟩ := h.fixed
  have hfiles := h.unaliased hi.files
  have hexact := h.exact hi.files hi.exact
  have hkept : ∀ q, Stored base q → Stored s' q := fun q hq => h.stored (hi.kept q hq)
  rcases h.counted_cases with ⟨hcounted, htotal, hbytes⟩ | ⟨c, m, hmem, hdecode, href, hbase, hst,
    hnew, hcounted, htotal, hbytes⟩
  · refine ⟨hepoch.trans hi.epoch, hindex.trans hi.index, hnames.trans hi.names,
      hpack.trans hi.packId, fun p hp => hi.dirty p (hdirty p hp), hfiles, hexact, hkept, ?_, ?_,
      ?_, ?_⟩
    · rw [counts, hcounted]
      exact hi.once
    · intro x hx
      rw [hcounted] at hx
      obtain ⟨hnb, hs, hc⟩ := hi.counted x hx
      exact ⟨hnb, h.stored hs, hc⟩
    · rw [htotal, hcounted]
      exact hi.total
    · rw [hbytes, hcounted]
      exact hi.bytes
  · refine ⟨hepoch.trans hi.epoch, hindex.trans hi.index, hnames.trans hi.names,
      hpack.trans hi.packId, fun p hp => hi.dirty p (hdirty p hp), hfiles, hexact, hkept, ?_, ?_,
      ?_, ?_⟩
    · rw [counts, hcounted, List.map_cons]
      exact List.nodup_cons.mpr ⟨hnew, hi.once⟩
    · intro x hx
      rw [hcounted, List.mem_cons] at hx
      rcases hx with rfl | hx
      · exact ⟨hbase, h.stored hst, c, m, hmem, hdecode, href, rfl⟩
      · obtain ⟨hnb, hs, hc⟩ := hi.counted x hx
        exact ⟨hnb, h.stored hs, hc⟩
    · rw [htotal, hcounted, hi.total, List.length_cons, UInt64.ofNat_add, UInt64.add_assoc]
      rfl
    · rw [hbytes, hcounted, hi.bytes, List.map_cons, List.sum_cons, UInt64.ofNat_add,
        UInt64.add_assoc, UInt64.add_comm (UInt64.ofNat m.guestRamBytes)]

end PutMove

/-! ## Rules -/

def putRules (S : Set Bytes) (base : World) (r : SnapshotRef) : Rules Oracle World where
  may o _ _ := o.Quiet
  inv := PutInv S base
  rely := PutRely base r
  guar := PutMove S base r
  rely_refl s := ⟨fun _ => id, fun _ => Untouched.refl r s⟩
  rely_trans _ _ _ h h' :=
    ⟨fun q hq => h'.stored q (h.stored q hq), fun hn => (h.untouched hn).trans (h'.untouched hn)⟩

variable {S : Set Bytes} {base : World} {r : SnapshotRef}

theorem PutMove.rely {q : SnapshotRef} {s s' : World} (h : PutMove S base q s s')
    (hi : PutInv S base s) (hne : r = q → Stored base r) : PutRely base r s s' :=
  ⟨fun _ hst => h.stored hst, fun hn => h.untouched hi.files fun heq => hn (hne heq)⟩

def Settled (base : World) (r : SnapshotRef) (s : World) : Prop :=
  Stored s r → Stored base r ∨ r ∈ counts s

structure Staged (base : World) (r : SnapshotRef) (f : Ino) (b : Bytes) (s : World) : Prop where
  new : ¬ Stored base r
  missing : ¬ Stored s r
  tmp : s.manifests.lookup (.tmp r) = some f
  content : s.manifests.content f = b

structure Placed (base : World) (r : SnapshotRef) (s : World) : Prop where
  new : ¬ Stored base r
  stored : Stored s r
  uncounted : r ∉ counts s

theorem stable_settled : Stable (putRules S base r) (Settled base r) := by
  intro s s' hs hr _ hst
  by_cases hb : Stored base r
  · exact .inl hb
  · have hu := hr.untouched hb
    exact (hs (hu.stored_iff.mp hst)).imp id hu.counts.mpr

theorem stable_missing : Stable (putRules S base r) fun s => ¬ Stored base r ∧ ¬ Stored s r := by
  intro s s' hs hr _
  exact ⟨hs.1, fun hst => hs.2 ((hr.untouched hs.1).stored_iff.mp hst)⟩

theorem stable_staged (f : Ino) (b : Bytes) : Stable (putRules S base r) (Staged base r f b) := by
  intro s s' hs hr _
  have hu := hr.untouched hs.new
  exact ⟨hs.new, fun hst => hs.missing (hu.stored_iff.mp hst), hu.tmp.trans hs.tmp,
    (hu.staged f hs.tmp).trans hs.content⟩

theorem stable_placed : Stable (putRules S base r) (Placed base r) := by
  intro s s' hs hr _
  have hu := hr.untouched hs.new
  exact ⟨hs.new, hu.stored_iff.mpr hs.stored, fun hc => hs.uncounted (hu.counts.mp hc)⟩

theorem stable_stored (q : SnapshotRef) : Stable (putRules S base r) fun s => Stored s q :=
  fun _ _ hs hr _ => hr.stored q hs

section Actions

variable {E α : Type} {Q : Except E α → World → Prop} {A : World → Prop} {s : World}

theorem wp_put_action {f : Oracle → World → Except E α × World}
    (hA : Stable (putRules S base r) A) (hs : A s)
    (h : ∀ o w, o.Quiet → PutInv S base w → A w →
      PutMove S base r w (f o w).2 ∧ Q (f o w).1 (f o w).2) :
    wp (putRules S base r) (action f).run Q s := by
  refine wp_atomic hA hs fun o w hi hw hq => ?_
  obtain ⟨hm, hQ⟩ := h o w hq hi hw
  exact ⟨hm.inv hi, hm, hQ⟩

theorem wp_put_aside {f : Oracle → World → Except E α × World} {R : Except E α → Prop}
    (hA : Stable (putRules S base r) A) (hs : A s)
    (h : ∀ o w, o.Quiet → PutInv S base w → A w → Aside w (f o w).2 ∧ R (f o w).1) :
    wp (putRules S base r) (action f).run (fun res w => R res ∧ A w) s := by
  refine wp_put_action hA hs fun o w hq hi hw => ?_
  obtain ⟨haside, hres⟩ := h o w hq hi hw
  have hm : PutMove S base r w (f o w).2 := .aside haside
  exact ⟨hm, hres, hA _ _ hw haside.putRely (hm.inv hi)⟩

theorem wp_put_observe {f : Oracle → World → Except E α} (hA : Stable (putRules S base r) A)
    (hs : A s) (h : ∀ o w, o.Quiet → PutInv S base w → A w → Q (f o w) w) :
    wp (putRules S base r) (observe f).run Q s :=
  wp_put_action hA hs fun o w hq hi hw =>
    ⟨.aside (.of_part rfl), h o w hq hi hw⟩

theorem wp_put_look {f : World → α} (hA : Stable (putRules S base r) A) (hs : A s)
    (h : ∀ w, PutInv S base w → A w → Q (.ok (f w)) w) :
    wp (putRules S base r) (look f).run Q s :=
  wp_put_observe hA hs fun _ w _ hi hw => h w hi hw

end Actions

/-! ## The checks of a put -/

section Checks

variable {A : World → Prop} {s : World} {c : Bytes} {m : Manifest}

theorem wp_put_readManifestBytes (hA : Stable (putRules S base r) A) {p : SnapshotRef}
    (hs : A s) (hp : Stored s p)
    (hdec : ∀ b ∈ S, Manifest.snapshotRef b = p → ∃ m, Manifest.decode b = .ok m) :
    wp (putRules S base r) (readManifestBytes p).run (fun res w =>
      (∃ b ∈ S, Manifest.snapshotRef b = p ∧ res = .ok b) ∧ A w) s := by
  have hB : Stable (putRules S base r) fun w => A w ∧ Stored w p := hA.and (stable_stored p)
  refine wpE_bind (wp_put_action hB ⟨hs, hp⟩ fun o w _ hi hw => ?_)
  have hhas : hasManifest w p = true := hw.2
  rw [if_pos hhas]
  refine ⟨.aside (.of_part rfl), ?_⟩
  refine wpE_bind (wp_put_observe hB hw fun o w hq hi hw => ?_)
  rw [hq]
  obtain ⟨i, hlook⟩ := Option.isSome_iff_exists.mp hw.2
  obtain ⟨hmem, href⟩ := hi.exact p i hlook
  obtain ⟨m, hm⟩ := hdec _ hmem href
  have hread : w.manifests.readName (.spm p) = some (w.manifests.content i) := by
    rw [FileSys.readName, hlook]
    rfl
  rw [hread]
  dsimp only
  rw [andThen_ok]
  refine wp_ofExcept ?_
  refine ⟨⟨_, hmem, href, ?_⟩, hw.1⟩
  rw [← href, verifyManifest_of_decode hm]
  rfl

theorem wp_put_checkParent (hA : Stable (putRules S base r) A) (hs : A s)
    (hd : Manifest.decode c = .ok m)
    (hpar : ∀ p, m.parent = some p → Stored s p ∧ ∀ b ∈ S, Manifest.snapshotRef b = p →
      ∃ m', Manifest.decode b = .ok m' ∧ m'.guestRamBytes = m.guestRamBytes) :
    wp (putRules S base r) (checkParent m).run (fun res w => res = .ok () ∧ A w) s := by
  unfold checkParent
  split
  · next hdelta =>
    obtain ⟨p, hp⟩ := Option.isSome_iff_exists.mp ((Manifest.decode_delta hd).mp hdelta)
    obtain ⟨hst, hram⟩ := hpar p hp
    rw [hp]
    refine wpE_bind (wp_withError (wp_mono ?_ (wp_put_readManifestBytes hA hs hst
      fun b hb href => (hram b hb href).imp fun _ h => h.1)))
    intro res w h
    obtain ⟨⟨b, hb, href, rfl⟩, hw⟩ := h
    obtain ⟨m', hm', heq⟩ := hram b hb href
    refine wpE_bind (wp_ofExcept ?_)
    rw [hm', Except.mapError, andThen_ok, if_neg (not_not.mpr heq)]
    exact ⟨rfl, hw⟩
  · exact ⟨rfl, hs⟩

theorem wp_put_containsBatch {E : Type} (hA : Stable (putRules S base r) A) (hs : A s)
    (hashes : List PageHash) (hpages : ∀ h ∈ hashes, (base.index.get h).isSome = true) :
    wp (putRules S base r) (containsBatch hashes : ExceptT E P (List Bool)).run (fun res w =>
      res = .ok (hashes.map fun _ => true) ∧ A w) s := by
  refine wpE_foldlM (fun out rest w => A w ∧ ∃ done, hashes = done ++ rest ∧
    out = done.map fun _ => true) ?_ ?_ hashes [] s ⟨hs, [], rfl, rfl⟩
  · intro out h rest w hw
    obtain ⟨hw, done, hdone, hout⟩ := hw
    refine wpE_bind (wp_put_look hA hw fun w hi hw => ?_)
    refine ⟨hw, done ++ [h], by simp [hdone], ?_⟩
    rw [hi.index, hpages h (by simp [hdone]), hout, List.map_append]
    rfl
  · intro out w hw
    obtain ⟨hw, done, hdone, rfl⟩ := hw
    rw [List.append_nil] at hdone
    exact ⟨by rw [hdone], hw⟩

end Checks

/-! ## Group commit -/

section Barrier

variable {A : World → Prop} {s : World}

theorem wp_put_fdatasyncPack (hA : Stable (putRules S base r) A) (hs : A s) {p : PackId}
    (hp : (base.pages.lookup (.spk p)).isSome = true) :
    wp (putRules S base r) (PageStore.fdatasyncPack p).run (fun res w => res = .ok () ∧ A w) s := by
  refine wpE_bind (wp_put_observe hA hs fun o w hq hi hw => ?_)
  obtain ⟨i, hlook⟩ := Option.isSome_iff_exists.mp hp
  rw [hq, hi.names, hlook]
  refine wp_put_aside hA hw fun o w hq _ _ => ?_
  dsimp only
  rw [hq]
  exact ⟨.of_part rfl, rfl⟩

theorem wp_put_update {f : World → World} (hA : Stable (putRules S base r) A) (hs : A s)
    (h : ∀ w, Aside w (f w)) :
    wp (putRules S base r) (Prog.update f) (fun _ w => A w) s := by
  refine wp_atomic hA hs fun o w hi hw _ => ?_
  have hm : PutMove S base r w (f w) := .aside (h w)
  exact ⟨hm.inv hi, hm, hA _ _ hw (h w).putRely (hm.inv hi)⟩

theorem wp_put_withActive {E α : Type} {t : Tid} {body : ExceptT E P α} {R : Except E α → Prop}
    (hA : Stable (putRules S base r) A) (hs : A s)
    (hbody : ∀ w, A w → wp (putRules S base r) body.run (fun res w => R res ∧ A w) w) :
    wp (putRules S base r) (withActive t body).run (fun res w => R res ∧ A w) s := by
  refine wp_bind (wp_await hA hs fun o w b u hi hw hf _ => ?_)
  cases hl : w.activeLock with
  | some v => simp [hl] at hf
  | none =>
    simp only [hl, Option.some.injEq, Prod.mk.injEq] at hf
    obtain ⟨-, rfl⟩ := hf
    have haside : Aside w { w with activeLock := some t } :=
      .of_part rfl
    have hm : PutMove S base r w _ := .aside haside
    refine ⟨hm.inv hi, hm, wp_bind (wp_mono ?_ (hbody _ (hA _ _ hw haside.putRely (hm.inv hi))))⟩
    intro res w h
    refine wp_bind (wp_mono (fun _ _ hw => ⟨h.1, hw⟩) (wp_put_update hA h.2 fun w => ?_))
    exact .of_part rfl

theorem wp_put_sync (hA : Stable (putRules S base r) A) (hs : A s) (t : Tid)
    (hlinked : ∀ p ∈ base.active.dirtySinceSync.insert base.active.packId,
      (base.pages.lookup (.spk p)).isSome = true) :
    wp (putRules S base r) (PageStore.sync t).run (fun res w => res = .ok () ∧ A w) s := by
  refine wp_put_withActive hA hs fun w hw => ?_
  refine wpE_bind (wp_mono ?_ (wp_put_aside (R := (· = .ok ())) hA hw fun o w hq _ _ => ?_))
  · intro res w h
    obtain ⟨rfl, hw⟩ := h
    refine wpE_bind (wp_mono ?_ (wp_put_aside (R := fun res => ∃ ps, res = .ok ps ∧
      ∀ p ∈ ps, (base.pages.lookup (.spk p)).isSome = true) hA hw fun o w _ hi _ => ?_))
    · intro res w h
      obtain ⟨⟨ps, rfl, hps⟩, hw⟩ := h
      have hloop : wp (putRules S base r)
          (ps.foldlM (fun _ p => PageStore.fdatasyncPack p) () : PE Unit).run
          (fun res w => res = .ok () ∧ A w) w := by
        refine wpE_foldlM (fun _ rest w => A w ∧ ∀ p ∈ rest, p ∈ ps) ?_
          (fun _ _ h => ⟨rfl, h.1⟩) ps () w ⟨hw, fun _ => id⟩
        intro _ p rest w h
        refine wp_mono ?_ (wp_put_fdatasyncPack hA h.1 (hps p (h.2 p List.mem_cons_self)))
        intro res w hres
        obtain ⟨rfl, hw⟩ := hres
        exact ⟨hw, fun q hq => h.2 q (List.mem_cons_of_mem p hq)⟩
      refine wpE_bind (wp_mono ?_ hloop)
      intro res w h
      obtain ⟨rfl, hw⟩ := h
      have hdir : wp (putRules S base r) PageStore.syncNewFiles.run
          (fun res w => res = .ok () ∧ A w) w := by
        refine wpE_bind (wp_put_look hA hw fun w _ hw => ?_)
        rw [andThen_ok]
        split
        · refine wp_put_aside hA hw fun o w hq _ _ => ?_
          dsimp only
          rw [hq, hq]
          exact ⟨.of_part rfl, rfl⟩
        · exact ⟨rfl, hw⟩
      refine wpE_bind (wp_mono ?_ hdir)
      intro res w h
      obtain ⟨rfl, hw⟩ := h
      exact wp_put_aside (f := fun _ s => (.ok (), _)) hA hw fun o w _ _ _ =>
        ⟨.of_part rfl, rfl⟩
    · refine ⟨⟨rfl, rfl, rfl, rfl, by simp, rfl, rfl, rfl, rfl, rfl, rfl⟩, _, rfl, ?_⟩
      intro p hp
      rw [Oracle.mem_walk, List.mem_insert_iff, hi.packId] at hp
      exact hlinked p (List.mem_insert_iff.mpr (hp.imp id (hi.dirty p)))
  · obtain ⟨hok, hlook⟩ := flushBuf_of_quiet hq w.active.writer w.pages
    dsimp only
    rw [hok]
    exact ⟨⟨rfl, rfl, hlook, rfl, fun _ => id, rfl, rfl, rfl, rfl, rfl, rfl⟩, rfl⟩

theorem wp_put_barrier (hA : Stable (putRules S base r) A) (hs : A s) (t : Tid)
    (hashes : List PageHash) {sync : PE Unit} (hsync : ∀ w, A w →
      wp (putRules S base r) sync.run (fun res w => res = .ok () ∧ A w) w) :
    wp (putRules S base r) (barrier t hashes sync).run (fun res w => res = .ok () ∧ A w) s := by
  refine wpE_bind (wp_mono ?_ (wp_put_aside (R := fun res => ∃ n, res = .ok n) hA hs
    fun o w _ _ _ => ⟨.of_part rfl, _, rfl⟩))
  intro res w h
  obtain ⟨⟨gen, rfl⟩, hw⟩ := h
  refine wpE_bind (wp_await hA hw fun o w b u hi hw hf _ => ?_)
  split at hf
  · cases hf
    have hm : PutMove S base r w w :=
      .aside (.of_part rfl)
    exact ⟨hi, hm, rfl, hw⟩
  · split at hf <;> cases hf
    have haside : Aside w { w with
        commit := { w.commit with flushing := true }
        ghost := { w.ghost with flusher := some t } } :=
      .of_part rfl
    have hm : PutMove S base r w _ := .aside haside
    refine ⟨hm.inv hi, hm, ?_⟩
    refine wp_bind (wp_mono ?_ (hsync _ (hA _ _ hw haside.putRely (hm.inv hi))))
    intro res w h
    refine wp_bind (wp_mono (fun _ _ hw => ⟨h.1, hw⟩) (wp_put_update hA h.2 fun w => ?_))
    exact .of_part rfl

end Barrier

/-! ## The publish section -/

section Publish

variable {s : World} {t : Tid} {c : Bytes} {m : Manifest}

def Recorded (base : World) (r : SnapshotRef) (s : World) : Prop :=
  Stored s r ∧ (Stored base r ∨ r ∈ counts s)

theorem stable_recorded : Stable (putRules S base r) (Recorded base r) := by
  intro s s' hs hr _
  refine ⟨hr.stored r hs.1, ?_⟩
  by_cases hb : Stored base r
  · exact .inl hb
  · exact .inr ((hr.untouched hb).counts.mpr (hs.2.resolve_left hb))

theorem wp_put_openStaging (hs : ¬ Stored base r ∧ ¬ Stored s r) :
    wp (putRules S base r) (openStaging r).run
      (fun res w => ∃ f, res = .ok f ∧ Staged base r f [] w) s := by
  refine wp_put_action stable_missing hs fun o w hq hi hw => ?_
  dsimp only
  rw [hq]
  obtain ⟨hlook, hcontent⟩ := FileSys.Unaliased.lookup_openTruncate w.manifests (.tmp r)
  refine ⟨.stage, _, rfl, hw.1, ?_, hlook, hcontent⟩
  rw [Stored, hasManifest, FileSys.lookup_openTruncate_ne (by simp)]
  exact hw.2

theorem wp_put_writeStaging {f : Ino} (hs : Staged base r f [] s) :
    wp (putRules S base r) (writeStaging f c).run
      (fun res w => res = .ok () ∧ Staged base r f c w) s := by
  refine wp_put_action (stable_staged f []) hs fun o w hq hi hw => ?_
  rw [hq]
  refine ⟨.write f c hw.tmp, rfl, hw.new, hw.missing, hw.tmp, ?_⟩
  rw [FileSys.content_write, if_pos rfl, hw.content]
  simp [writeAt]

theorem wp_put_syncStaging {f : Ino} (hs : Staged base r f c s) :
    wp (putRules S base r) (syncStaging f).run
      (fun res w => res = .ok () ∧ Staged base r f c w) s := by
  refine wp_put_aside (stable_staged f c) hs fun o w hq _ _ => ?_
  dsimp only
  rw [hq]
  refine ⟨⟨rfl, rfl, rfl, rfl, fun _ => id, rfl, ?_, rfl, rfl, rfl, rfl⟩, rfl⟩
  funext j
  simp

theorem wp_put_renameStaging {f : Ino} (hc : c ∈ S) (href : Manifest.snapshotRef c = r)
    (hs : Staged base r f c s) :
    wp (putRules S base r) (renameStaging t r).run
      (fun res w => res = .ok () ∧ Placed base r w) s := by
  refine wp_put_action (stable_staged f c) hs fun o w hq hi hw => ?_
  dsimp only
  rw [hq, hw.tmp]
  refine ⟨.rename f _ hw.tmp (by rwa [hw.content]) (by rwa [hw.content]), rfl, hw.new, ?_, ?_⟩
  · rw [Stored, hasManifest, FileSys.lookup_rename, if_pos rfl]
    rfl
  · intro hcount
    obtain ⟨x, hx, rfl⟩ := List.mem_map.mp hcount
    exact hw.missing (hi.counted x hx).2.1

theorem wp_put_publish (hc : c ∈ S) (href : Manifest.snapshotRef c = r)
    (hs : ¬ Stored base r ∧ ¬ Stored s r) :
    wp (putRules S base r) (publish t r c).run (fun res w => res = .ok () ∧ Placed base r w) s := by
  refine wpE_bind (wp_mono ?_ (wp_put_aside (R := (· = .ok ())) stable_missing hs
    fun o w hq _ _ => ?_))
  · intro res w h
    obtain ⟨rfl, hw⟩ := h
    refine wpE_bind (wp_mono ?_ (wp_put_openStaging hw))
    intro res w h
    obtain ⟨f, rfl, hw⟩ := h
    refine wpE_bind (wp_mono ?_ (wp_put_writeStaging hw))
    intro res w h
    obtain ⟨rfl, hw⟩ := h
    refine wpE_bind (wp_mono ?_ (wp_put_syncStaging hw))
    intro res w h
    obtain ⟨rfl, hw⟩ := h
    refine wpE_bind (wp_mono ?_ (wp_put_renameStaging hc href hw))
    intro res w h
    obtain ⟨rfl, hw⟩ := h
    refine wp_put_aside stable_placed hw fun o w hq _ _ => ?_
    dsimp only
    rw [hq]
    exact ⟨.of_part rfl, rfl⟩
  · dsimp only
    rw [hq]
    exact ⟨.of_part rfl, rfl⟩

theorem wp_put_registerLiveRef (hs : Recorded base r s) :
    wp (putRules S base r) (registerLiveRef t r).run
      (fun res w => res = .ok () ∧ Recorded base r w) s := by
  refine wpE_bind (wp_mono ?_ (wp_put_aside (R := (· = .ok false)) stable_recorded hs
    fun o w _ hi _ => ?_))
  · intro res w h
    obtain ⟨rfl, hw⟩ := h
    refine wpE_bind (wpE_bind (wp_put_look stable_recorded hw fun w _ hw => ?_))
    have hhas : hasManifest w r = true := hw.1
    rw [andThen_ok, if_pos hhas]
    exact wp_put_aside (f := fun _ s => (.ok (), _)) stable_recorded hw fun o w _ _ _ =>
      ⟨.of_part rfl, rfl⟩
  · dsimp only
    rw [hi.epoch]
    exact ⟨⟨hi.epoch.symm, rfl, rfl, rfl, fun _ => id, rfl, rfl, rfl, rfl, rfl, rfl⟩, rfl⟩

theorem wp_put_commit (hc : c ∈ S) (hd : Manifest.decode c = .ok m)
    (href : Manifest.snapshotRef c = r) (hs : Settled base r s) :
    wp (putRules S base r) (commit t c m).run
      (fun res w => res = .ok r ∧ Recorded base r w) s := by
  have hreg : ∀ w, Recorded base r w → wp (putRules S base r) (ExceptT.run (do
      withError (registerError r) (registerLiveRef t r)
      return r)) (fun res w => res = .ok r ∧ Recorded base r w) w := by
    intro w hw
    refine wpE_bind (wp_withError (wp_mono ?_ (wp_put_registerLiveRef hw)))
    intro res w h
    obtain ⟨rfl, hw⟩ := h
    exact ⟨rfl, hw⟩
  subst href
  refine wpE_bind (wp_put_look stable_settled hs fun w hi hw => ?_)
  rw [andThen_ok]
  split
  · next hhas => exact hreg w ⟨hhas, hw hhas⟩
  · next hhas =>
    refine wpE_bind (wp_withError (wp_mono ?_ (wp_put_publish hc rfl
      ⟨fun hb => hhas (hi.kept _ hb), hhas⟩)))
    intro res w h
    obtain ⟨rfl, hw⟩ := h
    refine wpE_bind (wp_put_action (f := fun _ s => (.ok (), _)) stable_placed hw
      fun o w _ hi hw => ?_)
    refine ⟨.count c m hc hd rfl hw.new hw.stored hw.uncounted, ?_⟩
    exact hreg _ ⟨hw.stored, .inr List.mem_cons_self⟩

end Publish

/-! ## put_snapshot -/

theorem wp_put_withCommitGate {E α : Type} {A : World → Prop} {B : Except E α → World → Prop}
    {s : World} {t : Tid} {body : ExceptT E P α} (hA : Stable (putRules S base r) A) (hs : A s)
    (hB : ∀ res, Stable (putRules S base r) (B res))
    (hbody : ∀ w, A w → wp (putRules S base r) body.run B w) :
    wp (putRules S base r) (withCommitGate t body).run B s := by
  refine wp_bind (wp_await hA hs fun o w b u hi hw hf _ => ?_)
  split at hf <;> cases hf
  have haside : Aside w { w with gate := { w.gate with readers := t :: w.gate.readers } } :=
    .of_part rfl
  have hm : PutMove S base r w _ := .aside haside
  refine ⟨hm.inv hi, hm, wp_bind (wp_mono ?_ (hbody _ (hA _ _ hw haside.putRely (hm.inv hi))))⟩
  intro res w h
  exact wp_bind (wp_put_update (hB res) h fun w => .of_part rfl)

theorem wp_put_putSnapshot {s : World} {t : Tid} {c : Bytes} {m : Manifest}
    (hlinked : ∀ p ∈ base.active.dirtySinceSync.insert base.active.packId,
      (base.pages.lookup (.spk p)).isSome = true)
    (href : Manifest.snapshotRef c = r) (hi : PutInv S base s) (hs : Settled base r s)
    (hc : Acceptable S s c m) :
    wp (putRules S base r) (putSnapshot t c).run
      (fun res w => res = .ok r ∧ Recorded base r w) s := by
  have hS : Stable (putRules S base r) (Settled base r) := stable_settled
  have hA : Stable (putRules S base r) fun w =>
      Settled base r w ∧ ∀ p, m.parent = some p → Stored w p :=
    hS.and (Stable.all fun p => Stable.all fun _ => stable_stored p)
  have hpages : ∀ h ∈ hashesOf m, (base.index.get h).isSome = true := by
    rw [← hi.index]
    exact hc.pages
  refine wpE_bind (wp_ofExcept ?_)
  rw [hc.decode, Except.mapError, andThen_ok]
  refine wp_put_withCommitGate hA ⟨hs, fun p hp => (hc.parent p hp).1⟩
    (fun _ => (Stable.const _).and stable_recorded) fun w hw => ?_
  refine wpE_bind (wp_mono ?_ (wp_put_checkParent hS hw.1 hc.decode
    fun p hp => ⟨hw.2 p hp, (hc.parent p hp).2⟩))
  intro res w h
  obtain ⟨rfl, hw⟩ := h
  refine wpE_bind (wp_mono ?_ (wp_put_containsBatch hS hw (hashesOf m) hpages))
  intro res w h
  obtain ⟨rfl, hw⟩ := h
  rw [andThen_ok]
  dsimp only
  rw [if_neg (not_not.mpr (missingOf_eq_nil _))]
  refine wpE_bind (wp_withError (wp_mono ?_ (wp_put_barrier hS hw t _
    fun w hw => wp_put_sync hS hw t hlinked)))
  intro res w h
  obtain ⟨rfl, hw⟩ := h
  exact wp_put_commit hc.mem hc.decode href hw

end Store

end SnapStore
