import SnapStore.Pagestore.Interrupted
import SnapStore.Pagestore.Ownership

/-!
# Recovery after a kill

A process kill leaves pack files with whole records only.  The recovery reads the records of every
pack into the index, and reopens the highest unsealed pack.  If a page of that pack has another
record too, the index may lead elsewhere.
-/

namespace SnapStore

open Disk Conc

section Records

variable [Primitives] {cap : Nat} {fs fs' : PagesFs} {p q : PackId} {rs : List Entry} {b : Bytes}

def packRecords (b : Bytes) : List (Nat × PageHash) :=
  match PackReader.openSealed b with
  | .ok e => (PackReader.scan b e).toOption.getD []
  | .error _ =>
    match PackReader.openUnsealed b with
    | .ok (e, _, _) => (PackReader.scan b e).toOption.getD []
    | .error _ => []

def recordsOf (fs : PagesFs) (p : PackId) : List (Nat × PageHash) :=
  ((fs.readName (.spk p)).map packRecords).getD []

def Unsealed (fs : PagesFs) (p : PackId) : Prop :=
  ∃ b, fs.readName (.spk p) = some b ∧ packHeaderSize ≤ b.length ∧
    ∀ e, PackReader.openSealed b ≠ .ok e

def Reopened (fs : PagesFs) (p : PackId) : Prop := Unsealed fs p ∧ ∀ q, Unsealed fs q → q ≤ p

/-- The records of the pack that a recovery reopens have different hashes, which no record of
another pack has. -/
def Distinct (fs : PagesFs) : Prop :=
  ∀ p, Reopened fs p → ((recordsOf fs p).map Prod.snd).Nodup ∧
    ∀ q, q ≠ p → ∀ h ∈ (recordsOf fs p).map Prod.snd, h ∉ (recordsOf fs q).map Prod.snd

theorem Bounded.length_lt (h : Bounded cap rs) (hcap : cap < recordOffset (2 ^ 32)) :
    rs.length < 2 ^ 32 := by
  have hsize := lt_of_le_of_lt h.size hcap
  simp only [recordOffset, recordSize, recordHeaderSize, pageSize] at hsize
  omega

theorem packRecords_eq (hb : PackOf cap rs b) (hcap : cap < recordOffset (2 ^ 32)) :
    packRecords b = entriesAt packHeaderSize rs := by
  obtain ⟨hdr, hh, hshape⟩ := hb.shape
  have hlen := hb.bounded.length_lt hcap
  unfold packRecords
  cases hopen : PackReader.openSealed b with
  | ok e =>
    dsimp only
    rw [scan_of_openSealed hh hshape hopen]
    rfl
  | error e =>
    rcases hshape with rfl | rfl
    · dsimp only
      rw [openUnsealed_openPack hh hb.bounded.hashed]
      dsimp only
      rw [scan_openPack hh]
      rfl
    · rw [openSealed_sealedPack hh (by omega)] at hopen
      cases hopen

theorem packRecords_nil : packRecords [] = [] := rfl

theorem recordsOf_eq (h : fs.readName (.spk p) = some b) : recordsOf fs p = packRecords b := by
  rw [recordsOf, h]
  rfl

theorem recordsOf_none (h : fs.lookup (.spk p) = none) : recordsOf fs p = [] := by
  rw [recordsOf, FileSys.readName, h]
  rfl

theorem DiskSound.recordAt (hd : DiskSound cap fs) (hcap : cap < recordOffset (2 ^ 32)) {off : Nat}
    {h : PageHash} (hm : (off, h) ∈ recordsOf fs p) :
    ∃ b, fs.readName (.spk p) = some b ∧ RecordAt b off h := by
  cases hread : fs.readName (.spk p) with
  | none =>
    rw [recordsOf, hread] at hm
    cases hm
  | some b =>
    rw [recordsOf_eq hread] at hm
    rcases hd.pack p b hread with rfl | ⟨rs, hb⟩
    · rw [packRecords_nil] at hm
      cases hm
    · rw [packRecords_eq hb hcap] at hm
      obtain ⟨hdr, hh, hshape⟩ := hb.shape
      obtain ⟨post, rfl⟩ : ∃ post, b = hdr ++ (encodeRecords rs ++ post) := by
        rcases hshape with rfl | rfl
        · exact ⟨[], by simp [openPack]⟩
        · exact ⟨_, rfl⟩
      obtain ⟨page, hmem, hrec⟩ := hasRecord_of_entriesAt hh hm
      exact ⟨_, rfl, page, hrec, hb.bounded.hashed _ hmem⟩

theorem DiskSound.openPack (hd : DiskSound cap fs) (hcap : cap < recordOffset (2 ^ 32))
    (hu : Unsealed fs p) : ∃ hdr rs, IsHeader hdr ∧ Bounded cap rs ∧
      fs.readName (.spk p) = some (openPack hdr rs) ∧ fs.lookup (.idx p) = none := by
  obtain ⟨b, hread, hlen, hopen⟩ := hu
  rcases hd.pack p b hread with rfl | ⟨rs, hb⟩
  · exact absurd hlen (by decide)
  · obtain ⟨hdr, hh, rfl | rfl⟩ := hb.shape
    · refine ⟨hdr, rs, hh, hb.bounded, hread, ?_⟩
      rw [← Option.not_isSome_iff_eq_none]
      intro hsome
      obtain ⟨j, hj⟩ := Option.isSome_iff_exists.mp hsome
      obtain ⟨c, hc, rs', es, hclosed, hbound, -⟩ := hd.sidecar p _ (FileSys.readName_eq hj)
      obtain rfl := Option.some.inj (hread.symm.trans hc)
      have hn := hbound.length_lt hcap
      obtain ⟨e, he, -⟩ := hclosed.scan (by omega)
      exact hopen e he
    · have hn := hb.bounded.length_lt hcap
      exact absurd (openSealed_sealedPack hh (by omega)) (hopen _)

theorem DiskSound.closed (hd : DiskSound cap fs) (hread : fs.readName (.spk p) = some b) {e : Nat}
    (ho : PackReader.openSealed b = .ok e) : ∃ rs, Bounded cap rs ∧ Closed b rs := by
  rcases hd.pack p b hread with rfl | ⟨rs, hb⟩
  · cases ho
  · obtain ⟨hdr, hh, rfl | rfl⟩ := hb.shape
    · exact ⟨rs, hb.bounded, hdr, hh, .inr ⟨rfl, e, ho⟩⟩
    · exact ⟨rs, hb.bounded, hdr, hh, .inl rfl⟩

theorem Distinct.congr (h : Distinct fs) (hrec : ∀ p, recordsOf fs' p = recordsOf fs p)
    (hre : ∀ p, Reopened fs' p → Reopened fs p ∨ recordsOf fs p = []) : Distinct fs' := by
  intro p hp
  rw [hrec]
  rcases hre p hp with hp | hnil
  · obtain ⟨hnodup, hother⟩ := h p hp
    refine ⟨hnodup, fun q hq k hk => ?_⟩
    rw [hrec]
    exact hother q hq k hk
  · rw [hnil]
    exact ⟨List.nodup_nil, fun q _ k hk => by cases hk⟩

theorem Distinct.of_packs (h : Distinct fs)
    (hp : ∀ p, fs'.readName (.spk p) = fs.readName (.spk p)) : Distinct fs' := by
  have hun : ∀ p, Unsealed fs' p ↔ Unsealed fs p := fun p => by rw [Unsealed, Unsealed, hp]
  refine h.congr (fun p => by rw [recordsOf, recordsOf, hp]) fun p hre => .inl ⟨?_, fun q hq => ?_⟩
  · exact (hun p).mp hre.1
  · exact hre.2 q ((hun q).mpr hq)

theorem Distinct.blank (h : Distinct fs)
    (hother : ∀ q, q ≠ p → fs'.readName (.spk q) = fs.readName (.spk q))
    (hun : ¬ Unsealed fs p) (hold : recordsOf fs p = []) (hnew : recordsOf fs' p = []) :
    Distinct fs' := by
  have hun' : ∀ q, q ≠ p → (Unsealed fs' q ↔ Unsealed fs q) := fun q hq => by
    rw [Unsealed, Unsealed, hother q hq]
  refine h.congr (fun q => ?_) fun q hq => ?_
  · by_cases hqp : q = p
    · rw [hqp, hold, hnew]
    · rw [recordsOf, recordsOf, hother q hqp]
  · by_cases hqp : q = p
    · exact .inr (hqp ▸ hold)
    · refine .inl ⟨(hun' q hqp).mp hq.1, fun r hr => hq.2 r ((hun' r fun heq => ?_).mpr hr)⟩
      exact hun (heq ▸ hr)

end Records

/-! ## Rules for the recovery -/

namespace Recovery

variable [Primitives] {cap : Nat} {may : Oracle → World → World → Prop} {s s' u : World}
  {p : PackId} {ix : Index} {E α : Type}

structure Down (cap : Nat) (fs : PagesFs) : Prop where
  disk : DiskSound cap fs
  distinct : Distinct fs

structure Boots (o : Oracle) : Prop where
  write : o.fault .pack .write = none
  unlink : o.fault .pack .unlink = none

def rules (cap : Nat) (may : Oracle → World → World → Prop) : Rules Oracle World where
  may o s s' := may o s s' ∧ Boots o
  inv s := Down cap s.pages
  rely := Eq
  guar _ _ := True
  rely_refl _ := rfl
  rely_trans _ _ _ := Eq.trans

abbrev Reopens (cap : Nat) (may : Oracle → World → World → Prop) (x : ExceptT E P α)
    (Q : α → World → Prop) (s : World) : Prop :=
  wpOr (rules cap may) (fun _ _ => True) x Q s

theorem stable (P : World → Prop) : Stable (rules cap may) P := by
  intro s t hs ht _
  obtain rfl : s = t := ht
  exact hs

theorem reopens_action {f : Oracle → World → Except E α × World} {Q : α → World → Prop}
    (h : ∀ o, Boots o → Down cap s.pages →
      Down cap (f o s).2.pages ∧ ∀ a, (f o s).1 = .ok a → Q a (f o s).2) :
    Reopens cap may (action f) Q s := by
  refine PageStore.wpOr_action (stable (· = s)) rfl fun o u ho hi hu => ?_
  subst hu
  obtain ⟨hdown, hQ⟩ := h o ho.2 hi
  refine ⟨hdown, trivial, ?_⟩
  cases hres : (f o u).1 with
  | ok a => exact hQ a hres
  | error e => exact trivial

theorem reopens_attempt {f : Oracle → World → Except E (α × World)} {Q : α → World → Prop}
    (h : ∀ o a u, Boots o → Down cap s.pages → f o s = .ok (a, u) → Down cap u.pages ∧ Q a u) :
    Reopens cap may (attempt f) Q s := by
  refine PageStore.wpOr_attempt (stable (· = s)) (fun _ => trivial) rfl
    (fun o u a v ho hi hu hf => ?_) fun _ _ _ _ => trivial
  subst hu
  obtain ⟨hdown, hQ⟩ := h o a v ho.2 hi hf
  exact ⟨hdown, trivial, hQ⟩

theorem reopens_observe {f : Oracle → World → Except E α} {Q : α → World → Prop}
    (h : ∀ o a, Down cap s.pages → f o s = .ok a → Q a s) : Reopens cap may (observe f) Q s :=
  reopens_action fun o _ hi => ⟨hi, fun a ha => h o a hi ha⟩

theorem reopens_look {f : World → α} {Q : α → World → Prop} (h : Q (f s) s) :
    wpOr (E := E) (rules cap may) (fun _ _ => True) (look f) Q s :=
  PageStore.wpOr_look (stable (· = s)) (fun _ => trivial) rfl fun _ _ hu => hu ▸ h

theorem reopens_within {x : ExceptT E P α} {P : World → Prop}
    (hx : Within (fun s s' => s'.pages = s.pages) x.run)
    (hP : ∀ u v, v.pages = u.pages → P u → P v) (h : P s) :
    Reopens cap may x (fun _ u => P u) s := by
  refine wp_mono (fun r u hu => ?_) (hx.wp (stable P) h
    fun _ u v hi hu _ hR => ⟨?_, trivial, hP u v hR hu⟩)
  · cases r with
    | ok a => exact hu
    | error e => exact trivial
  · show Down cap v.pages
    rw [hR]
    exact hi

/-! ## Runt files -/

structure Directory (ids : List PackId) (s : World) : Prop where
  sorted : ids.Pairwise (· < ·)
  mem : ∀ p, p ∈ ids ↔ (s.pages.lookup (.spk p)).isSome = true

def Headed (fs : PagesFs) (p : PackId) : Prop :=
  ∃ b, fs.readName (.spk p) = some b ∧ packHeaderSize ≤ b.length

omit [Primitives] in
theorem directory_of_names {f : PageFile → Option PackId} (hf : ∀ n p, f n = some p ↔ n = .spk p) :
    Directory ((s.pages.names.filterMap f).insertionSort (· ≤ ·)) s := by
  have hnodup : (s.pages.names.filterMap f).Nodup := by
    refine List.Nodup.filterMap (fun n n' p hn hn' => ?_) s.pages.dir.keys_nodup
    rw [(hf n p).mp hn, (hf n' p).mp hn']
  refine ⟨?_, fun p => ?_⟩
  · have hsort := List.pairwise_insertionSort (· ≤ ·) (s.pages.names.filterMap f)
    have hne := (List.perm_insertionSort (· ≤ ·) _).nodup_iff.mpr hnodup
    exact (hsort.and hne).imp fun h => lt_of_le_of_ne h.1 h.2
  · rw [List.mem_insertionSort, List.mem_filterMap, ← FileSys.mem_names]
    constructor
    · rintro ⟨n, hn, heq⟩
      rwa [(hf n p).mp heq] at hn
    · exact fun hp => ⟨.spk p, hp, (hf _ p).mpr rfl⟩

theorem reopens_discoverPacks :
    Reopens cap may PageStore.discoverPacks (fun ids u => Directory ids u) s := by
  refine reopens_observe fun o ids _ hids => ?_
  split at hids
  · cases hids
  · cases hids
    exact directory_of_names fun n p => by cases n <;> simp

theorem down_removeRunt (h : Down cap s.pages) {b : Bytes} (hread : s.pages.readName (.spk p) = some b)
    (hrunt : b.length < packHeaderSize) : Down cap (s.pages.unlink (.spk p)) := by
  have hframe := FileSys.SameBut.unlink h.disk.unaliased (.spk p)
  have hgone : (s.pages.unlink (.spk p)).lookup (.spk p) = none := by
    rw [FileSys.lookup_unlink, if_pos rfl]
  have hnil : b = [] := by
    rcases h.disk.pack p b hread with hnil | ⟨rs, hb⟩
    · exact hnil
    · obtain ⟨hdr, hh, hshape⟩ := hb.shape
      have hle : packHeaderSize ≤ b.length := by
        rcases hshape with rfl | rfl
        · rw [length_openPack hh]
          exact Nat.le_add_right _ _
        · rw [length_sealedPack hh, recordOffset, Nat.add_assoc]
          exact Nat.le_add_right _ _
      omega
  subst hnil
  refine ⟨h.disk.setPack hframe (h.disk.idx_eq_none fun c hc => ?_) (fun b hb => ?_) fun hp => ?_, ?_⟩
  · exact (Option.some.inj (hread.symm.trans hc)).symm
  · rw [FileSys.readName, hgone] at hb
    cases hb
  · rw [hgone] at hp
    cases hp
  · refine h.distinct.blank (p := p) (fun q hq => hframe.readName (by simpa using hq)) ?_ ?_ ?_
    · rintro ⟨c, hc, hlen, -⟩
      obtain rfl := Option.some.inj (hread.symm.trans hc)
      exact absurd hlen (by decide)
    · rw [recordsOf_eq hread, packRecords_nil]
    · exact recordsOf_none hgone

theorem reopens_removeRunt {kept rest : List PackId} (hs : Directory (kept ++ p :: rest) s)
    (hkept : ∀ q ∈ kept, Headed s.pages q) :
    Reopens cap may (PageStore.removeRunt kept p)
      (fun kept' u => Directory (kept' ++ rest) u ∧ ∀ q ∈ kept', Headed u.pages q) s := by
  have hkeep : Directory (kept ++ [p] ++ rest) s := by
    rw [List.append_assoc, List.singleton_append]
    exact hs
  refine reopens_attempt fun o kept' u ho hi hf => ?_
  obtain ⟨i, hlook⟩ := Option.isSome_iff_exists.mp ((hs.mem p).mp (by simp))
  have hread : PageStore.packBytes s p = some (s.pages.content i) := FileSys.readName_eq hlook
  rw [hread] at hf
  dsimp only at hf
  split at hf
  · next hrunt =>
    rw [ho.unlink] at hf
    cases hf
    refine ⟨down_removeRunt hi hread hrunt, ⟨hs.sorted.sublist (by simp), fun q => ?_⟩,
      fun q hq => ?_⟩
    · rw [FileSys.lookup_unlink]
      by_cases hqp : q = p
      · subst hqp
        rw [if_pos rfl]
        refine iff_of_false (fun hmem => ?_) (by simp)
        have hnodup := hs.sorted.imp (fun h => ne_of_lt h)
        rw [List.pairwise_append] at hnodup
        rcases List.mem_append.mp hmem with hmem | hmem
        · exact hnodup.2.2 q hmem q List.mem_cons_self rfl
        · exact (List.pairwise_cons.mp hnodup.2.1).1 q hmem rfl
      · rw [if_neg (by simpa using hqp), ← hs.mem q]
        simp [hqp]
    · have hqp : q ≠ p := fun heq => by
        have hlt := (List.pairwise_append.mp hs.sorted).2.2 q hq p List.mem_cons_self
        exact absurd hlt (heq ▸ lt_irrefl _)
      obtain ⟨b, hb, hlen⟩ := hkept q hq
      refine ⟨b, ?_, hlen⟩
      rw [FileSys.readName_unlink, if_neg (by simpa using hqp)]
      exact hb
  · next hlen =>
    cases hf
    refine ⟨hi, hkeep, fun q hq => ?_⟩
    rcases List.mem_append.mp hq with hq | hq
    · exact hkept q hq
    · rw [List.mem_singleton.mp hq]
      exact ⟨_, hread, not_lt.mp hlen⟩

/-! ## Sealing and loading -/

structure SameFiles (s s' : World) : Prop where
  lookup : ∀ q, s'.pages.lookup (.spk q) = s.pages.lookup (.spk q)
  read : ∀ q, s'.pages.readName (.spk q) = s.pages.readName (.spk q)

structure SameRecords (s s' : World) : Prop where
  lookup : ∀ q, s'.pages.lookup (.spk q) = s.pages.lookup (.spk q)
  records : ∀ q, recordsOf s'.pages q = recordsOf s.pages q
  headed : ∀ q, Headed s.pages q → Headed s'.pages q
  unsealed : ∀ q, Unsealed s'.pages q → Unsealed s.pages q

omit [Primitives] in
theorem SameFiles.unsealed_iff (h : SameFiles s s') (q : PackId) :
    Unsealed s'.pages q ↔ Unsealed s.pages q := by
  rw [Unsealed, Unsealed, h.read]

theorem SameFiles.records (h : SameFiles s s') : SameRecords s s' where
  lookup := h.lookup
  records q := by rw [recordsOf, recordsOf, h.read]
  headed q hq := by
    rw [Headed, h.read]
    exact hq
  unsealed q := (h.unsealed_iff q).mp

omit [Primitives] in
theorem SameFiles.trans (h : SameFiles s s') (h' : SameFiles s' u) : SameFiles s u :=
  ⟨fun q => (h'.lookup q).trans (h.lookup q), fun q => (h'.read q).trans (h.read q)⟩

theorem SameRecords.refl (s : World) : SameRecords s s :=
  ⟨fun _ => rfl, fun _ => rfl, fun _ => id, fun _ => id⟩

theorem SameRecords.trans (h : SameRecords s s') (h' : SameRecords s' u) : SameRecords s u where
  lookup q := (h'.lookup q).trans (h.lookup q)
  records q := (h'.records q).trans (h.records q)
  headed q hq := h'.headed q (h.headed q hq)
  unsealed q hq := h.unsealed q (h'.unsealed q hq)

def Loaded (ix : Index) (s : World) : Prop :=
  ∀ h l, ix.get h = some l → ¬ Unsealed s.pages l.pack ∧ (l.offset, h) ∈ recordsOf s.pages l.pack

theorem Loaded.congr (h : Loaded ix s) (hs : SameRecords s s') : Loaded ix s' := by
  intro k l hk
  obtain ⟨hun, hrec⟩ := h k l hk
  refine ⟨fun hu => hun (hs.unsealed _ hu), ?_⟩
  rw [hs.records]
  exact hrec

theorem Loaded.insertBatch {es : List (PageHash × PageLoc)} (h : Loaded ix s)
    (hp : ¬ Unsealed s.pages p)
    (hes : ∀ k l, (k, l) ∈ es → l.pack = p ∧ (l.offset, k) ∈ recordsOf s.pages p) :
    Loaded (ix.insertBatch es) s := by
  intro k l hk
  rcases Index.get_insertBatch_cases hk with hold | hnew
  · exact h k l hold
  · obtain ⟨rfl, hrec⟩ := hes k l hnew
    exact ⟨hp, hrec⟩

theorem reopens_writeSidecarEntries {es : List (PageHash × PageLoc)} {c : Bytes}
    (hread : s.pages.readName (.spk p) = some c) (hside : SidecarOf cap p c (encodeSidecar es)) :
    Reopens cap may (PageStore.writeSidecarEntries p es) (fun _ u => SameFiles s u) s := by
  have hdown : ∀ u, (rules cap may).inv u → Down cap u.pages := fun _ => id
  refine Sharing.wpOr_sidecarSteps (F := SameFiles s) (fun G _ => stable _) (fun _ => trivial)
    (fun u hi => (hdown u hi).disk.unaliased) (fun u fs hi hu hf hidx => ?_) (fun _ _ _ => trivial)
    ⟨fun _ => rfl, fun _ => rfl⟩
  have hspk : ∀ q, ¬ Sharing.IsSidecar p (.spk q) := fun q hq => by
    rcases hq with hq | hq <;> cases hq
  have hsame : ∀ q, fs.readName (.spk q) = u.pages.readName (.spk q) := fun q => hf.readName (hspk q)
  refine ⟨⟨(hdown u hi).disk.setSidecar hf fun b hb => ?_, (hdown u hi).distinct.of_packs hsame⟩,
    trivial, fun q => (hf.lookup _ (hspk q)).trans (hu.lookup q), fun q => (hsame q).trans (hu.read q)⟩
  rcases hidx with heq | heq
  · exact (hdown u hi).disk.sidecar p b (heq ▸ hb)
  · obtain rfl := Option.some.inj (heq.symm.trans hb)
    exact ⟨c, (hu.read p).trans hread, hside⟩

theorem reopens_openUnsealed {hdr : Bytes} {rs : List Entry} (hh : IsHeader hdr)
    (hhash : Hashed rs) (hread : s.pages.readName (.spk p) = some (openPack hdr rs)) :
    Reopens cap may (PageStore.openUnsealed p)
      (fun e u => e = recordOffset rs.length ∧ u = s) s := by
  refine wpOr_bind (R := fun x u => x = (recordOffset rs.length, rs.length, false) ∧ u = s)
    (reopens_observe fun o a _ hf => ⟨?_, rfl⟩) fun x u hu => ?_
  · have hbytes : PageStore.packBytes s p = some (openPack hdr rs) := hread
    rw [hbytes] at hf
    split at hf
    · cases hf
    · next heq => cases heq
    · next heq =>
      cases heq
      rw [openUnsealed_openPack hh hhash] at hf
      cases hf
      rfl
  · obtain ⟨rfl, rfl⟩ := hu
    exact wpOr_pure ⟨rfl, rfl⟩

theorem reopens_scanFile {hdr : Bytes} {rs : List Entry} (hh : IsHeader hdr)
    (hread : s.pages.readName (.spk p) = some (openPack hdr rs)) :
    Reopens cap may (PageStore.scanFile p (recordOffset rs.length))
      (fun r u => r = entriesAt packHeaderSize rs ∧ u = s) s := by
  refine reopens_observe fun o a _ hf => ⟨?_, rfl⟩
  have hbytes : PageStore.packBytes s p = some (openPack hdr rs) := hread
  rw [hbytes] at hf
  split at hf
  · cases hf
  · next heq => cases heq
  · next heq =>
    cases heq
    rw [scan_openPack hh] at hf
    cases hf
    rfl

structure Sealed (p : PackId) (rs : List Entry) (s s' : World) : Prop where
  same : SameRecords s s'
  unsealed : ∀ q, Unsealed s'.pages q ↔ Unsealed s.pages q ∧ q ≠ p
  pack : ∃ hdr, IsHeader hdr ∧ s'.pages.readName (.spk p) = some (sealedPack hdr rs)

theorem down_seal (h : Down cap s.pages) (hcap : cap < recordOffset (2 ^ 32)) {hdr : Bytes}
    {rs : List Entry} {f : Ino} {fs : PagesFs} (hh : IsHeader hdr) (hb : Bounded cap rs)
    (hidx : s.pages.lookup (.idx p) = none) (hlook : s.pages.lookup (.spk p) = some f)
    (hc : s.pages.content f = openPack hdr rs) {q : PackId} (hq : Unsealed s.pages q) (hpq : p < q)
    (hf : s.pages.SameBut (· = .spk p) fs) (hlook' : fs.lookup (.spk p) = some f)
    (hc' : fs.content f = sealedPack hdr rs) :
    Down cap fs ∧ Sealed p rs s { s with pages := fs } := by
  have hread : s.pages.readName (.spk p) = some (openPack hdr rs) := by
    rw [FileSys.readName_eq hlook, hc]
  have hread' : fs.readName (.spk p) = some (sealedPack hdr rs) := by
    rw [FileSys.readName_eq hlook', hc']
  have hother : ∀ r, r ≠ p → fs.readName (.spk r) = s.pages.readName (.spk r) :=
    fun r hr => hf.readName (by simpa using hr)
  have hopen : PackOf cap rs (openPack hdr rs) := ⟨hb, hdr, hh, .inl rfl⟩
  have hsealed : PackOf cap rs (sealedPack hdr rs) := ⟨hb, hdr, hh, .inr rfl⟩
  have hn := hb.length_lt hcap
  have hun : ∀ r, Unsealed fs r ↔ Unsealed s.pages r ∧ r ≠ p := by
    intro r
    by_cases hr : r = p
    · subst hr
      refine iff_of_false (fun ⟨b, hb, _, hfail⟩ => ?_) fun h => h.2 rfl
      obtain rfl := Option.some.inj (hread'.symm.trans hb)
      exact hfail _ (openSealed_sealedPack hh (by omega))
    · rw [Unsealed, Unsealed, hother r hr]
      exact (and_iff_left hr).symm
  have hrec : ∀ r, recordsOf fs r = recordsOf s.pages r := by
    intro r
    by_cases hr : r = p
    · subst hr
      rw [recordsOf_eq hread, recordsOf_eq hread', packRecords_eq hopen hcap,
        packRecords_eq hsealed hcap]
    · rw [recordsOf, recordsOf, hother r hr]
  have hsame : SameRecords s { s with pages := fs } := by
    refine ⟨fun r => ?_, hrec, fun r hr => ?_, fun r hr => ((hun r).mp hr).1⟩
    · show fs.lookup _ = _
      by_cases hr : r = p
      · rw [hr, hlook', hlook]
      · exact hf.lookup _ (by simpa using hr)
    · by_cases hrp : r = p
      · refine ⟨_, hrp ▸ hread', ?_⟩
        rw [length_sealedPack hh, recordOffset, Nat.add_assoc]
        exact Nat.le_add_right _ _
      · obtain ⟨b, hb, hlen⟩ := hr
        exact ⟨b, (hother r hrp).trans hb, hlen⟩
  refine ⟨⟨h.disk.setPack hf hidx (fun b hread => ?_) fun _ => h.disk.ids p (by rw [hlook]; rfl),
    h.distinct.congr hrec fun r hr => .inl ⟨((hun r).mp hr.1).1, fun r' hr' => ?_⟩⟩,
    hsame, hun, hdr, hh, hread'⟩
  · obtain rfl := Option.some.inj (hread'.symm.trans hread)
    exact .inr ⟨rs, hsealed⟩
  · by_cases hr'' : r' = p
    · rw [hr'']
      exact le_trans (le_of_lt hpq) (hr.2 q ((hun q).mpr ⟨hq, ne_of_gt hpq⟩))
    · exact hr.2 r' ((hun r').mpr ⟨hr', hr''⟩)

theorem down_sync (h : Down cap s.pages) (f : Ino) :
    Down cap (s.pages.fdatasync f) ∧ SameFiles s { s with pages := s.pages.fdatasync f } := by
  have hf : s.pages.SameBut (fun _ => False) (s.pages.fdatasync f) := .fdatasync h.disk.unaliased f
  have hsame : ∀ q, (s.pages.fdatasync f).readName (.spk q) = s.pages.readName (.spk q) :=
    fun q => hf.readName id
  exact ⟨⟨h.disk.stage hf fun _ => False.elim, h.distinct.of_packs hsame⟩, fun _ => rfl, hsame⟩

theorem Sealed.sync {rs : List Entry} (h : Sealed p rs s s') (hs : SameFiles s' u) :
    Sealed p rs s u := by
  obtain ⟨hdr, hh, hread⟩ := h.pack
  refine ⟨h.same.trans hs.records, fun q => ?_, hdr, hh, ?_⟩
  · rw [hs.unsealed_iff, h.unsealed]
  · rw [hs.read, hread]

theorem reopens_sealExistingPack (hcap : cap < recordOffset (2 ^ 32)) {hdr : Bytes}
    {rs : List Entry} (hh : IsHeader hdr) (hb : Bounded cap rs)
    (hidx : s.pages.lookup (.idx p) = none)
    (hread : s.pages.readName (.spk p) = some (openPack hdr rs)) {q : PackId}
    (hq : Unsealed s.pages q) (hpq : p < q) :
    Reopens cap may (PageStore.sealExistingPack p)
      (fun es u => es = (entriesAt packHeaderSize rs).map (fun r => (r.2, ⟨p, r.1⟩)) ∧
        Sealed p rs s u) s := by
  have hbytes : PageStore.packBytes s p = some (openPack hdr rs) := hread
  refine wpOr_bind (reopens_openUnsealed hh hb.hashed hread) fun e u hu => ?_
  obtain ⟨rfl, rfl⟩ := hu
  refine wpOr_bind (reopens_scanFile hh hread) fun records v hv => ?_
  obtain ⟨rfl, rfl⟩ := hv
  refine wpOr_bind (R := fun body u => body = encodeRecords rs ∧ u = v)
    (reopens_observe fun o a _ hf => ⟨?_, rfl⟩) fun body u hu => ?_
  · rw [hbytes] at hf
    split at hf
    · cases hf
    · next heq => cases heq
    · next heq =>
      cases heq
      rw [recoveredBody_openPack hh] at hf
      cases hf
      rfl
  obtain ⟨rfl, rfl⟩ := hu
  obtain ⟨f, hlook, hc⟩ := FileSys.exists_lookup_of_readName hread
  rw [length_entriesAt]
  refine wpOr_bind (R := fun _ w => Sealed p rs u w) (reopens_action fun o ho hi => ?_)
    fun f u' hu' => ?_
  · simp only [ho.write, hlook]
    obtain ⟨hdown, hsealed⟩ := down_seal hi hcap hh hb hidx hlook hc hq hpq
      (.write hi.disk.unaliased hlook (u.pages.content f).length
        (packFooter rs.length (encodeRecords rs)))
      hlook (by rw [FileSys.content_write, if_pos rfl, writeAt_end, hc, sealedPack_eq])
    exact ⟨hdown, fun _ _ => hsealed⟩
  · refine wpOr_bind (R := fun _ w => Sealed p rs u w) (reopens_attempt fun o a w ho hi hf => ?_)
      fun _ w hw => wpOr_pure ⟨rfl, hw⟩
    split at hf <;> cases hf
    obtain ⟨hdown, hsame⟩ := down_sync hi f
    exact ⟨hdown, hu'.sync hsame⟩

theorem Loaded.insertLists {es : List (PageHash × PageLoc)} {rs : List Entry} (h : Loaded ix s)
    (hp : ¬ Unsealed s.pages p) (hrec : recordsOf s.pages p = entriesAt packHeaderSize rs)
    (hes : Lists (fun _ => rs) p es) : Loaded (ix.insertBatch es) s := by
  refine h.insertBatch hp fun k l hk => ?_
  obtain ⟨hpack, hat⟩ := (hes.mem k l).mp hk
  rw [hrec]
  exact ⟨hpack, hat⟩

theorem reopens_sealOld (hcap : cap < recordOffset (2 ^ 32)) (hd : Down cap s.pages)
    (hix : Loaded ix s) (hp : Unsealed s.pages p) {q : PackId} (hq : Unsealed s.pages q)
    (hpq : p < q) :
    Reopens cap may (PageStore.sealOld ix p)
      (fun ix' u => Loaded ix' u ∧ ∃ rs, Sealed p rs s u) s := by
  obtain ⟨hdr, rs, hh, hb, hread, hidx⟩ := hd.disk.openPack hcap hp
  refine wpOr_bind (reopens_sealExistingPack hcap hh hb hidx hread hq hpq) fun es u hu => ?_
  obtain ⟨rfl, hseal⟩ := hu
  obtain ⟨hdr', hh', hread'⟩ := hseal.pack
  have hlists : Lists (fun _ => rs) p _ := .scan _ p
  refine wpOr_bind (reopens_writeSidecarEntries hread' ⟨rs, _, ⟨hdr', hh', .inl rfl⟩, hb, rfl, hlists⟩)
    fun _ v hv => wpOr_pure ?_
  have hsealed := hseal.sync hv
  refine ⟨(hix.congr hsealed.same).insertLists (fun h => ((hsealed.unsealed p).mp h).2 rfl) ?_ hlists,
    rs, hsealed⟩
  rw [hsealed.same.records, recordsOf_eq hread, packRecords_eq ⟨hb, hdr, hh, .inl rfl⟩ hcap]

theorem reopens_loadSidecar (hcap : cap < recordOffset (2 ^ 32)) :
    Reopens cap may (PageStore.loadSidecar p)
      (fun r u => u = s ∧ ∀ es, r = some es → ∃ rs,
        recordsOf s.pages p = entriesAt packHeaderSize rs ∧ Lists (fun _ => rs) p es) s := by
  refine reopens_observe fun o a hi hf => ⟨rfl, fun es hes => ?_⟩
  subst hes
  split at hf
  · cases hf
  · cases hf
  · next b _ hb =>
    obtain ⟨c, hc, rs, es', hclosed, hbound, rfl, hlists⟩ := hi.disk.sidecar p b hb
    obtain ⟨i, hlook, -⟩ := FileSys.exists_lookup_of_readName hc
    have hid := hi.disk.ids p (by rw [hlook]; rfl)
    rw [decodeSidecar_encodeSidecar (hlists.fits hid (hbound.length_lt hcap))] at hf
    cases hf
    obtain ⟨hdr, hh, hshape⟩ := hclosed.shape
    refine ⟨rs, ?_, hlists.sortByHash⟩
    rw [recordsOf_eq hc]
    exact packRecords_eq ⟨hbound, hdr, hh, hshape.elim .inr fun h => .inl h.1⟩ hcap

theorem reopens_rebuildFromPack {rs : List Entry} {b : Bytes}
    (hread : s.pages.readName (.spk p) = some b) (hc : Closed b rs) (hn : rs.length < 2 ^ 64) :
    Reopens cap may (PageStore.rebuildFromPack p)
      (fun es u => u = s ∧
        es = (entriesAt packHeaderSize rs).map (fun r => (r.2, ⟨p, r.1⟩))) s := by
  refine reopens_observe fun o a hi hf => ⟨rfl, ?_⟩
  have hbytes : PageStore.packBytes s p = some b := hread
  obtain ⟨e, ho, hscan⟩ := hc.scan hn
  have hrecords : (do PackReader.scan b (← PackReader.openSealed b) : Except PackError _) =
      .ok (entriesAt packHeaderSize rs) := by
    rw [ho]
    exact hscan
  rw [hbytes] at hf
  split at hf
  · cases hf
  · next heq => cases heq
  · next heq =>
    cases heq
    rw [hrecords] at hf
    cases hf
    rfl

theorem reopens_loadSealed (hcap : cap < recordOffset (2 ^ 32)) (hd : Down cap s.pages)
    (hix : Loaded ix s) (hp : Headed s.pages p) (hu : ¬ Unsealed s.pages p) :
    Reopens cap may (PageStore.loadSealed ix p)
      (fun ix' u => Loaded ix' u ∧ SameFiles s u) s := by
  refine wpOr_bind (reopens_loadSidecar hcap) fun r u hr => ?_
  obtain ⟨rfl, hes⟩ := hr
  cases r with
  | some es =>
    obtain ⟨rs, hrec, hlists⟩ := hes es rfl
    exact wpOr_pure ⟨hix.insertLists hu hrec hlists, fun _ => rfl, fun _ => rfl⟩
  | none =>
    obtain ⟨b, hread, hlen⟩ := hp
    obtain ⟨e, ho⟩ : ∃ e, PackReader.openSealed b = .ok e := by
      by_contra hno
      exact hu ⟨b, hread, hlen, fun e he => hno ⟨e, he⟩⟩
    obtain ⟨rs, hb, hc⟩ := hd.disk.closed hread ho
    have hn := hb.length_lt hcap
    refine wpOr_bind (reopens_rebuildFromPack hread hc (by omega)) fun es v hv => ?_
    obtain ⟨rfl, rfl⟩ := hv
    have hlists : Lists (fun _ => rs) p _ := .scan _ p
    refine wpOr_bind (reopens_writeSidecarEntries hread ⟨rs, _, hc, hb, rfl, hlists⟩)
      fun _ w hw => wpOr_pure ⟨?_, hw⟩
    obtain ⟨hdr, hh, hshape⟩ := hc.shape
    refine (hix.congr hw.records).insertLists (fun h => hu ((hw.unsealed_iff p).mp h)) ?_ hlists
    rw [hw.records.records, recordsOf_eq hread]
    exact packRecords_eq ⟨hb, hdr, hh, hshape.elim .inr fun h => .inl h.1⟩ hcap

end Recovery

end SnapStore
