import SnapStore.Disk.Names
import SnapStore.Gc.Outside
import SnapStore.Store.Puts
import SnapStore.Store.Resolve

/-!
# A put that runs alone

`put_snapshot` while no other call runs: what it keeps when I/O calls fail, and that it succeeds
when none does.
-/

namespace SnapStore

open Disk Conc SnapshotStore

variable [Primitives]

/-! ## What every step of a put keeps -/

structure ChainsOk (s : World) : Prop where
  files : s.manifests.Unaliased
  chains : ∀ r, Stored s r → ∃ l ram, Chain s r l ∧ ∀ e ∈ l, e.2.guestRamBytes = ram

def Retains (s s' : World) : Prop := ∀ r m, manifestAt s r = some m → manifestAt s' r = some m

def Beside (s s' : World) : Prop :=
  s.manifests.Unaliased → s.manifests.SameBut (fun n => ∃ r, n = .tmp r) s'.manifests

omit [Primitives] in
theorem Beside.of_eq {s s' : World} (h : s'.manifests = s.manifests) : Beside s s' := by
  intro hu
  rw [h]
  exact .refl hu

omit [Primitives] in
theorem stored_iff_readName {s : World} {r : SnapshotRef} :
    Stored s r ↔ (s.manifests.readName (.spm r)).isSome = true := by
  rw [Stored, hasManifest, FileSys.readName, Option.isSome_map]

section Steps

variable {s s' : World} {r : SnapshotRef}

theorem Beside.manifestAt (h : Beside s s') (hu : s.manifests.Unaliased) (r : SnapshotRef) :
    manifestAt s' r = manifestAt s r := by
  unfold SnapshotStore.manifestAt
  rw [(h hu).readName (by simp)]

theorem Beside.chainsOk (h : Beside s s') (hi : ChainsOk s) : ChainsOk s' := by
  refine ⟨(h hi.files).unaliased, fun r hr => ?_⟩
  rw [stored_iff_readName, (h hi.files).readName (by simp), ← stored_iff_readName] at hr
  obtain ⟨l, ram, hl, hram⟩ := hi.chains r hr
  refine ⟨l, ram, hl.mono fun q m hq => ?_, hram⟩
  rwa [h.manifestAt hi.files q]

theorem Beside.retains (h : Beside s s') (hi : ChainsOk s) : Retains s s' := by
  intro q m hq
  rwa [h.manifestAt hi.files q]

def ParentReady (m : Manifest) (s : World) : Prop :=
  ∀ p, m.parent = some p → ∃ pm, manifestAt s p = some pm ∧ pm.guestRamBytes = m.guestRamBytes

theorem Stored.of_manifestAt {m : Manifest} (h : manifestAt s r = some m) : Stored s r :=
  hasManifest_of_manifestAt h

theorem Retains.parentReady {m : Manifest} (h : Retains s s') (hp : ParentReady m s) :
    ParentReady m s' := by
  intro p hpar
  obtain ⟨pm, hpm, hram⟩ := hp p hpar
  exact ⟨pm, h p pm hpm, hram⟩

theorem ChainsOk.place {c : Bytes} {m : Manifest} (hi : ChainsOk s) (hu : s'.manifests.Unaliased)
    (hother : ∀ q, q ≠ r → s'.manifests.readName (.spm q) = s.manifests.readName (.spm q))
    (hself : s'.manifests.readName (.spm r) = some c) (hnew : ¬ Stored s r)
    (hdecode : Manifest.decode c = .ok m) (href : Manifest.snapshotRef c = r)
    (hparent : ParentReady m s) : ChainsOk s' ∧ Retains s s' ∧ manifestAt s' r = some m := by
  have hat : manifestAt s' r = some m := by
    refine manifestAt_eq_some.mpr ⟨c, hself, ?_, hdecode⟩
    rw [← href]
    exact verifyManifest_of_decode hdecode
  have hkeep : Retains s s' := by
    intro q m' hq
    have hne : q ≠ r := by
      intro heq
      subst heq
      exact hnew (.of_manifestAt hq)
    obtain ⟨b, hread, hrest⟩ := manifestAt_eq_some.mp hq
    exact manifestAt_eq_some.mpr ⟨b, (hother q hne).trans hread, hrest⟩
  refine ⟨⟨hu, fun q hq => ?_⟩, hkeep, hat⟩
  by_cases heq : q = r
  · subst heq
    cases hp : m.parent with
    | none =>
      exact ⟨[(q, m)], m.guestRamBytes, .root hat hp, by simp⟩
    | some p =>
      obtain ⟨pm, hpm, hram⟩ := hparent p hp
      obtain ⟨l, ram, hl, hall⟩ := hi.chains p (.of_manifestAt hpm)
      obtain ⟨pm', t, rfl, hpm'⟩ := hl.head
      obtain rfl := Option.some.inj (hpm.symm.trans hpm')
      have hsize : m.guestRamBytes = ram := hram.symm.trans (hall (p, pm) List.mem_cons_self)
      refine ⟨(q, m) :: (p, pm) :: t, ram, .child hat hp (hl.mono hkeep), fun e he => ?_⟩
      rcases List.mem_cons.mp he with rfl | he
      · exact hsize
      · exact hall e he
  · rw [stored_iff_readName, hother q heq, ← stored_iff_readName] at hq
    obtain ⟨l, ram, hl, hram⟩ := hi.chains q hq
    exact ⟨l, ram, hl.mono hkeep, hram⟩

end Steps

/-! ## Programs that leave the manifests alone -/

def Still (s s' : World) : Prop := s'.manifests = s.manifests

section Still

omit [Primitives] in
theorem Frame.still {s s' : World} (h : Frame s s') : Still s s' := h.manifests

theorem Still.manifestAt {s s' : World} (h : Still s s') (r : SnapshotRef) :
    manifestAt s' r = manifestAt s r := by
  unfold SnapshotStore.manifestAt
  rw [h]

theorem Still.parentReady {m : Manifest} {s s' : World} (h : Still s s') (hp : ParentReady m s) :
    ParentReady m s' := by
  intro p hpar
  rw [h.manifestAt]
  exact hp p hpar

omit [Primitives] in
theorem still_reads {α : Type} {p : P α} (h : Prompt Eq p) : Within Still p :=
  (h.of_eq (R := Still) fun _ => rfl).within

theorem still_registerLiveRef (t : Tid) (r : SnapshotRef) :
    Within Still (registerLiveRef t r).run := by
  refine (registerMove_registerLiveRef t r).within.mono fun s u h => ?_
  obtain ⟨_, _, _, _, rfl⟩ := h
  rfl

omit [Primitives] in
theorem still_barrier (t : Tid) (hs : List PageHash) :
    Within Still (barrier t hs (PageStore.sync t)).run :=
  (frame_barrier t hs (PageStore.frame_sync t)).mono fun _ _ => Frame.still

end Still

/-! ## Reads of the manifests -/

section Reads

variable {may : Oracle → Prop} {s : World}

theorem twp_readManifestBytes (r : SnapshotRef) :
    twp may (readManifestBytes r).run (fun res u => u = s ∧
      (∀ b, res = .ok b → s.manifests.readName (.spm r) = some b ∧ verifyManifest r b = .ok b) ∧
      ∀ h, res ≠ .error (.missingPage h)) s := by
  refine twp_bind (twp_atomic fun o _ => ?_)
  split
  · refine twp_bind (twp_atomic fun o _ => ?_)
    dsimp only
    split
    · exact ⟨rfl, nofun, nofun⟩
    · exact ⟨rfl, nofun, nofun⟩
    · next b _ hread =>
      cases hv : verifyManifest r b with
      | error e =>
        obtain rfl := verifyManifest_error hv
        refine twp_ret ⟨rfl, ?_, ?_⟩ <;> rw [hv] <;> exact nofun
      | ok b' =>
        obtain ⟨-, rfl⟩ := verifyManifest_ok hv
        refine twp_ret ⟨rfl, ?_, ?_⟩ <;> rw [hv]
        · intro b' hb'
          cases hb'
          exact ⟨hread, hv⟩
        · exact nofun
  · exact ⟨rfl, nofun, nofun⟩

theorem twp_checkParent {c : Bytes} {m : Manifest} (hd : Manifest.decode c = .ok m) :
    twp may (checkParent m).run (fun res u => u = s ∧ (∀ x, res = .ok x → ParentReady m s) ∧
      ∀ l, res ≠ .error (.missingPages l)) s := by
  unfold checkParent
  split
  · split
    · exact ⟨rfl, nofun, nofun⟩
    · next p hp =>
      refine twp_bind (twp_bind (twp_mono (fun res u hu => ?_) (twp_readManifestBytes p)))
      obtain ⟨rfl, hok, -⟩ := hu
      cases res with
      | error e => cases e <;> exact ⟨rfl, nofun, nofun⟩
      | ok b =>
        obtain ⟨hread, hverify⟩ := hok b rfl
        cases hpm : Manifest.decode b with
        | error e =>
          refine twp_bind (twp_ret ?_)
          rw [hpm]
          exact ⟨rfl, nofun, nofun⟩
        | ok pm =>
          refine twp_bind (twp_ret ?_)
          rw [hpm]
          show twp may (ExceptT.run (if _ then _ else _)) _ _
          split
          · exact ⟨rfl, nofun, nofun⟩
          · next hram =>
            refine ⟨rfl, fun _ _ q hq => ?_, nofun⟩
            obtain rfl : p = q := Option.some.inj (hp.symm.trans hq)
            exact ⟨pm, manifestAt_eq_some.mpr ⟨b, hread, hverify, hpm⟩, not_not.mp hram⟩
  · next hdelta =>
    refine ⟨rfl, fun _ _ q hq => ?_, nofun⟩
    rw [Manifest.decode_delta hd, hq] at hdelta
    exact absurd rfl hdelta

end Reads

/-! ## put_snapshot, one call at a time -/

def aloneRules : Rules Oracle World where
  may _ _ _ := True
  inv := ChainsOk
  rely := Eq
  guar := Retains
  rely_refl _ := rfl
  rely_trans _ _ _ := Eq.trans

section Alone

variable {E α : Type} {s : World} {r : SnapshotRef} {c : Bytes} {m : Manifest}

theorem wp_alone_action {f : Oracle → World → Except E α × World} {Q : Except E α → World → Prop}
    (h : ∀ o, ChainsOk s → ChainsOk (f o s).2 ∧ Retains s (f o s).2 ∧ Q (f o s).1 (f o s).2) :
    wp aloneRules (action f).run Q s := by
  intro t hr hi o b u hf _
  obtain rfl : s = t := hr
  obtain ⟨hi', hg, hQ⟩ := h o hi
  have hb : f o s = (b, u) := Option.some.inj hf
  rw [hb] at hi' hg hQ
  exact ⟨hi', hg, hQ⟩

theorem wp_alone_still {p : ExceptT E P α} {A : World → Prop} (hp : Within Still p.run)
    (hA : ∀ s s', Still s s' → A s → A s') (hs : A s) :
    wp aloneRules p.run (fun res w => ∀ a, res = .ok a → A w) s := by
  refine wp_mono (fun _ _ h _ _ => h) (hp.wp (fun s t h hr _ => ?_) hs fun _ w u hi hw _ hstep => ?_)
  · obtain rfl : s = t := hr
    exact h
  · have hb : Beside w u := .of_eq hstep
    exact ⟨hb.chainsOk hi, hb.retains hi, hA w u hstep hw⟩

theorem wp_alone_reads {p : ExceptT E P α} {Q : Except E α → World → Prop} (hp : Prompt Eq p.run)
    (h : twp (fun _ => True) p.run Q s) : wp aloneRules p.run Q s :=
  hp.wp_of_twp (fun _ _ => id) (fun _ _ _ => id) h

theorem wp_alone_checkParent (hd : Manifest.decode c = .ok m) :
    wp aloneRules (checkParent m).run (fun res w => ∀ u, res = .ok u → ParentReady m w) s := by
  refine wp_alone_reads (reads_checkParent m) (twp_mono (fun res u hu => ?_) (twp_checkParent hd))
  rw [hu.1]
  exact hu.2.1

structure Prepared (r : SnapshotRef) (m : Manifest) (f : Ino) (b : Bytes) (s : World) : Prop where
  parent : ParentReady m s
  missing : ¬ Stored s r
  tmp : s.manifests.lookup (.tmp r) = some f
  content : s.manifests.content f = b

theorem Beside.parentReady {s' : World} (h : Beside s s') (hi : ChainsOk s)
    (hp : ParentReady m s) : ParentReady m s' := (h.retains hi).parentReady hp

theorem Beside.stored_iff {s' : World} (h : Beside s s') (hi : ChainsOk s) :
    Stored s' r ↔ Stored s r := by
  rw [stored_iff_readName, (h hi.files).readName (by simp), ← stored_iff_readName]

theorem wp_alone_openStaging (hparent : ParentReady m s) (hmissing : ¬ Stored s r) :
    wp aloneRules (openStaging r).run
      (fun res w => ∀ f, res = .ok f → Prepared r m f [] w) s := by
  refine wp_alone_action fun o hi => ?_
  dsimp only
  cases hf : o.fault .manifest .openFile with
  | some n => exact ⟨hi, fun _ _ => id, nofun⟩
  | none =>
    have hb : Beside s { s with manifests := (s.manifests.openTruncate (.tmp r)).2 } :=
      fun hu => (FileSys.SameBut.openTruncate hu (.tmp r)).mono fun n hn => ⟨r, hn⟩
    obtain ⟨hlook, hcontent⟩ := FileSys.Unaliased.lookup_openTruncate s.manifests (.tmp r)
    refine ⟨hb.chainsOk hi, hb.retains hi, fun f hf => ?_⟩
    cases hf
    exact ⟨hb.parentReady hi hparent, mt (hb.stored_iff hi).mp hmissing, hlook, hcontent⟩

theorem wp_alone_writeStaging {f : Ino} (h : Prepared r m f [] s) :
    wp aloneRules (writeStaging f c).run (fun res w => ∀ u, res = .ok u → Prepared r m f c w) s := by
  have hb : ∀ b, Beside s { s with manifests := s.manifests.write f 0 b } :=
    fun b hu => (FileSys.SameBut.write hu h.tmp 0 b).mono fun n hn => ⟨r, hn⟩
  refine wp_alone_action fun o hi => ?_
  cases hf : o.fault .manifest .write with
  | some n => exact ⟨(hb _).chainsOk hi, (hb _).retains hi, nofun⟩
  | none =>
    refine ⟨(hb c).chainsOk hi, (hb c).retains hi, fun _ _ => ?_⟩
    refine ⟨(hb c).parentReady hi h.parent, mt ((hb c).stored_iff hi).mp h.missing, h.tmp, ?_⟩
    rw [FileSys.content_write, if_pos rfl, h.content]
    exact writeAt_nil_zero c

theorem wp_alone_syncStaging {f : Ino} (h : Prepared r m f c s) :
    wp aloneRules (syncStaging f).run (fun res w => ∀ u, res = .ok u → Prepared r m f c w) s := by
  have hb : Beside s { s with manifests := s.manifests.fdatasync f } :=
    fun hu => FileSys.SameBut.fdatasync hu f
  refine wp_alone_action fun o hi => ?_
  dsimp only
  cases hf : o.fault .manifest .sync with
  | some n => exact ⟨hi, fun _ _ => id, nofun⟩
  | none =>
    refine ⟨hb.chainsOk hi, hb.retains hi, fun _ _ => ?_⟩
    refine ⟨hb.parentReady hi h.parent, mt (hb.stored_iff hi).mp h.missing, h.tmp, ?_⟩
    exact (FileSys.content_fdatasync _ _ _).trans h.content

theorem wp_alone_renameStaging {t : Tid} {f : Ino} (hd : Manifest.decode c = .ok m)
    (href : Manifest.snapshotRef c = r) (h : Prepared r m f c s) :
    wp aloneRules (renameStaging t r).run
      (fun res w => ∀ u, res = .ok u → manifestAt w r = some m) s := by
  refine wp_alone_action fun o hi => ?_
  dsimp only
  cases hf : o.fault .manifest .rename with
  | some n => exact ⟨hi, fun _ _ => id, nofun⟩
  | none =>
    rw [h.tmp]
    dsimp only
    have hsame : s.manifests.SameBut (fun n => n = .tmp r ∨ n = .spm r)
        (s.manifests.rename (.tmp r) (.spm r) f) := .rename hi.files h.tmp
    have hself : (s.manifests.rename (.tmp r) (.spm r) f).readName (.spm r) = some c := by
      rw [FileSys.readName_eq (i := f) (by rw [FileSys.lookup_rename, if_pos rfl]), ← h.content]
      rfl
    have hplace : ∀ w : World, w.manifests = s.manifests.rename (.tmp r) (.spm r) f →
        ChainsOk w ∧ Retains s w ∧ manifestAt w r = some m := by
      intro w hw
      refine hi.place (hw ▸ hsame.unaliased) (fun q hq => ?_) (hw ▸ hself) h.missing hd href h.parent
      rw [hw]
      exact hsame.readName (by simpa using hq)
    refine ⟨(hplace _ ?_).1, (hplace _ ?_).2.1, fun _ _ => (hplace _ ?_).2.2⟩
    all_goals rfl

theorem wp_alone_bind {β : Type} {x : ExceptT E P α} {k : α → ExceptT E P β} {A : α → World → Prop}
    {B : β → World → Prop} (hx : wp aloneRules x.run (fun res w => ∀ a, res = .ok a → A a w) s)
    (hk : ∀ a w, A a w → wp aloneRules (k a).run (fun res w => ∀ b, res = .ok b → B b w) w) :
    wp aloneRules (x >>= k).run (fun res w => ∀ b, res = .ok b → B b w) s := by
  refine wpE_bind (wp_mono (fun res w hw => ?_) hx)
  cases res with
  | ok a => exact hk a w (hw a rfl)
  | error e => exact nofun

theorem wp_alone_withError {E' : Type} {f : E → E'} {x : ExceptT E P α} {A : α → World → Prop}
    (hx : wp aloneRules x.run (fun res w => ∀ a, res = .ok a → A a w) s) :
    wp aloneRules (withError f x).run (fun res w => ∀ a, res = .ok a → A a w) s := by
  refine wp_withError (wp_mono (fun res w hw => ?_) hx)
  cases res with
  | ok a =>
    intro b hb
    cases hb
    exact hw a rfl
  | error e => exact nofun

omit [Primitives] in
theorem still_makeShardDir (r : SnapshotRef) : Within Still (makeShardDir r).run := by
  refine within_attempt (fun _ => rfl) fun o s a u h => ?_
  split at h <;> cases h
  rfl

theorem wp_alone_fsyncShardDir (h : manifestAt s r = some m) :
    wp aloneRules (fsyncShardDir r).run (fun res w => ∀ u, res = .ok u → manifestAt w r = some m)
      s := by
  refine wp_alone_action fun o hi => ?_
  dsimp only
  cases hf : o.fault .manifestDir .sync with
  | some n => exact ⟨hi, fun _ _ => id, nofun⟩
  | none =>
    have hb : ∀ here, Beside s { s with manifests := s.manifests.fsyncDir here } :=
      fun here hu => FileSys.SameBut.fsyncDir hu here
    exact ⟨(hb _).chainsOk hi, (hb _).retains hi, fun _ _ => (hb _).retains hi r m h⟩

theorem wp_alone_publish {t : Tid} (hd : Manifest.decode c = .ok m)
    (href : Manifest.snapshotRef c = r) (hparent : ParentReady m s) (hmissing : ¬ Stored s r) :
    wp aloneRules (publish t r c).run (fun res w => ∀ u, res = .ok u → manifestAt w r = some m)
      s := by
  have hstill : ∀ s s', Still s s' → ParentReady m s ∧ ¬ Stored s r → ParentReady m s' ∧ ¬ Stored s' r := by
    intro s s' h hs
    refine ⟨h.parentReady hs.1, ?_⟩
    rw [Stored, hasManifest, h]
    exact hs.2
  refine wp_alone_bind (wp_alone_still (still_makeShardDir r) hstill ⟨hparent, hmissing⟩)
    fun _ w hw => ?_
  refine wp_alone_bind (wp_alone_openStaging hw.1 hw.2) fun f w hw => ?_
  refine wp_alone_bind (wp_alone_writeStaging hw) fun _ w hw => ?_
  refine wp_alone_bind (wp_alone_syncStaging hw) fun _ w hw => ?_
  refine wp_alone_bind (wp_alone_renameStaging hd href hw) fun _ w hw => ?_
  exact wp_alone_fsyncShardDir hw

theorem wp_alone_register {t : Tid} (h : manifestAt s r = some m) :
    wp aloneRules (ExceptT.run do
      withError (registerError r) (registerLiveRef t r)
      return r) (fun res w => ∀ q, res = .ok q → ∃ m, manifestAt w q = some m) s := by
  have hstill : ∀ s s', Still s s' → manifestAt s r = some m → manifestAt s' r = some m := by
    intro s s' h hs
    rwa [h.manifestAt]
  refine wp_alone_bind (wp_alone_still (within_withError (still_registerLiveRef t r)) hstill h)
    fun _ w hw => ?_
  refine wpE_pure fun q hq => ?_
  cases hq
  exact ⟨m, hw⟩

theorem wp_alone_look {f : World → α} : wp aloneRules (look (E := E) f).run
    (fun res w => ∀ a, res = .ok a → ChainsOk w ∧ w = s ∧ a = f s) s := by
  refine wp_alone_action (f := fun _ s => (.ok (f s), s)) fun o hi => ⟨hi, fun _ _ => id, ?_⟩
  intro a ha
  cases ha
  exact ⟨hi, rfl, rfl⟩

theorem wp_alone_commit {t : Tid} (hd : Manifest.decode c = .ok m) (hparent : ParentReady m s) :
    wp aloneRules (commit t c m).run (fun res w => ∀ q, res = .ok q → ∃ m, manifestAt w q = some m)
      s := by
  refine wp_alone_bind wp_alone_look fun has w hw => ?_
  obtain ⟨hi, rfl, rfl⟩ := hw
  split
  · next hhas =>
    obtain ⟨l, -, hl, -⟩ := hi.chains _ hhas
    obtain ⟨m', -, -, hat⟩ := hl.head
    exact wp_alone_register hat
  · next hhas =>
    refine wp_alone_bind (wp_alone_withError (wp_alone_publish hd rfl hparent hhas)) fun _ w hw => ?_
    have hstill : ∀ s s', Still s s' → manifestAt s (Manifest.snapshotRef c) = some m →
        manifestAt s' (Manifest.snapshotRef c) = some m := by
      intro s s' h hs
      rwa [h.manifestAt]
    refine wp_alone_bind (wp_alone_still (within_change fun _ => rfl) hstill hw) fun _ w hw => ?_
    exact wp_alone_register hw

theorem wp_alone_withCommitGate {t : Tid} {body : ExceptT E P α} {B : α → World → Prop}
    (hB : ∀ a s s', Still s s' → B a s → B a s')
    (hbody : ∀ w, wp aloneRules body.run (fun res w => ∀ a, res = .ok a → B a w) w) :
    wp aloneRules (withCommitGate t body).run (fun res w => ∀ a, res = .ok a → B a w) s := by
  have hstep : ∀ w w' : World, Still w w' → ChainsOk w → ChainsOk w' ∧ Retains w w' := by
    intro w w' h hi
    have hb : Beside w w' := .of_eq h
    exact ⟨hb.chainsOk hi, hb.retains hi⟩
  refine wp_bind (wp_await (P := fun _ => True) (fun _ _ _ _ _ => trivial) trivial
    fun o w b u hi _ hf _ => ?_)
  split at hf <;> cases hf
  refine ⟨(hstep w _ ?_ hi).1, (hstep w _ ?_ hi).2, wp_bind (wp_mono (fun res v hv => ?_) (hbody _))⟩
  · rfl
  · rfl
  · refine wp_bind (wp_atomic (P := (v = ·)) ?_ rfl fun o w hi hw _ => ?_)
    · intro w w' hw hr _
      exact hw.trans hr
    · subst hw
      refine ⟨(hstep v _ ?_ hi).1, (hstep v _ ?_ hi).2, fun a ha => hB a v _ ?_ (hv a ha)⟩
      all_goals rfl

theorem wp_alone_putSnapshot (t : Tid) (c : Bytes) :
    wp aloneRules (putSnapshot t c).run
      (fun res w => ∀ r, res = .ok r → ∃ m, manifestAt w r = some m) s := by
  cases hd : Manifest.decode c with
  | error e =>
    refine wpE_bind (wp_ofExcept ?_)
    rw [hd]
    exact nofun
  | ok m =>
    refine wpE_bind (wp_ofExcept ?_)
    rw [hd, Except.mapError, andThen_ok]
    refine wp_alone_withCommitGate (fun q s s' h hs => ?_) fun w => ?_
    · obtain ⟨m', hm'⟩ := hs
      exact ⟨m', by rwa [h.manifestAt]⟩
    · refine wp_alone_bind (wp_alone_checkParent hd) fun _ w hw => ?_
      refine wp_alone_bind (wp_alone_still (still_reads (reads_containsBatch _))
        (fun _ _ h => h.parentReady) hw) fun present w hw => ?_
      dsimp only
      split
      · exact nofun
      · refine wp_alone_bind (wp_alone_still (within_withError (still_barrier t _))
          (fun _ _ h => h.parentReady) hw) fun _ w hw => ?_
        exact wp_alone_commit hd hw

end Alone

/-! ## A put without I/O errors succeeds -/

structure Nearby (s s' : World) : Prop extends Aside s s' where
  gate : s'.gate = s.gate
  commit : s'.commit = s.commit
  lock : s'.activeLock = s.activeLock

structure Idle (s : World) : Prop where
  lock : s.activeLock = none
  gate : s.gate.writer = none
  flushing : s.commit.flushing = false
  linked : ∀ p ∈ s.active.dirtySinceSync.insert s.active.packId,
    (s.pages.lookup (.spk p)).isSome = true

structure Calm (s : World) : Prop extends Idle s where
  epoch : s.epoch = none

section Calm

variable {E α : Type} {bad : E → World → Prop} {s s' s'' : World}

section Sync

omit [Primitives]

theorem Aside.trans (h : Aside s s') (h' : Aside s' s'') : Aside s s'' where
  epoch := h'.epoch.trans h.epoch
  index := h'.index.trans h.index
  names := h'.names.trans h.names
  packId := h'.packId.trans h.packId
  dirty p hp := h.dirty p (h'.dirty p hp)
  lookup := h'.lookup.trans h.lookup
  content := h'.content.trans h.content
  nextIno := h'.nextIno.trans h.nextIno
  counted := h'.counted.trans h.counted
  total := h'.total.trans h.total
  bytes := h'.bytes.trans h.bytes

theorem Nearby.trans (h : Nearby s s') (h' : Nearby s' s'') : Nearby s s'' :=
  ⟨h.toAside.trans h'.toAside, h'.gate.trans h.gate, h'.commit.trans h.commit, h'.lock.trans h.lock⟩

theorem Aside.linked (h : Aside s s') {p : PackId}
    (hs : ∀ p ∈ s.active.dirtySinceSync.insert s.active.packId,
      (s.pages.lookup (.spk p)).isSome = true)
    (hp : p ∈ s'.active.dirtySinceSync.insert s'.active.packId) :
    (s'.pages.lookup (.spk p)).isSome = true := by
  rw [h.names]
  rw [List.mem_insert_iff, h.packId] at hp
  exact hs p (List.mem_insert_iff.mpr (hp.imp id (h.dirty p)))

theorem Nearby.of_part (h : s'.putPart = s.putPart) (hg : s'.gate = s.gate)
    (hc : s'.commit = s.commit) (hl : s'.activeLock = s.activeLock) : Nearby s s' :=
  ⟨.of_part h, hg, hc, hl⟩

theorem Nearby.refl (s : World) : Nearby s s := .of_part rfl rfl rfl rfl

theorem twpE_fdatasyncPack_linked {bad : PageStoreError → World → Prop} {p : PackId}
    (hp : (s.pages.lookup (.spk p)).isSome = true) :
    twpE Oracle.Quiet bad (PageStore.fdatasyncPack p) (fun _ u => Nearby s u ∧
      u.active = s.active) s := by
  obtain ⟨i, hi⟩ := Option.isSome_iff_exists.mp hp
  refine twpE_bind (twpE_observe fun o ho => ⟨i, by rw [ho, hi], ?_⟩)
  refine twpE_attempt fun o ho => ⟨(), _, by rw [ho], ?_⟩
  exact ⟨.of_part rfl rfl rfl rfl, rfl⟩

theorem twpE_syncNewFiles_quiet {bad : PageStoreError → World → Prop} :
    twpE Oracle.Quiet bad PageStore.syncNewFiles (fun _ u => Nearby s u) s := by
  refine twpE_bind (twpE_look ?_)
  split
  · refine twpE_attempt fun o ho => ⟨(), _, by rw [ho, ho], ?_⟩
    exact .of_part rfl rfl rfl rfl
  · exact .refl s

theorem twpE_sync_linked {bad : PageStoreError → World → Prop} (t : Tid) (hlock : s.activeLock = none)
    (hbad : ∀ e u, bad e u → bad e { u with activeLock := none })
    (hs : ∀ p ∈ s.active.dirtySinceSync.insert s.active.packId,
      (s.pages.lookup (.spk p)).isSome = true) :
    twpE Oracle.Quiet bad (PageStore.sync t) (fun _ u => Nearby s u) s := by
  refine twpE_withActive hlock hbad ?_
  -- the lock is held while the body runs
  have hdone : ∀ u : World, Nearby { s with activeLock := some t } u →
      Nearby s { u with activeLock := none } := by
    intro u h
    refine ⟨⟨h.epoch, h.index, h.names, h.packId, h.dirty, h.lookup, h.content, h.nextIno,
      h.counted, h.total, h.bytes⟩, h.gate, h.commit, hlock.symm⟩
  refine twpE_mono (fun _ u => hdone u) ?_
  generalize hw : { s with activeLock := some t } = w
  have hlinked : ∀ p ∈ w.active.dirtySinceSync.insert w.active.packId,
      (w.pages.lookup (.spk p)).isSome = true := by
    rw [← hw]
    exact hs
  refine twpE_bind (twpE_onWriter fun o ho => ?_)
  obtain ⟨hok, hlook⟩ := flushBuf_of_quiet ho w.active.writer w.pages
  refine ⟨(), _, _, Prod.ext hok rfl, ?_⟩
  refine twpE_bind (twpE_action fun o' _ => ⟨_, _, rfl, ?_⟩)
  refine twpE_seq (twpE_foldlM (fun _ rest v => Nearby w v ∧
    ∀ p ∈ rest, (v.pages.lookup (.spk p)).isSome = true) (fun _ p rest v hv => ?_) _ _ _ ⟨?_, ?_⟩)
    fun _ v hv => ?_
  · refine twpE_mono (fun _ v' hv' => ⟨hv.1.trans hv'.1, fun q hq => ?_⟩)
      (twpE_fdatasyncPack_linked (hv.2 p List.mem_cons_self))
    rw [hv'.1.names]
    exact hv.2 q (List.mem_cons_of_mem p hq)
  · exact ⟨⟨rfl, rfl, hlook, rfl, by simp, rfl, rfl, rfl, rfl, rfl, rfl⟩, rfl, rfl, rfl⟩
  · intro p hp
    rw [Oracle.mem_walk] at hp
    show ((w.active.writer.flushBuf o w.pages).2.2.lookup (.spk p)).isSome = true
    rw [hlook]
    exact hlinked p hp
  · refine twpE_seq twpE_syncNewFiles_quiet fun _ v' hv' => twpE_change ?_
    exact (hv.1.trans hv').trans (.of_part rfl rfl rfl rfl)

theorem twpE_barrier_idle {bad : PageStoreError → World → Prop} (t : Tid) (hashes : List PageHash)
    (hs : Idle s) : twpE Oracle.Quiet bad (barrier t hashes (PageStore.sync t))
      (fun _ u => Idle u ∧ Aside s u) s := by
  refine twpE_bind (twpE_action fun o _ => ⟨_, _, rfl, ?_⟩)
  generalize hw : ({ s with
    commit := { s.commit with pendingGen := s.commit.pendingGen + 1 }
    ghost := { s.ghost with demand := (t, s.commit.pendingGen + 1, hashes) :: s.ghost.demand } } :
      World) = w
  have hidle : Idle w := by
    rw [← hw]
    exact ⟨hs.lock, hs.gate, hs.flushing, hs.linked⟩
  have haside : Aside s w := by
    rw [← hw]
    exact .of_part rfl
  by_cases hgen : s.commit.pendingGen + 1 ≤ w.commit.completedGen
  · refine twpE_bind (twp_await fun o _ => ⟨_, _, if_pos hgen, ?_⟩)
    exact ⟨hidle, haside⟩
  · refine twpE_bind (twp_await fun o _ => ⟨.ok (some w.commit.pendingGen), { w with
      commit := { w.commit with flushing := true }
      ghost := { w.ghost with flusher := some t } }, ?_, ?_⟩)
    · rw [if_neg hgen, hidle.flushing]
      rfl
    · have hsync : ∀ v : World, v.activeLock = w.activeLock → v.active = w.active →
          v.pages = w.pages → twpE Oracle.Quiet (fun _ _ => False) (PageStore.sync t)
            (fun _ u => Nearby v u) v := by
        intro v hl ha hp
        refine twpE_sync_linked t (hl.trans hidle.lock) (fun _ _ => id) ?_
        rw [ha, hp]
        exact hidle.linked
      refine twp_bind (twp_mono (fun res u hu => ?_) (hsync _ rfl rfl rfl))
      cases res with
      | error e => exact hu.elim
      | ok x =>
        refine twp_bind (twp_atomic fun _ _ => ?_)
        have hu : Nearby _ u := hu
        refine ⟨⟨hu.lock.trans hidle.lock, ?_, rfl, fun p hp => hu.linked hidle.linked hp⟩,
          haside.trans ?_⟩
        · show u.gate.writer = none
          rw [hu.gate]
          exact hidle.gate
        · exact ⟨hu.epoch, hu.index, hu.names, hu.packId, hu.dirty, hu.lookup, hu.content,
            hu.nextIno, hu.counted, hu.total, hu.bytes⟩

end Sync

def Touches (s u : World) : Prop :=
  ∃ fs dirs g, u = { s with manifests := fs, shardDirs := dirs, ghost := g }

structure OnlyStaged (r : SnapshotRef) (s u : World) : Prop where
  touches : Touches s u
  names : ∀ q, u.manifests.lookup (.spm q) = s.manifests.lookup (.spm q)
  files : s.manifests.Unaliased → s.manifests.SameBut (· = .tmp r) u.manifests

structure AtStage (r : SnapshotRef) (f : Ino) (b : Bytes) (s u : World) : Prop
    extends OnlyStaged r s u where
  tmp : u.manifests.lookup (.tmp r) = some f
  content : u.manifests.content f = b

structure Published (r : SnapshotRef) (c : Bytes) (s u : World) : Prop where
  touches : Touches s u
  self : u.manifests.readName (.spm r) = some c
  names : ∀ q, q ≠ r → u.manifests.lookup (.spm q) = s.manifests.lookup (.spm q)
  files : s.manifests.Unaliased → u.manifests.Unaliased ∧
    ∀ q, q ≠ r → u.manifests.readName (.spm q) = s.manifests.readName (.spm q)

structure Tolerates (may : Oracle → Prop) (bad : IoError → World → Prop) (r : SnapshotRef)
    (c : Bytes) (s : World) : Prop where
  before : ∀ o a op n, may o → o.fault a op = some n → ∀ e u, OnlyStaged r s u → bad e u
  after : ∀ o n, may o → o.fault .manifestDir .sync = some n → ∀ e u, Published r c s u → bad e u

section Publish

variable {may : Oracle → Prop} {bad : IoError → World → Prop} {u : World} {r : SnapshotRef}
  {c : Bytes} {f : Ino}

omit [Primitives]

theorem Tolerates.quiet : Tolerates Oracle.Quiet bad r c s where
  before o a op n ho hf := by
    rw [ho] at hf
    cases hf
  after o n ho hf := by
    rw [ho] at hf
    cases hf

theorem Touches.refl (s : World) : Touches s s := ⟨_, _, _, rfl⟩

theorem Touches.step (h : Touches s u) (fs : ManifestsFs) (dirs : List Nat) (g : Ghost) :
    Touches s { u with manifests := fs, shardDirs := dirs, ghost := g } := by
  obtain ⟨_, _, _, rfl⟩ := h
  exact ⟨_, _, _, rfl⟩

theorem twpE_makeShardDir (hbad : Tolerates may bad r c s) :
    twpE may bad (makeShardDir r) (fun _ u => OnlyStaged r s u) s := by
  refine twpE_attempt_fault .manifestDir .create (fun o n ho hf => ?_)
    fun o _ hf => ⟨(), _, by rw [hf], ?_⟩
  · exact ⟨.other, by rw [hf], hbad.before o _ _ n ho hf _ _ ⟨.refl s, fun _ => rfl, .refl⟩⟩
  · exact ⟨(Touches.refl s).step _ _ _, fun _ => rfl, .refl⟩

theorem twpE_openStaging (hbad : Tolerates may bad r c s) (h : OnlyStaged r s u) :
    twpE may bad (openStaging r) (fun f w => AtStage r f [] s w) u := by
  obtain ⟨hlook, hcontent⟩ := FileSys.Unaliased.lookup_openTruncate u.manifests (.tmp r)
  refine twpE_attempt_fault .manifest .openFile (fun o n ho hf => ?_)
    fun o _ hf => ⟨_, _, by rw [hf], ?_⟩
  · exact ⟨.other, by rw [hf], hbad.before o _ _ n ho hf _ _ h⟩
  · refine ⟨⟨h.touches.step _ _ _, fun q => ?_, fun hu => ?_⟩, hlook, hcontent⟩
    · rw [← h.names q]
      exact FileSys.lookup_openTruncate_ne (by simp)
    · exact (h.files hu).trans (.openTruncate (h.files hu).unaliased _)

theorem twpE_writeStaging (hbad : Tolerates may bad r c s) (h : AtStage r f [] s u) :
    twpE may bad (writeStaging f c) (fun _ w => AtStage r f c s w) u := by
  have hwrite : ∀ b, OnlyStaged r s { u with manifests := u.manifests.write f 0 b } := fun b =>
    ⟨h.touches.step _ _ _, h.names,
      fun hu => (h.files hu).trans (.write (h.files hu).unaliased h.tmp 0 b)⟩
  refine twp_atomic fun o ho => ?_
  cases hf : o.fault .manifest .write with
  | some n => exact hbad.before o _ _ n ho hf _ _ (hwrite _)
  | none =>
    refine ⟨hwrite c, h.tmp, ?_⟩
    rw [FileSys.content_write, if_pos rfl, h.content]
    exact writeAt_nil_zero c

theorem twpE_syncStaging (hbad : Tolerates may bad r c s) (h : AtStage r f c s u) :
    twpE may bad (syncStaging f) (fun _ w => AtStage r f c s w) u := by
  refine twpE_attempt_fault .manifest .sync (fun o n ho hf => ?_)
    fun o _ hf => ⟨(), _, by rw [hf], ?_⟩
  · exact ⟨.other, by rw [hf], hbad.before o _ _ n ho hf _ _ h.toOnlyStaged⟩
  · refine ⟨⟨h.touches.step _ _ _, h.names, fun hu => ?_⟩, h.tmp, ?_⟩
    · exact (h.files hu).trans (.fdatasync (h.files hu).unaliased f)
    · exact (FileSys.content_fdatasync _ _ _).trans h.content

theorem twpE_renameStaging {t : Tid} (hbad : Tolerates may bad r c s) (h : AtStage r f c s u) :
    twpE may bad (renameStaging t r) (fun _ w => Published r c s w) u := by
  refine twpE_attempt_fault .manifest .rename (fun o n ho hf => ?_)
    fun o _ hf => ⟨(), _, by rw [hf, h.tmp], ?_⟩
  · exact ⟨.other, by rw [hf], hbad.before o _ _ n ho hf _ _ h.toOnlyStaged⟩
  · refine ⟨h.touches.step _ _ _, ?_, fun q hq => ?_, fun hu => ?_⟩
    · show (u.manifests.rename (.tmp r) (.spm r) f).readName (.spm r) = some c
      rw [FileSys.readName_eq (i := f) (by rw [FileSys.lookup_rename, if_pos rfl]), ← h.content]
      rfl
    · show (u.manifests.rename (.tmp r) (.spm r) f).lookup (.spm q) = _
      rw [FileSys.lookup_rename, if_neg (by simpa using hq), if_neg (by simp), h.names]
    · have hsame : u.manifests.SameBut (fun n => n = .tmp r ∨ n = .spm r)
        (u.manifests.rename (.tmp r) (.spm r) f) := .rename (h.files hu).unaliased h.tmp
      refine ⟨hsame.unaliased, fun q hq => ?_⟩
      exact (hsame.readName (by simpa using hq)).trans ((h.files hu).readName (by simp))

theorem twpE_fsyncShardDir (hbad : Tolerates may bad r c s) (h : Published r c s u) :
    twpE may bad (fsyncShardDir r) (fun _ w => Published r c s w) u := by
  refine twpE_attempt_fault .manifestDir .sync (fun o n ho hf => ?_)
    fun o _ hf => ⟨(), _, by rw [hf], ?_⟩
  · exact ⟨.other, by rw [hf], hbad.after o n ho hf _ _ h⟩
  · refine ⟨h.touches.step _ _ _, h.self, h.names, fun hu => ⟨?_, (h.files hu).2⟩⟩
    exact ⟨(h.files hu).1.injective, (h.files hu).1.born⟩

theorem twpE_publish (t : Tid) (hbad : Tolerates may bad r c s) :
    twpE may bad (publish t r c) (fun _ u => Published r c s u) s := by
  refine twpE_seq (twpE_makeShardDir hbad) fun _ w hw => ?_
  refine twpE_seq (twpE_openStaging hbad hw) fun f w hw => ?_
  refine twpE_seq (twpE_writeStaging hbad hw) fun _ w hw => ?_
  refine twpE_seq (twpE_syncStaging hbad hw) fun _ w hw => ?_
  refine twpE_seq (twpE_renameStaging hbad hw) fun _ w hw => ?_
  exact twpE_fsyncShardDir hbad hw

end Publish

structure InPlace (r : SnapshotRef) (c : Bytes) (s u : World) : Prop where
  idle : Idle u
  epoch : u.epoch = s.epoch
  index : u.index = s.index
  files : u.manifests.Unaliased
  self : u.manifests.readName (.spm r) = some c
  other : ∀ q, q ≠ r → u.manifests.readName (.spm q) = s.manifests.readName (.spm q)

omit [Primitives] in
theorem Published.inPlace {u : World} {r : SnapshotRef} {c : Bytes} (h : Published r c s u)
    (hs : Idle s) (hu : s.manifests.Unaliased) (n b : UInt64) (g : Ghost) :
    InPlace r c s { u with manifestsTotal := n, logicalPageBytes := b, ghost := g } := by
  obtain ⟨⟨_, _, _, rfl⟩, hself, -, hfiles⟩ := h
  obtain ⟨hunaliased, hother⟩ := hfiles hu
  exact ⟨⟨hs.lock, hs.gate, hs.flushing, hs.linked⟩, rfl, rfl, hunaliased, hself, hother⟩

omit [Primitives] in
theorem InPlace.withGhost {u : World} {r : SnapshotRef} {c : Bytes} (h : InPlace r c s u)
    (g : Ghost) : InPlace r c s { u with ghost := g } :=
  ⟨⟨h.idle.lock, h.idle.gate, h.idle.flushing, h.idle.linked⟩, h.epoch, h.index, h.files, h.self,
    h.other⟩

theorem twpE_registerLiveRef_calm {may : Oracle → Prop} {bad : StoreError → World → Prop} (t : Tid)
    {r : SnapshotRef} (he : s.epoch = none) (hr : Stored s r) :
    twpE may bad (registerLiveRef t r) (fun _ u => ∃ g, u = { s with ghost := g }) s := by
  have hpush : twpE may bad (pushLateRoot t r)
      (fun active w => active = false ∧ ∃ g, w = { s with ghost := g }) s := by
    refine twp_atomic fun o _ => ?_
    dsimp only
    rw [he]
    exact ⟨rfl, _, rfl⟩
  refine twpE_seq hpush fun active w hw => ?_
  obtain ⟨rfl, g, rfl⟩ := hw
  have hhas : hasManifest { s with ghost := g } r = true := hr
  refine twpE_bind (twpE_bind (twpE_look ?_))
  rw [hhas]
  exact twpE_pure (twpE_change ⟨_, rfl⟩)

theorem twpE_register_calm {bad : PutError → World → Prop} {u : World} {r : SnapshotRef} {c : Bytes}
    (t : Tid) (h : InPlace r c s u) (he : s.epoch = none) :
    twpE Oracle.Quiet bad (do
      withError (registerError r) (registerLiveRef t r)
      return r) (fun q w => q = r ∧ InPlace r c s w) u := by
  have hr : Stored u r := stored_iff_readName.mpr (by rw [h.self]; rfl)
  refine twpE_seq (twpE_withError (twpE_registerLiveRef_calm t (h.epoch.trans he) hr)) fun _ w hw => ?_
  obtain ⟨g, rfl⟩ := hw
  exact ⟨rfl, h.withGhost g⟩

theorem twpE_commit_calm {bad : PutError → World → Prop} (t : Tid) (c : Bytes) (m : Manifest)
    (hs : Calm s) (hu : s.manifests.Unaliased) (hnew : ¬ Stored s (Manifest.snapshotRef c)) :
    twpE Oracle.Quiet bad (commit t c m) (fun q u => q = Manifest.snapshotRef c ∧
      InPlace (Manifest.snapshotRef c) c s u) s := by
  have hhas : ¬ hasManifest s (Manifest.snapshotRef c) = true := hnew
  refine twpE_bind (twpE_look ?_)
  rw [if_neg hhas]
  refine twpE_seq (twpE_withError (twpE_publish t .quiet)) fun _ w hw => ?_
  exact twpE_bind (twpE_change (twpE_register_calm t (hw.inPlace hs.toIdle hu _ _ _) hs.epoch))

theorem twpE_checkParent_calm {bad : PutError → World → Prop} {c : Bytes} {m : Manifest}
    (hd : Manifest.decode c = .ok m) (hp : ParentReady m s) :
    twpE Oracle.Quiet bad (checkParent m) (fun _ u => u = s) s := by
  unfold checkParent
  split
  · next hdelta =>
    obtain ⟨p, hpar⟩ := Option.isSome_iff_exists.mp ((Manifest.decode_delta hd).mp hdelta)
    obtain ⟨pm, hpm, hram⟩ := hp p hpar
    rw [hpar]
    refine twpE_seq (twpE_withError (twpE_readManifestBytesNoting id hpm)) fun b u hb => ?_
    obtain ⟨hb, rfl⟩ := hb
    rw [hb]
    refine twpE_bind (twpE_ofExcept ?_)
    rw [if_neg (not_not.mpr hram)]
    exact rfl
  · exact rfl

omit [Primitives] in
theorem twpE_containsBatch {may : Oracle → Prop} {bad : E → World → Prop} (hashes : List PageHash) :
    twpE may bad (containsBatch hashes)
      (fun out u => out = hashes.map (fun h => (s.index.get h).isSome) ∧ u = s) s := by
  refine twpE_mono (fun out u h => ?_) (twpE_foldlM (fun out rest u => u = s ∧
    ∃ done, hashes = done ++ rest ∧ out = done.map fun h => (s.index.get h).isSome)
    (fun out h rest u hI => ?_) hashes [] s ⟨rfl, [], rfl, rfl⟩)
  · obtain ⟨rfl, done, hdone, rfl⟩ := h
    rw [List.append_nil] at hdone
    exact ⟨by rw [hdone], rfl⟩
  · obtain ⟨rfl, done, hdone, rfl⟩ := hI
    exact twpE_bind (twpE_look ⟨rfl, done ++ [h], by simp [hdone], by simp⟩)

omit [Primitives] in
theorem missingOf_eq_nil_iff {hashes : List PageHash} :
    missingOf hashes (hashes.map fun h => (s.index.get h).isSome) = [] ↔
      ∀ h ∈ hashes, Indexed s h := by
  rw [missingOf_map, List.filter_eq_nil_iff]
  simp [Indexed, Option.isSome_iff_ne_none]

omit [Primitives] in
theorem Aside.unaliased (h : Aside s s') (hu : s.manifests.Unaliased) : s'.manifests.Unaliased := by
  refine ⟨?_, ?_⟩
  · rw [h.lookup]
    exact hu.injective
  · rw [h.lookup, h.nextIno]
    exact hu.born

omit [Primitives] in
theorem Aside.readName (h : Aside s s') (n : ManifestFile) :
    s'.manifests.readName n = s.manifests.readName n := by
  rw [FileSys.readName, FileSys.readName, h.lookup, h.content]

theorem twpE_put_body {bad : PutError → World → Prop} {Q : SnapshotRef → World → Prop} (t : Tid)
    {c : Bytes} {m : Manifest} (hs : Idle s) (hd : Manifest.decode c = .ok m)
    (hp : ParentReady m s) (hpages : ∀ h ∈ hashesOf m, Indexed s h)
    (hcommit : ∀ u, Idle u → Aside s u → twpE Oracle.Quiet bad (commit t c m) Q u) :
    twpE Oracle.Quiet bad (do
      checkParent m
      let present ← containsBatch (hashesOf m)
      let missing := missingOf (hashesOf m) present
      if missing ≠ [] then throw (.missingPages missing) else
      withError PutError.pageStore (barrier t (hashesOf m) (PageStore.sync t))
      commit t c m) Q s := by
  refine twpE_seq (twpE_checkParent_calm hd hp) fun _ w hw => ?_
  subst hw
  refine twpE_seq (twpE_containsBatch (hashesOf m)) fun present v hv => ?_
  obtain ⟨rfl, rfl⟩ := hv
  dsimp only
  rw [if_neg (not_not.mpr (missingOf_eq_nil_iff.mpr hpages))]
  refine twpE_seq (twpE_withError (twpE_barrier_idle t _ hs)) fun _ u h => ?_
  exact hcommit u h.1 h.2

theorem twpE_putSnapshot_idle {Q : SnapshotRef → World → Prop} (t : Tid) {c : Bytes} {m : Manifest}
    {bad : PutError → World → Prop} (hs : Idle s) (hd : Manifest.decode c = .ok m)
    (hp : ParentReady m s) (hpages : ∀ h ∈ hashesOf m, Indexed s h)
    (hcommit : ∀ u, Idle u → Aside s u → twpE Oracle.Quiet (fun _ _ => False) (commit t c m)
      (fun q w => ∀ l g, Q q { w with gate := { w.gate with readers := l }, ghost := g }) u) :
    twpE Oracle.Quiet bad (putSnapshot t c) Q s := by
  unfold putSnapshot
  rw [hd]
  refine twpE_bind (twpE_ofExcept ?_)
  refine twp_bind (twp_await fun o _ => ⟨(), _, by rw [hs.gate], ?_⟩)
  have hgated : Idle { s with gate := { s.gate with readers := t :: s.gate.readers } } :=
    ⟨hs.lock, hs.gate, hs.flushing, hs.linked⟩
  have hbody : twpE Oracle.Quiet (fun _ _ => False) _ _ _ :=
    twpE_put_body t hgated hd hp hpages fun u hu ha => hcommit u hu ⟨ha.epoch, ha.index, ha.names,
      ha.packId, ha.dirty, ha.lookup, ha.content, ha.nextIno, ha.counted, ha.total, ha.bytes⟩
  refine twp_bind (twp_mono (fun res u hres => ?_) hbody)
  refine twp_bind (twp_atomic fun _ _ => ?_)
  cases res with
  | error e => exact hres.elim
  | ok q => exact hres _ _

theorem twpE_putSnapshot_calm {bad : PutError → World → Prop} (t : Tid) {c : Bytes} {m : Manifest}
    (hs : Calm s) (hu : s.manifests.Unaliased) (hd : Manifest.decode c = .ok m)
    (hp : ParentReady m s) (hpages : ∀ h ∈ hashesOf m, Indexed s h)
    (hnew : ¬ Stored s (Manifest.snapshotRef c)) :
    twpE Oracle.Quiet bad (putSnapshot t c) (fun q u => q = Manifest.snapshotRef c ∧
      InPlace (Manifest.snapshotRef c) c s u) s := by
  refine twpE_putSnapshot_idle t hs.toIdle hd hp hpages fun u hidle haside => ?_
  refine twpE_mono (fun q w h l g => ⟨h.1,
    ⟨h.2.idle.lock, h.2.idle.gate, h.2.idle.flushing, h.2.idle.linked⟩, h.2.epoch.trans haside.epoch,
    h.2.index.trans haside.index, h.2.files, h.2.self,
    fun q hq => (h.2.other q hq).trans (haside.readName _)⟩)
    (twpE_commit_calm t c m ⟨hidle, haside.epoch.trans hs.epoch⟩ (haside.unaliased hu) ?_)
  rw [haside.stored_iff]
  exact hnew

end Calm

end SnapStore
