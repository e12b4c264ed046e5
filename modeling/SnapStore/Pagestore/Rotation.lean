import SnapStore.Pagestore.Alone
import SnapStore.Pagestore.Ingest
import SnapStore.Pagestore.PackIds
import SnapStore.Pagestore.Writer
import SnapStore.Store.Locks

/-!
# Rotations that fail

`rotate_locked` seals the active writer, writes the sidecar and creates the next pack, and undoes
nothing when one of these steps fails.  A failure after the footer leaves a writer that is sealed
and takes no more records.
-/

namespace SnapStore

open Disk Conc

/-- The active writer takes records, and the next pack id is free. -/
structure Fit (s : World) : Prop where
  unsealed : s.active.writer.sealed = false
  below : PacksBelow s.active.nextPackId s

/-- No I/O call fails while the active writer is sealed; with `ids`, there are also pack ids left
then, and without `noisy` no I/O call fails at all. -/
def Faults (noisy ids : Prop) (o : Oracle) (s : World) : Prop :=
  (¬ noisy → o.Quiet) ∧
    (s.active.writer.sealed = true → o.Quiet ∧ (ids → s.active.nextPackId + 1 < 2 ^ 32))

def Excused (noisy ids : Prop) (e : PageStoreError) (s : World) : Prop :=
  (noisy ∧ Fit s) ∨ (¬ ids ∧ e = .panicked ∧ 2 ^ 32 ≤ s.active.nextPackId + 1)

structure PackWriter.Plain {α : Type} (o : Oracle) (w : PackWriter) (fs : PagesFs)
    (r : Except PackError α × PackWriter × PagesFs) : Prop where
  sealed : r.2.1.sealed = w.sealed
  lookup : r.2.2.lookup = fs.lookup
  quiet : o.Quiet → ∃ a, r.1 = .ok a

namespace PackWriter

variable (o : Oracle) (w : PackWriter) (fs : PagesFs)

theorem plain_writeAll (bs : Bytes) : Plain o w fs (w.writeAll o fs bs) := by
  unfold writeAll
  cases hf : o.fault .pack .write with
  | some n => exact ⟨rfl, rfl, fun ho => absurd (ho .pack .write) (by rw [hf]; simp)⟩
  | none => exact ⟨rfl, rfl, fun _ => ⟨(), rfl⟩⟩

theorem plain_flushBuf : Plain o w fs (w.flushBuf o fs) := by
  unfold flushBuf
  split
  · exact ⟨rfl, rfl, fun _ => ⟨(), rfl⟩⟩
  · have h := plain_writeAll o w fs w.writeBuf
    generalize w.writeAll o fs w.writeBuf = r at h
    obtain ⟨res, w', fs'⟩ := r
    cases res with
    | ok _ => exact ⟨h.sealed, h.lookup, fun _ => ⟨(), rfl⟩⟩
    | error e => exact ⟨h.sealed, h.lookup, h.quiet⟩

theorem plain_append {h : PageHash} {page : Page} (hs : w.sealed = false)
    (hcap : w.wouldExceedCap = false) : Plain o w fs (w.append o fs h page) := by
  unfold append
  rw [if_neg (by simp [hs]), if_neg (by simp [hcap])]
  dsimp only
  split
  · have hflush := plain_flushBuf o (w.buffer h page) fs
    generalize (w.buffer h page).flushBuf o fs = r at hflush
    obtain ⟨res, w', fs'⟩ := r
    cases res with
    | ok _ => exact ⟨hflush.sealed, hflush.lookup, fun _ => ⟨_, rfl⟩⟩
    | error e =>
      refine ⟨hflush.sealed, hflush.lookup, fun ho => ?_⟩
      obtain ⟨_, hres⟩ := hflush.quiet ho
      cases hres
  · exact ⟨rfl, rfl, fun _ => ⟨_, rfl⟩⟩

end PackWriter

namespace PageStore

def FitWith (K : List PageHash) (s : World) : Prop := Fit s ∧ ∀ h ∈ K, Indexed s h

structure Closing (K : List PageHash) (s : World) : Prop where
  sealed : s.active.writer.sealed = true
  below : PacksBelow s.active.nextPackId s
  indexed : ∀ h ∈ K, Indexed s h

section Steps

variable {α E : Type} {noisy ids : Prop} {K : List PageHash} {s : World}

abbrev Rotates (noisy ids : Prop) (x : PE α) (Q : α → World → Prop) (s : World) : Prop :=
  wpOr (alone (Faults noisy ids)) (Excused noisy ids) x Q s

theorem rotates_onWriter
    {f : Oracle → PackWriter → PagesFs → Except PackError α × PackWriter × PagesFs}
    {Q : α → World → Prop} (h : FitWith K s)
    (hf : ∀ o, PackWriter.Plain o s.active.writer s.pages (f o s.active.writer s.pages))
    (hQ : ∀ a w fs, FitWith K { s with pages := fs, active := { s.active with writer := w } } →
      Q a { s with pages := fs, active := { s.active with writer := w } }) :
    Rotates noisy ids (onWriter f) Q s := by
  refine wp_alone_atomic fun o ho => ?_
  have hplain := hf o
  dsimp only
  generalize f o s.active.writer s.pages = r at hplain
  obtain ⟨res, w, fs⟩ := r
  have hfit : FitWith K { s with pages := fs, active := { s.active with writer := w } } :=
    ⟨⟨hplain.sealed.trans h.1.unsealed, (SamePacks.of_lookup hplain.lookup).below h.1.below⟩, h.2⟩
  cases res with
  | ok a => exact hQ a w fs hfit
  | error e =>
    refine .inl ⟨by_contra fun hn => ?_, hfit.1⟩
    obtain ⟨_, hres⟩ := hplain.quiet (ho.1 hn)
    cases hres

theorem closing_action {bad : E → World → Prop} {f : Oracle → World → Except E α × World}
    {Q : α → World → Prop} (hs : s.active.writer.sealed = true)
    (h : ∀ o, o.Quiet → ∃ a u, f o s = (.ok a, u) ∧ Q a u) :
    wpOr (alone (Faults noisy ids)) bad (action f) Q s := by
  refine wp_alone_atomic fun o ho => ?_
  obtain ⟨a, u, hf, hQ⟩ := h o (ho.2 hs).1
  rw [hf]
  exact hQ

theorem closing_attempt {bad : E → World → Prop} {f : Oracle → World → Except E (α × World)}
    {Q : α → World → Prop} (hs : s.active.writer.sealed = true)
    (h : ∀ o, o.Quiet → ∃ a u, f o s = .ok (a, u) ∧ Q a u) :
    wpOr (alone (Faults noisy ids)) bad (attempt f) Q s := by
  refine closing_action hs fun o ho => ?_
  obtain ⟨a, u, hf, hQ⟩ := h o ho
  exact ⟨a, u, by rw [hf], hQ⟩

theorem rotates_look {f : World → α} {Q : α → World → Prop} (h : Q (f s) s) :
    Rotates noisy ids (look f) Q s := wp_alone_atomic fun _ _ => h

theorem rotates_change {f : World → World} {Q : Unit → World → Prop} (h : Q () (f s)) :
    Rotates noisy ids (change f) Q s := wp_alone_atomic fun _ _ => h

theorem rotates_packEntries (p : PackId) :
    Rotates noisy ids (packEntries p) (fun _ t => t = s) s := by
  refine wpOr_foldlM (fun _ _ t => t = s) (fun out shard rest t ht => ?_) _ [] s rfl
  exact wpOr_bind (R := fun _ u => u = t) (rotates_look rfl) fun _ u hu => wpOr_pure (hu.trans ht)

theorem closing_writeSidecarEntries (h : Closing K s) (p : PackId)
    (es : List (PageHash × PageLoc)) [Primitives] :
    Rotates noisy ids (writeSidecarEntries p es) (fun _ t => Closing K t) s := by
  have hlook := (FileSys.Unaliased.lookup_openTruncate s.pages (.idxTmp p)).1
  have hpacks : ∀ q, (s.pages.openTruncate (.idxTmp p)).2.lookup (.spk q) = s.pages.lookup (.spk q) :=
    fun q => FileSys.lookup_openTruncate_ne (by simp)
  generalize hopen : s.pages.openTruncate (.idxTmp p) = x at hlook hpacks
  obtain ⟨f, fs⟩ := x
  refine wpOr_withError (wpOr_bind (R := fun i t => i = f ∧ t = { s with pages := fs })
    (closing_attempt h.sealed fun o ho => ⟨f, _, by rw [ho, hopen], rfl, rfl⟩) fun i t ht => ?_)
  obtain ⟨rfl, rfl⟩ := ht
  refine wpOr_bind (R := fun _ t => ∃ fs', fs'.lookup = fs.lookup ∧ t = { s with pages := fs' })
    (closing_action h.sealed fun o ho => ⟨(), _, by rw [ho], ?_⟩) fun _ t ht => ?_
  · exact ⟨fs.write i 0 (encodeSidecar es), rfl, rfl⟩
  obtain ⟨fs₁, hlook₁, rfl⟩ := ht
  refine wpOr_bind (R := fun _ t => ∃ fs', fs'.lookup = fs.lookup ∧ t = { s with pages := fs' })
    (closing_attempt h.sealed fun o ho => ⟨(), _, by rw [ho], ?_⟩) fun _ t ht => ?_
  · exact ⟨fs₁.fdatasync i, hlook₁, rfl⟩
  obtain ⟨fs', hlookup, rfl⟩ := ht
  have htmp : fs'.lookup (.idxTmp p) = some i := (congrFun hlookup _).trans hlook
  refine closing_attempt h.sealed fun o ho => ⟨(), _, by rw [ho]; simp only [htmp]; rfl, ?_⟩
  refine ⟨h.sealed, fun q hq => ?_, h.indexed⟩
  simp only [FileSys.lookup_rename, reduceCtorEq, if_false, congrFun hlookup, hpacks]
  exact h.below q hq

theorem closing_allocPackId {note : PackId → Ghost → Ghost} (h : Closing K s) :
    Rotates noisy ids (allocPackId note) (fun id t => Closing K t ∧ id < t.active.nextPackId ∧
      t.pages.lookup (.spk id) = none) s := by
  refine wp_alone_atomic fun o ho => ?_
  dsimp only
  by_cases hlt : s.active.nextPackId + 1 < 2 ^ 32
  · rw [if_pos hlt]
    exact ⟨⟨h.sealed, fun q hq => h.below q (Nat.le_of_succ_le hq), h.indexed⟩,
      Nat.lt_succ_self _, h.below _ (Nat.le_refl _)⟩
  · rw [if_neg hlt]
    exact .inr ⟨fun hids => hlt ((ho.2 h.sealed).2 hids), rfl, Nat.le_of_not_lt hlt⟩

theorem closing_createPackFile {id : PackId} (h : Closing K s) (hid : id < s.active.nextPackId)
    (hnone : s.pages.lookup (.spk id) = none) :
    Rotates noisy ids (createPackFile id) (fun _ t => Closing K t) s := by
  refine closing_attempt h.sealed fun o ho => ⟨_, _, by rw [ho, hnone], ?_⟩
  refine ⟨h.sealed, fun q hq => ?_, h.indexed⟩
  have hne : q ≠ id := Nat.ne_of_gt (Nat.lt_of_lt_of_le hid hq)
  rw [FileSys.lookup_create, if_neg (by simpa using hne)]
  exact h.below q hq

theorem closing_writePackHeader {f : Ino} {id : PackId} (h : Closing K s) :
    Rotates noisy ids (writePackHeader f id) (fun _ t => Closing K t) s := by
  refine closing_action h.sealed fun o ho => ⟨(), _, by rw [ho], ?_⟩
  exact ⟨h.sealed, h.below, h.indexed⟩

variable [Primitives]

theorem rotates_sealActiveNoSync (h : FitWith K s) :
    Rotates noisy ids sealActiveNoSync (fun _ t => Closing K t) s := by
  refine wpOr_bind (R := fun isSealed t => isSealed = false ∧ t = s)
    (rotates_look ⟨h.1.unsealed, rfl⟩) fun isSealed t ht => ?_
  obtain ⟨rfl, rfl⟩ := ht
  rw [if_neg (by simp)]
  refine wpOr_bind (R := fun _ u => FitWith K u)
    (rotates_onWriter h (fun o => PackWriter.plain_flushBuf o _ _) fun _ _ _ => id) fun _ u hu => ?_
  refine wp_alone_atomic fun o ho => ?_
  have hplain := PackWriter.plain_writeAll o u.active.writer u.pages
    (packFooter u.active.writer.recordCount u.active.writer.bodyHasher)
  dsimp only
  rw [PackWriter.writeFooter]
  generalize u.active.writer.writeAll o u.pages _ = r at hplain
  obtain ⟨res, w, fs⟩ := r
  have hbelow : PacksBelow u.active.nextPackId { u with pages := fs } :=
    (SamePacks.of_lookup hplain.lookup).below hu.1.below
  cases res with
  | ok _ => exact ⟨rfl, hbelow, hu.2⟩
  | error e =>
    refine .inl ⟨by_contra fun hn => ?_, hplain.sealed.trans hu.1.unsealed, hbelow⟩
    obtain ⟨_, hres⟩ := hplain.quiet (ho.1 hn)
    cases hres

theorem rotates_rotateLocked {opts : StoreOptions} (hroom : recordOffset 1 ≤ opts.maxPackBytes)
    (h : FitWith K s) :
    Rotates noisy ids (rotateLocked opts)
      (fun _ t => FitWith K t ∧ t.active.writer.wouldExceedCap = false) s := by
  refine wpOr_bind (R := fun _ t => t = s) (rotates_look rfl) fun old t ht => ?_
  subst ht
  refine wpOr_bind (R := fun _ u => FitWith K u) (rotates_change ⟨⟨h.1.unsealed, h.1.below⟩, h.2⟩) fun _ u hu => ?_
  refine wpOr_bind (rotates_sealActiveNoSync hu) fun _ v hv => ?_
  refine wpOr_bind (rotates_packEntries old) fun es w hw => ?_
  subst hw
  refine wpOr_bind (closing_writeSidecarEntries hv old es) fun _ v hv => ?_
  refine wpOr_bind (closing_allocPackId hv) fun new v hv => ?_
  obtain ⟨hclosing, hid, hnone⟩ := hv
  refine wpOr_bind (closing_createPackFile hclosing hid hnone) fun f v hv => ?_
  refine wpOr_bind (closing_writePackHeader hv) fun _ v hv => ?_
  refine wpOr_bind (R := fun _ x => FitWith K x ∧ x.active.writer.wouldExceedCap = false)
    (rotates_change ⟨⟨⟨rfl, hv.below⟩, hv.indexed⟩, ?_⟩) fun _ x hx => hx
  simpa [PackWriter.wouldExceedCap, PackWriter.fresh, recordOffset, recordSize, packHeaderSize,
    Nat.add_assoc] using hroom

/-! ## Calls -/

variable {opts : StoreOptions} {t : Tid}

omit [Primitives] in
theorem rotates_withActive {bad bad' : PageStoreError → World → Prop} {body : PE α}
    {Q : α → World → Prop} (hbad : ∀ e u, bad' e u → bad e { u with activeLock := none })
    (h : wpOr (alone (Faults noisy ids)) bad' body (fun a u => Q a { u with activeLock := none })
      { s with activeLock := some t }) :
    wpOr (alone (Faults noisy ids)) bad (withActive t body) Q s := by
  refine wp_bind (wp_await (stable_alone (· = s)) rfl fun o u b v _ hu hf _ => ⟨trivial, trivial, ?_⟩)
  subst hu
  cases hlock : u.activeLock with
  | some w => simp [hlock] at hf
  | none =>
    simp only [hlock, Option.some.injEq, Prod.mk.injEq] at hf
    obtain ⟨-, rfl⟩ := hf
    refine wp_bind (wp_mono (fun r v hr => ?_) h)
    refine wp_bind (wp_alone_atomic fun _ _ => ?_)
    cases r with
    | ok a => exact hr
    | error e => exact hbad e v hr

def Released (noisy ids : Prop) (e : PageStoreError) (s : World) : Prop :=
  Excused noisy ids e s ∧ s.activeLock = none

omit [Primitives] in
theorem Excused.released {e : PageStoreError} (h : Excused noisy ids e s) :
    Released noisy ids e { s with activeLock := none } := by
  refine ⟨?_, rfl⟩
  rcases h with ⟨hn, hfit⟩ | hpanic
  · exact .inl ⟨hn, hfit.unsealed, hfit.below⟩
  · exact .inr hpanic

omit [Primitives] in
theorem rotates_writePage {h : PageHash} {page : Page} (hs : FitWith K s)
    (hcap : s.active.writer.wouldExceedCap = false) :
    Rotates noisy ids (writePage h page) (fun _ u => FitWith (h :: K) u) s := by
  refine wpOr_bind (R := fun _ u => FitWith K u) (rotates_onWriter hs
    (fun o => PackWriter.plain_append o _ _ hs.1.unsealed hcap) fun _ _ _ => id) fun offset u hu => ?_
  refine wp_alone_atomic fun o _ => ⟨⟨hu.1.unsealed, hu.1.below⟩, fun k hk => ?_⟩
  rw [Indexed]
  dsimp only
  rw [Index.get_insert]
  split
  · rfl
  · next hne =>
    rcases List.mem_cons.mp hk with rfl | hk
    · exact Option.isSome_iff_ne_none.mpr fun hnone => hne ⟨rfl, hnone⟩
    · exact hu.2 k hk

omit [Primitives] in
theorem FitWith.cons {h : PageHash} (hs : FitWith K s) (hh : Indexed s h) : FitWith (h :: K) s :=
  ⟨hs.1, List.forall_mem_cons.mpr ⟨hh, hs.2⟩⟩

theorem rotationRules (hroom : recordOffset 1 ≤ opts.maxPackBytes) (t : Tid) (pages : List Page) :
    IngestRules (alone (Faults noisy ids)) (Released noisy ids) (Excused noisy ids) opts t pages
      (fun K s => FitWith K s ∧ s.activeLock = none) FitWith (fun K _ => FitWith K)
      (fun K _ s => FitWith K s ∧ s.active.writer.wouldExceedCap = false) where
  stable _ := stable_alone _
  stable_locked _ := stable_alone _
  stable_miss _ _ := stable_alone _
  guar_refl _ := trivial
  hit _ _ _ _ hs hh := ⟨hs.1.cons hh, hs.2⟩
  hit_locked _ _ _ _ hs hh := hs.cons hh
  miss _ _ _ _ hs _ := hs
  room _ _ _ _ hs hcap := ⟨hs, hcap⟩
  rotate _ _ _ hs := rotates_rotateLocked hroom hs
  write _ _ _ _ hs _ := rotates_writePage hs.1 hs.2
  lock body I K s hs hbody := by
    refine rotates_withActive (fun _ _ => Excused.released) ?_
    refine wpOr_mono (hbody _ ⟨⟨hs.1.1.unsealed, hs.1.1.below⟩, hs.1.2⟩) fun out v hv => ?_
    obtain ⟨K', hI, hv⟩ := hv
    exact ⟨K', hI, ⟨⟨hv.1.unsealed, hv.1.below⟩, hv.2⟩, rfl⟩
  found _ h _ _ hs hmem _ := hs.1.2 h hmem

def Rested (s : World) : Prop := Fit s ∧ s.activeLock = none

theorem rotates_ingest (hroom : recordOffset 1 ≤ opts.maxPackBytes) (pages : List Page)
    (h : Rested s) :
    wpOr (alone (Faults noisy ids)) (Released noisy ids) (ingest opts t pages)
      (fun _ u => Rested u) s := by
  refine wpOr_mono (wpOr_ingest (rotationRules hroom t pages) ⟨⟨h.1, by simp⟩, h.2⟩) ?_
  intro out u hu
  obtain ⟨K, hK, -⟩ := hu
  exact ⟨hK.1.1, hK.2⟩

theorem rotates_rotateActive (hroom : recordOffset 1 ≤ opts.maxPackBytes) (h : Rested s) :
    wpOr (alone (Faults noisy ids)) (Released noisy ids) (rotateActive opts t)
      (fun _ u => Rested u) s := by
  refine rotates_withActive (fun _ _ => Excused.released) ?_
  refine wpOr_bind (R := fun _ u => FitWith [] u)
    (rotates_look ⟨⟨h.1.unsealed, h.1.below⟩, by simp⟩) fun a u hu => ?_
  split
  · exact ⟨⟨hu.1.unsealed, hu.1.below⟩, rfl⟩
  · exact wpOr_mono (rotates_rotateLocked hroom hu) fun _ v hv =>
      ⟨⟨hv.1.1.unsealed, hv.1.1.below⟩, rfl⟩

structure Easy (s s' : World) : Prop where
  sealed : s'.active.writer.sealed = s.active.writer.sealed
  next : s'.active.nextPackId = s.active.nextPackId
  packs : s'.pages.lookup = s.pages.lookup

omit [Primitives] in
theorem Easy.fit {s' : World} (h : Easy s s') (hs : Fit s) : Fit s' := by
  refine ⟨h.sealed.trans hs.unsealed, ?_⟩
  rw [h.next]
  exact (SamePacks.of_lookup h.packs).below hs.below

omit [Primitives] in
theorem easy_flushBuf : Within Easy (onWriter fun o w fs => w.flushBuf o fs).run := by
  refine within_action fun o s => ?_
  have hplain := PackWriter.plain_flushBuf o s.active.writer s.pages
  dsimp only
  generalize s.active.writer.flushBuf o s.pages = r at hplain
  exact ⟨hplain.sealed, rfl, hplain.lookup⟩

omit [Primitives] in
theorem rotates_sync (h : Rested s) :
    wpOr (alone (Faults True ids)) (Released True ids) (sync t) (fun _ u => Rested u) s := by
  have hsync : Within Easy (do
      onWriter fun o w fs => w.flushBuf o fs
      let dirty ← takeDirty
      dirty.foldlM (fun _ p => fdatasyncPack p) ()
      syncNewFiles
      change fun s => { s with ghost := { s.ghost with
        acked := s.ghost.fresh ++ s.ghost.acked
        covered := s.commit.pendingGen } } : PE Unit).run := by
    refine Within.bindE easy_flushBuf fun _ => syncStep_afterFlush.within.mono fun s u h => ?_
    obtain ⟨_, _, _, _, _, _, rfl, rfl | ⟨f, rfl⟩ | rfl⟩ := h <;> exact ⟨rfl, rfl, rfl⟩
  have hlocked : Fit { s with activeLock := some t } := ⟨h.1.unsealed, h.1.below⟩
  refine rotates_withActive (fun _ _ => Excused.released) (wp_mono (fun r u hu => ?_)
    (hsync.wp (stable_alone Fit) hlocked fun _ u v _ hu _ hR => ⟨trivial, trivial, hR.fit hu⟩))
  cases r with
  | ok a => exact ⟨⟨hu.unsealed, hu.below⟩, rfl⟩
  | error e => exact .inl ⟨trivial, hu⟩

/-! ## An ingest without faults -/

omit [Primitives] in
theorem twpE_reads {x : PE α} (h : Prompt Eq x.run) (hs : s.activeLock = none) :
    twpE Oracle.Quiet (fun _ _ => True) x (fun _ u => u.activeLock = none) s := by
  refine twp_mono (fun r u hu => ?_) (h.twp (P := fun u => u.activeLock = none)
    (fun u v (heq : u = v) hu => by rwa [← heq]) hs)
  cases r with
  | ok a => exact hu
  | error e => trivial

theorem twpE_ingest_ends (pages : List Page) (hs : s.activeLock = none) :
    twpE Oracle.Quiet (fun _ _ => True) (ingest opts t pages) (fun _ _ => True) s := by
  unfold ingest
  split
  · trivial
  · refine twpE_seq (twpE_reads (reads_observe _) hs) fun order u hu => ?_
    refine twpE_seq (twpE_reads (Prompt.foldlME reads_probe _ _) hu) fun acc v hv => ?_
    refine twpE_seq (R := fun _ w => w.activeLock = none) ?_ fun outcomes w hw =>
      twpE_mono (fun _ _ _ => trivial) (twpE_reads (Prompt.foldlME reads_fillOutcome _ _) hw)
    unfold writeMissing
    split
    · exact hv
    · refine twpE_withActive hv (fun _ _ _ => trivial) ?_
      refine twp_mono (fun r w _ => ?_) ((Prompt.foldlME (ingestMove_ingestOne opts pages) _ _).twp
        (P := fun _ => True) (fun _ _ _ _ => trivial) trivial)
      cases r with
      | ok a => rfl
      | error e => trivial

def NoIdsLeft (e : PageStoreError) (s : World) : Prop :=
  e = .panicked ∧ 2 ^ 32 ≤ s.active.nextPackId + 1

theorem twpE_ingest_rested (hroom : recordOffset 1 ≤ opts.maxPackBytes) (pages : List Page)
    (h : Rested s) :
    twpE Oracle.Quiet NoIdsLeft (ingest opts t pages) (fun _ u => Rested u) s := by
  have hends : twp Oracle.Quiet (ingest opts t pages).run (fun _ _ => True) s :=
    twp_mono (fun _ _ _ => trivial) (twpE_ingest_ends pages h.2)
  have hwp : wpOr (alone (Faults False False)) (Released False False) (ingest opts t pages)
      (fun _ u => Rested u) s := rotates_ingest hroom pages h
  have hquiet : wp (alone fun o _ => o.Quiet) (ingest opts t pages).run
      (okOr (Released False False) fun _ u => Rested u) s :=
    wp_conseq (ρ := alone (Faults False False)) (fun o s _ ho => ⟨fun _ => ho, fun _ => ⟨ho, nofun⟩⟩)
      (fun _ => Iff.rfl) (fun _ _ => id) (fun _ _ => id) hwp
  refine twp_mono (fun r u hu => ?_) (twp_of_wp hends hquiet)
  cases r with
  | ok out => exact hu
  | error e =>
    rcases hu.1 with hnoise | hpanic
    · exact hnoise.1.elim
    · exact hpanic.2

end Steps

end PageStore

/-! ## Runs of the store -/

section Store

variable [Primitives]

def Call.rotates : Call → Prop
  | .ingest _ | .rotate | .sync => True
  | _ => False

def rotationStore (opts : StoreOptions) : Machine Oracle World :=
  sequentialStore opts Call.rotates fun _ _ => False

/-- Opening the store removes its runt files.  Once the footer of a rotation is written no file
operation fails until the next pack is in place, and there is a pack id for it. -/
def RotationsEnd {opts : StoreOptions} : Label (rotationStore opts) → World → World → Prop
  | .boot o, _, _ => o.fault .pack .unlink = none
  | .act _ o, s, _ => s.active.writer.sealed = true →
      o.Quiet ∧ s.active.nextPackId + 1 < 2 ^ 32
  | _, _, _ => True

open PageStore

theorem wp_rotation_call {opts : StoreOptions} (hroom : recordOffset 1 ≤ opts.maxPackBytes)
    {c : Call} (hc : c.rotates) (t : Tid) {s : World} (h : Rested s) :
    wp (alone (Faults True True)) (c.run opts t) (fun _ u => Rested u) s := by
  have hrest : ∀ {α : Type} {x : PE α} {r : Except PageStoreError α → Reply},
      wpOr (alone (Faults True True)) (Released True True) x (fun _ u => Rested u) s →
      wp (alone (Faults True True)) (do return r (← x.run)) (fun _ u => Rested u) s := by
    intro α x r hx
    refine wp_bind (wp_mono (fun res u hu => ?_) hx)
    cases res with
    | ok a => exact hu
    | error e =>
      obtain ⟨hexc, hlock⟩ := hu
      exact ⟨(hexc.resolve_right fun hn => hn.1 trivial).2, hlock⟩
  cases c with
  | ingest pages => exact hrest (rotates_ingest hroom pages h)
  | rotate => exact hrest (rotates_rotateActive hroom h)
  | sync => exact hrest (rotates_sync h)
  | _ => exact hc.elim

def rotationOutline (opts : StoreOptions) (hroom : recordOffset 1 ≤ opts.maxPackBytes) :
    Outline (rotationStore opts) RotationsEnd where
  inv _ := True
  down _ := True
  rely _ _ := Eq
  guar _ _ _ _ := True
  post _ _ _ := Rested
  idle _ _ := True
  alone _ _ := True
  lull _ := Rested
  rely_refl _ _ _ := rfl
  rely_trans _ _ _ _ _ := Eq.trans
  guar_rely _ _ _ _ _ _ _ h := h.elim
  guar_idle _ _ _ _ _ _ _ _ _ := trivial
  alone_overlap _ _ _ _ _ := id
  guar_lull _ _ _ _ _ h := absurd trivial h
  post_lull _ _ _ _ _ _ := id
  body c t s _ _ hl _ := wp_conseq (ρ := alone (Faults True True)) (fun o s _ ho => ⟨fun hn => absurd trivial hn,
    fun hs => ⟨(ho hs).1, fun _ => (ho hs).2⟩⟩) (fun _ => Iff.rfl) (fun _ _ => id) (fun _ _ => id)
    (wp_rotation_call hroom c.2 t (hl () trivial))
  boot s _ := by
    refine wp_mono (fun b u hu hb => ⟨trivial, fun _ => trivial, fun _ => ?_⟩)
      (wp_openStore_seeded (fun o _ => o.fault .pack .unlink = none) (fun _ _ => id) opts s)
    obtain ⟨hseeded, hlock⟩ := hu hb
    exact ⟨⟨hseeded.unsealed, hseeded.below⟩, hlock⟩
  crash_up _ _ _ h := h.elim
  crash_down _ _ _ h := h.elim

/-- Rotations that fail before their footer is written do not wedge ingest: whenever no call runs,
the active writer is unsealed, and an ingest in which no file operation fails returns its outcomes
as long as there are pack ids left. -/
theorem failed_rotation_keeps_ingest (opts : StoreOptions)
    (hroom : recordOffset 1 ≤ opts.maxPackBytes) (s₀ : World) {c : Config (rotationStore opts)}
    (h : (rotationStore opts).Reach RotationsEnd ((rotationStore opts).initial s₀) c)
    (hup : c.mode = .up) (hidle : ∀ th ∈ c.threads, th.prog.isDone = true) :
    c.store.active.writer.sealed = false ∧
    ∀ (t : Tid) (pages : List Page),
      twpE Oracle.Quiet NoIdsLeft (ingest opts t pages) (fun _ _ => True) c.store := by
  have hg := Outline.good_of_reach (O := rotationOutline opts hroom) trivial h
  rw [Outline.Good, hup] at hg
  have hrested : Rested c.store := by
    refine hg.lull () fun th hth hrun => ?_
    rw [hidle th hth] at hrun
    cases hrun
  exact ⟨hrested.1.unsealed, fun t pages =>
    twpE_mono (fun _ _ _ => trivial) (twpE_ingest_rested hroom pages hrested)⟩

end Store

/-! ## Samples -/

namespace Sample

attribute [local instance] primitives

instance : DecidableRel (rotationStore options).overlap :=
  inferInstanceAs (DecidableRel (sequentialStore _ _ _).overlap)

def failing (a : Area) (op : IoOp) : Oracle := ⟨fun a' op' => if a' = a ∧ op' = op then some 0 else none, 0, 0⟩

def rotateWith (o : Oracle) : List (Cmd (rotationStore options)) :=
  [.boot quiet 100, .ready, .start ⟨.ingest [page 7], trivial⟩, .run 0 quiet 1000,
    .start ⟨.rotate, trivial⟩, .run 1 o 1000]

def atRest {M : Machine Oracle World} (c : Config M) : Bool :=
  (match c.mode with
    | .up => true
    | _ => false) && c.threads.all fun th => th.prog.isDone

theorem up_of_atRest {M : Machine Oracle World} {c : Config M} (h : atRest c = true) :
    c.mode = .up ∧ ∀ th ∈ c.threads, th.prog.isDone = true := by
  obtain ⟨hmode, hdone⟩ := Bool.and_eq_true _ _ |>.mp h
  refine ⟨?_, List.all_eq_true.mp hdone⟩
  split at hmode
  · assumption
  · cases hmode

def rejectsPage (s : World) : Bool :=
  match (PageStore.ingest options 2 [page 8]).run.run quiet 1000 s with
  | some (.error (.pack .sealed), _) => true
  | _ => false

/-- The sidecar of a rotation cannot be opened; ingest is refused from then on. -/
theorem failed_sidecar_wedges_ingest : ∃ c : Config (rotationStore options),
    (rotationStore options).Reach (fun _ _ _ => True)
      ((rotationStore options).initial World.empty) c ∧
    c.mode = .up ∧ (∀ th ∈ c.threads, th.prog.isDone = true) ∧
    c.store.active.writer.sealed = true ∧
    ∃ u, Ends Oracle.Quiet (PageStore.ingest options 2 [page 8]).run c.store
      (.error (.pack .sealed)) u := by
  have hcomp : ((rotationStore options).execAll (fun _ _ => true)
      (rotateWith (failing .sidecar .openFile)) ((rotationStore options).initial World.empty)).any
      (fun c => atRest c && c.store.active.writer.sealed && rejectsPage c.store) = true := by
    decide +kernel
  obtain ⟨c, hc, htest⟩ := Option.any_eq_true _ _ |>.mp hcomp
  simp only [Bool.and_eq_true] at htest
  obtain ⟨⟨hrest, hsealed⟩, hrejects⟩ := htest
  obtain ⟨hup, hidle⟩ := up_of_atRest hrest
  have hreach : (rotationStore options).Reach (fun _ _ _ => True)
      ((rotationStore options).initial World.empty) c :=
    Machine.reach_of_execAll (by simp [rotateWith, Machine.Meets]) hc
  refine ⟨c, hreach, hup, hidle, hsealed, ?_⟩
  unfold rejectsPage at hrejects
  split at hrejects
  · next u hrun => exact ⟨u, .of_run (fun _ _ => rfl) hrun⟩
  · cases hrejects

theorem failed_flush_keeps_ingest : ∃ c : Config (rotationStore options),
    (rotationStore options).Reach RotationsEnd ((rotationStore options).initial World.empty) c ∧
    c.threads.length = 2 ∧ c.store.active.writer.sealed = false ∧
    ∀ (t : Tid) (pages : List Page), twpE Oracle.Quiet PageStore.NoIdsLeft
      (PageStore.ingest options t pages) (fun _ _ => True) c.store := by
  have hcomp : ((rotationStore options).execAll (fun s _ => !s.active.writer.sealed)
      (rotateWith (failing .pack .write)) ((rotationStore options).initial World.empty)).any
      (fun c => atRest c && decide (c.threads.length = 2)) = true := by
    decide +kernel
  obtain ⟨c, hc, htest⟩ := Option.any_eq_true _ _ |>.mp hcomp
  simp only [Bool.and_eq_true, decide_eq_true_eq] at htest
  obtain ⟨hup, hidle⟩ := up_of_atRest htest.1
  have hreach : (rotationStore options).Reach RotationsEnd
      ((rotationStore options).initial World.empty) c := by
    refine Machine.reach_of_execAll (fun cmd hcmd => ?_) hc
    simp only [rotateWith, List.mem_cons, List.not_mem_nil, or_false] at hcmd
    rcases hcmd with rfl | rfl | rfl | rfl | rfl | rfl
    · exact fun _ _ _ => rfl
    · exact fun _ _ => trivial
    · exact fun _ _ => trivial
    · exact fun s _ hs hsealed => absurd hs (by simp [hsealed])
    · exact fun _ _ => trivial
    · exact fun s _ hs hsealed => absurd hs (by simp [hsealed])
  obtain ⟨hunsealed, hingest⟩ :=
    failed_rotation_keeps_ingest options (by decide) World.empty hreach hup hidle
  exact ⟨c, hreach, htest.2, hunsealed, hingest⟩

end Sample

end SnapStore
