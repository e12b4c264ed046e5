import SnapStore.Gc.Collector

/-!
# Sweeps in the protocol

The pack sweep and the manifest sweep of one collection, and the cycle around them.
-/

namespace SnapStore

open Disk Conc SnapshotStore

variable [Primitives] {π : Protocol} {t : Tid}

/-! ## Under the gate -/

section Gate

variable {held : Prop} {A A' : SnapshotRef → Prop} {live : LiveSet} {todo : List SnapshotRef}
  {s s' : World} {r : SnapshotRef}

theorem Admissible.during (ha : Admissible π s s') (he : s.epoch ≠ none)
    (hep : s'.epoch = s.epoch) (hdb : s'.db = s.db) (hst : ∀ r, Stored s' r ↔ Stored s r)
    (hix : s'.index = s.index) (hg : s'.ghost = s.ghost) : During π s s' where
  epoch := hep ▸ he
  late r hr := by simpa only [IsLate, hep] using hr
  pres := ha.presMono fun h hh => by simpa only [Indexed, hix] using hh
  stored r hr := (hst r).mpr hr
  dangling r hr := .inl (hg ▸ hr)
  rows r hr := .inl (hdb ▸ hr)
  sweeping := by rw [hg]
  fresh _ r hr := .inl ((hst r).mp hr)
  publishing _ r hr := .inl (by simpa only [Publishing, hg] using hr)
  arrivals _ r hr := .inl ((hst r).mp hr)

theorem Marking.release (h : Marking π t held A live todo s) : Marking π t False A live todo s :=
  ⟨h.epoch, False.elim, h.roots, h.kept, h.ahead, h.accounted⟩

theorem Marking.regate {g : Gate} (h : Marking π t held A live todo s)
    (ha : Admissible π s { s with gate := g }) :
    Marking π t False A live todo { s with gate := g } :=
  h.release.during (ha.during h.epoch rfl rfl (fun _ => Iff.rfl) rfl rfl) False.elim

theorem Marking.recount (h : Marking π t held A live todo s)
    (hA : π.tidy → ∀ r, Stored s r → A r → r ∈ live.manifests ∨ A' r) :
    Marking π t held A' live todo s where
  epoch := h.epoch
  gate := h.gate
  roots := h.roots
  kept := h.kept
  ahead := h.ahead
  accounted ht r hst := by
    rcases h.accounted ht r hst with hm | hl | hp | htodo | ha
    · exact .inl hm
    · exact .inr (.inl hl)
    · exact .inr (.inr (.inl hp))
    · exact .inr (.inr (.inr (.inl htodo)))
    · exact (hA ht r hst ha).imp_right fun h => .inr (.inr (.inr h))

theorem Marking.drain {l : List SnapshotRef} (h : Marking π t False A live [] s)
    (hi : ProtocolInv π s) (he : s.epoch = some l) (hw : s.gate.writer = some t)
    (ha : Admissible π s { s with
      epoch := some []
      ghost := { s.ghost with dangling := s.ghost.dangling.filter (· ∉ l) } }) :
    Marking π t True A live l { s with
      epoch := some []
      ghost := { s.ghost with dangling := s.ghost.dangling.filter (· ∉ l) } } where
  epoch := by simp
  gate _ := ⟨hw, rfl⟩
  roots r hr := by
    by_cases hl : r ∈ l
    · exact .inr (.inr (.inr hl))
    · rcases h.roots r hr with hm | ⟨l', hl', hr'⟩ | hd | htodo
      · exact .inl hm
      · rw [he] at hl'
        cases hl'
        exact absurd hr' hl
      · exact .inr (.inr (.inl (List.mem_filter.mpr ⟨hd, by simpa using hl⟩)))
      · cases htodo
  kept ht r hr := by
    obtain ⟨hs, hn⟩ := h.kept ht r hr
    exact ⟨hs, hn.mono (fun _ => id) (ha.presMono fun _ => id)⟩
  ahead ht _ r hr hst :=
    ((hi.tidy ht).late r ⟨l, he, hr⟩ hst).mono (fun _ => id) (ha.presMono fun _ => id)
  accounted ht r hst := by
    rcases h.accounted ht r hst with hm | ⟨l', hl', hr'⟩ | hp | htodo | ha
    · exact .inl hm
    · rw [he] at hl'
      cases hl'
      exact .inr (.inr (.inr (.inl hr')))
    · exact .inr (.inr (.inl hp))
    · cases htodo
    · exact .inr (.inr (.inr (.inr ha)))

theorem wp_drainLateRoots (hs : Marking π t False A live [] s) (hw : s.gate.writer = some t) :
    wp (collectorRules π t) drainLateRoots.run (fun res w =>
      ∃ l, res = .ok l ∧ Marking π t True A live l w) s := by
  have hstable : Stable (collectorRules π t)
      fun w => Marking π t False A live [] w ∧ w.gate.writer = some t :=
    fun w w' h hr hi => ⟨stable_marking w w' h.1 hr hi, (hr.held h.2).writer⟩
  refine wp_collector_action hstable ⟨hs, hw⟩ fun o w b u hi h hf ha => ?_
  split at hf <;> cases hf
  · next l he => exact ⟨.drain l h.2 he, l, rfl, h.1.drain hi he h.2 ha⟩
  · next he => exact absurd he h.1.epoch

theorem Marking.spares (h : Marking π t True A live [] s) (hc : LiveClosed π live) :
    Spares π s (· ∈ live.manifests) (· ∈ live.pages) := by
  refine ⟨hc, fun r hr => ?_⟩
  rcases h.roots r hr with hm | hl | hd | htodo
  · exact .inl hm
  · exact absurd hl (not_isLate_of_empty (h.gate trivial).2)
  · exact .inr hd
  · cases htodo

theorem Marking.remove {h : PageHash} {p : PackId} (hs : Marking π t True A live [] s)
    (hc : LiveClosed π live) (hh : h ∉ live.pages)
    (ha : Admissible π s
      { s with index := s.index.removeIfInPack h p, ghost := s.ghost.removed h }) :
    Marking π t True A live []
      { s with index := s.index.removeIfInPack h p, ghost := s.ghost.removed h } where
  epoch := hs.epoch
  gate := hs.gate
  roots := hs.roots
  kept ht r hr := by
    obtain ⟨hst, hn⟩ := hs.kept ht r hr
    refine ⟨hst, fun ks q hnamed => ?_⟩
    obtain ⟨hk, hq⟩ := hn ks q hnamed
    refine ⟨fun k hmem => ?_, hq⟩
    have hne : k ≠ h := by
      rintro rfl
      exact hh (hc.named r ks q hr hnamed k hmem)
    have hpk := hk k hmem
    refine ha.pres k hpk ?_
    simpa [Indexed, Index.get_remove, hne] using π.pres_indexed _ _ hpk
  ahead _ _ r hr := by cases hr
  accounted := hs.accounted

theorem wp_removeIfInPack (p : PackId) {h : PageHash} (hs : Marking π t True A live [] s)
    (hc : LiveClosed π live) (hh : h ∉ live.pages) :
    wp (collectorRules π t) (Gc.removeIfInPack p h).run
      (fun _ w => Marking π t True A live [] w) s := by
  refine wp_collector_change stable_marking hs fun w u hi hw hf ha => ?_
  split at hf
  · split at hf
    · cases hf
      exact ⟨.remove h p _ _ (hw.gate trivial).1 (hw.gate trivial).2 (hw.spares hc) hh,
        hw.remove hc hh ha⟩
    · cases hf
      exact ⟨.frame (Frame.refl w), hw⟩
  · cases hf
    exact ⟨.frame (Frame.refl w), hw⟩

end Gate

/-! ## The pack sweep -/

def Swept (π : Protocol) (t : Tid) (A : SnapshotRef → Prop) (st : MarkState) (s : World) : Prop :=
  Marking π t False A st.1 [] s ∧ LiveClosed π st.1

section Packs

variable {A : SnapshotRef → Prop} {live : LiveSet} {st : MarkState} {s : World}

theorem stable_swept : Stable (collectorRules π t) (Swept π t A st) :=
  stable_marking.and (.const _)

theorem wp_applyFinalize (p : PackId) (copied dead : List (PageHash × PageLoc))
    (hs : Marking π t True A live [] s) (hc : LiveClosed π live) :
    wp (collectorRules π t) (Gc.applyFinalize p copied dead live).run
      (fun _ w => Marking π t True A live [] w) s := by
  have hrepoint : Within Frame
      (copied.foldlM (fun _ e => Gc.repointIfInPack p e) ()).run := by
    refine Within.foldlME (fun _ e => within_change fun w => ?_) _ _
    refine .of_part rfl fun h hh => ?_
    simp only [Indexed, Index.get_repoint]
    split
    · rfl
    · exact hh
  refine wpE_bind (wp_mono ?_ (wp_collector_frame hrepoint stable_marking hs))
  rintro (e | ⟨⟩) w hw
  · exact hw
  refine wpE_foldlM (fun _ _ w => Marking π t True A live [] w) ?_ (fun _ _ h => h) dead () w hw
  intro _ e es w hw
  split
  · exact hw
  · next hh =>
    refine wp_mono ?_ (wp_removeIfInPack p hw hc hh)
    rintro (e | ⟨⟩) w hw
    · exact hw
    · exact hw

theorem wp_drainOrFinalize (p : PackId) (copied dead : List (PageHash × PageLoc))
    (hs : Marking π t False A live [] s) (hc : LiveClosed π live) :
    wp (collectorRules π t) (Gc.drainOrFinalize t p copied dead live).run
      (fun res w => ∀ l, res = .ok l → Marking π t False A live l w) s := by
  refine wp_withSweepGate (B := fun res w => ∀ l, res = .ok l → Marking π t True A live l w)
    stable_marking hs ?_ ?_ ?_
  · exact fun res w w' h hr hi l hl => stable_marking w w' (h l hl) hr hi
  · intro w hw ha
    refine wpE_bind (wp_mono ?_ (wp_drainLateRoots (hw.regate ha) rfl))
    rintro _ w₁ ⟨l, rfl, h₁⟩
    rw [andThen_ok]
    split
    · next hl =>
      subst hl
      refine wpE_bind (wp_mono ?_ (wp_applyFinalize p copied dead h₁ hc))
      rintro (e | ⟨⟩) w₂ h₂
      · simp
      · intro l hl
        cases hl
        exact h₂
    · intro l' hl'
      cases hl'
      exact h₁
  · intro res w h ha l hl
    exact (h l hl).regate ha

theorem wp_copyIfAny (opts : StoreOptions) (es : List (PageHash × PageLoc))
    (hs : Swept π t A st s) :
    wp (collectorRules π t) (Gc.copyIfAny opts t es).run (fun _ w => Swept π t A st w) s := by
  unfold Gc.copyIfAny
  split
  · exact hs
  · exact wp_collector_frame (Gc.frame_copyRecords opts t es) stable_swept hs

theorem wp_finalize (opts : StoreOptions) (p : PackId) (dead : List (PageHash × PageLoc))
    (rounds : Nat) (copied : List (PageHash × PageLoc)) (hs : Swept π t A st s) :
    wp (collectorRules π t) (Gc.finalize opts t p dead rounds copied st).run
      (fun res w => ∀ st', res = .ok st' → Swept π t A st' w) s := by
  induction rounds generalizing copied st s with
  | zero => exact wp_stuck
  | succ rounds ih =>
    obtain ⟨live, report⟩ := st
    rw [Gc.finalize]
    refine wpE_bind (wp_mono ?_ (wp_drainOrFinalize p copied dead hs.1 hs.2))
    rintro (e | l) w h
    · simp
    rw [andThen_ok]
    have hl := h l rfl
    split
    · next hnil =>
      intro st' hst
      cases hst
      exact ⟨hnil ▸ hl, hs.2⟩
    refine wpE_bind (wp_mono ?_ (wp_mark l live report hl hs.2))
    rintro (e | st₁) w₁ h₁
    · simp
    rw [andThen_ok]
    refine wpE_bind (wp_mono ?_ (wp_copyIfAny opts _ (h₁ st₁ rfl)))
    rintro (e | more) w₂ h₂
    · simp
    · exact ih _ h₂

def ThenSwept {E : Type} (π : Protocol) (t : Tid) (A : SnapshotRef → Prop)
    (res : Except E MarkState) (s : World) : Prop :=
  ∀ st, res = .ok st → Swept π t A st s

theorem wp_finalizeAndUnlink (opts : StoreOptions) (so : SweepOpts) (p : PackId)
    (copied dead : List (PageHash × PageLoc)) (hs : Swept π t A st s) :
    wp (collectorRules π t) (Gc.finalizeAndUnlink opts so t p copied dead st).run
      (ThenSwept π t A) s := by
  refine wpE_bind (wp_mono ?_ (wp_finalize opts p dead so.rounds copied hs))
  rintro (e | st₁) w h
  · exact fun _ hst => by cases hst
  refine wpE_bind (wp_mono ?_ (wp_collector_frame
    (within_withError (frame_of_cache (PageStore.cacheMove_invalidate p))) stable_swept (h st₁ rfl)))
  rintro (e | ⟨⟩) w₁ h₁
  · exact fun _ hst => by cases hst
  refine wpE_bind (wp_mono ?_ (wp_collector_frame
    (within_withError (PageStore.frame_deletePack t p)) stable_swept h₁))
  rintro (e | ⟨⟩) w₂ h₂ st₂ hst
  · cases hst
  · cases hst
    exact h₂

theorem wp_sweepOnePack (opts : StoreOptions) (so : SweepOpts) (p : PackId)
    (hs : Swept π t A st s) :
    wp (collectorRules π t) (Gc.sweepOnePack opts so t st p).run (ThenSwept π t A) s := by
  have herr : ∀ (e : StoreError) w, ThenSwept π t A (.error e) w := fun _ _ _ hst => by cases hst
  refine wpE_bind (wp_mono ?_ (wp_collector_frame
    (within_withError (frame_of_reads (PageStore.reads_packEntries p))) stable_swept hs))
  rintro (e | entries) w hw
  · exact herr e w
  refine wpE_bind (wp_mono ?_ (wp_collector_frame
    (within_withError (within_observe Frame.refl)) stable_swept hw))
  rintro (e | records) w hw
  · exact herr e w
  rw [andThen_ok]
  dsimp only
  split
  · refine wpE_bind (wp_mono ?_ (wp_finalizeAndUnlink opts so p [] [] hw))
    rintro (e | st₁) w₁ h₁
    · exact herr e w₁
    · rintro st₂ hst
      cases hst
      exact h₁ st₁ rfl
  · split
    · rintro st₂ hst
      cases hst
      exact hw
    · refine wpE_bind (wp_mono ?_ (wp_copyIfAny opts _ hw))
      rintro (e | copied) w₁ h₁
      · exact herr e w₁
      refine wpE_bind (wp_mono ?_ (wp_finalizeAndUnlink opts so p copied _ h₁))
      rintro (e | st₂) w₂ h₂
      · exact herr e w₂
      · rintro st₃ hst
        cases hst
        exact h₂ st₂ rfl

theorem wp_sweepPacks (opts : StoreOptions) (so : SweepOpts) (fence : PackId)
    (hs : Swept π t A st s) :
    wp (collectorRules π t) (Gc.sweepPacks opts so t fence st).run (ThenSwept π t A) s := by
  refine wpE_bind (wp_mono ?_ (wp_collector_frame
    (within_withError (PageStore.frame_sealedPackIds t)) stable_swept hs))
  rintro (e | packs) w hw
  · exact fun _ hst => by cases hst
  refine wpE_foldlM (fun st _ w => Swept π t A st w) ?_ ?_ _ st w hw
  · intro st p ps w hw
    refine wp_mono ?_ (wp_sweepOnePack opts so p hw)
    rintro (e | st₁) w₁ h₁
    · exact h₁
    · exact h₁ st₁ rfl
  · rintro st w hw st' hst
    cases hst
    exact hw

end Packs

/-! ## The manifest sweep -/

section Manifests

variable {A : SnapshotRef → Prop} {live : LiveSet} {st : MarkState} {s : World}

theorem wp_listManifestRefs (hs : Marking π t False A live [] s) :
    wp (collectorRules π t) listManifestRefs.run (fun res w =>
      ∀ refs, res = .ok refs → Marking π t False (· ∈ refs) live [] w) s := by
  refine wpE_bind (wp_collector_observe stable_marking hs fun o w hi hw => ?_)
  split
  · simp
  -- The shard directories not yet read account for the rest.
  refine wpE_foldlM (fun refs shards w =>
    Marking π t False (fun r => r ∈ refs ∨ shardOf r ∈ shards) live [] w) ?_ ?_ _ [] w ?_
  · intro refs shard shards w hw
    refine wpE_bind (wp_collector_observe stable_marking hw fun o w hi hw => ?_)
    split
    · simp
    · refine hw.recount fun ht r hst hr => .inr ?_
      rcases hr with hr | hr
      · exact .inl (List.mem_append_left _ hr)
      · rcases List.mem_cons.mp hr with heq | hr
        · refine .inl (List.mem_append_right _ ?_)
          simp only [shardRefs, List.mem_filterMap]
          refine ⟨.spm r, ?_, by simp [heq]⟩
          exact FileSys.mem_names.mpr hst
        · exact .inr hr
  · rintro refs w hw refs' href
    cases href
    exact hw.recount fun _ r _ hr => .inr (hr.elim id fun h => by cases h)
  · refine hw.recount fun ht r hst _ => .inr (.inr ?_)
    simpa using (hi.tidy ht).shard r hst

theorem Marking.unlink {r : SnapshotRef} (h : Marking π t True A live [] s)
    (hc : LiveClosed π live) (hr : r ∉ live.manifests)
    (ha : Admissible π s { s with
      manifests := s.manifests.unlink (.spm r)
      ghost := { s.ghost with sweeping := true } }) :
    Marking π t True A live [] { s with
      manifests := s.manifests.unlink (.spm r)
      ghost := { s.ghost with sweeping := true } } where
  epoch := h.epoch
  gate := h.gate
  roots := h.roots
  kept ht q hq := by
    have hstays : ∀ q ∈ live.manifests, Stored s q → Stored { s with
        manifests := s.manifests.unlink (.spm r)
        ghost := { s.ghost with sweeping := true } } q := fun q hq hst =>
      stored_unlink.mpr ⟨fun he => hr (he ▸ hq), hst⟩
    obtain ⟨hst, hn⟩ := h.kept ht q hq
    refine ⟨hstays q hq hst, fun ks p hnamed => ?_⟩
    obtain ⟨hk, hp⟩ := hn ks p hnamed
    refine ⟨fun k hmem => ha.presMono (fun _ => id) k (hk k hmem), ?_⟩
    rintro p rfl
    exact hstays p (hc.parent q ks p hq hnamed) (hp p rfl)
  ahead _ _ r hr := by cases hr
  accounted ht q hq := h.accounted ht q (stored_unlink.mp hq).2

def Gone (π : Protocol) (t : Tid) (A : SnapshotRef → Prop) (live : LiveSet) (r : SnapshotRef)
    (s : World) : Prop := Marking π t True A live [] s ∧ ¬ Stored s r

theorem stable_gone {r : SnapshotRef} : Stable (collectorRules π t) (Gone π t A live r) :=
  fun s s' h hr hi => ⟨stable_marking s s' h.1 hr hi,
    fun hst => h.2 ((hr.held (h.1.gate trivial).1).stored r hst)⟩

theorem wp_unlinkManifest {r : SnapshotRef} (hs : Marking π t True A live [] s)
    (hc : LiveClosed π live) (hr : r ∉ live.manifests) :
    wp (collectorRules π t) (unlinkManifest r).run
      (fun res w => res = .ok () → Gone π t A live r w) s := by
  refine wp_collector_attempt stable_marking hs (by simp) fun o w a u hi hw hf ha => ?_
  split at hf <;> cases hf
  refine ⟨.unlink r _ _ (hw.gate trivial).1 (hw.gate trivial).2 (hw.spares hc) hr, fun _ => ?_⟩
  exact ⟨hw.unlink hc hr ha, by simp [stored_unlink]⟩

theorem wp_collector_fsyncShardDir {r : SnapshotRef} (hs : Gone π t A live r s) :
    wp (collectorRules π t) (fsyncShardDir r).run (fun _ w => Gone π t A live r w) s := by
  refine wp_collector_attempt stable_gone hs (fun _ _ _ hw => hw) fun o w a u hi hw hf ha => ?_
  split at hf <;> cases hf
  refine ⟨.staging ⟨hi.manifests.fsyncDir _, fun _ _ => id, fun _ => rfl⟩, ?_, hw.2⟩
  exact hw.1.during (ha.during hw.1.epoch rfl rfl (fun _ => Iff.rfl) rfl rfl) hw.1.gate

theorem wp_deleteManifest {r : SnapshotRef} (hs : Marking π t True A live [] s)
    (hc : LiveClosed π live) (hr : r ∉ live.manifests) :
    wp (collectorRules π t) (deleteManifest r).run
      (fun res w => ∀ b, res = .ok b → Gone π t A live r w) s := by
  refine wpE_bind (wp_collector_observe (f := fun _ w => .ok (hasManifest w r)) stable_marking hs
    fun o w hi hw => ?_)
  rw [andThen_ok]
  split
  · next hst =>
    intro b hb
    exact ⟨hw, by simpa [Stored] using hst⟩
  refine wpE_bind (wp_mono ?_ (wp_collector_frame (within_observe Frame.refl) stable_marking hw))
  rintro (e | grb) w₁ h₁
  · simp
  refine wpE_bind (wp_withError (wp_mono ?_ (wp_unlinkManifest h₁ hc hr)))
  rintro (e | ⟨⟩) w₂ h₂
  · simp [Except.mapError]
  refine wpE_bind (wp_withError (wp_mono ?_ (wp_collector_fsyncShardDir (h₂ rfl))))
  rintro (e | ⟨⟩) w₃ h₃
  · simp [Except.mapError]
  refine wpE_bind (wp_mono ?_ (wp_collector_frame
    (within_change fun _ => .of_part rfl fun _ => id) stable_gone h₃))
  rintro (e | ⟨⟩) w₄ h₄
  · simp
  · exact fun _ _ => h₄

theorem wp_deleteBatch (batch rest : List SnapshotRef)
    (hs : Marking π t True (fun r => r ∈ batch ∨ r ∈ rest) st.1 [] s) (hc : LiveClosed π st.1) :
    wp (collectorRules π t) (Gc.deleteBatch batch st).run (fun res w => ∀ st', res = .ok st' →
      Marking π t True (· ∈ rest) st'.1 [] w ∧ LiveClosed π st'.1) s := by
  refine wpE_foldlM (fun st batch w =>
    Marking π t True (fun r => r ∈ batch ∨ r ∈ rest) st.1 [] w ∧ LiveClosed π st.1)
    ?_ ?_ batch st s ⟨hs, hc⟩
  · rintro st r batch w ⟨hw, hc⟩
    have hnext : ∀ w, Marking π t True (fun q => q ∈ r :: batch ∨ q ∈ rest) st.1 [] w →
        (r ∈ st.1.manifests ∨ ¬ Stored w r) →
        Marking π t True (fun q => q ∈ batch ∨ q ∈ rest) st.1 [] w := by
      intro w hw hr
      refine hw.recount fun ht q hst hq => ?_
      rcases hq with hq | hq
      · rcases List.mem_cons.mp hq with rfl | hq
        · exact .inl (hr.resolve_right fun h => h hst)
        · exact .inr (.inl hq)
      · exact .inr (.inr hq)
    split
    · next hmem => exact ⟨hnext w hw (.inl hmem), hc⟩
    next hmem =>
    refine wpE_bind (wp_mono ?_ (wp_deleteManifest hw hc hmem))
    rintro (e | b) w₁ h₁
    · simp
    have hgone := h₁ b rfl
    have hdone := hnext w₁ hgone.1 (.inr hgone.2)
    rw [andThen_ok]
    split
    · exact ⟨hdone, hc⟩
    · exact ⟨hdone, hc⟩
  · rintro st w ⟨hw, hc⟩ st' hst
    cases hst
    refine ⟨hw.recount fun _ q _ hq => .inr (hq.resolve_left (by simp)), hc⟩

theorem wp_sweepBatch (candidates : List SnapshotRef) (hs : Swept π t (· ∈ candidates) st s) :
    wp (collectorRules π t) (Gc.sweepBatch t candidates st).run (fun res w =>
      ∀ rest st', res = .ok (rest, st') → Swept π t (· ∈ rest) st' w) s := by
  refine wp_withSweepGate (A := Marking π t False (· ∈ candidates) st.1 [])
    (B := fun res w => ∀ rest st', res = .ok (rest, st') →
      Marking π t True (· ∈ rest) st'.1 [] w ∧ LiveClosed π st'.1) stable_marking hs.1 ?_ ?_ ?_
  · intro res w w' h hr hi rest st' hst
    obtain ⟨hm, hc⟩ := h rest st' hst
    exact ⟨stable_marking w w' hm hr hi, hc⟩
  · intro w hw ha
    refine wpE_bind (wp_mono ?_ (wp_drainLateRoots (hw.regate ha) rfl))
    rintro _ w₁ ⟨l, rfl, h₁⟩
    refine wpE_bind (wp_mono ?_ (wp_mark l st.1 st.2 h₁ hs.2))
    rintro (e | st₂) w₂ h₂
    · simp
    obtain ⟨hm₂, hc₂⟩ := h₂ st₂ rfl
    rw [andThen_ok]
    dsimp only
    generalize hcand : (if l = [] then candidates else
      candidates.filter fun r => decide (r ∉ st₂.1.manifests)) = left
    have hm₃ : Marking π t True (fun r => r ∈ left.take Gc.batchSize ∨ r ∈ left.drop Gc.batchSize)
        st₂.1 [] w₂ := by
      refine hm₂.recount fun ht r _ hr => ?_
      by_cases hlive : r ∈ st₂.1.manifests
      · exact .inl hlive
      · refine .inr (List.mem_append.mp ?_)
        rw [List.take_append_drop, ← hcand]
        split
        · exact hr
        · exact List.mem_filter.mpr ⟨hr, by simpa using hlive⟩
    refine wpE_bind (wp_mono ?_ (wp_deleteBatch _ _ hm₃ hc₂))
    rintro (e | st₄) w₄ h₄
    · simp
    · rintro rest st' hst
      cases hst
      exact h₄ st₄ rfl
  · intro res w h ha rest st' hst
    obtain ⟨hm, hc⟩ := h rest st' hst
    exact ⟨hm.regate ha, hc⟩

theorem wp_sweepBatches (rounds : Nat) (candidates : List SnapshotRef)
    (hs : Swept π t (· ∈ candidates) st s) :
    wp (collectorRules π t) (Gc.sweepBatches t rounds candidates st).run
      (ThenSwept π t fun _ => False) s := by
  have hdone : ∀ {st w}, Swept π t (· ∈ ([] : List SnapshotRef)) st w →
      ThenSwept π t (fun _ => False) (.ok st : Except StoreError MarkState) w := by
    rintro st w ⟨hm, hc⟩ st' hst
    cases hst
    exact ⟨hm.recount (fun _ _ _ hr => absurd hr List.not_mem_nil), hc⟩
  induction rounds generalizing candidates st s with
  | zero =>
    cases candidates with
    | nil => exact hdone hs
    | cons r rs => exact wp_stuck
  | succ rounds ih =>
    cases candidates with
    | nil => exact hdone hs
    | cons r rs =>
      refine wpE_bind (wp_mono ?_ (wp_sweepBatch (r :: rs) hs))
      rintro (e | ⟨rest, st₁⟩) w₁ h₁
      · exact fun _ hst => by cases hst
      · exact ih rest (h₁ rest st₁ rfl)

theorem Marking.settled (h : Marking π t False (fun _ => False) live [] s) (hi : ProtocolInv π s)
    (ht : π.tidy) : ∀ r, Stored s r → HasNeeds π s r := by
  intro r hst
  rcases h.accounted ht r hst with hm | hl | hp | htodo | hf
  · exact (h.kept ht r hm).2
  · exact ((hi.tidy ht).late r hl hst).hasNeeds
  · exact (hi.tidy ht).publishing r hp
  · cases htodo
  · exact hf.elim

theorem wp_sweepManifests (so : SweepOpts) (hs : Swept π t A st s) :
    wp (collectorRules π t) (Gc.sweepManifests so t st).run (fun _ _ => True) s := by
  refine wpE_bind (wp_mono ?_ (wp_listManifestRefs hs.1))
  rintro (e | refs) w h
  · trivial
  have hw : Swept π t (· ∈ refs.filter fun r => decide (r ∉ st.1.manifests)) st w := by
    refine ⟨(h refs rfl).recount fun _ r _ hr => ?_, hs.2⟩
    by_cases hlive : r ∈ st.1.manifests
    · exact .inl hlive
    · exact .inr (List.mem_filter.mpr ⟨hr, by simpa using hlive⟩)
  refine wpE_bind (wp_mono ?_ (wp_sweepBatches so.rounds _ hw))
  rintro (e | st₁) w₁ h₁
  · trivial
  refine wpE_bind (wp_collector_change stable_marking (h₁ st₁ rfl).1 ?_)
  rintro w₂ u hi hw₂ rfl ha
  exact ⟨.settle (hw₂.settled hi), trivial⟩

end Manifests

/-! ## The cycle -/

section Cycle

variable {A : SnapshotRef → Prop} {s : World}

theorem wp_collector_metaRead {α : Type} {f : MetaDb → α} {B : World → Prop}
    (hB : Stable (collectorRules π t) B) (hs : B s) :
    wp (collectorRules π t) (metaRead f).run (fun _ w => B w) s :=
  wp_collector_frame (within_observe Frame.refl) hB hs

theorem wp_collector_metaWrite {α : Type} {f : MetaDb → Nat → Except MetaError (α × MetaDb)}
    (cmd : ActorCmd) (hf : Realizes f cmd) (hroot : cmd.root = none) :
    wp (collectorRules π t) (metaWrite f).run (fun _ _ => True) s := by
  refine wp_collector_action (Stable.const True) trivial fun o w r u hi _ hu ha => ?_
  cases hu
  refine ⟨.rows (afterCommand f o w.db w.actorCounter) (w.actorCounter + 1) fun r hr => ?_, trivial⟩
  exact (hf.hasRow hr).resolve_right (by simp [hroot])

theorem wp_reapTombstones (ts : List TombstoneRow) :
    wp (collectorRules π t) (Server.reapTombstones ts).run (fun _ _ => True) s := by
  refine wpE_foldlM (fun _ _ _ => True) ?_ (fun _ _ _ => trivial) ts _ s trivial
  intro acc row rows w _
  refine wpE_bind (wp_withError (wp_mono ?_ (wp_collector_metaWrite
    (.reapTombstone row.experimentId row.nodeId) (fun _ _ => settle_realizes ..) rfl)))
  rintro (e | n) w₁ -
  · trivial
  · trivial

theorem wp_endGcEpoch : wp (collectorRules π t) endGcEpoch (fun _ _ => True) s := by
  refine wp_atomic (Stable.const True) trivial fun o w hi _ ha => ?_
  have hm : CollectorMove π t w _ := .finish
  exact ⟨hm.inv ha hi, ⟨ha, hm⟩, trivial⟩

theorem wp_beginGcEpoch :
    wp (collectorRules π t) (Server.beginGcEpoch t).run (fun res w =>
      ∀ fence roots, res = .ok (fence, roots) →
        Marking π t False (fun _ => True) ⟨[], []⟩ roots w) s := by
  refine wp_withSweepGate (A := fun _ => True) (B := fun res w => ∀ fence roots,
    res = .ok (fence, roots) → Marking π t True (fun _ => True) ⟨[], []⟩ roots w)
    (.const True) trivial ?_ ?_ ?_
  · intro res w w' h hr hi fence roots hres
    exact stable_marking w w' (h fence roots hres) hr hi
  · intro w _ ha
    have hheld : Stable (collectorRules π t) fun w => w.gate.writer = some t :=
      fun w w' h hr _ => (hr.held h).writer
    refine wpE_bind (wp_mono ?_ (wp_collector_frame
      (within_withError (PageStore.frame_activePackId t)) hheld rfl))
    rintro (e | fence) w₁ h₁
    · simp
    refine wpE_bind (wp_collector_action hheld h₁ fun o w b u hi hw hf ha => ?_)
    split at hf <;> cases hf
    · exact ⟨.frame (Frame.refl w), by simp⟩
    next he =>
    refine ⟨.begin fence hw he, ?_⟩
    have hfresh : Stable (collectorRules π t) fun w => (w.gate.writer = some t ∧
        w.epoch = some []) ∧ (π.tidy → w.ghost.sweeping = false) := by
      intro w w' h hr _
      have hheld := hr.held h.1.1
      refine ⟨⟨hheld.writer, hheld.epoch.trans h.1.2⟩, fun ht => ?_⟩
      exact ((hr.during (by simp [h.1.2])).sweeping).trans (h.2 ht)
    have hsw : π.tidy → w.ghost.sweeping = false := by
      intro ht
      by_contra hne
      exact (hi.tidy ht).sweeping (by simpa using hne) he
    refine wp_bind (wp_collector_observe hfresh ⟨⟨hw, rfl⟩, hsw⟩ fun o w₂ hi₂ h₂ => ?_)
    split
    · next roots hread =>
      have hroots : roots = w₂.db.gcRootRefs := by
        split at hread <;> cases hread
        rfl
      rintro fence' roots' hres
      cases hres
      exact {
        epoch := by simp [h₂.1.2]
        gate := fun _ => h₂.1
        roots := fun r hr => .inr (.inr (.inr (hroots ▸ MetaDb.mem_gcRootRefs.mpr hr)))
        kept := fun _ r hr => by cases hr
        ahead := fun ht hsw => by simp [h₂.2 ht] at hsw
        accounted := fun _ _ _ => .inr (.inr (.inr (.inr trivial))) }
    · refine wp_bind (wp_mono ?_ wp_endGcEpoch)
      rintro _ _ - fence' roots' hres
      cases hres
  · intro res w h ha fence roots hres
    exact (h fence roots hres).regate ha

theorem wp_collect (opts : StoreOptions) (so : SweepOpts) (fence : PackId)
    (roots : List SnapshotRef) (hs : Marking π t False A ⟨[], []⟩ roots s) :
    wp (collectorRules π t) (Server.collect opts so t fence roots).run (fun _ _ => True) s := by
  have hnil : LiveClosed π ⟨[], []⟩ :=
    ⟨fun _ _ _ hi => absurd hi List.not_mem_nil, fun _ _ _ hi => absurd hi List.not_mem_nil⟩
  refine wpE_bind (wp_mono ?_ (wp_mark roots _ _ hs hnil))
  rintro (e | st) w h
  · trivial
  refine wpE_bind (wp_mono ?_ (wp_sweepPacks opts so fence (h st rfl)))
  rintro (e | st₁) w₁ h₁
  · trivial
  refine wpE_bind (wp_mono ?_ (wp_sweepManifests so (h₁ st₁ rfl)))
  rintro (e | st₂) w₂ -
  · trivial
  · trivial

theorem wp_readFenceCounter {roots : List SnapshotRef} (hs : Marking π t False A ⟨[], []⟩ roots s) :
    wp (collectorRules π t) Server.readFenceCounter.run
      (fun _ w => Marking π t False A ⟨[], []⟩ roots w) s := by
  refine wp_collector_action stable_marking hs fun o w b u hi hw hf ha => ?_
  split at hf <;> cases hf
  · exact ⟨.frame (Frame.refl w), hw⟩
  · refine ⟨.record _ _, hw.during ?_ hw.gate⟩
    exact ⟨hw.epoch, fun _ => id, ha.presMono fun _ => id, fun _ => id, fun _ => .inl, fun _ => .inl,
      rfl, fun _ _ => .inl, fun _ _ => .inl, fun _ _ => .inl⟩

theorem wp_cycleBody (opts : StoreOptions) (go : GcOpts) (cyclesTotal : Nat) (fence : PackId)
    (roots : List SnapshotRef) (hs : Marking π t False A ⟨[], []⟩ roots s) :
    wp (collectorRules π t) (Server.cycleBody opts go t cyclesTotal fence roots).run
      (fun _ _ => True) s := by
  refine wpE_bind (wp_withError (wp_mono ?_ (wp_readFenceCounter hs)))
  rintro (e | counter) w h
  · trivial
  refine wpE_bind (wp_withError (wp_mono ?_ (wp_collect opts go.sweep fence roots h)))
  rintro (e | sweep) w₁ -
  · trivial
  refine wpE_bind (wp_withError (wp_mono ?_ (wp_collector_metaRead (.const True) trivial)))
  rintro (e | finished) w₂ -
  · trivial
  refine wpE_bind (wp_withError (wp_mono ?_
    (wp_collector_metaWrite (.setGcState _) (fun _ _ => rfl) rfl)))
  rintro (e | ⟨⟩) w₃ -
  · trivial
  · trivial

theorem wp_onRecord {body : GE GcReport}
    (h : ∀ s, wp (collectorRules π t) body.run (fun _ _ => True) s) :
    wp (collectorRules π t) (Server.onRecord body).run (fun _ _ => True) s := by
  have hrecord : ∀ (f : World → Option CycleRun × List Nat) (s : World),
      wp (collectorRules π t) (Prog.update fun s => { s with
        ghost := { s.ghost with running := (f s).1, finished := (f s).2 } }) (fun _ _ => True) s :=
    fun f s => wp_atomic (Stable.const True) trivial fun o w hi _ ha =>
      have hm : CollectorMove π t w _ := .record (f w).1 (f w).2
      ⟨hm.inv ha hi, ⟨ha, hm⟩, trivial⟩
  refine wp_bind (wp_mono (fun _ w _ => ?_) (hrecord (fun s => (_, _)) s))
  refine wp_bind (wp_mono (fun r w₁ _ => ?_) (h w))
  exact wp_bind (wp_mono (fun _ _ _ => trivial) (hrecord (fun s => (_, _)) w₁))

theorem wp_runGcCycle (opts : StoreOptions) (go : GcOpts) :
    wp (collectorRules π t) (Server.runGcCycle opts go t).run (fun _ _ => True) s := by
  refine wp_onRecord fun s => ?_
  refine wpE_bind (wp_withError (wp_mono ?_ (wp_collector_metaRead (.const True) trivial)))
  rintro (e | prior) w -
  · trivial
  refine wpE_bind (wp_withError (wp_mono ?_ (wp_collector_metaRead (.const True) trivial)))
  rintro (e | tombstones) w₁ -
  · trivial
  refine wpE_bind (wp_mono ?_ (wp_reapTombstones tombstones))
  rintro (e | ⟨nodes, subtrees⟩) w₂ -
  · trivial
  have hrotate : Within Frame (Server.rotateFirst opts go t).run := by
    unfold Server.rotateFirst
    split
    · exact Within.bindE (within_withError (PageStore.frame_rotateActive opts t)) fun _ =>
        Within.pureE _
    · exact Within.pureE _
  refine wpE_bind (wp_mono ?_ (wp_collector_frame hrotate (.const True) trivial))
  rintro (e | ⟨⟩) w₃ -
  · trivial
  refine wpE_bind (wp_mono ?_ wp_beginGcEpoch)
  rintro (e | ⟨fence, roots⟩) w₄ h₄
  · trivial
  refine wpE_bind (wp_bind (wp_mono ?_ (wp_cycleBody opts go prior.cyclesTotal fence roots
    (h₄ fence roots rfl))))
  rintro res w₅ -
  refine wp_bind (wp_mono ?_ wp_endGcEpoch)
  rintro ⟨⟩ w₆ -
  cases res with
  | error e => trivial
  | ok sweep => trivial

end Cycle

end SnapStore
