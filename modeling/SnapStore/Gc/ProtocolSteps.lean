import SnapStore.Gc.Protocol

/-!
# Steps of the protocol

Every step of a commit and of the collector keeps the invariant, gives the others what they rely
on, and keeps the closure of a protected root.
-/

namespace SnapStore

open Disk Conc SnapshotStore

variable {s s' : World} {t u : Tid} {r : SnapshotRef}

/-! ## Frames -/

namespace Frame

theorem stored (h : Frame s s') : Stored s' r ↔ Stored s r := by
  simp only [Stored, hasManifest, h.manifests]

theorem isLate (h : Frame s s') : IsLate s' r ↔ IsLate s r := by
  simp only [IsLate, h.epoch]

theorem isPublishing (h : Frame s s') : Publishing s' r ↔ Publishing s r := by
  simp only [Publishing, h.publishing]

end Frame

theorem stored_rename {i : Ino} {q : SnapshotRef} {g : Ghost} :
    Stored { s with manifests := s.manifests.rename (.tmp r) (.spm r) i, ghost := g } q ↔
      q = r ∨ Stored s q := by
  simp only [Stored, hasManifest, FileSys.lookup_rename]
  by_cases h : q = r
  · simp [h]
  · simp [h]

theorem stored_unlink {q : SnapshotRef} {g : Ghost} :
    Stored { s with manifests := s.manifests.unlink (.spm r), ghost := g } q ↔
      q ≠ r ∧ Stored s q := by
  simp only [Stored, hasManifest, FileSys.lookup_unlink]
  by_cases h : q = r
  · simp [h]
  · simp [h]

theorem not_isLate_of_empty (he : s.epoch = some []) : ¬ IsLate s r := by
  rintro ⟨l, hl, hr⟩
  rw [he] at hl
  cases hl
  cases hr

theorem publishing_filter {f : Tid × SnapshotRef → Bool} {l : List (Tid × SnapshotRef)}
    (h : ∃ u, (u, r) ∈ l.filter f) : ∃ u, (u, r) ∈ l := by
  obtain ⟨u, hu⟩ := h
  exact ⟨u, (List.mem_filter.mp hu).1⟩

variable [Primitives] {π : Protocol}

/-! ## Monotonicity -/

theorem Complete.mono (h : Complete π s r) (hst : ∀ r, Stored s r → Stored s' r)
    (hpr : ∀ h, π.Pres s h → π.Pres s' h) : Complete π s' r := Closure.Complete.mono hst hpr h

theorem HasNeeds.mono (h : HasNeeds π s r) (hst : ∀ r, Stored s r → Stored s' r)
    (hpr : ∀ h, π.Pres s h → π.Pres s' h) : HasNeeds π s' r := by
  intro ks p hn
  obtain ⟨hk, hp⟩ := h ks p hn
  exact ⟨fun k hm => hpr k (hk k hm), fun q hq => hst q (hp q hq)⟩

theorem Complete.hasNeeds (h : Complete π s r) : HasNeeds π s r :=
  Closure.Complete.local π.collisionFree.functional h

theorem Admissible.presMono (ha : Admissible π s s')
    (hix : ∀ h, Indexed s h → Indexed s' h) : ∀ h, π.Pres s h → π.Pres s' h :=
  fun h hp => ha.pres h hp (hix h (π.pres_indexed s h hp))

theorem TidyInv.grow (hi : TidyInv π s) (hst : ∀ r, Stored s r → Stored s' r)
    (hpr : ∀ h, π.Pres s h → π.Pres s' h) (hsh : ∀ d ∈ s.shardDirs, d ∈ s'.shardDirs)
    (hnew : ∀ r, Stored s' r → Stored s r ∨ shardOf r ∈ s'.shardDirs ∧
      Closure.Grounded (Named π.S) r ∧ HasNeeds π s' r)
    (hsw : s'.ghost.sweeping = s.ghost.sweeping) (hep : s.epoch ≠ none → s'.epoch ≠ none)
    (hlate : ∀ r, IsLate s' r → Stored s' r → IsLate s r ∧ Stored s r ∨ Complete π s' r)
    (hpub : ∀ r, Publishing s' r → Publishing s r ∨ HasNeeds π s' r) : TidyInv π s' where
  shard r hr := (hnew r hr).elim (fun h => hsh _ (hi.shard r h)) fun h => h.1
  grounded r hr := (hnew r hr).elim (hi.grounded r) fun h => h.2.1
  sweeping h := hep (hi.sweeping (hsw ▸ h))
  needs h r hr := (hnew r hr).elim (fun h' => (hi.needs (hsw ▸ h) r h').mono hst hpr) fun h => h.2.2
  late r hl hr := (hlate r hl hr).elim (fun h => (hi.late r h.1 h.2).mono hst hpr) id
  publishing r hr := (hpub r hr).elim (fun h => (hi.publishing r h).mono hst hpr) id

theorem TidyInv.frame (hi : TidyInv π s) (h : Frame s s')
    (hpr : ∀ h, π.Pres s h → π.Pres s' h) : TidyInv π s' := by
  refine hi.grow (fun r hr => h.stored.mpr hr) hpr (fun d hd => h.shardDirs ▸ hd)
    (fun r hr => .inl (h.stored.mp hr)) h.sweeping (fun he => h.epoch ▸ he)
    (fun r hl hr => .inl ⟨h.isLate.mp hl, h.stored.mp hr⟩) fun r hr => .inl (h.isPublishing.mp hr)

theorem ProtocolInv.frame (hi : ProtocolInv π s) (h : Frame s s')
    (hpr : ∀ h, π.Pres s h → π.Pres s' h) : ProtocolInv π s' where
  gate := by rw [h.gate]; exact hi.gate
  manifests := by rw [h.manifests]; exact hi.manifests
  dangling := by rw [h.epoch, h.dangling]; exact hi.dangling
  publishing := by rw [h.publishing, h.gate]; exact hi.publishing
  tidy ht := (hi.tidy ht).frame h hpr

/-! ## Steps of a commit -/

theorem Staging.stored {fs : ManifestsFs} (h : Staging π s.manifests fs) :
    Stored { s with manifests := fs } r ↔ Stored s r := by
  simp only [Stored, hasManifest, h.spm]

theorem ClientMove.tidyInv (h : ClientMove π t s s') (ha : Admissible π s s') (ht : π.tidy)
    (hi : TidyInv π s) : TidyInv π s' := by
  cases h with
  | frame h => exact hi.frame h (ha.presMono h.indexed)
  | lock h =>
    exact hi.grow (fun _ => id) (ha.presMono fun _ => id) (fun _ => id) (fun _ => .inl) rfl id
      (fun _ hl hr => .inl ⟨hl, hr⟩) fun _ => .inl
  | unlock =>
    exact hi.grow (fun _ => id) (ha.presMono fun _ => id) (fun _ => id) (fun _ => .inl) rfl id
      (fun _ hl hr => .inl ⟨hl, hr⟩) fun _ h => .inl (publishing_filter h)
  | push r l hg he =>
    refine hi.grow (fun _ => id) (ha.presMono fun _ => id) (fun _ => id) (fun _ => .inl) rfl
      (by simp) ?_ fun _ h => .inl (publishing_filter h)
    rintro q ⟨l', hl', hq⟩ hst
    cases hl'
    rcases List.mem_append.mp hq with hq | hq
    · exact .inl ⟨⟨l, he, hq⟩, hst⟩
    · obtain rfl := List.mem_singleton.mp hq
      have hc := (ha.tidy ht).complete l q he rfl hst
      exact .inr (hc.mono (fun _ => id) (ha.presMono fun _ => id))
  | idle r he =>
    exact hi.grow (fun _ => id) (ha.presMono fun _ => id) (fun _ => id) (fun _ => .inl) rfl id
      (fun _ hl hr => .inl ⟨hl, hr⟩) fun _ h => .inl (publishing_filter h)
  | note r hc =>
    exact hi.grow (fun _ => id) (ha.presMono fun _ => id) (fun _ => id) (fun _ => .inl) rfl id
      (fun _ hl hr => .inl ⟨hl, hr⟩) fun _ => .inl
  | shardDir d =>
    exact hi.grow (fun _ => id) (ha.presMono fun _ => id)
      (fun _ hd => List.mem_insert_of_mem hd) (fun _ => .inl) rfl id
      (fun _ hl hr => .inl ⟨hl, hr⟩) fun _ => .inl
  | staging h =>
    exact hi.grow (fun _ => h.stored.mpr) (ha.presMono fun _ => id) (fun _ => id)
      (fun _ hr => .inl (h.stored.mp hr)) rfl id (fun _ hl hr => .inl ⟨hl, h.stored.mp hr⟩)
      fun _ => .inl
  | rename r i ks p hg hi' hd hn hk hp =>
    have hst : ∀ q, Stored s q → Stored { s with
        manifests := s.manifests.rename (.tmp r) (.spm r) i
        ghost := { s.ghost with publishing := (t, r) :: s.ghost.publishing } } q :=
      fun q hq => stored_rename.mpr (.inr hq)
    have hneeds : HasNeeds π { s with
        manifests := s.manifests.rename (.tmp r) (.spm r) i
        ghost := { s.ghost with publishing := (t, r) :: s.ghost.publishing } } r := by
      intro ks' p' hn'
      obtain ⟨rfl, rfl⟩ := π.collisionFree.functional _ _ _ _ _ hn hn'
      exact ⟨fun k hm => ha.publish t r rfl ks p hn k hm (hk k hm), fun q hq => hst q (hp q hq)⟩
    have hground : Closure.Grounded (Named π.S) r := by
      cases p with
      | none => exact .full hn
      | some q => exact .delta hn (hi.grounded q (hp q rfl))
    refine hi.grow hst (ha.presMono fun _ => id) (fun _ => id) ?_ rfl id ?_ ?_
    · intro q hq
      rcases stored_rename.mp hq with rfl | hq
      · exact .inr ⟨hd, hground, hneeds⟩
      · exact .inl hq
    · intro q hl hq
      rcases stored_rename.mp hq with rfl | hq
      · have hne : s.epoch ≠ none := by
          obtain ⟨l, hl, -⟩ := hl
          exact ne_of_eq_of_ne hl (by simp)
        exact .inr ((ha.tidy ht).publish t q rfl hne)
      · exact .inl ⟨hl, hq⟩
    · rintro q ⟨u, hu⟩
      rcases List.mem_cons.mp hu with heq | hu
      · cases heq
        exact .inr hneeds
      · exact .inl ⟨u, hu⟩
  | rows db n h =>
    exact hi.grow (fun _ => id) (ha.presMono fun _ => id) (fun _ => id) (fun _ => .inl) rfl id
      (fun _ hl hr => .inl ⟨hl, hr⟩) fun _ => .inl

theorem ClientMove.inv (h : ClientMove π t s s') (ha : Admissible π s s')
    (hi : ProtocolInv π s) : ProtocolInv π s' := by
  have htidy : π.tidy → TidyInv π s' := fun ht => h.tidyInv ha ht (hi.tidy ht)
  cases h with
  | frame h => exact hi.frame h (ha.presMono h.indexed)
  | lock h =>
    refine ⟨fun hw => absurd h hw, hi.manifests, hi.dangling, ?_, htidy⟩
    intro u q hq
    exact List.mem_cons_of_mem _ (hi.publishing u q hq)
  | unlock =>
    refine ⟨?_, hi.manifests, hi.dangling, ?_, htidy⟩
    · intro hw
      simp [hi.gate hw]
    · intro u q hq
      obtain ⟨hq, hne⟩ := List.mem_filter.mp hq
      exact (List.mem_erase_of_ne (by simpa using hne)).mpr (hi.publishing u q hq)
  | push r l hg he =>
    refine ⟨hi.gate, hi.manifests, by simp, ?_, htidy⟩
    intro u q hq
    exact hi.publishing u q (List.mem_filter.mp hq).1
  | idle r he =>
    refine ⟨hi.gate, hi.manifests, fun _ => by simp [hi.dangling he], ?_, htidy⟩
    intro u q hq
    exact hi.publishing u q (List.mem_filter.mp hq).1
  | note r hc => exact ⟨hi.gate, hi.manifests, hi.dangling, hi.publishing, htidy⟩
  | shardDir d => exact ⟨hi.gate, hi.manifests, hi.dangling, hi.publishing, htidy⟩
  | staging h => exact ⟨hi.gate, h.ok, hi.dangling, hi.publishing, htidy⟩
  | rename r i ks p hg hi' hd hn hk hp =>
    refine ⟨hi.gate, hi.manifests.rename hi', hi.dangling, ?_, htidy⟩
    intro u q hq
    rcases List.mem_cons.mp hq with heq | hq
    · cases heq
      exact hg
    · exact hi.publishing u q hq
  | rows db n h => exact ⟨hi.gate, hi.manifests, hi.dangling, hi.publishing, htidy⟩

theorem Gated.of_grow (ha : Admissible π s s') (hr : u ∈ s'.gate.readers)
    (hb : ∀ i n, s.manifests.birth i = some n → s'.manifests.birth i = some n)
    (hsh : ∀ d ∈ s.shardDirs, d ∈ s'.shardDirs)
    (hix : ∀ h, Indexed s h → Indexed s' h) (hst : ∀ r, Stored s r → Stored s' r)
    (hcl : s.epoch = none → s'.epoch = none) (hlate : ∀ r, IsLate s r → IsLate s' r) :
    Gated π u s s' :=
  ⟨hr, hb, hsh, hix, ha.presMono hix, hst, hcl, fun r h => .inl (hlate r h)⟩

theorem Frame.gated (h : Frame s s') (ha : Admissible π s s') (hr : u ∈ s.gate.readers) :
    Gated π u s s' :=
  .of_grow ha (h.gate ▸ hr) (fun _ _ hn => h.manifests ▸ hn) (fun _ hd => h.shardDirs ▸ hd)
    h.indexed (fun _ => h.stored.mpr) (fun he => h.epoch ▸ he) fun _ => h.isLate.mpr

theorem ClientMove.gated (h : ClientMove π t s s') (ha : Admissible π s s')
    (hr : u ∈ s'.gate.readers) : Gated π u s s' := by
  cases h with
  | frame h => exact h.gated ha (h.gate ▸ hr)
  | push r l hg he =>
    refine .of_grow ha hr (fun _ _ => id) (fun _ => id) (fun _ => id) (fun _ => id) ?_ ?_
    · intro hn
      rw [hn] at he
      cases he
    · rintro q ⟨l', hl', hq⟩
      rw [hl'] at he
      cases he
      exact ⟨_, rfl, List.mem_append_left _ hq⟩
  | shardDir d =>
    exact .of_grow ha hr (fun _ _ => id) (fun _ hd => List.mem_insert_of_mem hd) (fun _ => id)
      (fun _ => id) id fun _ => id
  | staging h =>
    exact .of_grow ha hr h.births (fun _ => id) (fun _ => id) (fun _ => h.stored.mpr) id fun _ => id
  | rename r i ks p hg hi hd hn hk hp =>
    exact .of_grow ha hr (fun _ _ => id) (fun _ => id) (fun _ => id)
      (fun _ hq => stored_rename.mpr (.inr hq)) id fun _ => id
  | _ => exact .of_grow ha hr (fun _ _ => id) (fun _ => id) (fun _ => id) (fun _ => id) id fun _ => id

theorem ClientMove.clientRely (h : ClientMove π t s s') (ha : Admissible π s s') (hu : u ≠ t) :
    ClientRely π u s s' := by
  intro hr
  refine h.gated ha ?_
  cases h with
  | frame h => exact h.gate ▸ hr
  | lock h => exact List.mem_cons_of_mem _ hr
  | unlock => exact (List.mem_erase_of_ne hu).mpr hr
  | _ => exact hr

theorem CollectorRely.of_frame (h : Frame s s') (ha : Admissible π s s') :
    CollectorRely π u s s' where
  births i n hn := by rw [h.manifests]; exact hn
  closed he := by rw [h.epoch]; exact he
  during he := {
    epoch := h.epoch ▸ he
    late := fun _ => h.isLate.mpr
    pres := ha.presMono h.indexed
    stored := fun _ => h.stored.mpr
    dangling := fun _ hr => .inl (h.dangling ▸ hr)
    rows := fun _ hr => .inl (h.db ▸ hr)
    sweeping := h.sweeping
    fresh := fun _ _ hr => .inl (h.stored.mp hr)
    publishing := fun _ _ hr => .inl (h.isPublishing.mpr hr)
    arrivals := fun _ _ hr => .inl (h.stored.mp hr) }
  held hw := ⟨h.gate ▸ hw, h.epoch, fun _ hr => h.db ▸ hr, fun _ => h.stored.mp⟩

theorem Admissible.publishing (ha : Admissible π s s') (ht : π.tidy) (he : s.epoch ≠ none)
    (he' : s'.epoch ≠ none) (hr : Publishing s r) : Publishing s' r ∨ IsLate s' r := by
  obtain ⟨u, hu⟩ := hr
  by_cases hm : (u, r) ∈ s'.ghost.publishing
  · exact .inl ⟨u, hm⟩
  · exact .inr ((ha.tidy ht).register u r hu hm he he')

theorem ClientMove.collectorRely (h : ClientMove π t s s') (ha : Admissible π s s')
    (hi : ProtocolInv π s) : CollectorRely π u s s' := by
  have hheld : s.gate.writer = some u → t ∉ s.gate.readers := by
    intro hw
    rw [hi.gate (by simp [hw])]
    exact List.not_mem_nil
  cases h with
  | frame h => exact .of_frame h ha
  | lock h =>
    refine ⟨fun _ _ => id, id, fun he => ?_, fun hw => by rw [h] at hw; cases hw⟩
    exact ⟨he, fun _ => id, ha.presMono fun _ => id, fun _ => id, fun _ => .inl, fun _ => .inl, rfl,
      fun _ _ => .inl, fun ht _ => ha.publishing ht he he, fun _ _ => .inl⟩
  | unlock =>
    refine ⟨fun _ _ => id, id, fun he => ?_, fun hw => ⟨hw, rfl, fun _ => id, fun _ => id⟩⟩
    exact ⟨he, fun _ => id, ha.presMono fun _ => id, fun _ => id, fun _ => .inl, fun _ => .inl, rfl,
      fun _ _ => .inl, fun ht _ => ha.publishing ht he he, fun _ _ => .inl⟩
  | push r l hg he =>
    have hmono : ∀ q, IsLate s q → ∃ l', some (l ++ [r]) = some l' ∧ q ∈ l' := by
      rintro q ⟨l', hl', hq⟩
      rw [hl'] at he
      cases he
      exact ⟨_, rfl, List.mem_append_left _ hq⟩
    refine ⟨fun _ _ => id, fun hn => absurd (hn.symm.trans he) (by simp), fun hne => ?_,
      fun hw => absurd hg (hheld hw)⟩
    refine ⟨by simp, hmono, ha.presMono fun _ => id, fun _ => id, ?_, fun _ => .inl, rfl,
      fun _ _ => .inl, fun ht _ => ha.publishing ht hne (by simp), fun _ _ => .inl⟩
    intro q hq
    by_cases hqr : q = r
    · exact .inr ⟨_, rfl, by simp [hqr]⟩
    · exact .inl (List.mem_filter.mpr ⟨hq, by simpa using hqr⟩)
  | idle r he =>
    refine ⟨fun _ _ => id, id, fun hne => absurd he hne,
      fun hw => ⟨hw, rfl, fun _ => id, fun _ => id⟩⟩
  | staging h =>
    refine ⟨h.births, id, fun he => ?_,
      fun hw => ⟨hw, rfl, fun _ => id, fun _ => h.stored.mp⟩⟩
    exact ⟨he, fun _ => id, ha.presMono fun _ => id, fun _ => h.stored.mpr, fun _ => .inl,
      fun _ => .inl, rfl, fun _ _ hr => .inl (h.stored.mp hr), fun _ _ => .inl,
      fun _ _ hr => .inl (h.stored.mp hr)⟩
  | rename r i ks p hg hi' hd hn hk hp =>
    refine ⟨fun _ _ => id, id, fun he => ?_, fun hw => absurd hg (hheld hw)⟩
    refine ⟨he, fun _ => id, ha.presMono fun _ => id, fun _ hq => stored_rename.mpr (.inr hq),
      fun _ => .inl, fun _ => .inl, rfl, ?_, ?_, ?_⟩
    · intro _ q hq
      rcases stored_rename.mp hq with rfl | hq
      · exact .inr (.inr ⟨t, List.mem_cons_self⟩)
      · exact .inl hq
    · rintro _ q ⟨v, hv⟩
      exact .inl ⟨v, List.mem_cons_of_mem _ hv⟩
    · intro ht q hq
      rcases stored_rename.mp hq with rfl | hq
      · exact .inr ((ha.tidy ht).publish t q rfl he)
      · exact .inl hq
  | rows db n h =>
    refine ⟨fun _ _ => id, id, fun he => ?_, fun hw => ⟨hw, rfl, ?_, fun _ => id⟩⟩
    · refine ⟨he, fun _ => id, ha.presMono fun _ => id, fun _ => id, fun _ => .inl, ?_, rfl,
        fun _ _ => .inl, fun _ _ => .inl, fun _ _ => .inl⟩
      intro q hq
      rcases h q hq with hq | ⟨-, hn | hl⟩
      · exact .inl hq
      · exact absurd hn he
      · exact .inr hl
    · intro q hq
      rcases h q hq with hq | ⟨hg, -⟩
      · exact hq
      · exact absurd hg (hheld hw)
  | _ =>
    exact ⟨fun _ _ => id, id, fun he => ⟨he, fun _ => id, ha.presMono fun _ => id, fun _ => id,
      fun _ => .inl, fun _ => .inl, rfl, fun _ _ => .inl, fun _ _ => .inl, fun _ _ => .inl⟩,
      fun hw => ⟨hw, rfl, fun _ => id, fun _ => id⟩⟩

/-! ## Steps of the collector -/

theorem CollectorMove.tidyInv (h : CollectorMove π t s s') (ha : Admissible π s s') (ht : π.tidy)
    (hg : s.gate.writer = some t → ∀ r, ¬ Publishing s r) (hi : TidyInv π s) : TidyInv π s' := by
  cases h with
  | frame h => exact hi.frame h (ha.presMono h.indexed)
  | begin fence hw he =>
    refine hi.grow (fun _ => id) (ha.presMono fun _ => id) (fun _ => id) (fun _ => .inl) rfl
      (by simp) ?_ fun _ => .inl
    rintro q ⟨l', hl', hq⟩
    cases hl'
    cases hq
  | finish =>
    have hsw : s.ghost.sweeping = false := by
      by_contra hne
      have hne' : s.ghost.sweeping = true := by simpa using hne
      exact (ha.tidy ht).finish hne' (hi.sweeping hne') rfl
    have hpr := ha.presMono fun _ => id
    refine ⟨hi.shard, hi.grounded, fun h => ?_,
      fun _ r hr => (hi.needs hsw r hr).mono (fun _ => id) hpr, ?_,
      fun r hr => (hi.publishing r hr).mono (fun _ => id) hpr⟩
    · rw [hsw] at h
      cases h
    · rintro q ⟨l', hl', -⟩
      cases hl'
  | drain l hw he =>
    refine hi.grow (fun _ => id) (ha.presMono fun _ => id) (fun _ => id) (fun _ => .inl) rfl
      (by simp) ?_ fun _ => .inl
    rintro q ⟨l', hl', hq⟩
    cases hl'
    cases hq
  | remove h p items resources hw he hs hh =>
    refine ⟨hi.shard, hi.grounded, fun _ => by simp [he], fun hsw => ?_, ?_, ?_⟩
    · simp [Ghost.removed] at hsw
    · rintro q ⟨l', hl', hq⟩
      have hl : s.epoch = some l' := hl'
      rw [he] at hl
      cases hl
      cases hq
    · intro q hq
      exact absurd hq (hg hw q)
  | unlink r items resources hw he hs hr =>
    refine ⟨fun q hq => hi.shard q (stored_unlink.mp hq).2,
      fun q hq => hi.grounded q (stored_unlink.mp hq).2, fun _ => by simp [he],
      fun hsw => by simp at hsw, ?_, fun q hq => absurd hq (hg hw q)⟩
    rintro q ⟨l', hl', hq⟩
    have hl : s.epoch = some l' := hl'
    rw [he] at hl
    cases hl
    cases hq
  | staging h =>
    exact hi.grow (fun _ => h.stored.mpr) (ha.presMono fun _ => id) (fun _ => id)
      (fun _ hr => .inl (h.stored.mp hr)) rfl id (fun _ hl hr => .inl ⟨hl, h.stored.mp hr⟩)
      fun _ => .inl
  | settle h =>
    have hpr := ha.presMono fun _ => id
    refine ⟨hi.shard, hi.grounded, fun hsw => by simp at hsw,
      fun _ r hr => (h ht r hr).mono (fun _ => id) hpr,
      fun r hl hr => (hi.late r hl hr).mono (fun _ => id) hpr,
      fun r hr => (hi.publishing r hr).mono (fun _ => id) hpr⟩
  | _ =>
    exact hi.grow (fun _ => id) (ha.presMono fun _ => id) (fun _ => id) (fun _ => .inl) rfl id
      (fun _ hl hr => .inl ⟨hl, hr⟩) fun _ => .inl

theorem ProtocolInv.not_publishing (hi : ProtocolInv π s) (hw : s.gate.writer = some t) :
    ∀ r, ¬ Publishing s r := by
  rintro r ⟨u, hu⟩
  have hr := hi.publishing u r hu
  rw [hi.gate (by simp [hw])] at hr
  cases hr

theorem CollectorMove.inv (h : CollectorMove π t s s') (ha : Admissible π s s')
    (hi : ProtocolInv π s) : ProtocolInv π s' := by
  have htidy : π.tidy → TidyInv π s' :=
    fun ht => h.tidyInv ha ht hi.not_publishing (hi.tidy ht)
  cases h with
  | frame h => exact hi.frame h (ha.presMono h.indexed)
  | lock hw hr => exact ⟨fun _ => hr, hi.manifests, hi.dangling, hi.publishing, htidy⟩
  | unlock =>
    exact ⟨fun hw => absurd rfl hw, hi.manifests, hi.dangling, hi.publishing, htidy⟩
  | begin fence hw he => exact ⟨hi.gate, hi.manifests, fun _ => rfl, hi.publishing, htidy⟩
  | finish => exact ⟨hi.gate, hi.manifests, fun _ => rfl, hi.publishing, htidy⟩
  | drain l hw he => exact ⟨hi.gate, hi.manifests, by simp, hi.publishing, htidy⟩
  | dangling r he hr => exact ⟨hi.gate, hi.manifests, fun hn => absurd hn he, hi.publishing, htidy⟩
  | remove h p items resources hw he hs hh =>
    exact ⟨hi.gate, hi.manifests, hi.dangling, hi.publishing, htidy⟩
  | unlink r items resources hw he hs hr =>
    exact ⟨hi.gate, hi.manifests.unlink _, hi.dangling, hi.publishing, htidy⟩
  | staging h => exact ⟨hi.gate, h.ok, hi.dangling, hi.publishing, htidy⟩
  | settle h => exact ⟨hi.gate, hi.manifests, hi.dangling, hi.publishing, htidy⟩
  | rows db n h => exact ⟨hi.gate, hi.manifests, hi.dangling, hi.publishing, htidy⟩
  | record run finished => exact ⟨hi.gate, hi.manifests, hi.dangling, hi.publishing, htidy⟩

theorem CollectorMove.clientRely (h : CollectorMove π t s s') (ha : Admissible π s s')
    (hi : ProtocolInv π s) : ClientRely π u s s' := by
  intro hr
  have hfree : s.gate.writer ≠ some t := by
    intro hw
    rw [hi.gate (by simp [hw])] at hr
    cases hr
  cases h with
  | frame h => exact h.gated ha hr
  | begin fence hw he => exact absurd hw hfree
  | drain l hw he => exact absurd hw hfree
  | remove h p items resources hw he hs hh => exact absurd hw hfree
  | unlink r items resources hw he hs hr => exact absurd hw hfree
  | finish =>
    exact ⟨hr, fun _ _ => id, fun _ => id, fun _ => id, ha.presMono fun _ => id, fun _ => id,
      fun _ => rfl, fun _ _ => .inr rfl⟩
  | staging h =>
    exact .of_grow ha hr h.births (fun _ => id) (fun _ => id) (fun _ => h.stored.mpr) id fun _ => id
  | _ => exact .of_grow ha hr (fun _ _ => id) (fun _ => id) (fun _ => id) (fun _ => id) id fun _ => id

/-! ## Protected roots -/

def Protected (s : World) (r : SnapshotRef) : Prop := r ∉ s.ghost.dangling ∨ IsLate s r

def Keeps (π : Protocol) (s s' : World) : Prop :=
  ∀ r, s.db.HasRow r → s'.db.HasRow r → Complete π s r → Protected s r →
    Complete π s' r ∧ Protected s' r

theorem ClientMove.keeps (h : ClientMove π t s s') (ha : Admissible π s s') : Keeps π s s' := by
  intro r hrow hrow' hc hp
  cases h with
  | frame h =>
    refine ⟨hc.mono (fun _ => h.stored.mpr) (ha.presMono h.indexed), ?_⟩
    exact hp.imp (fun hd => h.dangling ▸ hd) h.isLate.mpr
  | push q l hg he =>
    refine ⟨hc.mono (fun _ => id) (ha.presMono fun _ => id), ?_⟩
    rcases hp with hd | ⟨l', hl', hr⟩
    · exact .inl fun hm => hd (List.mem_filter.mp hm).1
    · rw [he] at hl'
      cases hl'
      exact .inr ⟨_, rfl, List.mem_append_left _ hr⟩
  | idle q he =>
    exact ⟨hc.mono (fun _ => id) (ha.presMono fun _ => id),
      hp.imp (fun hd hm => hd (List.mem_filter.mp hm).1) id⟩
  | staging h => exact ⟨hc.mono (fun _ => h.stored.mpr) (ha.presMono fun _ => id), hp⟩
  | rename q i ks p hg hi' hd hn hk hp' =>
    exact ⟨hc.mono (fun _ hq => stored_rename.mpr (.inr hq)) (ha.presMono fun _ => id), hp⟩
  | _ => exact ⟨hc.mono (fun _ => id) (ha.presMono fun _ => id), hp⟩

theorem CollectorMove.keeps (h : CollectorMove π t s s') (ha : Admissible π s s') :
    Keeps π s s' := by
  intro r hrow hrow' hc hp
  cases h with
  | frame h =>
    refine ⟨hc.mono (fun _ => h.stored.mpr) (ha.presMono h.indexed), ?_⟩
    exact hp.imp (fun hd => h.dangling ▸ hd) h.isLate.mpr
  | begin fence hw he =>
    exact ⟨hc.mono (fun _ => id) (ha.presMono fun _ => id), .inl List.not_mem_nil⟩
  | finish => exact ⟨hc.mono (fun _ => id) (ha.presMono fun _ => id), .inl List.not_mem_nil⟩
  | drain l hw he =>
    refine ⟨hc.mono (fun _ => id) (ha.presMono fun _ => id), .inl fun hm => ?_⟩
    obtain ⟨hm, hl⟩ := List.mem_filter.mp hm
    rcases hp with hd | ⟨l', hl', hr⟩
    · exact hd hm
    · rw [he] at hl'
      cases hl'
      simp [hr] at hl
  | dangling q he hq =>
    refine ⟨hc.mono (fun _ => id) (ha.presMono fun _ => id), hp.imp (fun hd hm => ?_) id⟩
    rcases List.mem_cons.mp hm with rfl | hm
    · exact hq hc.root_stored
    · exact hd hm
  | remove h p items resources hw he hs hh =>
    refine ⟨?_, hp⟩
    have hr : items r := (hs.roots r hrow).resolve_right
      (hp.resolve_right (not_isLate_of_empty he))
    refine Closure.Complete.of_closedUnder hs.closed (fun _ _ => id) ?_ hc hr
    intro k hk hpres
    have hne : k ≠ h := fun heq => hh (heq ▸ hk)
    refine ha.pres k hpres ?_
    have hix := π.pres_indexed s k hpres
    simpa [Indexed, Index.get_remove, hne] using hix
  | unlink q items resources hw he hs hq =>
    refine ⟨?_, hp⟩
    have hr : items r := (hs.roots r hrow).resolve_right
      (hp.resolve_right (not_isLate_of_empty he))
    refine Closure.Complete.of_closedUnder hs.closed ?_ (fun k _ => ?_) hc hr
    · intro i hi hst
      exact stored_unlink.mpr ⟨fun heq => hq (heq ▸ hi), hst⟩
    · exact ha.presMono (fun _ => id) k
  | staging h => exact ⟨hc.mono (fun _ => h.stored.mpr) (ha.presMono fun _ => id), hp⟩
  | _ => exact ⟨hc.mono (fun _ => id) (ha.presMono fun _ => id), hp⟩

end SnapStore
