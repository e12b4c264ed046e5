import SnapStore.Gc.Frames

/-!
# Commits in the protocol

Every call that does not collect takes steps of the protocol only.  `put_snapshot`, `CreateNode`
and `Pin` hold the commit gate from their checks to their last step, so what they have checked
still holds when they return.
-/

namespace SnapStore

open Disk Conc SnapshotStore

variable [Primitives] {π : Protocol} {t : Tid}

/-! ## Rules -/

theorem Gated.refl {s : World} (h : t ∈ s.gate.readers) : Gated π t s s :=
  ⟨h, fun _ _ => id, fun _ => id, fun _ => id, fun _ => id, fun _ => id, id, fun _ => .inl⟩

theorem Gated.trans {s s' s'' : World} (h : Gated π t s s') (h' : Gated π t s' s'') :
    Gated π t s s'' where
  reader := h'.reader
  births i n hn := h'.births i n (h.births i n hn)
  shards d hd := h'.shards d (h.shards d hd)
  indexed k hk := h'.indexed k (h.indexed k hk)
  pres k hk := h'.pres k (h.pres k hk)
  stored r hr := h'.stored r (h.stored r hr)
  closed he := h'.closed (h.closed he)
  late r hr := (h.late r hr).elim (h'.late r) fun he => .inr (h'.closed he)

theorem ClientRely.refl (s : World) : ClientRely π t s s := Gated.refl

theorem ClientRely.trans {s s' s'' : World} (h : ClientRely π t s s') (h' : ClientRely π t s' s'') :
    ClientRely π t s s'' := fun hr => (h hr).trans (h' (h hr).reader)

def clientRules (π : Protocol) (t : Tid) : Rules Oracle World where
  may _ := Admissible π
  inv := ProtocolInv π
  rely := ClientRely π t
  guar s s' := Admissible π s s' ∧ ClientMove π t s s'
  rely_refl := ClientRely.refl
  rely_trans _ _ _ := ClientRely.trans

def GateStable (π : Protocol) (t : Tid) (A : World → Prop) : Prop :=
  ∀ s s', Gated π t s s' → A s → A s'

def Holding (t : Tid) (A : World → Prop) (s : World) : Prop := t ∈ s.gate.readers ∧ A s

theorem GateStable.stable {A : World → Prop} (hA : GateStable π t A) :
    Stable (clientRules π t) (Holding t A) := by
  intro s s' h hr _
  have hg : Gated π t s s' := hr h.1
  exact ⟨hg.reader, hA s s' hg h.2⟩

theorem GateStable.and {A B : World → Prop} (hA : GateStable π t A) (hB : GateStable π t B) :
    GateStable π t fun s => A s ∧ B s := fun s s' hg h => ⟨hA s s' hg h.1, hB s s' hg h.2⟩

theorem GateStable.const (p : Prop) : GateStable π t fun _ => p := fun _ _ _ h => h

theorem GateStable.imp {p : Prop} {A : World → Prop} (hA : p → GateStable π t A) :
    GateStable π t fun s => p → A s := fun s s' hg h hp => hA hp s s' hg (h hp)

theorem gateStable_complete (r : SnapshotRef) : GateStable π t fun s => Complete π s r :=
  fun _ _ hg h => h.mono hg.stored hg.pres

theorem gateStable_stored (r : SnapshotRef) : GateStable π t fun s => Stored s r :=
  fun _ _ hg h => hg.stored r h

theorem gateStable_indexed (hs : List PageHash) : GateStable π t fun s => ∀ h ∈ hs, Indexed s h :=
  fun _ _ hg h k hk => hg.indexed k (h k hk)

def OnRecord (s : World) (r : SnapshotRef) : Prop := s.epoch = none ∨ IsLate s r

theorem gateStable_onRecord (r : SnapshotRef) : GateStable π t fun s => OnRecord s r := by
  intro s s' hg h
  rcases h with he | hl
  · exact .inl (hg.closed he)
  · exact (hg.late r hl).symm

section Actions

variable {E α : Type} {Q : Except E α → World → Prop} {s : World}

theorem wp_client_action {f : Oracle → World → Except E α × World} {A : World → Prop}
    (hA : Stable (clientRules π t) A) (hs : A s)
    (h : ∀ o w r u, ProtocolInv π w → A w → f o w = (r, u) → Admissible π w u →
      ClientMove π t w u ∧ Q r u) :
    wp (clientRules π t) (action f).run Q s := by
  refine wp_atomic hA hs fun o w hi hw ha => ?_
  obtain ⟨hm, hq⟩ := h o w _ _ hi hw rfl ha
  exact ⟨hm.inv ha hi, ⟨ha, hm⟩, hq⟩

theorem wp_gated_action {f : Oracle → World → Except E α × World} {A : World → Prop}
    (hA : GateStable π t A) (hs : Holding t A s)
    (hm : ∀ o w r u, ProtocolInv π w → Holding t A w → f o w = (r, u) →
      ClientMove π t w u ∧ u.gate = w.gate)
    (hq : ∀ o w r u, ProtocolInv π w → Holding t A w → Admissible π w u → f o w = (r, u) →
      Holding t A u → Q r u) :
    wp (clientRules π t) (action f).run Q s := by
  refine wp_client_action hA.stable hs fun o w r u hi hw hf ha => ?_
  obtain ⟨hmove, hgate⟩ := hm o w r u hi hw hf
  have hg := hmove.gated ha (by rw [hgate]; exact hw.1)
  exact ⟨hmove, hq o w r u hi hw ha hf ⟨hg.reader, hA w u hg hw.2⟩⟩

theorem wp_gated_observe {f : Oracle → World → Except E α} {A : World → Prop}
    (hA : GateStable π t A) (hs : Holding t A s)
    (hq : ∀ o w, ProtocolInv π w → Holding t A w → Q (f o w) w) :
    wp (clientRules π t) (observe f).run Q s := by
  refine wp_gated_action hA hs ?_ ?_
  · rintro o w r u - - hf
    cases hf
    exact ⟨.frame (Frame.refl w), rfl⟩
  · rintro o w r u hi hw - hf -
    cases hf
    exact hq o w hi hw

theorem wp_gated_attempt {f : Oracle → World → Except E (α × World)} {A : World → Prop}
    (hA : GateStable π t A) (hs : Holding t A s)
    (hm : ∀ o w a u, ProtocolInv π w → Holding t A w → f o w = .ok (a, u) →
      ClientMove π t w u ∧ u.gate = w.gate)
    (he : ∀ e w, ProtocolInv π w → Holding t A w → Q (.error e) w)
    (hq : ∀ o w a u, ProtocolInv π w → Holding t A w → Admissible π w u → f o w = .ok (a, u) →
      Holding t A u → Q (.ok a) u) :
    wp (clientRules π t) (attempt f).run Q s := by
  refine wp_gated_action hA hs ?_ ?_
  · intro o w r u hi hw hf
    split at hf <;> cases hf
    · next heq => exact hm o w _ _ hi hw heq
    · exact ⟨.frame (Frame.refl w), rfl⟩
  · intro o w r u hi hw ha hf hu
    split at hf <;> cases hf
    · next heq => exact hq o w _ _ hi hw ha heq hu
    · exact he _ w hi hw

theorem wp_gated_look {β : Type} {f : World → β} {Q : Except E β → World → Prop}
    {A : World → Prop} (hA : GateStable π t A) (hs : Holding t A s)
    (hq : ∀ w, ProtocolInv π w → Holding t A w → Q (.ok (f w)) w) :
    wp (clientRules π t) (look f).run Q s :=
  wp_gated_observe (f := fun _ w => .ok (f w)) hA hs fun _ w hi hw => hq w hi hw

theorem wp_client_frame {p : P α} {A : World → Prop} (hp : Within Frame p)
    (hA : Stable (clientRules π t) A) (hs : A s) :
    wp (clientRules π t) p (fun _ s => A s) s := by
  refine hp.wp hA hs fun o w u hi hw ha hf => ?_
  have hm : ClientMove π t w u := .frame hf
  have hinv := hm.inv ha hi
  exact ⟨hinv, ⟨ha, hm⟩, hA w u hw (hf.gated ha) hinv⟩

theorem wp_withCommitGate {body : ExceptT E P α} {B : Except E α → World → Prop}
    (hB : ∀ r, GateStable π t (B r))
    (hbody : ∀ w, t ∈ w.gate.readers →
      wp (clientRules π t) body.run (fun r w => Holding t (B r) w) w)
    (hQ : ∀ r w w', ProtocolInv π w' → B r w → w'.ghost.dangling = w.ghost.dangling →
      w'.epoch = w.epoch → (∀ q, Complete π w q → Complete π w' q) → Q r w') :
    wp (clientRules π t) (withCommitGate t body).run Q s := by
  refine wp_bind (wp_await (Stable.const True) trivial ?_)
  intro o w b u hi _ hf ha
  have hfree : w.gate.writer = none ∧ u = { w with
      gate := { w.gate with readers := t :: w.gate.readers } } := by
    split at hf
    · next hw =>
      cases hf
      exact ⟨hw, rfl⟩
    · cases hf
  obtain ⟨hw, rfl⟩ := hfree
  have hm : ClientMove π t w _ := .lock hw
  refine ⟨hm.inv ha hi, ⟨ha, hm⟩, ?_⟩
  refine wp_bind (wp_mono ?_ (hbody _ List.mem_cons_self))
  intro r w₁ hB₁
  refine wp_bind (wp_atomic (hB r).stable hB₁ fun o w₂ hi₂ hB₂ ha₂ => ?_)
  have hm₂ : ClientMove π t w₂ _ := .unlock
  have hinv := hm₂.inv ha₂ hi₂
  exact ⟨hinv, ⟨ha₂, hm₂⟩,
    hQ r w₂ _ hinv hB₂.2 rfl rfl fun q hq => hq.mono (fun _ => id) (ha₂.presMono fun _ => id)⟩

end Actions

/-! ## Reads under the gate -/

section Reads

variable {A : World → Prop} {s : World}

theorem wp_readManifestBytes (hA : GateStable π t A) (hs : Holding t A s) (r : SnapshotRef) :
    wp (clientRules π t) (readManifestBytes r).run
      (fun res w => Holding t A w ∧ ∀ b, res = .ok b → Stored w r) s := by
  refine wpE_bind (wp_gated_action hA hs ?_ ?_)
  · rintro o w b u - - hf
    split at hf <;> cases hf <;> exact ⟨.frame (Frame.refl w), rfl⟩
  intro o w b u hi hw ha hf hu
  split at hf <;> cases hf
  · next hst =>
    refine wpE_bind (wp_gated_observe (hA.and (gateStable_stored r)) ⟨hu.1, hu.2, hst⟩ ?_)
    intro o w _ hw
    have hdone : Holding t A w ∧ ∀ (res : Except StoreError Bytes) b, res = .ok b → Stored w r :=
      ⟨⟨hw.1, hw.2.1⟩, fun _ _ _ => hw.2.2⟩
    split
    · exact ⟨hdone.1, hdone.2 _⟩
    · exact ⟨hdone.1, hdone.2 _⟩
    · rw [andThen_ok]
      exact wp_ofExcept ⟨hdone.1, hdone.2 _⟩
  · exact ⟨hu, by simp⟩

theorem wp_validateClosure (hA : GateStable π t A) (fuel : Nat) (r : SnapshotRef)
    (hs : Holding t A s) :
    wp (clientRules π t) (validateClosure fuel r).run
      (fun res w => Holding t A w ∧ (res = .ok () → Stored w r)) s := by
  induction fuel generalizing r s A with
  | zero => exact ⟨hs, by simp⟩
  | succ fuel ih =>
    refine wpE_bind (wpE_bind (wp_mono ?_ (wp_readManifestBytes hA hs r)))
    rintro (e | bytes) w ⟨hw, hst⟩
    · exact ⟨hw, by simp⟩
    have hB := hA.and (gateStable_stored (π := π) (t := t) r)
    have hwB : Holding t (fun s => A s ∧ Stored s r) w := ⟨hw.1, hw.2, hst bytes rfl⟩
    have hend : ∀ (res : Except StoreError Unit) w, Holding t (fun s => A s ∧ Stored s r) w →
        Holding t A w ∧ (res = .ok () → Stored w r) :=
      fun _ _ h => ⟨⟨h.1, h.2.1⟩, fun _ => h.2.2⟩
    rw [andThen_ok]
    refine wp_ofExcept ?_
    cases Manifest.decode bytes with
    | error e => exact ⟨hw, by simp⟩
    | ok m =>
      refine wpE_bind (wp_mono ?_ (wp_client_frame (frame_of_reads (reads_containsBatch _)) hB.stable hwB))
      rintro (e | present) w₂ hw₂
      · exact hend _ _ hw₂
      simp only [andThen_ok]
      split
      · exact hend _ _ hw₂
      · split
        · split
          · refine wp_mono ?_ (ih hB _ hw₂)
            rintro res w₃ ⟨h₃, -⟩
            exact hend _ _ h₃
          · exact hend _ _ hw₂
        · exact hend _ _ hw₂

end Reads

/-! ## Registration -/

theorem TidyInv.complete {s : World} {r : SnapshotRef} (hi : TidyInv π s) (hst : Stored s r)
    (hr : OnRecord s r) : Complete π s r := by
  rcases hr with he | hl
  · have hsw : s.ghost.sweeping = false := by
      by_contra hne
      exact hi.sweeping (by simpa using hne) he
    exact (hi.grounded r hst).complete (hi.needs hsw) hst
  · exact hi.late r hl hst

def Registered (π : Protocol) (r : SnapshotRef) (s : World) : Prop :=
  OnRecord s r ∧ (π.tidy → Complete π s r)

theorem gateStable_registered (r : SnapshotRef) : GateStable π t (Registered π r) :=
  (gateStable_onRecord r).and (.imp fun _ => gateStable_complete r)

section Register

variable {A : World → Prop} {s : World}

theorem wp_pushLateRoot (hA : GateStable π t A) (hs : Holding t A s) (r : SnapshotRef) :
    wp (clientRules π t) (pushLateRoot t r).run
      (andThen (fun _ w => Holding t (fun w => A w ∧ OnRecord w r) w) fun (_ : Except StoreError Unit) _ =>
        False) s := by
  refine wp_client_action hA.stable hs fun o w b u hi hw hf ha => ?_
  dsimp only at hf
  split at hf <;> cases hf
  · next late he =>
    have hm : ClientMove π t w _ := .push r late hw.1 he
    have hg := hm.gated ha hw.1
    exact ⟨hm, hg.reader, hA _ _ hg hw.2, .inr ⟨_, rfl, by simp⟩⟩
  · next he =>
    have hm : ClientMove π t w _ := .idle r he
    have hg := hm.gated ha hw.1
    exact ⟨hm, hg.reader, hA _ _ hg hw.2, .inl he⟩

theorem wp_checkLiveRef (hA : GateStable π t A) (hs : Holding t A s) (b : Bool) (r : SnapshotRef) :
    wp (clientRules π t) (checkLiveRef b r).run
      (fun res w => Holding t A w ∧ (res = .ok () → Stored w r)) s := by
  unfold checkLiveRef
  split
  · exact wp_validateClosure hA maxChain r hs
  · refine wpE_bind (wp_gated_look hA hs fun w hi hw => ?_)
    rw [andThen_ok]
    split
    · next hst => exact ⟨hw, fun _ => hst⟩
    · exact ⟨hw, by simp⟩

theorem wp_registerLiveRef (hA : GateStable π t A) (hs : Holding t A s) (r : SnapshotRef) :
    wp (clientRules π t) (registerLiveRef t r).run
      (fun res w => Holding t A w ∧ (res = .ok () → Registered π r w)) s := by
  have hB := hA.and (gateStable_onRecord (π := π) (t := t) r)
  refine wpE_bind (wp_mono ?_ (wp_pushLateRoot hA hs r))
  rintro (e | b) w hw
  · exact hw.elim
  refine wpE_bind (wp_mono ?_ (wp_checkLiveRef hB hw b r))
  rintro (e | ⟨⟩) v ⟨hv, hst⟩
  · exact ⟨⟨hv.1, hv.2.1⟩, by simp⟩
  have hC := hB.and (gateStable_stored (π := π) (t := t) r)
  refine wp_gated_action hC ⟨hv.1, hv.2, hst rfl⟩ ?_ ?_
  · rintro o x b u hx hxC hf
    cases hf
    exact ⟨.note r fun ht => (hx.tidy ht).complete hxC.2.2 hxC.2.1.2, rfl⟩
  · rintro o x b u hx hxC hax hf hu
    cases hf
    refine ⟨⟨hu.1, hu.2.1.1⟩, fun _ => ⟨hu.2.1.2, fun ht => ?_⟩⟩
    exact ((hx.tidy ht).complete hxC.2.2 hxC.2.1.2).mono (fun _ => id) (hax.presMono fun _ => id)

end Register

/-! ## put_snapshot -/

section Put

variable {A : World → Prop} {s : World} {m : Manifest} {c : Bytes}

theorem decode_parent (hd : Manifest.decode c = .ok m) {q : SnapshotRef} (hq : m.parent = some q) :
    m.delta = true := (Manifest.decode_delta hd).mpr (by simp [hq])

theorem wp_checkParent (hA : GateStable π t A) (hs : Holding t A s)
    (hd : Manifest.decode c = .ok m) :
    wp (clientRules π t) (checkParent m).run (fun res w => Holding t A w ∧
      (res = .ok () → ∀ q, m.parent = some q → Stored w q)) s := by
  unfold checkParent
  split
  · split
    · next hnone => exact ⟨hs, by simp⟩
    · next q hq =>
      refine wpE_bind (wp_withError (wp_mono ?_ (wp_readManifestBytes hA hs q)))
      rintro (e | bytes) w ⟨hw, hst⟩
      · exact ⟨hw, by simp⟩
      have hdone : ∀ res : Except PutError Unit, Holding t A w ∧
          (res = .ok () → ∀ q, m.parent = some q → Stored w q) := by
        refine fun res => ⟨hw, fun _ q' hq' => ?_⟩
        rw [hq] at hq'
        cases hq'
        exact hst bytes rfl
      refine wpE_bind (wp_ofExcept ?_)
      cases Manifest.decode bytes with
      | error e => exact hdone _
      | ok pm =>
        rw [Except.mapError, andThen_ok]
        split
        · exact hdone _
        · exact hdone _
  · next hnd =>
    refine ⟨hs, fun _ q hq => absurd (decode_parent hd hq) hnd⟩

theorem wp_containsBatch (hA : GateStable π t A) (hs : Holding t A s) (hashes : List PageHash) :
    wp (clientRules π t) (containsBatch (E := PutError) hashes).run
      (andThen (fun present w => Holding t A w ∧
        (missingOf hashes present = [] → ∀ h ∈ hashes, Indexed w h))
        fun (_ : Except PutError Unit) _ => False) s := by
  -- The flags collected so far say what the index holds for the hashes already looked up.
  refine wpE_foldlM (fun out rest w => Holding t (fun w => A w ∧ ∃ done, hashes = done ++ rest ∧
    out.length = done.length ∧ ∀ e ∈ done.zip out, e.2 = true → Indexed w e.1) w) ?_ ?_
    hashes [] s ⟨hs.1, hs.2, [], rfl, rfl, by simp⟩
  · intro out h rest w hw
    have hB : GateStable π t (fun w => A w ∧ ∃ done, hashes = done ++ h :: rest ∧
        out.length = done.length ∧ ∀ e ∈ done.zip out, e.2 = true → Indexed w e.1) := by
      rintro w w' hg ⟨ha, done, hd, hl, hz⟩
      exact ⟨hA _ _ hg ha, done, hd, hl, fun e he ht => hg.indexed _ (hz e he ht)⟩
    refine wpE_bind (wp_gated_look hB hw ?_)
    rintro w - ⟨ht, ha, done, hd, hl, hz⟩
    refine ⟨ht, ha, done ++ [h], by simp [hd], by simp [hl], ?_⟩
    intro e he htrue
    rw [List.zip_append hl.symm] at he
    rcases List.mem_append.mp he with he | he
    · exact hz e he htrue
    · simp only [List.zip_cons_cons, List.zip_nil_right, List.mem_singleton] at he
      subst he
      exact htrue
  · rintro out w ⟨ht, ha, done, hd, hl, hz⟩
    rw [List.append_nil] at hd
    subst hd
    refine ⟨⟨ht, ha⟩, fun hm h hh => ?_⟩
    obtain ⟨i, hi, rfl⟩ := List.getElem_of_mem hh
    have hmem : (hashes[i], out[i]) ∈ hashes.zip out := by
      rw [List.mem_iff_getElem]
      exact ⟨i, by simp [hl, hi], by simp⟩
    refine hz _ hmem ?_
    by_contra hfalse
    have : hashes[i] ∈ missingOf hashes out := by
      refine List.mem_map.mpr ⟨_, List.mem_filter.mpr ⟨hmem, by simpa using hfalse⟩, rfl⟩
    rw [hm] at this
    cases this

def Checked (m : Manifest) (s : World) : Prop :=
  (∀ h ∈ hashesOf m, Indexed s h) ∧ ∀ q, m.parent = some q → Stored s q

theorem gateStable_checked (m : Manifest) : GateStable π t (Checked m) :=
  (gateStable_indexed _).and fun _ _ hg h q hq => hg.stored q (h q hq)

theorem gateStable_birth (i : Ino) (n : ManifestFile) :
    GateStable π t fun s => s.manifests.birth i = some n := fun _ _ hg h => hg.births i n h

theorem gateStable_shard (d : Nat) : GateStable π t fun s => d ∈ s.shardDirs :=
  fun _ _ hg h => hg.shards d h

theorem wp_makeShardDir (hA : GateStable π t A) (hs : Holding t A s) (r : SnapshotRef) :
    wp (clientRules π t) (makeShardDir r).run (fun res w => Holding t A w ∧
      (res = .ok () → shardOf r ∈ w.shardDirs)) s := by
  refine wp_gated_attempt hA hs ?_ (fun _ _ _ hw => ⟨hw, by simp⟩) ?_
  · intro o w a u _ _ hf
    split at hf <;> cases hf
    exact ⟨.shardDir _, rfl⟩
  · intro o w a u _ _ _ hf hu
    split at hf <;> cases hf
    exact ⟨hu, fun _ => List.mem_insert_self⟩

theorem wp_openStaging (hA : GateStable π t A) (hs : Holding t A s) (hc : c ∈ π.S)
    (hd : Manifest.decode c = .ok m) :
    wp (clientRules π t) (openStaging (Manifest.snapshotRef c)).run (fun res w => Holding t A w ∧
      ∀ f, res = .ok f → w.manifests.birth f = some (.tmp (Manifest.snapshotRef c))) s := by
  refine wp_gated_attempt hA hs ?_ (fun _ _ _ hw => ⟨hw, by simp⟩) ?_
  · intro o w a u hi _ hf
    split at hf <;> cases hf
    exact ⟨.staging ⟨(hi.manifests.openTruncate hc hd).1,
      FileSys.birth_openTruncate hi.manifests.births.born,
      fun r => FileSys.lookup_openTruncate_ne (by simp)⟩, rfl⟩
  · intro o w f u hi _ _ hf hu
    split at hf <;> cases hf
    refine ⟨hu, fun f hf => ?_⟩
    cases hf
    exact (hi.manifests.openTruncate hc hd).2

theorem wp_writeStaging (hA : GateStable π t A) {f : Ino} (hs : Holding t (fun w => A w ∧
      w.manifests.birth f = some (.tmp (Manifest.snapshotRef c))) s) (hc : c ∈ π.S)
    (hd : Manifest.decode c = .ok m) :
    wp (clientRules π t) (writeStaging f c).run (fun _ w => Holding t A w) s := by
  refine wp_gated_action (hA.and (gateStable_birth _ _)) hs ?_ fun _ _ _ _ _ _ _ _ hu =>
    ⟨hu.1, hu.2.1⟩
  intro o w r u hi hw hf
  have hstage : ∀ b, b <+: c → Staging π w.manifests (w.manifests.write f 0 b) := fun b hb =>
    ⟨hi.manifests.write π.collisionFree hc hd hw.2.2 hb, fun _ _ => id, fun _ => rfl⟩
  split at hf <;> cases hf
  · exact ⟨.staging (hstage _ (List.take_prefix _ _)), rfl⟩
  · exact ⟨.staging (hstage _ (List.prefix_refl _)), rfl⟩

theorem wp_syncStaging (hA : GateStable π t A) (hs : Holding t A s) (f : Ino) :
    wp (clientRules π t) (syncStaging f).run (fun _ w => Holding t A w) s := by
  refine wp_gated_attempt hA hs ?_ (fun _ _ _ hw => hw) fun _ _ _ _ _ _ _ _ hu => hu
  intro o w a u hi _ hf
  split at hf <;> cases hf
  exact ⟨.staging ⟨hi.manifests.fdatasync _, fun _ _ => id, fun _ => rfl⟩, rfl⟩

theorem wp_renameStaging (hc : c ∈ π.S) (hd : Manifest.decode c = .ok m)
    (hs : Holding t (fun w => Checked m w ∧ shardOf (Manifest.snapshotRef c) ∈ w.shardDirs) s) :
    wp (clientRules π t) (renameStaging t (Manifest.snapshotRef c)).run
      (fun _ w => Holding t (Checked m) w) s := by
  refine wp_gated_attempt ((gateStable_checked m).and (gateStable_shard _)) hs ?_
    (fun _ _ _ hw => ⟨hw.1, hw.2.1⟩) fun _ _ _ _ _ _ _ _ hu => ⟨hu.1, hu.2.1⟩
  intro o w a u _ hw hf
  split at hf <;> cases hf
  next i _ hi =>
  exact ⟨.rename _ i (hashesOf m) m.parent hw.1 hi hw.2.2 ⟨c, m, hc, rfl, hd, rfl, rfl⟩
    hw.2.1.1 hw.2.1.2, rfl⟩

theorem wp_fsyncShardDir (hA : GateStable π t A) (hs : Holding t A s) (r : SnapshotRef) :
    wp (clientRules π t) (fsyncShardDir r).run (fun _ w => Holding t A w) s := by
  refine wp_gated_attempt hA hs ?_ (fun _ _ _ hw => hw) fun _ _ _ _ _ _ _ _ hu => hu
  intro o w a u hi _ hf
  split at hf <;> cases hf
  exact ⟨.staging ⟨hi.manifests.fsyncDir _, fun _ _ => id, fun _ => rfl⟩, rfl⟩

theorem wp_publish (hs : Holding t (Checked m) s) (hc : c ∈ π.S)
    (hd : Manifest.decode c = .ok m) :
    wp (clientRules π t) (publish t (Manifest.snapshotRef c) c).run
      (fun _ w => Holding t (Checked m) w) s := by
  have hA := gateStable_checked (π := π) (t := t) m
  have hB := hA.and (gateStable_shard (π := π) (t := t) (shardOf (Manifest.snapshotRef c)))
  refine wpE_bind (wp_mono ?_ (wp_makeShardDir hA hs _))
  rintro (e | ⟨⟩) w₁ ⟨h₁, hsh⟩
  · exact h₁
  refine wpE_bind (wp_mono ?_ (wp_openStaging hB ⟨h₁.1, h₁.2, hsh rfl⟩ hc hd))
  rintro (e | f) w₂ ⟨h₂, hbirth⟩
  · exact ⟨h₂.1, h₂.2.1⟩
  refine wpE_bind (wp_mono ?_ (wp_writeStaging hB ⟨h₂.1, h₂.2, hbirth f rfl⟩ hc hd))
  rintro (e | ⟨⟩) w₃ h₃
  · exact ⟨h₃.1, h₃.2.1⟩
  refine wpE_bind (wp_mono ?_ (wp_syncStaging hB h₃ f))
  rintro (e | ⟨⟩) w₄ h₄
  · exact ⟨h₄.1, h₄.2.1⟩
  refine wpE_bind (wp_mono ?_ (wp_renameStaging hc hd h₄))
  rintro (e | ⟨⟩) w₅ h₅
  · exact h₅
  exact wp_fsyncShardDir hA h₅ _

theorem wp_commit (hs : Holding t (Checked m) s) (hc : c ∈ π.S)
    (hd : Manifest.decode c = .ok m) :
    wp (clientRules π t) (commit t c m).run (fun res w =>
      Holding t (fun w => ∀ r, res = .ok r → Registered π r w) w) s := by
  have hA := gateStable_checked (π := π) (t := t) m
  have hreg : ∀ w, Holding t (Checked m) w → wp (clientRules π t) (ExceptT.run (do
      withError (registerError (Manifest.snapshotRef c))
        (registerLiveRef t (Manifest.snapshotRef c))
      return Manifest.snapshotRef c)) (fun res w =>
        Holding t (fun w => ∀ r, res = .ok r → Registered π r w) w) w := by
    intro w hw
    refine wpE_bind (wp_withError (wp_mono ?_ (wp_registerLiveRef hA hw _)))
    rintro (e | ⟨⟩) v ⟨hv, hr⟩
    · exact ⟨hv.1, by simp⟩
    · refine ⟨hv.1, fun r heq => ?_⟩
      cases heq
      exact hr rfl
  refine wpE_bind (wp_gated_look hA hs fun w _ hw => ?_)
  rw [andThen_ok]
  split
  · exact hreg w hw
  · refine wpE_bind (wp_withError (wp_mono ?_ (wp_publish hw hc hd)))
    rintro (e | ⟨⟩) v hv
    · exact ⟨hv.1, by simp⟩
    refine wpE_bind (wp_mono ?_ (wp_client_frame
      (within_change fun s => .of_part rfl fun _ => id) hA.stable hv))
    rintro (e | ⟨⟩) u hu
    · exact ⟨hu.1, by simp⟩
    · exact hreg u hu

theorem wp_putSnapshot (hc : c ∈ π.S) :
    wp (clientRules π t) (putSnapshot t c).run (fun res w =>
      ∀ r, res = .ok r → π.tidy → Complete π w r) s := by
  refine wpE_bind (wp_ofExcept ?_)
  cases hd : Manifest.decode c with
  | error e => simp [Except.mapError]
  | ok m =>
    refine wp_withCommitGate (B := fun res w => ∀ r, res = .ok r → Registered π r w)
      (fun res => ?_) (fun w hw => ?_) ?_
    · intro w w' hg h r hr
      exact gateStable_registered r w w' hg (h r hr)
    · have hT : GateStable π t fun _ => True := .const True
      refine wpE_bind (wp_mono ?_ (wp_checkParent hT ⟨hw, trivial⟩ hd))
      rintro (e | ⟨⟩) w₁ ⟨h₁, hpar⟩
      · exact ⟨h₁.1, by simp⟩
      have hP : GateStable π t fun w => ∀ q, m.parent = some q → Stored w q :=
        fun _ _ hg h q hq => hg.stored q (h q hq)
      refine wpE_bind (wp_mono ?_ (wp_containsBatch hP ⟨h₁.1, hpar rfl⟩ (hashesOf m)))
      rintro (e | present) w₂ h₂
      · exact h₂.elim
      obtain ⟨h₂, hidx⟩ := h₂
      rw [andThen_ok]
      dsimp only
      split
      · exact ⟨h₂.1, by simp⟩
      next hmiss =>
      have hchk : Holding t (Checked m) w₂ := ⟨h₂.1, hidx (by simpa using hmiss), h₂.2⟩
      refine wpE_bind (wp_withError (wp_mono ?_ (wp_client_frame
        (frame_barrier t _ (PageStore.frame_sync t)) (gateStable_checked m).stable hchk)))
      rintro (e | ⟨⟩) w₃ h₃
      · exact ⟨h₃.1, by simp⟩
      exact wp_commit h₃ hc hd
    · intro res w w' _ h _ _ hkeep r hr ht
      exact hkeep r ((h r hr).2 ht)

end Put

/-! ## Handlers -/

section Handlers

variable {α : Type} {A : World → Prop} {s : World} {cmd : ActorCmd}
variable {f : MetaDb → Nat → Except MetaError (α × MetaDb)}

theorem wp_metaWrite (hf : Realizes f cmd) (hA : Stable (clientRules π t) A) (hs : A s)
    (hroot : ∀ w r, A w → cmd.root = some r → t ∈ w.gate.readers ∧ OnRecord w r) :
    wp (clientRules π t) (metaWrite f).run (fun _ w => A w) s := by
  refine wp_client_action hA hs fun o w res u hi hw hu ha => ?_
  cases hu
  have hm := ClientMove.rows (π := π) (t := t) (s := w) (afterCommand f o w.db w.actorCounter)
    (w.actorCounter + 1) fun r hr => (hf.hasRow hr).imp_right (hroot w r hw)
  exact ⟨hm, hA w _ hw (hm.gated ha) (hm.inv ha hi)⟩

theorem wp_metaRead {f : MetaDb → α} (hA : Stable (clientRules π t) A) (hs : A s) :
    wp (clientRules π t) (metaRead f).run (fun _ w => A w) s := by
  refine wp_client_action hA hs fun o w res u hi hw hf ha => ?_
  cases hf
  exact ⟨.frame (Frame.refl w), hw⟩

theorem wp_metaWrite_shrink (hf : Realizes f cmd) (hroot : cmd.root = none) :
    wp (clientRules π t) (metaWrite f).run (fun _ _ => True) s := by
  refine wp_metaWrite hf (Stable.const True) trivial fun w r _ hr => ?_
  rw [hroot] at hr
  cases hr

theorem protected_of_onRecord {w : World} {r : SnapshotRef} (hi : ProtocolInv π w)
    (h : OnRecord w r) : Protected w r := by
  rcases h with he | hl
  · exact .inl (by simp [hi.dangling he])
  · exact .inr hl

theorem wp_registerThenWrite {r : SnapshotRef} (hf : Realizes f cmd) (hroot : cmd.root = some r) :
    wp (clientRules π t) (withCommitGate t (do
      withError RpcError.store (registerLiveRef t r)
      withError RpcError.db (metaWrite f))).run
      (fun res w => ∀ a, res = .ok a → Protected w r) s := by
  refine wp_withCommitGate (B := fun res w => ∀ a, res = .ok a → OnRecord w r)
    (fun res => ?_) (fun w hw => ?_) ?_
  · intro w w' hg h a ha
    exact gateStable_onRecord r w w' hg (h a ha)
  · refine wpE_bind (wp_withError (wp_mono ?_ (wp_registerLiveRef (.const True) ⟨hw, trivial⟩ r)))
    rintro (e | ⟨⟩) w₁ ⟨h₁, hr⟩
    · exact ⟨h₁.1, by simp⟩
    have hst := (gateStable_onRecord (π := π) (t := t) r).stable
    refine wp_withError (wp_mono ?_ (wp_metaWrite hf hst ⟨h₁.1, (hr rfl).1⟩ ?_))
    · rintro res w₂ h₂
      exact ⟨h₂.1, fun _ _ => h₂.2⟩
    · intro w q hw hq
      cases hroot.symm.trans hq
      exact hw
  · intro res w w' hi h hd he _ a ha
    refine protected_of_onRecord hi ?_
    have hon := h a ha
    simpa only [OnRecord, IsLate, he] using hon

theorem wp_createNode (p : CreateNodeParams) :
    wp (clientRules π t) (Server.createNode t p).run
      (fun res w => ∀ row, res = .ok row → Protected w p.snapshotRef) s :=
  wp_registerThenWrite (realizes_createNode p) rfl

theorem wp_pin (r : SnapshotRef) (note : Option String) :
    wp (clientRules π t) (Server.pin t r note).run
      (fun res w => ∀ b, res = .ok b → Protected w r) s := by
  refine wpE_bind (wp_withError (wp_mono ?_ (wp_metaRead (Stable.const True) trivial)))
  rintro (e | already) w -
  · simp [Except.mapError]
  have hpin : Realizes (fun db k => .ok ((), db.pin r note k)) (.pin r note) := fun _ _ => rfl
  refine wpE_bind (wp_mono ?_ (wp_registerThenWrite (s := w) hpin rfl))
  rintro (e | ⟨⟩) v hv
  · simp
  · exact fun _ _ => hv () rfl

end Handlers

/-! ## Every call that does not collect -/

def ClientPost (π : Protocol) (c : Call) (res : Reply) (s : World) : Prop :=
  match c, res with
  | .putSnapshot _, .putSnapshot (.ok r) => π.tidy → Complete π s r
  | .createNode p, .createNode (.ok _) => Protected s p.snapshotRef
  | .pin r _, .pin (.ok _) => Protected s r
  | _, _ => True

theorem wp_client_call (opts : StoreOptions) (c : Call) (hc : c.collects = false)
    (hS : ∀ b, c = .putSnapshot b → b ∈ π.S) (s : World) :
    wp (clientRules π t) (c.run opts t) (ClientPost π c) s := by
  have hframe : ∀ {α : Type} {p : P α}, Within Frame p →
      wp (clientRules π t) p (fun _ _ => True) s := fun h =>
    wp_client_frame h (Stable.const True) trivial
  have hwrite : ∀ {α : Type} {f : MetaDb → Nat → Except MetaError (α × MetaDb)}
      {g : Except RpcError α → Reply} (cmd : ActorCmd), Realizes f cmd → cmd.root = none →
      wp (clientRules π t) (do return g (← (withError RpcError.db (metaWrite f)).run))
        (fun _ _ => True) s := by
    intro α f g cmd hf hroot
    exact wp_bind (wp_mono (fun _ _ _ => trivial) (wp_withError (R := fun _ _ => True)
      (wp_mono (fun _ _ _ => trivial) (wp_metaWrite_shrink hf hroot))))
  cases c with
  | ingest pages =>
    exact wp_bind (wp_mono (fun _ _ _ => trivial) (hframe (PageStore.frame_ingest opts t pages)))
  | rotate =>
    exact wp_bind (wp_mono (fun _ _ _ => trivial) (hframe (PageStore.frame_rotateActive opts t)))
  | sync => exact wp_bind (wp_mono (fun _ _ _ => trivial) (hframe (PageStore.frame_sync t)))
  | getBatch hs =>
    exact wp_bind (wp_mono (fun _ _ _ => trivial) (hframe (PageStore.frame_getBatch t hs)))
  | putSnapshot b =>
    refine wp_bind (wp_mono ?_ (wp_putSnapshot (hS b rfl)))
    rintro (e | r) w h
    · trivial
    · exact h r rfl
  | createNode p =>
    refine wp_bind (wp_mono ?_ (wp_createNode p))
    rintro (e | row) w h
    · trivial
    · exact h row rfl
  | pin r note =>
    refine wp_bind (wp_mono ?_ (wp_pin r note))
    rintro (e | b) w h
    · trivial
    · exact h b rfl
  | unpin r => exact hwrite (.unpin r) (fun _ _ => rfl) rfl
  | prune e i b => exact hwrite (.pruneSubtree e i b) (fun _ _ => settle_realizes ..) rfl
  | updateNodes e us => exact hwrite (.updateNodes e us) (fun _ _ => settle_realizes ..) rfl
  | putInputLog l b => exact hwrite (.putInputLog l b) (fun _ _ => settle_realizes ..) rfl
  | putMetadata k v g => exact hwrite (.putMetadata k v g) (fun _ _ => settle_realizes ..) rfl
  | deleteMetadata k g => exact hwrite (.deleteMetadata k g) (fun _ _ => settle_realizes ..) rfl
  | reap e i => exact hwrite (.reapTombstone e i) (fun _ _ => settle_realizes ..) rfl
  | gcCycle go => cases hc
  | sweepPacks so live => cases hc

end SnapStore
