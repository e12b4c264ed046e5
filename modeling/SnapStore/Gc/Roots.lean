import SnapStore.Gc.Sweeps

/-!
# The garbage collector keeps the roots

All calls together, from the empty store on: a snapshot that was registered with a complete
closure keeps it as long as a node row or a pin names it.
-/

namespace SnapStore

open Disk Conc SnapshotStore

/-! ## Opening the store -/

structure Boots (s s' : World) : Prop where
  manifests : ∀ [Primitives] S, ManifestsOk S s.manifests → ManifestsOk S s'.manifests
  stored : ∀ r, Stored s' r ↔ Stored s r
  shardDirs : s'.shardDirs = s.shardDirs
  db : s'.db = s.db

theorem Boots.refl (s : World) : Boots s s := ⟨fun _ => id, fun _ => Iff.rfl, rfl, rfl⟩

theorem Frame.boots {s s' : World} (h : Frame s s') : Boots s s' :=
  ⟨fun _ hm => h.manifests ▸ hm, fun _ => h.stored, h.shardDirs, h.db⟩

theorem Boots.clean (s : World) (r : SnapshotRef) :
    Boots s { s with manifests := s.manifests.unlink (.tmp r) } := by
  refine ⟨fun _ h => h.unlink _, fun q => ?_, rfl, rfl⟩
  simp [Stored, hasManifest, FileSys.lookup_unlink]

section Store

variable [Primitives]

structure Opened (s : World) : Prop where
  gate : s.gate = ⟨[], none⟩
  lock : s.activeLock = none
  epoch : s.epoch = none
  counter : s.actorCounter = s.db.rederiveCounter
  ghost : ∃ acked files, s.ghost = { Ghost.initial with acked := acked, files := files }

theorem wp_openStore {ρ : Rules Oracle World} (opts : StoreOptions) {D : World → Prop} {s : World}
    (hD : ∀ s s', Boots s s' → D s → D s') (hinv : ∀ s, ρ.inv s ↔ D s)
    (hrely : ∀ s s', ρ.rely s s' → s = s') (hguar : ∀ s s', ρ.guar s s') (hs : D s) :
    wp ρ (openStore opts) (fun b w => b = true → D w ∧ Opened w) s := by
  have hstable : Stable ρ D := fun s s' h hr _ => hrely s s' hr ▸ h
  have hopen := within_opened Boots.refl Boots.clean (fun _ _ => Frame.boots) opts
  have hkeep : ∀ (e : Oracle) s u, ρ.inv s → D s → ρ.may e s u → Boots s u →
      ρ.inv u ∧ ρ.guar s u ∧ D u := fun _ s u _ h _ hb =>
    ⟨(hinv u).mpr (hD s u hb h), hguar s u, hD s u hb h⟩
  refine wp_bind (wp_mono ?_ (hopen.wp hstable hs hkeep))
  rintro (e | ⟨ix, a⟩) w hw
  · exact wp_ret (by simp)
  · refine wp_bind (wp_mono (fun counters v hv => ?_)
      ((within_walkManifestCounters Boots.refl).wp hstable hw hkeep))
    refine wp_bind (wp_atomic hstable hv fun o u _ hu _ => ?_)
    have hb : Boots u (install opts ix a counters u) := ⟨fun _ h => h, fun _ => Iff.rfl, rfl, rfl⟩
    exact ⟨(hinv _).mpr (hD u _ hb hu), hguar _ _, fun _ =>
      ⟨hD u _ hb hu, rfl, rfl, rfl, rfl, _, _, rfl⟩⟩

/-! ## All calls -/

def Call.Submits (S : Set Bytes) : Call → Prop
  | .putSnapshot c => c ∈ S
  | .sweepPacks _ _ => False
  | _ => True

def ProtocolMove (π : Protocol) (c : Call) (t : Tid) (s s' : World) : Prop :=
  if c.collects then CollectorMove π t s s' else ClientMove π t s s'

def ProtocolRely (π : Protocol) (c : Call) (t : Tid) (s s' : World) : Prop :=
  if c.collects then CollectorRely π t s s' else ClientRely π t s s'

section Calls

variable {π : Protocol} {c d : Call} {t u : Tid} {s s' s'' : World}

theorem ProtocolRely.refl (s : World) : ProtocolRely π c t s s := by
  unfold ProtocolRely
  split
  · exact .refl s
  · exact .refl s

theorem ProtocolRely.trans (h : ProtocolRely π c t s s') (h' : ProtocolRely π c t s' s'') :
    ProtocolRely π c t s s'' := by
  unfold ProtocolRely at h h' ⊢
  split
  · next hc =>
    rw [if_pos hc] at h h'
    exact h.trans h'
  · next hc =>
    rw [if_neg hc] at h h'
    exact ClientRely.trans h h'

theorem ProtocolMove.rely (h : ProtocolMove π c t s s') (htu : t ≠ u)
    (hcd : ¬ (c.collects = true ∧ d.collects = true)) (ha : Admissible π s s')
    (hi : ProtocolInv π s) : ProtocolRely π d u s s' := by
  unfold ProtocolMove at h
  unfold ProtocolRely
  split at h
  · next hc =>
    rw [if_neg fun hd => hcd ⟨hc, hd⟩]
    exact h.clientRely ha hi
  · split
    · exact h.collectorRely ha hi
    · exact h.clientRely ha htu.symm

theorem ProtocolMove.keeps (h : ProtocolMove π c t s s') (ha : Admissible π s s') :
    Keeps π s s' := by
  unfold ProtocolMove at h
  split at h
  · exact CollectorMove.keeps h ha
  · exact ClientMove.keeps h ha

def protocolRules (π : Protocol) (c : Call) (t : Tid) : Rules Oracle World where
  may _ := Admissible π
  inv := ProtocolInv π
  rely := ProtocolRely π c t
  guar s s' := Admissible π s s' ∧ ProtocolMove π c t s s'
  rely_refl := ProtocolRely.refl
  rely_trans _ _ _ := ProtocolRely.trans

theorem wp_call (opts : StoreOptions) (hc : c.Submits π.S) (s : World) :
    wp (protocolRules π c t) (c.run opts t) (ClientPost π c) s := by
  by_cases hcol : c.collects = true
  · have hrely : ∀ s s', ProtocolRely π c t s s' → CollectorRely π t s s' := fun s s' h => by
      rwa [ProtocolRely, if_pos hcol] at h
    refine wp_conseq (ρ := collectorRules π t) (fun _ _ _ h => h) (fun _ => Iff.rfl) hrely ?_ ?_
    · rintro s s' ⟨ha, hm⟩
      exact ⟨ha, by rwa [ProtocolMove, if_pos hcol]⟩
    · cases c with
      | gcCycle go =>
        exact wp_bind (wp_mono (fun _ _ _ => trivial) (wp_runGcCycle opts go))
      | sweepPacks so live => exact hc.elim
      | _ => cases hcol
  · have hrely : ∀ s s', ProtocolRely π c t s s' → ClientRely π t s s' := fun s s' h => by
      rwa [ProtocolRely, if_neg hcol] at h
    refine wp_conseq (ρ := clientRules π t) (fun _ _ _ h => h) (fun _ => Iff.rfl) hrely ?_ ?_
    · rintro s s' ⟨ha, hm⟩
      exact ⟨ha, by rwa [ProtocolMove, if_neg hcol]⟩
    · refine wp_client_call opts c (by simpa using hcol) ?_ s
      rintro b rfl
      exact hc

end Calls

/-! ## Roots -/

/-- Every manifest of the chain of `r` is stored, and every page they name is in the index. -/
def ClosureComplete (S : Set Bytes) (s : World) (r : SnapshotRef) : Prop :=
  Closure.Complete (Named S) (Stored s) (Indexed s) r

/-- The protocol without assumptions on the steps: a page is present when it is in the index. -/
def indexProtocol (S : Set Bytes) (hS : CollisionFree S) : Protocol :=
  ⟨S, hS, Indexed, fun _ _ => id, False⟩

theorem admissible_index {S : Set Bytes} (hS : CollisionFree S) (s s' : World) :
    Admissible (indexProtocol S hS) s s' :=
  ⟨fun _ _ h => h, fun _ _ _ _ _ _ _ _ h => h, False.elim⟩

/-- `CreateNode` or `Pin` for `r` returned `Ok`. -/
def RootsAt (c : Call) (reply : Reply) (r : SnapshotRef) : Prop :=
  match c, reply with
  | .createNode p, .createNode (.ok _) => p.snapshotRef = r
  | .pin q _, .pin (.ok _) => q = r
  | _, _ => False

theorem ClientPost.protected {π : Protocol} {c : Call} {reply : Reply} {r : SnapshotRef}
    {s : World} (h : ClientPost π c reply s) (hr : RootsAt c reply r) : Protected s r := by
  unfold RootsAt at hr
  split at hr
  · subst hr
    exact h
  · subst hr
    exact h
  · exact hr.elim

def gcStore (opts : StoreOptions) (S : Set Bytes) : Machine Oracle World :=
  concurrentStore opts (Call.Submits S) fun _ _ => False

def gcOutline (opts : StoreOptions) (S : Set Bytes) (hS : CollisionFree S) :
    Outline (gcStore opts S) fun _ _ _ => True where
  inv := ProtocolInv (indexProtocol S hS)
  down s := ManifestsOk S s.manifests
  rely c := ProtocolRely (indexProtocol S hS) c.1
  guar c t s s' := ProtocolMove (indexProtocol S hS) c.1 t s s'
  post c _ := ClientPost (indexProtocol S hS) c.1
  idle _ _ := True
  rely_refl _ _ := ProtocolRely.refl
  rely_trans _ _ _ _ _ := ProtocolRely.trans
  guar_rely _ _ _ _ _ _ htu hcd hi _ hg := hg.rely htu hcd (admissible_index hS _ _) hi
  guar_idle _ _ _ _ _ _ _ _ _ := trivial
  body c t s _ _ _ _ := wp_conseq (ρ := protocolRules (indexProtocol S hS) c.1 t)
    (fun _ _ _ _ => admissible_index hS _ _) (fun _ => Iff.rfl) (fun _ _ h => h) (fun _ _ h => h.2)
    (wp_call opts c.2 s)
  boot s hs := by
    refine wp_mono ?_ (wp_openStore opts (D := fun s => ManifestsOk S s.manifests)
      (fun _ _ hb h => hb.manifests S h) (fun _ => Iff.rfl) (fun _ _ h => h) (fun _ _ => trivial) hs)
    intro b w h hb
    obtain ⟨hm, ho⟩ := h hb
    obtain ⟨acked, files, hghost⟩ := ho.ghost
    refine ⟨⟨?_, hm, ?_, ?_, False.elim⟩, fun _ => trivial, fun _ => trivial⟩
    · simp [ho.gate]
    · simp [hghost, Ghost.initial]
    · simp [hghost, Ghost.initial]
  crash_up _ _ _ hc := hc.elim
  crash_down _ _ _ hc := hc.elim

theorem gcStore_up_of_step {opts : StoreOptions} {S : Set Bytes} {a b : Config (gcStore opts S)}
    {l : Label (gcStore opts S)} (h : (gcStore opts S).Step a l b) (hup : a.mode = .up) :
    b.mode = .up := by
  cases h with
  | start c hc => rfl
  | act t e ht hp => rfl
  | boot e hp => cases hup
  | ready b => cases hup
  | crash hc => exact hc.elim

/-- From the moment `CreateNode` or `Pin` returned `Ok` with a complete closure, and as long as a
node row or a pin names the snapshot, its closure stays complete, whatever else runs. -/
theorem closure_kept_while_rooted (opts : StoreOptions) (S : Set Bytes) (hS : CollisionFree S)
    {a b c : Config (gcStore opts S)} {l : Label (gcStore opts S)} {t : Tid}
    {call : (gcStore opts S).Call} {reply : Reply} {r : SnapshotRef}
    (hrun : (gcStore opts S).Reach (fun _ _ _ => True) ((gcStore opts S).initial World.empty) a)
    (hstep : (gcStore opts S).Step a l b) (hret : Machine.Returns a b t call reply)
    (hroot : RootsAt call.1 reply r) (hcomplete : ClosureComplete S b.store r)
    (hrooted : (gcStore opts S).Reach (fun _ s s' => s.db.HasRow r ∧ s'.db.HasRow r) b c) :
    ClosureComplete S c.store r := by
  have h₀ : (gcOutline opts S hS).down World.empty := ManifestsOk.empty
  have hup : b.mode = .up :=
    gcStore_up_of_step hstep ((Outline.good_of_reach h₀ hrun).up_of_return hret)
  have hprot : Protected b.store r :=
    ((gcOutline opts S hS).post_of_return h₀ hrun hstep trivial hret).protected hroot
  -- Every later step keeps the closure and what protects it.
  have hkeep : c.mode = .up ∧ ClosureComplete S c.store r ∧ Protected c.store r := by
    have hb : (gcStore opts S).Reach (fun _ _ _ => True)
        ((gcStore opts S).initial World.empty) b := .step hrun hstep trivial
    induction hrooted with
    | refl => exact ⟨hup, hcomplete, hprot⟩
    | @step c c' l hr hs hrow ih =>
      obtain ⟨hcup, hcc, hcp⟩ := ih
      have hc' := gcStore_up_of_step hs hcup
      have hreach := hb.trans (hr.mono fun _ _ _ _ => trivial)
      refine ⟨hc', ?_⟩
      rcases (gcOutline opts S hS).guar_of_step h₀ hreach hs trivial hcup hc' with heq | ⟨d, u, hg⟩
      · exact heq ▸ ⟨hcc, hcp⟩
      · exact hg.keeps (admissible_index hS _ _) r hrow.1 hrow.2 hcc hcp
  exact hkeep.2.1

end Store

section Run

attribute [local instance] Sample.primitives

open Sample

theorem Sample.collisionFree {c : Bytes} (h : 32 < c.length) (h' : c.length < 256 ^ 8) :
    CollisionFree {c} := by
  rintro _ _ m m' rfl rfl - - b hb hr
  have hlen : ∀ b : Bytes, b.length < 256 ^ 8 →
      leNat ((Manifest.snapshotRef b).bytes.take 8) = b.length - 32 := by
    intro b hb
    have htake : (Manifest.snapshotRef b).bytes.take 8 = leBytes 8 (b.length - 32) := by
      simp only [Manifest.snapshotRef, Manifest.footerLen, blake3, Digest.ofBytes, padTo]
      rw [List.take_append_of_le_length (by simp), List.take_take, List.length_take,
        Nat.min_eq_left (by omega), List.take_left' (by simp), Nat.min_eq_left (by omega)]
    rw [htake, leNat_leBytes (by omega)]
  have hle := hb.length_le
  have hb' := hlen b (by omega)
  rw [hr, hlen _ h'] at hb'
  exact hb.eq_of_length (by omega)

abbrev rootStore : Machine Oracle World := gcStore options {container}

instance : DecidableRel rootStore.overlap :=
  inferInstanceAs (DecidableRel (concurrentStore _ _ _).overlap)

def pinning : List (Cmd rootStore) :=
  [.boot quiet 100, .ready, .start ⟨.ingest [page 7], trivial⟩, .run 0 quiet 1000,
    .start ⟨.putSnapshot container, rfl⟩, .run 1 quiet 1000, .start ⟨.pin ref none, trivial⟩,
    .run 2 quiet 6]

def pinned (c : rootStore.Call) (r : rootStore.Reply) : Bool :=
  match c.1, r with
  | .pin q _, .pin (.ok _) => q = ref
  | _, _ => false

theorem rootsAt_of_pinned {c : rootStore.Call} {r : rootStore.Reply} (h : pinned c r = true) :
    RootsAt c.1 r ref := by
  unfold pinned at h
  split at h
  · next hc => simpa [RootsAt, hc] using h
  · cases h

theorem closure_kept_by_cycle : ∃ b c : Config rootStore,
    ClosureComplete {container} b.store ref ∧
    rootStore.Reach (fun _ s s' => s.db.HasRow ref ∧ s'.db.HasRow ref) b c ∧
    Machine.replied 3 (fun _ _ => true) c = true ∧ ClosureComplete {container} c.store ref := by
  have hcomp : ((rootStore.execAll (fun _ _ => true) pinning (rootStore.initial World.empty)).any
      fun a => Machine.running 2 a && (rootStore.runThread (fun _ _ => true) 2 quiet 1 a).any
      fun b => Machine.replied 2 pinned b &&
        decide (Stored b.store ref ∧ Indexed b.store (hash 7)) &&
        (rootStore.execAll (fun s s' => decide (s.db.HasRow ref ∧ s'.db.HasRow ref))
          [.start ⟨.gcCycle cycle, trivial⟩, .run 3 quiet 1000] b).any
        fun c => Machine.replied 3 (fun _ _ => true) c) = true := by
    decide +kernel
  simp only [Option.any_eq_true, Bool.and_eq_true, decide_eq_true_eq] at hcomp
  obtain ⟨a, ha, hrun, b, hb, ⟨hpin, hst, hix⟩, c, hc, hdone⟩ := hcomp
  have hnamed : Named {container} ref [hash 7] none :=
    ⟨container, full [hash 7], rfl, rfl, by decide +kernel, rfl, rfl⟩
  have hcomplete : ClosureComplete {container} b.store ref :=
    .full hnamed hst (by simpa using hix)
  have hreach : rootStore.Reach (fun _ _ _ => True) (rootStore.initial World.empty) a :=
    Machine.reach_of_execAll (by simp [pinning, Machine.Meets]) ha
  obtain ⟨hstep, call, reply, hret, hpinned⟩ := Machine.returns_of_runThread hb hrun hpin
  have hkept : rootStore.Reach (fun _ s s' => s.db.HasRow ref ∧ s'.db.HasRow ref) b c :=
    Machine.reach_of_execAll (by simp [Machine.Meets]) hc
  exact ⟨b, c, hcomplete, hkept, hdone, closure_kept_while_rooted options {container}
    (Sample.collisionFree (by decide +kernel) (by decide +kernel)) hreach hstep hret
    (rootsAt_of_pinned hpinned) hcomplete hkept⟩

end Run

end SnapStore
