import SnapStore.Store.PutAlone

/-!
# Accepted chains

`put_snapshot` looks at one link of a chain, while `resolve_pages` and the mark walk follow it to
its FULL root and give up after 4096 manifests.  What is accepted is stored with its whole chain;
whether it can be used depends on the length of the chain.
-/

namespace SnapStore

open Disk Conc SnapshotStore

section Sequences

variable [Primitives]

/-! ## Sequences of calls -/

def Commits : Call → Prop
  | .putSnapshot _ | .ingest _ | .rotate | .sync | .getBatch _ => True
  | _ => False

/-- A store without garbage collection that serves one call after the other. -/
abbrev commitStore (opts : StoreOptions) : Machine Oracle World :=
  sequentialStore opts Commits fun _ _ => False

def anyStep {M : Machine Oracle World} : Label M → World → World → Prop := fun _ _ _ => True

def Accepted {opts : StoreOptions} (c : Config (commitStore opts)) (r : SnapshotRef) : Prop :=
  ∃ (t : Tid) (d : (commitStore opts).Call),
    c.threads[t]? = some ⟨d, .ret (.putSnapshot (.ok r))⟩

def Filed : Reply → World → Prop
  | .putSnapshot (.ok r), s => ∃ m, manifestAt s r = some m
  | _, _ => True

theorem Retains.filed {s s' : World} (h : Retains s s') {res : Reply} (hs : Filed res s) :
    Filed res s' := by
  unfold Filed at hs ⊢
  split
  · next r =>
    obtain ⟨m, hm⟩ := hs
    exact ⟨m, h r m hm⟩
  · trivial

theorem wp_alone_call {opts : StoreOptions} {s : World} (t : Tid) {d : Call} (hd : Commits d) :
    wp aloneRules (d.run opts t) (fun res w => Filed res w) s := by
  have hstill : ∀ {E α : Type} {x : ExceptT E P α} {k : Except E α → Reply}
      (_ : ∀ res w, Filed (k res) w) (_ : Within Frame x.run),
      wp aloneRules (do return k (← x.run)) (fun res w => Filed res w) s := by
    intro E α x k hk hx
    refine wp_bind (wp_mono (fun res w _ => hk res w) (wp_alone_still (A := fun _ => True)
      (hx.mono fun _ _ => Frame.still) (fun _ _ _ _ => trivial) trivial))
  cases d with
  | putSnapshot c =>
    refine wp_bind (wp_mono (fun res w hw => ?_) (wp_alone_putSnapshot t c))
    cases res with
    | ok r => exact hw r rfl
    | error e => trivial
  | ingest pages => exact hstill (fun _ _ => trivial) (PageStore.frame_ingest opts t pages)
  | rotate => exact hstill (fun _ _ => trivial) (PageStore.frame_rotateActive opts t)
  | sync => exact hstill (fun _ _ => trivial) (PageStore.frame_sync t)
  | getBatch hs => exact hstill (fun _ _ => trivial) (PageStore.frame_getBatch t hs)
  | _ => exact hd.elim

theorem beside_openStore (opts : StoreOptions) : Within Beside (openStore opts) := by
  refine within_openStore (fun _ => .of_eq rfl) (fun s r => ?_) (fun _ _ h => .of_eq h.manifests) opts
    fun _ _ _ _ => .of_eq rfl
  exact fun hu => (FileSys.SameBut.unlink hu (.tmp r)).mono fun n hn => ⟨r, hn⟩

def commitOutline (opts : StoreOptions) : Outline (commitStore opts) anyStep where
  inv := ChainsOk
  down := ChainsOk
  rely _ _ := Eq
  guar _ _ := Retains
  post _ _ res s := Filed res s
  idle _ _ := True
  rely_refl _ _ _ := rfl
  rely_trans _ _ _ _ _ := Eq.trans
  guar_rely _ _ _ _ _ _ _ h := h.elim
  guar_idle _ _ _ _ _ _ _ _ _ := trivial
  body c t s _ _ _ _ := wp_alone_call t c.2
  boot s hs := by
    refine wp_mono (fun _ w hw _ => ⟨hw, fun _ => trivial, fun _ => trivial⟩)
      ((beside_openStore opts).wp (fun s t h hr _ => ?_) hs fun _ w u hi hw _ hb => ?_)
    · obtain rfl : s = t := hr
      exact h
    · exact ⟨hb.chainsOk hi, trivial, hb.chainsOk hi⟩
  crash_up _ _ _ h := h.elim
  crash_down _ _ _ h := h.elim

theorem chainsOk_empty : ChainsOk World.empty := by
  refine ⟨.empty, fun r hr => ?_⟩
  exact absurd hr (by simp [Stored, hasManifest, World.empty, FileSys.lookup, FileSys.empty])

theorem filed_of_reach {opts : StoreOptions} {c : Config (commitStore opts)}
    (h : (commitStore opts).Reach anyStep ((commitStore opts).initial World.empty) c) :
    ChainsOk c.store ∧ ∀ r, Accepted c r → ∃ m, manifestAt c.store r = some m := by
  have hstart : (commitOutline opts).Good ((commitStore opts).initial World.empty) :=
    ⟨chainsOk_empty, rfl, (commitOutline opts).boot _ chainsOk_empty⟩
  constructor
  · have hg := hstart.reach h
    obtain ⟨s, mode, ts⟩ := c
    cases mode with
    | up => exact hg.inv
    | booting p => exact hg.1
    | down => exact hg.1
  · intro r hr
    obtain ⟨t, d, ht⟩ := hr
    exact hstart.returned (R := fun _ res s => Filed res s) (fun _ _ _ _ => id)
      (fun _ _ _ _ _ _ _ hg => Retains.filed hg) rfl h t d _ ht

/-- A snapshot that was accepted has its whole chain stored.  It is resolved exactly if the chain
has at most 4096 manifests, and a mark over such snapshots succeeds, in any order and from any
marks. -/
theorem accepted_chains_usable (opts : StoreOptions) {c : Config (commitStore opts)}
    (h : (commitStore opts).Reach anyStep ((commitStore opts).initial World.empty) c) :
    (∀ r, Accepted c r → ∃ l, Chain c.store r l ∧ ∀ cache,
      twp Oracle.Quiet (resolvePages cache r none true).run (fun res _ =>
        (l.length ≤ SnapshotStore.maxChain → ∃ out, res = .ok out) ∧
        (SnapshotStore.maxChain < l.length → res = .error .chainDepthExceeded)) c.store) ∧
    ∀ roots, (∀ r ∈ roots, Accepted c r ∧
      ∀ l, Chain c.store r l → l.length ≤ SnapshotStore.maxChain) → ∀ st,
      twp Oracle.Quiet (Gc.mark roots st).run (fun res _ => ∃ st', res = .ok st') c.store := by
  obtain ⟨hchains, hfiled⟩ := filed_of_reach h
  have hstored : ∀ r, Accepted c r → Stored c.store r := by
    intro r hr
    obtain ⟨m, hm⟩ := hfiled r hr
    exact .of_manifestAt hm
  constructor
  · intro r hr
    obtain ⟨l, ram, hl, hram⟩ := hchains.chains r (hstored r hr)
    exact ⟨l, hl, fun cache => twp_resolvePages hl hram cache true⟩
  · intro roots hroots st
    refine twp_mono (fun res t ht => ?_) (twpE_mark_stored (fun r hr _ => ?_) st)
    · cases res with
      | ok st' => exact ⟨st', rfl⟩
      | error e => exact ht.elim
    · obtain ⟨hacc, hlen⟩ := hroots r hr
      obtain ⟨l, -, hl, -⟩ := hchains.chains r (hstored r hacc)
      exact ⟨l, hl, hlen l hl⟩

end Sequences

/-! ## A chain of any length -/

namespace Sample

attribute [local instance] primitives

/-- The manifests of one long chain, without pages: a FULL root and DELTA manifests over it, which
differ in the length of the device blob. -/
def link : Nat → Manifest
  | 0 => ⟨1, false, none, 0, [], ⟨0, false, [], 0⟩⟩
  | n + 1 => ⟨1, true, some (Manifest.snapshotRef (link n).encode), 0, [],
      ⟨0, false, List.replicate (n + 1) 0, n + 1⟩⟩

def linkRef (n : Nat) : SnapshotRef := Manifest.snapshotRef (link n).encode

theorem parent_link (n : Nat) : (link (n + 1)).parent = some (linkRef n) := rfl

theorem snapshotRef_encode (m : Manifest) : Manifest.snapshotRef m.encode = blake3 m.body := by
  rw [Manifest.snapshotRef, Manifest.encode, List.length_append, (blake3 m.body).length_bytes,
    Manifest.footerLen, Nat.add_sub_cancel, List.take_left]

theorem length_link_body (n : Nat) : (link n).body.length = 96 + n := by
  rw [Manifest.length_body]
  cases n with
  | zero => rfl
  | succ n => simp [link, Manifest.headerLen]

theorem leNat_linkRef {n : Nat} (hn : n < 2 ^ 32) :
    leNat ((linkRef n).bytes.take 8) = 96 + n := by
  have hbytes : (linkRef n).bytes.take 8 = leBytes 8 (96 + n) := by
    rw [linkRef, snapshotRef_encode, ← length_link_body n]
    have hlong : 8 ≤ ((leBytes 8 (link n).body.length ++ (link n).body).take 32).length := by
      rw [List.length_take, List.length_append, length_leBytes]
      omega
    show (padTo ((leBytes 8 _ ++ _).take 32) 32).take 8 = _
    rw [padTo, List.take_append_of_le_length hlong, List.take_take, Nat.min_eq_left (by decide)]
    exact List.take_left' (length_leBytes _ _)
  rw [hbytes, leNat_leBytes]
  omega

theorem linkRef_injective {i j : Nat} (hi : i < 2 ^ 32) (hj : j < 2 ^ 32)
    (h : linkRef i = linkRef j) : i = j := by
  have hlen := leNat_linkRef hi
  rw [h, leNat_linkRef hj] at hlen
  omega

theorem linkRef_ne_zero {n : Nat} (hn : n < 2 ^ 32) : (linkRef n).bytes ≠ Manifest.zeroHash := by
  intro h
  have hlen := leNat_linkRef hn
  rw [h] at hlen
  have hzero : leNat (Manifest.zeroHash.take 8) = 0 := rfl
  omega

theorem wellFormed_link {n : Nat} (hn : n < 2 ^ 32) : (link n).WellFormed := by
  cases n with
  | zero =>
    refine ⟨⟨?_, ?_, ?_, ?_, ?_, ?_⟩, rfl, rfl, rfl, ?_, ?_, ?_, ?_, rfl⟩
    all_goals simp [link]
  | succ n =>
    refine ⟨⟨?_, ?_, ?_, ?_, ?_, ?_⟩, rfl, rfl, rfl, ?_, ?_, ?_, ?_, ?_⟩
    case refine_7 => exact fun _ => ⟨linkRef n, rfl, linkRef_ne_zero (by omega)⟩
    case refine_11 => simp [link, Manifest.checkBlob]
    all_goals simp [link]
    all_goals omega

structure Linked (n : Nat) (s : World) : Prop where
  calm : Calm s
  files : s.manifests.Unaliased
  stored : ∀ i < n, s.manifests.readName (.spm (linkRef i)) = some (link i).encode
  fresh : ∀ q, Stored s q → ∃ i < n, q = linkRef i

theorem Linked.manifestAt {n i : Nat} {s : World} (h : Linked n s) (hn : n ≤ 2 ^ 32) (hi : i < n) :
    manifestAt s (linkRef i) = some (link i) := by
  have hdecode := Manifest.decode_encode (wellFormed_link (n := i) (by omega))
  exact manifestAt_eq_some.mpr ⟨_, h.stored i hi, verifyManifest_of_decode hdecode, hdecode⟩

theorem Linked.chain {n i : Nat} {s : World} (h : Linked n s) (hn : n ≤ 2 ^ 32) (hi : i < n) :
    ∃ l, Chain s (linkRef i) l ∧ l.length = i + 1 := by
  induction i with
  | zero => exact ⟨_, .root (h.manifestAt hn hi) rfl, rfl⟩
  | succ i ih =>
    obtain ⟨l, hl, hlen⟩ := ih (by omega)
    exact ⟨_, .child (h.manifestAt hn hi) (parent_link i) hl, by rw [List.length_cons, hlen]⟩

theorem moves_of_put {t : Tid} {c : Bytes} {r : SnapshotRef} {A : World → Prop} {s : World}
    (h : twpE Oracle.Quiet (fun _ _ => False) (putSnapshot t c) (fun q u => q = r ∧ A u) s) :
    ∃ u, Moves quiet (putSnapshot t c).run s (.ret (.ok r)) u ∧ A u := by
  have hquiet : quiet.Quiet := fun _ _ => rfl
  obtain ⟨res, u, hmoves, hres⟩ := Moves.of_twp hquiet h
  cases res with
  | error e => exact hres.elim
  | ok q =>
    obtain ⟨rfl, hu⟩ := hres
    exact ⟨u, hmoves, hu⟩

theorem Linked.put {n : Nat} {s : World} (h : Linked n s) (hn : n < 2 ^ 32) (t : Tid) :
    ∃ u, Moves quiet (putSnapshot t (link n).encode).run s (.ret (.ok (linkRef n))) u ∧
      Linked (n + 1) u := by
  have hnew : ¬ Stored s (linkRef n) := by
    intro hst
    obtain ⟨i, hi, heq⟩ := h.fresh _ hst
    have := linkRef_injective hn (by omega) heq
    omega
  have hparent : ParentReady (link n) s := by
    intro p hp
    cases n with
    | zero => cases hp
    | succ n =>
      rw [parent_link, Option.some.injEq] at hp
      subst hp
      refine ⟨link n, h.manifestAt (by omega) (by omega), ?_⟩
      cases n <;> rfl
  have hpages : ∀ k ∈ hashesOf (link n), Indexed s k := by
    cases n <;> simp [link, hashesOf]
  have hdecode := Manifest.decode_encode (wellFormed_link hn)
  have href : Manifest.snapshotRef (link n).encode = linkRef n := rfl
  generalize hc : (link n).encode = c at hdecode href ⊢
  rw [← href] at hnew
  obtain ⟨u, hmoves, hu⟩ := moves_of_put
    (twpE_putSnapshot_calm t h.calm h.files hdecode hparent hpages hnew)
  rw [href] at hmoves hu
  refine ⟨u, hmoves, ⟨hu.idle, hu.epoch.trans h.calm.epoch⟩, hu.files, fun i hi => ?_,
    fun q hq => ?_⟩
  · by_cases heq : i = n
    · subst heq
      rw [hc]
      exact hu.self
    · have hne : linkRef i ≠ linkRef n := fun hr => heq (linkRef_injective (by omega) hn hr)
      exact (hu.other _ hne).trans (h.stored i (by omega))
  · by_cases heq : q = linkRef n
    · exact ⟨n, by omega, heq⟩
    · rw [stored_iff_readName, hu.other q heq, ← stored_iff_readName] at hq
      obtain ⟨i, hi, hqi⟩ := h.fresh q hq
      exact ⟨i, by omega, hqi⟩

def opened (s : World) : Bool :=
  decide (s.activeLock = none ∧ s.gate.writer = none ∧ s.commit.flushing = false ∧ s.epoch = none ∧
    (∀ p ∈ s.active.dirtySinceSync.insert s.active.packId,
      (s.pages.lookup (.spk p)).isSome = true) ∧ s.manifests.names = [])

theorem linked_of_opened {s : World} (h : opened s = true) : Linked 0 s := by
  obtain ⟨hlock, hgate, hflush, hepoch, hlinked, hnames⟩ := of_decide_eq_true h
  refine ⟨⟨⟨hlock, hgate, hflush, hlinked⟩, hepoch⟩, .of_names_eq_nil hnames, by simp, ?_⟩
  intro q hq
  have hmem := FileSys.mem_names.mpr hq
  rw [hnames] at hmem
  cases hmem

def putLink (n : Nat) : (commitStore options).Call := ⟨.putSnapshot (link n).encode, trivial⟩

theorem linked_reach {n : Nat} (hn : n ≤ 2 ^ 32) :
    ∃ s ts, (commitStore options).Reach anyStep ((commitStore options).initial World.empty)
      ⟨s, .up, ts⟩ ∧ (∀ th ∈ ts, th.prog.isDone = true) ∧ Linked n s ∧
      ∀ i < n, Accepted (⟨s, .up, ts⟩ : Config (commitStore options)) (linkRef i) := by
  induction n with
  | zero =>
    have hcomp : (((commitStore options).execAll (fun _ _ => true) [.boot quiet 100, .ready]
        ((commitStore options).initial World.empty)).any fun c =>
        opened c.store && c.threads.isEmpty && c.mode.isUp) = true := by
      decide +kernel
    rw [Option.any_eq_true] at hcomp
    obtain ⟨⟨s, mode, ts⟩, hrun, hc⟩ := hcomp
    simp only [Bool.and_eq_true, List.isEmpty_iff] at hc
    obtain ⟨⟨hopened, rfl⟩, hmode⟩ := hc
    cases mode with
    | booting p => cases hmode
    | down => cases hmode
    | up =>
      refine ⟨s, [], Machine.reach_of_execAll (fun cmd hcmd => ?_) hrun, by simp,
        linked_of_opened hopened, by simp⟩
      simp only [List.mem_cons, List.not_mem_nil, or_false] at hcmd
      rcases hcmd with rfl | rfl
      · exact fun _ _ _ => trivial
      · exact fun _ _ => trivial
  | succ n ih =>
    obtain ⟨s, ts, hreach, hdone, hlinked, hacc⟩ := ih (by omega)
    obtain ⟨u, hmoves, hu⟩ := hlinked.put (by omega) ts.length
    have hbody : Moves quiet ((commitStore options).body ts.length (putLink n)) s
        (.ret (.putSnapshot (.ok (linkRef n)))) u := hmoves.bind _
    have hadmits : (commitStore options).Admits (putLink n) ts := by
      intro th hth hrun
      rw [hdone th hth] at hrun
      cases hrun
    have hnext := Machine.reach_of_start hreach hadmits trivial (fun _ _ => trivial) hbody
    refine ⟨u, _, hnext, fun th hth => ?_, hu, fun i hi => ?_⟩
    · rcases List.mem_append.mp hth with hth | hth
      · exact hdone th hth
      · rw [List.mem_singleton.mp hth]
        rfl
    · by_cases heq : i = n
      · subst heq
        exact ⟨ts.length, putLink i, by simp⟩
      · obtain ⟨t, d, ht⟩ := hacc i (by omega)
        refine ⟨t, d, ?_⟩
        rw [List.getElem?_append_left (List.getElem?_eq_some_iff.mp ht).1]
        exact ht

theorem accepted_chains_usable_two : ∃ c : Config (commitStore options),
    (commitStore options).Reach anyStep ((commitStore options).initial World.empty) c ∧
    ∃ r l, Accepted c r ∧ Chain c.store r l ∧ l.length = 2 ∧
      (∀ cache, twp Oracle.Quiet (resolvePages cache r none true).run
        (fun res _ => ∃ out, res = .ok out) c.store) ∧
      twp Oracle.Quiet (Gc.mark [r] (⟨[], []⟩, .zero)).run (fun res _ => ∃ st, res = .ok st)
        c.store := by
  obtain ⟨s, ts, hreach, -, hlinked, hacc⟩ := linked_reach (n := 2) (by decide)
  obtain ⟨l, hl, hlen⟩ := hlinked.chain (i := 1) (by decide) (by decide)
  have hmax : l.length ≤ SnapshotStore.maxChain := by
    rw [hlen]
    decide
  obtain ⟨hresolve, hmark⟩ := accepted_chains_usable options hreach
  refine ⟨⟨s, .up, ts⟩, hreach, linkRef 1, l, hacc 1 (by decide), hl, hlen, fun cache => ?_, ?_⟩
  · obtain ⟨l', hl', hres⟩ := hresolve (linkRef 1) (hacc 1 (by decide))
    obtain rfl := hl.unique hl'
    exact twp_mono (fun _ _ h => h.1 hmax) (hres cache)
  · refine hmark [linkRef 1] (fun r hr => ?_) _
    obtain rfl := List.mem_singleton.mp hr
    refine ⟨hacc 1 (by decide), fun l' hl' => ?_⟩
    obtain rfl := hl.unique hl'
    exact hmax

/-- A chain of 4097 manifests is accepted, but it can be neither resolved nor marked. -/
theorem long_chain_unusable : ∃ c : Config (commitStore options),
    (commitStore options).Reach anyStep ((commitStore options).initial World.empty) c ∧
    ∃ r, Accepted c r ∧
      (∀ cache, twp Oracle.Quiet (resolvePages cache r none true).run
        (fun res _ => res = .error .chainDepthExceeded) c.store) ∧
      twp Oracle.Quiet (Gc.mark [r] (⟨[], []⟩, .zero)).run
        (fun res _ => res = .error .chainDepthExceeded) c.store := by
  obtain ⟨s, ts, hreach, -, hlinked, hacc⟩ := linked_reach (n := SnapshotStore.maxChain + 1) (by decide)
  obtain ⟨l, hl, hlen⟩ := hlinked.chain (i := SnapshotStore.maxChain) (by decide) (by decide)
  have hacc' := hacc SnapshotStore.maxChain (Nat.lt_succ_self _)
  have hlong : SnapshotStore.maxChain < l.length := by
    rw [hlen]
    exact Nat.lt_succ_self _
  refine ⟨⟨s, .up, ts⟩, hreach, linkRef SnapshotStore.maxChain, hacc', fun cache => ?_, ?_⟩
  · obtain ⟨hchains, -⟩ := filed_of_reach hreach
    obtain ⟨l', ram, hl', hram⟩ := hchains.chains _ (.of_manifestAt
      (hlinked.manifestAt (by decide) (Nat.lt_succ_self _)))
    obtain rfl := hl.unique hl'
    exact twp_mono (fun _ _ h => h.2 hlong) (twp_resolvePages hl hram cache true)
  · refine twp_bind (twp_mono (fun res t h => ?_)
      (twp_markChain hl SnapshotStore.maxChain true ⟨[], []⟩ .zero))
    rw [h.2.2 hlong (by simp)]
    exact rfl

end Sample

end SnapStore
