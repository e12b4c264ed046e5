import SnapStore.Pagestore.Ingest
import SnapStore.Store.PutAlone
import SnapStore.System

/-!
# Rejected puts

What a put that runs alone has done when it rejects its container.  The checks on the container
itself come before anything is written; the closure of its reference is validated after its
manifest has been published, and during an epoch only.
-/

namespace SnapStore

open Disk Conc SnapshotStore

def PutError.Rejects : PutError → Prop
  | .manifest _ | .unknownParent _ | .parentRamMismatch | .missingPages _ => True
  | .io _ | .pageStore _ => False

section Store

variable [Primitives]

/-! ## The checks -/

section Checks

variable {may : Oracle → Prop} {s : World}

theorem twp_readManifest (r : SnapshotRef) :
    twp may (readManifest r).run (fun res u => u = s ∧
      (∀ m, res = .ok m → manifestAt s r = some m) ∧ ∀ h, res ≠ .error (.missingPage h)) s := by
  refine twp_bind (twp_mono (fun res u hu => ?_) (twp_readManifestBytes r))
  obtain ⟨rfl, hok, hne⟩ := hu
  cases res with
  | error e => exact ⟨rfl, nofun, fun h he => hne h (by cases he; rfl)⟩
  | ok b =>
    obtain ⟨hread, hverify⟩ := hok b rfl
    refine twp_ret ⟨rfl, fun m hm => ?_, fun h he => ?_⟩
    · cases hd : Manifest.decode b with
      | error e =>
        rw [hd] at hm
        cases hm
      | ok m' =>
        rw [hd] at hm
        cases hm
        exact manifestAt_eq_some.mpr ⟨b, hread, hverify, hd⟩
    · cases hd : Manifest.decode b <;> rw [hd] at he <;> cases he

inductive NamedBelow (s : World) (h : PageHash) : SnapshotRef → Prop where
  | here {r : SnapshotRef} {m : Manifest} (hm : manifestAt s r = some m) (hh : h ∈ hashesOf m) :
      NamedBelow s h r
  | parent {r p : SnapshotRef} {m : Manifest} (hm : manifestAt s r = some m)
      (hp : m.parent = some p) (hn : NamedBelow s h p) : NamedBelow s h r

theorem twp_validateClosure (fuel : Nat) (r : SnapshotRef) :
    twp may (validateClosure fuel r).run (fun res u => u = s ∧
      ∀ h, res = .error (.missingPage h) → ¬ Indexed s h ∧ NamedBelow s h r) s := by
  induction fuel generalizing r with
  | zero => exact ⟨rfl, fun _ he => by cases he⟩
  | succ fuel ih =>
    refine twp_bind (twp_mono (fun res u hu => ?_) (twp_readManifest r))
    obtain ⟨rfl, hok, hne⟩ := hu
    cases res with
    | error e => exact ⟨rfl, fun h he => absurd (by cases he; rfl) (hne h)⟩
    | ok m =>
      have hm := hok m rfl
      refine twp_seqE (twpE_containsBatch (hashesOf m)) fun present v hv => ?_
      obtain ⟨rfl, rfl⟩ := hv
      rw [missingOf_map]
      split
      · next k _ hk =>
        refine ⟨rfl, fun h he => ?_⟩
        cases he
        have hmem : k ∈ (hashesOf m).filter fun h => !(v.index.get h).isSome := by
          rw [hk]
          exact List.mem_cons_self
        obtain ⟨hin, habsent⟩ := List.mem_filter.mp hmem
        exact ⟨by simpa [Indexed] using habsent, .here hm hin⟩
      · split
        · split
          · next p hp =>
            refine twp_mono (fun res u hu => ⟨hu.1, fun h he => ?_⟩) (ih p)
            obtain ⟨habsent, hbelow⟩ := hu.2 h he
            exact ⟨habsent, .parent hm hp hbelow⟩
          · exact ⟨rfl, fun _ he => by cases he⟩
        · exact ⟨rfl, fun _ he => by cases he⟩

theorem NamedBelow.mono {s' : World} {h : PageHash} {r : SnapshotRef} (hk : Retains s s')
    (hn : NamedBelow s h r) : NamedBelow s' h r := by
  induction hn with
  | here hm hh => exact .here (hk _ _ hm) hh
  | parent hm hp _ ih => exact .parent (hk _ _ hm) hp ih

end Checks

/-! ## What a rejected put leaves -/

structure Bare (s u : World) : Prop where
  manifests : u.manifests = s.manifests
  index : u.index = s.index
  epoch : u.epoch = s.epoch
  total : u.manifestsTotal = s.manifestsTotal
  bytes : u.logicalPageBytes = s.logicalPageBytes

/-- The container has been stored and counted, and no other manifest has changed. -/
structure Added (c : Bytes) (m : Manifest) (s u : World) : Prop where
  new : ¬ Stored s (Manifest.snapshotRef c)
  stored : ∀ q, Stored u q ↔ Stored s q ∨ q = Manifest.snapshotRef c
  self : u.manifests.readName (.spm (Manifest.snapshotRef c)) = some c
  other : s.manifests.Unaliased → ∀ q, q ≠ Manifest.snapshotRef c →
    u.manifests.readName (.spm q) = s.manifests.readName (.spm q)
  total : u.manifestsTotal = s.manifestsTotal + 1
  bytes : u.logicalPageBytes = s.logicalPageBytes + UInt64.ofNat m.guestRamBytes

structure SameManifests (s u : World) : Prop where
  manifests : u.manifests = s.manifests
  total : u.manifestsTotal = s.manifestsTotal
  bytes : u.logicalPageBytes = s.logicalPageBytes

structure LateReject (c : Bytes) (m : Manifest) (e : PutError) (s u : World) : Prop where
  epoch : s.epoch ≠ none
  index : u.index = s.index
  gaps : ∀ l, e = .missingPages l → ∀ h ∈ l,
    ¬ Indexed u h ∧ NamedBelow u h (Manifest.snapshotRef c)
  effect : SameManifests s u ∨ Added c m s u

section Effects

variable {s s' u u' : World} {c : Bytes} {m : Manifest} {e : PutError} {t : Tid} {r : SnapshotRef}
  {may : Oracle → Prop}

omit [Primitives] in
theorem Bare.refl (s : World) : Bare s s := ⟨rfl, rfl, rfl, rfl, rfl⟩

omit [Primitives] in
theorem Bare.trans (h : Bare s s') (h' : Bare s' u) : Bare s u :=
  ⟨h'.manifests.trans h.manifests, h'.index.trans h.index, h'.epoch.trans h.epoch,
    h'.total.trans h.total, h'.bytes.trans h.bytes⟩

omit [Primitives] in
theorem Bare.stored_iff (h : Bare s u) (r : SnapshotRef) : Stored u r ↔ Stored s r := by
  rw [Stored, hasManifest, h.manifests]
  rfl

theorem Bare.retains (h : Bare s u) : Retains s u := by
  intro r m hm
  rwa [manifestAt_congr h.manifests]

omit [Primitives] in
theorem bare_barrier (t : Tid) (hs : List PageHash) :
    Within Bare (barrier t hs (PageStore.sync t)).run := by
  refine within_barrier (fun s u h => ?_) t hs ((PageStore.syncMove_sync t).mono fun s u h => ?_)
  · obtain ⟨_, _, _, rfl⟩ := h
    exact ⟨rfl, rfl, rfl, rfl, rfl⟩
  · obtain ⟨_, _, _, _, _, _, rfl⟩ := h
    exact ⟨rfl, rfl, rfl, rfl, rfl⟩

theorem LateReject.of_bare (h : LateReject c m e s' u') (hs : Bare s s') (hu : Bare u' u) :
    LateReject c m e s u where
  epoch := by
    rw [← hs.epoch]
    exact h.epoch
  index := (hu.index.trans h.index).trans hs.index
  gaps l hl k hk := by
    obtain ⟨habsent, hbelow⟩ := h.gaps l hl k hk
    rw [Indexed, hu.index]
    exact ⟨habsent, hbelow.mono hu.retains⟩
  effect := by
    rcases h.effect with hsame | hadd
    · exact .inl ⟨(hu.manifests.trans hsame.manifests).trans hs.manifests,
        (hu.total.trans hsame.total).trans hs.total, (hu.bytes.trans hsame.bytes).trans hs.bytes⟩
    · refine .inr ⟨?_, fun q => ?_, ?_, fun hun q hq => ?_, ?_, ?_⟩
      · rw [← hs.stored_iff]
        exact hadd.new
      · rw [hu.stored_iff, hadd.stored, hs.stored_iff]
      · rw [hu.manifests]
        exact hadd.self
      · rw [hu.manifests, hadd.other (by rw [hs.manifests]; exact hun) q hq, hs.manifests]
      · rw [hu.total, hadd.total, hs.total]
      · rw [hu.bytes, hadd.bytes, hs.bytes]

theorem twp_registerLiveRef (t : Tid) (hr : Stored s r) :
    twp may (registerLiveRef t r).run (fun res u =>
      (∃ ep g, u = { s with epoch := ep, ghost := g }) ∧ ∀ e, res = .error e → s.epoch ≠ none ∧
        ∀ h, e = .missingPage h → ¬ Indexed u h ∧ NamedBelow u h r) s := by
  cases hep : s.epoch with
  | none =>
    have hok : twpE may (fun _ _ => False) (registerLiveRef t r) _ s :=
      twpE_registerLiveRef_calm t hep hr
    refine twp_mono (fun res u hu => ?_) hok
    cases res with
    | error e => exact hu.elim
    | ok x =>
      obtain ⟨g, rfl⟩ := hu
      exact ⟨⟨_, _, rfl⟩, nofun⟩
  | some late =>
    refine twp_bind (twp_atomic fun o _ => ?_)
    dsimp only
    rw [hep]
    refine twp_bind (twp_mono (fun res u hu => ?_) (twp_validateClosure SnapshotStore.maxChain r))
    obtain ⟨rfl, hgap⟩ := hu
    cases res with
    | error e =>
      refine ⟨⟨_, _, rfl⟩, fun e' he' => ⟨by simp, fun h hh => ?_⟩⟩
      cases he'
      exact hgap h (by rw [hh])
    | ok x => exact twp_atomic fun _ _ => ⟨⟨_, _, rfl⟩, nofun⟩

theorem twp_register_late (t : Tid) (c : Bytes) (m : Manifest)
    (hr : Stored s' (Manifest.snapshotRef c)) (hindex : s'.index = s.index)
    (hepoch : s'.epoch = s.epoch) (heffect : ∀ ep g,
      SameManifests s { s' with epoch := ep, ghost := g } ∨
      Added c m s { s' with epoch := ep, ghost := g }) :
    twp may (ExceptT.run do
      withError (registerError (Manifest.snapshotRef c))
        (registerLiveRef t (Manifest.snapshotRef c))
      return Manifest.snapshotRef c)
      (fun res u => ∀ e, res = .error e → e.Rejects → LateReject c m e s u) s' := by
  refine twp_bind (twp_bind (twp_mono (fun res u hu => ?_) (twp_registerLiveRef t hr)))
  obtain ⟨⟨ep, g, rfl⟩, herr⟩ := hu
  cases res with
  | ok x => exact nofun
  | error e' =>
    refine twp_ret (twp_ret fun e he hrej => ?_)
    obtain ⟨hne, hgap⟩ := herr e' rfl
    cases he
    refine ⟨hepoch ▸ hne, hindex, fun l hl k hk => ?_, heffect ep g⟩
    cases e' with
    | missingPage h =>
      cases hl
      obtain rfl := List.mem_singleton.mp hk
      exact hgap _ rfl
    | _ => cases hl

theorem twp_commit (t : Tid) (c : Bytes) (m : Manifest) :
    twp (fun _ => True) (commit t c m).run
      (fun res u => ∀ e, res = .error e → e.Rejects → LateReject c m e s u) s := by
  refine twp_bind (twp_atomic fun o _ => ?_)
  by_cases hstored : hasManifest s (Manifest.snapshotRef c) = true
  · simp only [hstored]
    exact twp_register_late t c m hstored rfl rfl fun ep g => .inl ⟨rfl, rfl, rfl⟩
  · simp only [hstored]
    have hpub : twpE (fun _ => True) (fun (e : PutError) _ => ¬ e.Rejects)
        (withError PutError.io (publish t (Manifest.snapshotRef c) c)) _ s :=
      twpE_withError (twpE_publish t ⟨fun _ _ _ _ _ _ e _ _ => id, fun _ _ _ _ e _ _ => id⟩)
    refine twp_bind (twp_mono (fun res u hu => ?_) hpub)
    cases res with
    | error e =>
      intro e' he' hrej
      cases he'
      exact absurd hrej hu
    | ok x =>
      have hu : Published (Manifest.snapshotRef c) c s u := hu
      obtain ⟨⟨fs, dirs, g', rfl⟩, hself, hnames, hfiles⟩ := hu
      refine twp_bind (twp_atomic fun _ _ => twp_register_late t c m ?_ rfl rfl fun ep g => .inr ?_)
      · exact stored_iff_readName.mpr (by rw [hself]; rfl)
      · refine ⟨hstored, fun q => ?_, hself, fun hun => (hfiles hun).2, rfl, rfl⟩
        by_cases hq : q = Manifest.snapshotRef c
        · subst hq
          exact iff_of_true (stored_iff_readName.mpr (by rw [hself]; rfl)) (.inr rfl)
        · rw [Stored, hasManifest, hnames q hq]
          simp [hq, Stored, hasManifest]

omit [Primitives] in
theorem ends_withCommitGate {E α : Type} {body : ExceptT E P α} {res : Except E α}
    (h : Ends may (withCommitGate t body).run s res u) :
    ∃ v, Ends may body.run { s with gate := { s.gate with readers := t :: s.gate.readers } } res v ∧
      Bare v u := by
  obtain ⟨_, v, hlock, hrest⟩ := Ends.of_bind h
  obtain ⟨res', w, hbody, hrest⟩ := Ends.of_bind hrest
  obtain ⟨_, w', hunlock, hret⟩ := Ends.of_bind hrest
  cases hret
  obtain ⟨_, -, hunlock⟩ := Ends.of_atomic hunlock
  obtain ⟨_, -, hlock⟩ := Ends.of_await hlock
  cases hunlock
  dsimp only at hlock
  split at hlock <;> cases hlock
  exact ⟨w, hbody, rfl, rfl, rfl, rfl, rfl⟩

/-- The checks on the container itself fail before anything is written. -/
structure EarlyReject (m : Manifest) (e : PutError) (s u : World) : Prop where
  bare : Bare s u
  gaps : ∀ l, e = .missingPages l → ParentReady m s ∧
    l = (hashesOf m).filter fun h => !(s.index.get h).isSome

theorem ends_putSnapshot_cases {res : Except PutError SnapshotRef}
    (h : Ends may (putSnapshot t c).run s res u) :
    (u = s ∧ ∃ x, res = .error (.manifest x)) ∨ ∃ m, Manifest.decode c = .ok m ∧
      ((∃ e, res = .error e ∧ EarlyReject m e s u) ∨
        (ParentReady m s ∧ (∀ h ∈ hashesOf m, Indexed s h)) ∧
          ∃ w v, Bare s w ∧ Ends may (commit t c m).run w res v ∧ Bare v u) := by
  unfold putSnapshot at h
  cases hd : Manifest.decode c with
  | error x =>
    rw [hd] at h
    cases h
    exact .inl ⟨rfl, x, rfl⟩
  | ok m =>
    rw [hd] at h
    refine .inr ⟨m, rfl, ?_⟩
    obtain ⟨v, hbody, hvu⟩ := ends_withCommitGate h
    generalize hs' : ({ s with gate := { s.gate with readers := t :: s.gate.readers } } : World) = s'
      at hbody
    have hbare : Bare s s' := by
      rw [← hs']
      exact ⟨rfl, rfl, rfl, rfl, rfl⟩
    have hparent : ParentReady m s' → ParentReady m s := by
      rw [← hs']
      exact id
    rcases Ends.cases_bindE hbody with ⟨e, he, hfail⟩ | ⟨_, w, hcheck, hrest⟩
    · obtain ⟨rfl, -, hne⟩ := hfail.of_twp (twp_checkParent hd)
      exact .inl ⟨e, he, hbare.trans hvu, fun l hl => absurd (by rw [hl]) (hne l)⟩
    obtain ⟨rfl, hpassed, -⟩ := hcheck.of_twp (twp_checkParent hd)
    have hready := hparent (hpassed _ rfl)
    have hcontains : ∀ res v, Ends may (containsBatch (hashesOf m)).run w res v →
        okOr (fun (_ : PutError) _ => False) _ res v :=
      fun res v hrun => hrun.of_twp (twpE_containsBatch (hashesOf m))
    rcases Ends.cases_bindE hrest with ⟨_, -, hfail⟩ | ⟨present, v', hrun, hpresent⟩
    · exact (hcontains _ _ hfail).elim
    obtain ⟨rfl, rfl⟩ := hcontains _ _ hrun
    dsimp only at hpresent
    split at hpresent
    · cases hpresent
      refine .inl ⟨_, rfl, hbare.trans hvu, fun l hl => ?_⟩
      cases hl
      rw [missingOf_map, hbare.index]
      exact ⟨hready, rfl⟩
    · next hpages =>
      have hpages := missingOf_eq_nil_iff.mp (not_not.mp hpages)
      have hwithin := within_withError (f := PutError.pageStore) (bare_barrier t (hashesOf m))
      rcases Ends.cases_bindE hpresent with ⟨e, he, hfail⟩ | ⟨_, w, hbarrier, hcommit⟩
      · have hw : Bare v' v := hfail.within hwithin Bare.refl fun _ _ _ => Bare.trans
        refine .inl ⟨e, he, (hbare.trans hw).trans hvu, fun l hl => ?_⟩
        obtain ⟨res, w, -, hret⟩ := Ends.of_bind hfail
        cases res <;> cases hret
        cases hl
      · have hw : Bare v' w := hbarrier.within hwithin Bare.refl fun _ _ _ => Bare.trans
        refine .inr ⟨⟨hready, fun k hk => ?_⟩, w, v, hbare.trans hw, hcommit, hvu⟩
        rw [Indexed, ← hbare.index]
        exact hpages k hk

theorem ends_putSnapshot_rejects (he : e.Rejects)
    (h : Ends (fun _ => True) (putSnapshot t c).run s (.error e) u) :
    (u = s ∧ ∃ x, e = .manifest x) ∨ ∃ m, Manifest.decode c = .ok m ∧ (EarlyReject m e s u ∨
      (ParentReady m s ∧ (∀ h ∈ hashesOf m, Indexed s h)) ∧ LateReject c m e s u) := by
  rcases ends_putSnapshot_cases h with ⟨hu, x, hx⟩ | ⟨m, hd, ⟨e', he', hearly⟩ | ⟨hready, w, v, hw, hcommit, hv⟩⟩
  · cases hx
    exact .inl ⟨hu, x, rfl⟩
  · cases he'
    exact .inr ⟨m, hd, .inl hearly⟩
  · refine .inr ⟨m, hd, .inr ⟨hready, ?_⟩⟩
    exact (hcommit.of_twp (twp_commit t c m) e rfl he).of_bare hw hv

end Effects

/-- A put that runs alone and rejects its container leaves the stored manifests and the counters as
they were.  The exception is a put in an epoch that has passed its own checks: it has stored and
counted exactly its own manifest. -/
theorem rejected_put_keeps_manifests (t : Tid) (c : Bytes) (s u : World) (e : PutError)
    (he : e.Rejects) (h : Ends (fun _ => True) (putSnapshot t c).run s (.error e) u) :
    SameManifests s u ∨ ∃ m, Manifest.decode c = .ok m ∧ s.epoch ≠ none ∧ ParentReady m s ∧
      (∀ k ∈ hashesOf m, Indexed s k) ∧ Added c m s u := by
  rcases ends_putSnapshot_rejects he h with ⟨rfl, -⟩ | ⟨m, hd, hearly | ⟨⟨hparent, hpages⟩, hlate⟩⟩
  · exact .inl ⟨rfl, rfl, rfl⟩
  · exact .inl ⟨hearly.bare.manifests, hearly.bare.total, hearly.bare.bytes⟩
  · rcases hlate.effect with hsame | hadd
    · exact .inl hsame
    · exact .inr ⟨m, hd, hlate.epoch, hparent, hpages, hadd⟩

/-! ## The second attempt -/

/-- The chain of `r` can be validated: it is stored, short enough, and its pages are present. -/
def Validates (s : World) (fuel : Nat) (r : SnapshotRef) : Prop :=
  ∃ l, Chain s r l ∧ l.length ≤ fuel ∧ ∀ e ∈ l, ∀ k ∈ hashesOf e.2, Indexed s k

structure Keeping (s u : World) : Prop where
  retains : Retains s u
  indexed : ∀ h, Indexed s h → Indexed u h

section Retry

variable {s u w : World} {c : Bytes} {m : Manifest} {t : Tid} {r : SnapshotRef} {fuel : Nat}

theorem Validates.mono (h : Validates s fuel r) (hk : Keeping s u) : Validates u fuel r := by
  obtain ⟨l, hl, hlen, hpages⟩ := h
  exact ⟨l, hl.mono hk.retains, hlen, fun e he k hk' => hk.indexed k (hpages e he k hk')⟩

theorem Validates.child (hm : manifestAt s r = some m) (hpages : ∀ k ∈ hashesOf m, Indexed s k)
    (hp : ∀ p, m.parent = some p → Validates s fuel p) : Validates s (fuel + 1) r := by
  cases hpar : m.parent with
  | none => exact ⟨[(r, m)], .root hm hpar, by simp, by simpa using hpages⟩
  | some p =>
    obtain ⟨l, hl, hlen, hrest⟩ := hp p hpar
    exact ⟨(r, m) :: l, .child hm hpar hl, by simpa using hlen,
      List.forall_mem_cons.mpr ⟨hpages, hrest⟩⟩

theorem twpE_validateClosure {bad : StoreError → World → Prop} (h : Validates s fuel r) :
    twpE Oracle.Quiet bad (validateClosure fuel r) (fun _ u => u = s) s := by
  obtain ⟨l, hl, hlen, hpages⟩ := h
  induction fuel generalizing r l with
  | zero =>
    obtain ⟨m, t, rfl, -⟩ := hl.head
    simp at hlen
  | succ fuel ih =>
    obtain ⟨m, t, heq, hm⟩ := hl.head
    refine twpE_seq (twpE_readManifest hm) fun m' v hv => ?_
    obtain ⟨rfl, rfl⟩ := hv
    refine twpE_seq (twpE_containsBatch (hashesOf m')) fun present v hv => ?_
    obtain ⟨rfl, rfl⟩ := hv
    rw [missingOf_eq_nil_iff.mpr (hpages (r, m') (by simp [heq]))]
    dsimp only
    rw [delta_eq_isSome hm]
    cases hl with
    | root hm' hp =>
      obtain rfl := Option.some.inj (hm.symm.trans hm')
      rw [hp]
      exact rfl
    | @child i p m'' l' hm' hp hl' =>
      obtain rfl := Option.some.inj (hm.symm.trans hm')
      rw [hp]
      exact ih l' hl' (Nat.le_of_succ_le_succ hlen) fun e he => hpages e (List.mem_cons_of_mem _ he)

theorem twpE_registerLiveRef {bad : StoreError → World → Prop} (t : Tid) (hr : Stored s r)
    (h : s.epoch = none ∨ Validates s SnapshotStore.maxChain r) :
    twpE Oracle.Quiet bad (registerLiveRef t r) (fun _ _ => True) s := by
  cases hep : s.epoch with
  | none => exact twpE_mono (fun _ _ _ => trivial) (twpE_registerLiveRef_calm t hep hr)
  | some late =>
    have hval : Validates s SnapshotStore.maxChain r := h.resolve_left (by simp [hep])
    refine twp_bind (twp_atomic fun o _ => ?_)
    dsimp only
    rw [hep]
    refine twpE_bind (twpE_mono (fun _ u hu => twpE_change ?_) (twpE_validateClosure ?_))
    · trivial
    · exact hval.mono ⟨fun _ _ => id, fun _ => id⟩

omit [Primitives] in
theorem Published.indexed_iff (h : Published r c s u) (k : PageHash) : Indexed u k ↔ Indexed s k := by
  obtain ⟨⟨_, _, _, rfl⟩, -⟩ := h
  exact Iff.rfl

theorem Published.retains (h : Published r c s u) (hu : s.manifests.Unaliased)
    (hnew : ¬ Stored s r) : Retains s u := by
  intro q m hq
  have hne : q ≠ r := by
    intro heq
    subst heq
    exact hnew (.of_manifestAt hq)
  obtain ⟨b, hread, hrest⟩ := manifestAt_eq_some.mp hq
  exact manifestAt_eq_some.mpr ⟨b, ((h.files hu).2 q hne).trans hread, hrest⟩

theorem twpE_commit_backed {bad : PutError → World → Prop} (t : Tid) (hu : s.manifests.Unaliased)
    (hd : Manifest.decode c = .ok m) (hpages : ∀ k ∈ hashesOf m, Indexed s k)
    (h : s.epoch = none ∨ (Stored s (Manifest.snapshotRef c) →
      manifestAt s (Manifest.snapshotRef c) = some m) ∧
      ∀ p, m.parent = some p → Validates s (SnapshotStore.maxChain - 1) p) :
    twpE Oracle.Quiet bad (commit t c m) (fun q _ => q = Manifest.snapshotRef c) s := by
  refine twpE_bind (twpE_look ?_)
  by_cases hstored : hasManifest s (Manifest.snapshotRef c) = true
  · rw [if_pos hstored]
    refine twpE_seq (twpE_withError (twpE_registerLiveRef t hstored ?_)) fun _ _ _ => rfl
    exact h.imp id fun h => .child (h.1 hstored) hpages h.2
  · rw [if_neg hstored]
    refine twpE_seq (twpE_withError (twpE_publish t .quiet)) fun _ w hw => ?_
    have hat : manifestAt w (Manifest.snapshotRef c) = some m :=
      manifestAt_eq_some.mpr ⟨c, hw.self, verifyManifest_of_decode hd, hd⟩
    have hkeep : Keeping s w :=
      ⟨hw.retains hu hstored, fun k hk => (hw.indexed_iff k).mpr hk⟩
    have hback : w.epoch = none ∨ Validates w SnapshotStore.maxChain (Manifest.snapshotRef c) := by
      obtain ⟨_, _, _, heq⟩ := hw.touches
      rcases h with hepoch | ⟨-, hp⟩
      · exact .inl (by rw [heq]; exact hepoch)
      · exact .inr (.child hat (fun k hk => hkeep.indexed k (hpages k hk))
          fun p hpar => (hp p hpar).mono hkeep)
    refine twpE_bind (twpE_change (twpE_seq (twpE_withError (twpE_registerLiveRef t ?_ ?_))
      fun _ _ _ => rfl))
    · exact .of_manifestAt hat
    · exact hback.imp id fun hval => hval.mono ⟨fun _ _ => id, fun _ => id⟩

/-! ### The pages that have been asked for -/

def Has (K : List PageHash) (s : World) : Prop := ∀ k ∈ K, Indexed s k

omit [Primitives] in
theorem Has.cons {K : List PageHash} {k : PageHash} (hk : Indexed s k) (h : Has K s) :
    Has (k :: K) s := List.forall_mem_cons.mpr ⟨hk, h⟩

omit [Primitives] in
theorem has_of_frame {α : Type} {K : List PageHash} {x : PE α} (hx : Within Frame x.run)
    (h : Has K s) :
    wpOr (alone fun _ _ => True) (fun _ _ => True) x (fun _ u => Has K u) s := by
  refine wp_mono (fun res u hu => ?_) (hx.wp (stable_alone (Has K)) h
    fun _ v v' _ hv _ hf => ⟨trivial, trivial, fun k hk => hf.indexed k (hv k hk)⟩)
  cases res with
  | ok a => exact hu
  | error e => trivial

omit [Primitives] in
theorem has_writePage {K : List PageHash} {k : PageHash} {page : Page} (h : Has K s) :
    wpOr (alone fun _ _ => True) (fun _ _ => True) (PageStore.writePage k page)
      (fun _ u => Has (k :: K) u) s := by
  refine wpOr_bind (has_of_frame (frame_of (PageStore.packMove_onWriter _)) h) fun offset v hv => ?_
  refine wp_alone_atomic fun o _ => Has.cons ?_ fun k' hk' => PageStore.indexed_insert (hv k' hk')
  rw [Indexed, Index.get_insert]
  split
  · rfl
  · next hne => exact Option.isSome_iff_ne_none.mpr fun hnone => hne ⟨rfl, hnone⟩

theorem ingestRules_has (opts : StoreOptions) (t : Tid) (pages : List Page) :
    PageStore.IngestRules (alone fun _ _ => True) (fun _ _ => True) (fun _ _ => True) opts t pages
      Has Has (fun K _ => Has K) (fun K _ => Has K) where
  stable _ := stable_alone _
  stable_locked _ := stable_alone _
  stable_miss _ _ := stable_alone _
  guar_refl _ := trivial
  hit _ _ _ _ h hk := h.cons hk
  hit_locked _ _ _ _ h hk := h.cons hk
  miss _ _ _ _ h _ := h
  room _ _ _ _ h _ := h
  rotate _ _ _ h := has_of_frame (frame_of (PageStore.packMove_rotateLocked opts)) h
  write _ _ _ _ h _ := has_writePage h
  lock body I K s h hbody := by
    refine wp_bind (wp_await (stable_alone (Has K)) h fun o v b u _ hv hf _ => ?_)
    split at hf <;> cases hf
    refine ⟨trivial, trivial, wp_bind (wp_mono (fun res w hw => ?_) (hbody _ hv))⟩
    refine wp_bind (wp_alone_atomic fun _ _ => ?_)
    cases res with
    | ok out => exact hw
    | error e => exact hw
  found _ h _ _ hs hmem _ := hs h hmem

theorem indexed_of_ingest {opts : StoreOptions} {pages : List Page} {out : List IngestOutcome}
    (h : Ends (fun _ => True) (PageStore.ingest opts t pages).run s (.ok out) u) :
    ∀ p ∈ pages, Indexed u (blake3 p.bytes) := by
  obtain ⟨K, hK, hpages⟩ := h.of_wp (PageStore.wpOr_ingest (ingestRules_has opts t pages)
    (fun k hk => absurd hk List.not_mem_nil))
  exact fun p hp => hK _ (hpages p hp)

theorem Keeping.trans (h : Keeping s u) (h' : Keeping u w) : Keeping s w :=
  ⟨fun r m hm => h'.retains r m (h.retains r m hm), fun k hk => h'.indexed k (h.indexed k hk)⟩

theorem keeping_of_ingest {opts : StoreOptions} {pages : List Page}
    {res : Except PageStoreError (List IngestOutcome)}
    (h : Ends (fun _ => True) (PageStore.ingest opts t pages).run s res u) : Keeping s u :=
  h.within ((PageStore.frame_ingest opts t pages).mono fun _ _ hf =>
    ⟨fun r m hm => by rwa [manifestAt_congr hf.manifests], hf.indexed⟩)
    (fun _ => ⟨fun _ _ => id, fun _ => id⟩) fun _ _ _ => Keeping.trans

end Retry

theorem ends_putSnapshot_missing {t : Tid} {c : Bytes} {l : List PageHash} {s u : World}
    (h : Ends (fun _ => True) (putSnapshot t c).run s (.error (.missingPages l)) u) :
    ∃ m, Manifest.decode c = .ok m ∧
      (∀ k ∈ l, ¬ Indexed u k ∧ (k ∈ hashesOf m ∨ NamedBelow u k (Manifest.snapshotRef c))) ∧
      (∀ k ∈ hashesOf m, Indexed u k ∨ k ∈ l) ∧
      (s.manifests.Unaliased → ParentReady m u) := by
  have hrej : PutError.Rejects (.missingPages l) := trivial
  rcases ends_putSnapshot_rejects hrej h with ⟨-, x, hx⟩ | ⟨m, hd, hearly | hlate⟩
  · cases hx
  · obtain ⟨hparent, rfl⟩ := hearly.gaps l rfl
    have hindex : ∀ k, Indexed u k ↔ Indexed s k := by
      intro k
      rw [Indexed, hearly.bare.index]
      rfl
    refine ⟨m, hd, fun k hk => ?_, fun k hk => ?_, fun _ => hearly.bare.retains.parentReady hparent⟩
    · obtain ⟨hin, habsent⟩ := List.mem_filter.mp hk
      rw [hindex]
      exact ⟨by simpa [Indexed] using habsent, .inl hin⟩
    · rw [hindex]
      by_cases hk' : Indexed s k
      · exact .inl hk'
      · exact .inr (List.mem_filter.mpr ⟨hk, by simpa [Indexed] using hk'⟩)
  · obtain ⟨⟨hparent, hpages⟩, hlate⟩ := hlate
    refine ⟨m, hd, fun k hk => (hlate.gaps l rfl k hk).imp id .inr, fun k hk => .inl ?_, fun hu => ?_⟩
    · rw [Indexed, hlate.index]
      exact hpages k hk
    · rcases hlate.effect with hsame | hadd
      · exact Retains.parentReady (fun r m hm => by rwa [manifestAt_congr hsame.manifests]) hparent
      · refine Retains.parentReady (fun q m' hq => ?_) hparent
        have hne : q ≠ Manifest.snapshotRef c := by
          intro heq
          subst heq
          exact hadd.new (.of_manifestAt hq)
        obtain ⟨b, hread, hrest⟩ := manifestAt_eq_some.mp hq
        exact manifestAt_eq_some.mpr ⟨b, (hadd.other hu q hne).trans hread, hrest⟩

/-- After a put of `c` that has ended in `u` with a request for the pages in `l`, the client ingests
them and repeats the put in `w`.  Nothing has been removed since the first put, the store is idle,
and there is no epoch or the chain of the parent is complete.  Then the put succeeds. -/
structure Repairable (opts : StoreOptions) (c : Bytes) (m : Manifest) (l : List PageHash)
    (u : World) : Prop where
  repaired : ∀ (t t' : Tid) (v v' w : World) (pages : List Page) (out : List IngestOutcome),
    Keeping u v → Ends (fun _ => True) (PageStore.ingest opts t pages).run v (.ok out) v' →
    (∀ k ∈ l, ∃ p ∈ pages, blake3 p.bytes = k) → Keeping v' w →
    Idle w → w.manifests.Unaliased →
    (w.epoch = none ∨ (Stored w (Manifest.snapshotRef c) →
      manifestAt w (Manifest.snapshotRef c) = some m) ∧
      ∀ p, m.parent = some p → Validates w (SnapshotStore.maxChain - 1) p) →
    twpE Oracle.Quiet (fun _ _ => False) (putSnapshot t' c)
      (fun r _ => r = Manifest.snapshotRef c) w

end Store

/-! ## Samples -/

namespace Sample

attribute [local instance] primitives

def base : Bytes := (full [hash 7, hash 8]).encode

def overlay : Bytes := Manifest.encode
  ⟨1, true, some (Manifest.snapshotRef base), 2 * pageSize, [⟨0, hash 9⟩], ⟨0, false, [], 0⟩⟩

def sweptBase : List (Cmd sharedStore) :=
  [.boot quiet 100, .ready, .start ⟨.ingest [page 7, page 8], trivial⟩, .run 0 quiet 1000,
    .start ⟨.putSnapshot base, trivial⟩, .run 1 quiet 1000,
    .start ⟨.rotate, trivial⟩, .run 2 quiet 1000,
    .start ⟨.ingest [page 9], trivial⟩, .run 3 quiet 1000,
    .start ⟨.gcCycle cycle, trivial⟩, .run 4 quiet 560]

def asksFor (l : List PageHash) (r : Except PutError SnapshotRef) : Bool :=
  match r with
  | .error (.missingPages l') => decide (l' = l)
  | _ => false

theorem eq_of_asksFor {l : List PageHash} {r : Except PutError SnapshotRef}
    (h : asksFor l r = true) : r = .error (.missingPages l) := by
  unfold asksFor at h
  split at h
  · rw [of_decide_eq_true h]
  · cases h

structure Retried (a u v w : World) (out : List IngestOutcome) : Prop where
  first : Ends (fun _ => True) (putSnapshot 5 overlay).run a (.error (.missingPages [hash 7])) u
  ingest : Ends (fun _ => True) (PageStore.ingest options 6 [page 7]).run u (.ok out) v
  second : Ends (fun _ => True) (putSnapshot 7 overlay).run v (.error (.missingPages [hash 8])) w

theorem exists_retried : ∃ (a : Config sharedStore) (u v w : World) (out : List IngestOutcome),
    sharedStore.Reach (fun _ _ _ => True) (sharedStore.initial World.empty) a ∧
    Retried a.store u v w out ∧
    ¬ Stored a.store (Manifest.snapshotRef overlay) ∧ Stored u (Manifest.snapshotRef overlay) ∧
    u.manifestsTotal ≠ a.store.manifestsTotal ∧ u.logicalPageBytes ≠ a.store.logicalPageBytes := by
  have hcomp : ((sharedStore.execAll (fun _ _ => true) sweptBase
      (sharedStore.initial World.empty)).any fun a =>
      ((putSnapshot 5 overlay).run.run quiet 1000 a.store).any fun r => asksFor [hash 7] r.1 &&
        decide (¬ hasManifest a.store (Manifest.snapshotRef overlay) = true ∧
          hasManifest r.2 (Manifest.snapshotRef overlay) = true ∧
          r.2.manifestsTotal ≠ a.store.manifestsTotal ∧
          r.2.logicalPageBytes ≠ a.store.logicalPageBytes) &&
        ((PageStore.ingest options 6 [page 7]).run.run quiet 1000 r.2).any fun i =>
          i.1.toOption.isSome &&
          ((putSnapshot 7 overlay).run.run quiet 1000 i.2).any fun q =>
            asksFor [hash 8] q.1) = true := by
    decide +kernel
  simp only [Option.any_eq_true, Bool.and_eq_true, decide_eq_true_eq] at hcomp
  obtain ⟨a, ha, ⟨res, u⟩, hrun, ⟨hasks, hnew⟩, ⟨res', v⟩, hingest, hok, ⟨res'', w⟩, hagain,
    hasks'⟩ := hcomp
  obtain rfl : res = _ := eq_of_asksFor hasks
  obtain rfl : res'' = _ := eq_of_asksFor hasks'
  cases res' with
  | error e => simp [Except.toOption] at hok
  | ok out =>
    exact ⟨a, u, v, w, out, Machine.reach_of_execAll (by simp [sweptBase, Machine.Meets]) ha,
      ⟨Ends.of_run trivial hrun, Ends.of_run trivial hingest, Ends.of_run trivial hagain⟩, hnew⟩

/-- In an epoch a put that is rejected for a page of its parent has stored and counted its
manifest. -/
theorem rejected_put_is_stored : ∃ (a : Config sharedStore) (l : List PageHash) (u : World),
    sharedStore.Reach (fun _ _ _ => True) (sharedStore.initial World.empty) a ∧
    Ends (fun _ => True) (putSnapshot 5 overlay).run a.store (.error (.missingPages l)) u ∧
    ¬ Stored a.store (Manifest.snapshotRef overlay) ∧ Stored u (Manifest.snapshotRef overlay) ∧
    u.manifestsTotal ≠ a.store.manifestsTotal ∧ u.logicalPageBytes ≠ a.store.logicalPageBytes := by
  obtain ⟨a, u, v, w, out, hreach, hrun, hnew⟩ := exists_retried
  exact ⟨a, _, u, hreach, hrun.first, hnew⟩

def vacant : World :=
  match Prog.run quiet 1000 (openStore options) World.empty with
  | some (_, s) => s
  | none => World.empty

def untouched (s : World) : Bool :=
  decide (s.activeLock = none ∧ s.gate.writer = none ∧ s.commit.flushing = false ∧
    (∀ p ∈ s.active.dirtySinceSync.insert s.active.packId,
      (s.pages.lookup (.spk p)).isSome = true) ∧ s.epoch = none ∧ s.manifests.names = [])

theorem rejected_put_keeps_manifests_vacant : ∃ u : World,
    Ends (fun _ => True) (putSnapshot 0 container).run vacant (.error (.missingPages [hash 7])) u ∧
    SameManifests vacant u := by
  have hcomp : (((putSnapshot 0 container).run.run quiet 1000 vacant).any fun r =>
      asksFor [hash 7] r.1) = true := by
    decide +kernel
  have hepoch : vacant.epoch.isNone = true := by decide +kernel
  rw [Option.any_eq_true] at hcomp
  rw [Option.isNone_iff_eq_none] at hepoch
  obtain ⟨⟨res, u⟩, hrun, hasks⟩ := hcomp
  obtain rfl : res = _ := eq_of_asksFor hasks
  have hends : Ends (fun _ => True) (putSnapshot 0 container).run vacant
      (.error (.missingPages [hash 7])) u := Ends.of_run trivial hrun
  rcases rejected_put_keeps_manifests 0 container vacant u (.missingPages [hash 7]) trivial hends with
    hsame | hadd
  · exact ⟨u, hends, hsame⟩
  · obtain ⟨m, -, hne, -⟩ := hadd
    exact absurd hepoch hne

theorem repaired_outside_epoch {c : Bytes} {m : Manifest} {l : List PageHash} {u v : World}
    {pages : List Page} {out : List IngestOutcome} (h : Repairable options c m l u)
    (hingest : Ends (fun _ => True) (PageStore.ingest options 1 pages).run u (.ok out) v)
    (hcover : ∀ k ∈ l, ∃ p ∈ pages, blake3 p.bytes = k) (hv : untouched v = true) :
    ∃ w, Ends Oracle.Quiet (putSnapshot 2 c).run v (.ok (Manifest.snapshotRef c)) w := by
  obtain ⟨hlock, hgate, hflush, hlinked, hepoch, hnames⟩ := of_decide_eq_true hv
  have hkept : ∀ s : World, Keeping s s := fun s => ⟨fun _ _ => id, fun _ => id⟩
  have hput := h.repaired 1 2 u v v pages out (hkept u) hingest hcover (hkept v)
    ⟨hlock, hgate, hflush, hlinked⟩ (.of_names_eq_nil hnames) (.inl hepoch)
  have hquiet : Oracle.Quiet quiet := fun _ _ => rfl
  obtain ⟨res, w, hends, hres⟩ := Ends.exists_of_twp hquiet hput
  cases res with
  | error e => exact hres.elim
  | ok r =>
    obtain rfl : r = _ := hres
    exact ⟨w, hends⟩

end Sample

end SnapStore
