import SnapStore.Store.Locks
import SnapStore.Store.Puts

/-!
# Interleaved puts

Any number of `put_snapshot` calls on a running store.  Puts of different containers are safe in
every interleaving.  Two puts of the same new container share the staging file: one may truncate
what the other is about to rename, and both may count the manifest.
-/

namespace SnapStore

open Disk Conc SnapshotStore

section Store

variable [Primitives] {S : Set Bytes} {base : World} {r : SnapshotRef}

def Call.container : Call → Bytes
  | .putSnapshot c => c
  | _ => []

def Call.ref (c : Call) : SnapshotRef := Manifest.snapshotRef c.container

/-- A running store that serves puts; `together` says for which references they may run at the same
time. -/
def putStore (opts : StoreOptions) (together : SnapshotRef → SnapshotRef → Prop) :
    Machine Oracle World :=
  { concurrentStore opts (fun c => ∃ b, c = .putSnapshot b) (fun _ _ => False) with
    overlap := fun c d => together c.1.ref d.1.ref }

variable {opts : StoreOptions} {together : SnapshotRef → SnapshotRef → Prop}

/-- No I/O call fails, and the parent and the pages of a container are there when its put starts. -/
def PutOk (S : Set Bytes) : Label (putStore opts together) → World → World → Prop
  | .start c, s, _ => ∃ m, Acceptable S s c.1.container m
  | .act _ o, _, _ => o.Quiet
  | _, _, _ => True

structure Quiescent (S : Set Bytes) (base : World) : Prop where
  containers : ∀ b ∈ S, ∃ m, Manifest.decode b = .ok m
  epoch : base.epoch = none
  gate : base.gate.writer = none
  activeLock : base.activeLock = none
  flushing : base.commit.flushing = false
  flusher : base.ghost.flusher = none
  files : base.manifests.Unaliased
  exact : Exact S base.manifests
  packs : ∀ p ∈ base.active.dirtySinceSync.insert base.active.packId,
    (base.pages.lookup (.spk p)).isSome = true
  counted : base.ghost.counted = []

theorem Quiescent.inv (h : Quiescent S base) : PutInv S base base where
  epoch := h.epoch
  index := rfl
  names := rfl
  packId := rfl
  dirty _ := id
  files := h.files
  exact := h.exact
  kept _ := id
  once := by simp [counts, h.counted]
  counted := by simp [h.counted]
  total := by simp [h.counted]
  bytes := by simp [h.counted]

def Apart (base : World) (r q : SnapshotRef) : Prop := r ≠ q ∨ Stored base r

theorem PutMove.recorded {q : SnapshotRef} {s s' : World} (h : PutMove S base q s s')
    (hs : Recorded base r s) : Recorded base r s' := by
  refine ⟨h.stored hs.1, hs.2.imp id fun hc => ?_⟩
  rcases h.counted_cases with ⟨hcounted, -⟩ | ⟨c, m, -, -, -, -, -, -, hcounted, -⟩
  · rw [counts, hcounted]
    exact hc
  · rw [counts, hcounted]
    exact List.mem_cons_of_mem _ hc

def putOutline (opts : StoreOptions) (hb : Quiescent S base) :
    Outline (putStore opts (Apart base)) (PutOk S) where
  inv := PutInv S base
  down _ := False
  rely c _ := PutRely base c.1.ref
  guar c _ := PutMove S base c.1.ref
  post c _ res s := res = .putSnapshot (.ok c.1.ref) ∧ Recorded base c.1.ref s
  idle _ _ := True
  Kind := SnapshotRef
  alone r c := c.1.ref = r ∧ ¬ Stored base r
  lull := Settled base
  rely_refl c t := (putRules S base c.1.ref).rely_refl
  rely_trans c t := (putRules S base c.1.ref).rely_trans
  guar_rely c d t u s s' _ hov hi _ hg :=
    hg.rely hi fun heq => hov.elim (fun hne => absurd heq.symm hne) fun hst => heq ▸ hst
  guar_idle _ _ _ _ _ _ _ _ := id
  alone_overlap r c d hc hd hov := by
    rcases hov with hne | hst
    · exact hne (hc.1.trans hd.1.symm)
    · exact hc.2 (hc.1 ▸ hst)
  guar_lull r c t s s' hother hi hg hs := by
    by_cases hst : Stored base r
    · exact fun _ => .inl hst
    · have hrely := hg.rely (r := r) hi fun heq => absurd ⟨heq.symm, hst⟩ hother
      exact stable_settled (S := S) s s' hs hrely (hg.inv hi)
  post_lull r c t res s halone hpost _ := by
    obtain ⟨rfl, -⟩ := halone
    exact hpost.2.2
  body c t s hi _ hlull hstart := by
    obtain ⟨call, b, rfl⟩ := c
    obtain ⟨m, hacc⟩ := hstart
    have hs : Settled base (Manifest.snapshotRef b) s := by
      by_cases hst : Stored base (Manifest.snapshotRef b)
      · exact fun _ => .inl hst
      · exact hlull _ ⟨rfl, hst⟩
    refine wp_bind (wp_mono ?_ (wp_put_putSnapshot hb.packs rfl hi hs hacc))
    intro res w h
    obtain ⟨rfl, hw⟩ := h
    exact ⟨rfl, hw⟩
  boot _ h := h.elim
  crash_up _ _ _ h := h.elim
  crash_down _ _ h := h.elim

def ramOf (b : Bytes) : Nat :=
  match Manifest.decode b with
  | .ok m => m.guestRamBytes
  | .error _ => 0

section Run

variable {c : Config (putStore opts (Apart base))}

theorem Quiescent.good (opts : StoreOptions) (hb : Quiescent S base) : (putOutline opts hb).Good ⟨base, .up, []⟩ := by
  refine ⟨hb.inv, by simp, by simp, fun _ _ => trivial, fun r _ hst => .inl hst⟩

theorem submitted_of_reach (hb : Quiescent S base)
    (hr : (putStore opts (Apart base)).Reach (PutOk S) ⟨base, .up, []⟩ c) :
    (∀ th ∈ c.threads, th.call.1.container ∈ S) ∧
      ∀ r ∈ counts c.store, ∃ th ∈ c.threads, th.call.1.ref = r := by
  induction hr with
  | refl => simp [counts, hb.counted]
  | @step a b l hr hs hok ih =>
    have hg := (hb.good opts).reach hr
    cases hs with
    | @start s ts d hc =>
      obtain ⟨m, hacc⟩ : ∃ m, Acceptable S s d.1.container m := hok
      refine ⟨fun th hth => ?_, fun r hcount => ?_⟩
      · rcases List.mem_append.mp hth with hold | hnew
        · exact ih.1 th hold
        · rw [List.mem_singleton.mp hnew]
          exact hacc.mem
      · obtain ⟨th, hth, href⟩ := ih.2 r hcount
        exact ⟨th, List.mem_append_left _ hth, href⟩
    | @act s s' ts d p p' t e ht hp =>
      have hguar := hg.guar_of_act (.act t e ht hp) hok ht
      have hlt := (List.getElem?_eq_some_iff.mp ht).1
      have hself : (⟨d, p'⟩ : Thread (putStore opts (Apart base))) ∈ ts.set t ⟨d, p'⟩ :=
        List.mem_iff_getElem?.mpr ⟨t, List.getElem?_set_self hlt⟩
      have hkeep : ∀ th ∈ ts, ∃ th' ∈ ts.set t ⟨d, p'⟩, th'.call = th.call := by
        intro th hth
        obtain ⟨u, hu⟩ := List.mem_iff_getElem?.mp hth
        by_cases hut : u = t
        · subst hut
          rw [ht, Option.some.injEq] at hu
          exact ⟨_, hself, by rw [← hu]⟩
        · exact ⟨th, List.mem_iff_getElem?.mpr
            ⟨u, by rwa [List.getElem?_set_ne (Ne.symm hut)]⟩, rfl⟩
      refine ⟨fun th hth => ?_, fun r hcount => ?_⟩
      · rcases List.mem_or_eq_of_mem_set hth with hold | rfl
        · exact ih.1 th hold
        · exact ih.1 ⟨d, p⟩ (List.mem_of_getElem? ht)
      · have hold : r ∈ counts s ∨ r = d.1.ref := by
          rcases hguar.counted_cases with ⟨hcounted, -⟩ | ⟨b, m, -, -, -, -, -, -, hcounted, -⟩
          · rw [counts, hcounted] at hcount
            exact .inl hcount
          · rw [counts, hcounted, List.map_cons, List.mem_cons] at hcount
            exact hcount.symm
        rcases hold with hold | rfl
        · obtain ⟨th, hth, href⟩ := ih.2 r hold
          obtain ⟨th', hth', hcall⟩ := hkeep th hth
          exact ⟨th', hth', by rw [hcall]; exact href⟩
        · exact ⟨_, hself, rfl⟩
    | boot e hp =>
      refine ⟨ih.1, fun r hcount => ?_⟩
      exact absurd hg.1 id
    | ready v => exact absurd hg.1 id
    | crash hc => exact hc.elim

theorem obeyed_of_reach (hb : Quiescent S base)
    (hr : (putStore opts (Apart base)).Reach (PutOk S) ⟨base, .up, []⟩ c) :
    c.mode = .up ∧ storeLocks.Obeyed c.store c.threads := by
  refine Locks.obeyed_of_reach (fun t d => ?_) (fun _ _ => id) ?_ (fun l => ?_) hr
  · obtain ⟨call, b, rfl⟩ := d
    exact Locks.Orderly.bind (balanced_putSnapshot b) fun _ => rfl
  · change base.ghost.flusher.isSome = base.commit.flushing
    rw [hb.flusher, hb.flushing]
    rfl
  · cases l with
    | gate => exact hb.gate
    | flush => exact hb.flusher
    | active => exact hb.activeLock

theorem live_of_reach (hb : Quiescent S base)
    (hr : (putStore opts (Apart base)).Reach (PutOk S) ⟨base, .up, []⟩ c)
    (hrun : ∃ th ∈ c.threads, th.prog.isDone = false) :
    ∃ t e b, (putStore opts (Apart base)).Step c (.act t e) b ∧
      PutOk S (.act t e : Label (putStore opts (Apart base))) c.store b.store := by
  obtain ⟨hup, hobeyed⟩ := obeyed_of_reach hb hr
  obtain ⟨t, b, hstep⟩ := hobeyed.exists_step hup ⟨fun _ _ => none, 0, 0⟩ hrun
  exact ⟨t, _, b, hstep, fun _ _ => rfl⟩

/-- The distinct containers submitted so far whose reference was not stored at the beginning. -/
def newContainers (base : World) (c : Config (putStore opts together)) : List Bytes :=
  (c.threads.map fun th => th.call.1.container).dedup.filter fun b =>
    ¬ Stored base (Manifest.snapshotRef b)

theorem mem_newContainers {c : Config (putStore opts together)} {b : Bytes} :
    b ∈ newContainers base c ↔
      (∃ th ∈ c.threads, th.call.1.container = b) ∧ ¬ Stored base (Manifest.snapshotRef b) := by
  simp [newContainers]

theorem Quiescent.returned (hb : Quiescent S base)
    (hr : (putStore opts (Apart base)).Reach (PutOk S) ⟨base, .up, []⟩ c) (t : Tid)
    (d : (putStore opts (Apart base)).Call) (res : Reply)
    (ht : c.threads[t]? = some ⟨d, .ret res⟩) :
    res = .putSnapshot (.ok d.1.ref) ∧ Recorded base d.1.ref c.store :=
  (hb.good opts).returned
    (R := fun (d : (putStore opts (Apart base)).Call) (res : Reply) s =>
      res = .putSnapshot (.ok d.1.ref) ∧ Recorded base d.1.ref s)
    (fun _ _ _ _ => id) (fun _ _ _ _ _ _ _ hg h => ⟨h.1, PutMove.recorded hg h.2⟩) rfl hr
    t d res ht

theorem counted_perm (hS : Set.InjOn Manifest.snapshotRef S) (hb : Quiescent S base)
    (hr : (putStore opts (Apart base)).Reach (PutOk S) ⟨base, .up, []⟩ c)
    (hi : PutInv S base c.store) (hdone : ∀ th ∈ c.threads, th.prog.isDone = true) :
    c.store.ghost.counted.Perm
      ((newContainers base c).map fun b => (Manifest.snapshotRef b, ramOf b)) := by
  obtain ⟨hmem, hput⟩ := submitted_of_reach hb hr
  -- what is counted for a container is its own size
  have hentry : ∀ x ∈ c.store.ghost.counted, ∀ b ∈ S, Manifest.snapshotRef b = x.1 →
      x = (Manifest.snapshotRef b, ramOf b) := by
    intro x hx b hbS href
    obtain ⟨-, -, b', m, hb'S, hdec, href', hram⟩ := hi.counted x hx
    obtain rfl : b = b' := hS hbS hb'S (href.trans href'.symm)
    have hsize : ramOf b = x.2 := by rw [ramOf, hdec, ← hram]
    rw [href, hsize]
  have hnodup : (newContainers base c).Nodup := (List.nodup_dedup _).filter _
  have hsub : ∀ b ∈ newContainers base c, b ∈ S := by
    intro b hbmem
    obtain ⟨⟨th, hth, rfl⟩, -⟩ := mem_newContainers.mp hbmem
    exact hmem th hth
  refine (List.perm_ext_iff_of_nodup (List.Nodup.of_map _ hi.once) (hnodup.map_on ?_)).mpr ?_
  · intro b hbmem b' hb'mem heq
    exact hS (hsub b hbmem) (hsub b' hb'mem) (Prod.mk.inj heq).1
  · intro x
    rw [List.mem_map]
    constructor
    · intro hx
      obtain ⟨th, hth, href⟩ := hput x.1 (List.mem_map_of_mem hx)
      refine ⟨th.call.1.container, mem_newContainers.mpr ⟨⟨th, hth, rfl⟩, ?_⟩,
        (hentry x hx _ (hmem th hth) href).symm⟩
      intro hst
      exact (hi.counted x hx).1 (href ▸ hst)
    · intro hx
      obtain ⟨b, hbmem, rfl⟩ := hx
      obtain ⟨⟨th, hth, rfl⟩, hnew⟩ := mem_newContainers.mp hbmem
      obtain ⟨t, ht⟩ := List.mem_iff_getElem?.mp hth
      obtain ⟨d, p⟩ := th
      have hp := hdone _ hth
      cases p with
      | act f k => simp [Prog.isDone] at hp
      | ret res =>
        obtain ⟨-, -, hrec⟩ := hb.returned hr t d res ht
        obtain ⟨x, hx, href⟩ := List.mem_map.mp (hrec.resolve_left hnew)
        rwa [← hentry x hx _ (hmem _ hth) href.symm]

/-- If no put for a new reference starts while another put for it is running, then: puts return,
and they return their reference; every manifest file is a complete container at every moment; and
once all puts have returned, each new container has been counted once. -/
theorem puts_apart_are_safe {opts : StoreOptions} {S : Set Bytes} {base : World}
    (hS : Set.InjOn Manifest.snapshotRef S) (hb : Quiescent S base)
    {c : Config (putStore opts (Apart base))}
    (hr : (putStore opts (Apart base)).Reach (PutOk S) ⟨base, .up, []⟩ c) :
    (putStore opts (Apart base)).Settles (PutOk S) c ∧
    (∀ (t : Tid) (d : (putStore opts (Apart base)).Call) (res : Reply),
      c.threads[t]? = some ⟨d, .ret res⟩ → res = .putSnapshot (.ok d.1.ref)) ∧
    Exact S c.store.manifests ∧
    ((∀ th ∈ c.threads, th.prog.isDone = true) →
      c.store.manifestsTotal = base.manifestsTotal + UInt64.ofNat (newContainers base c).length ∧
      c.store.logicalPageBytes =
        base.logicalPageBytes + UInt64.ofNat ((newContainers base c).map ramOf).sum) := by
  have hgood := (hb.good opts).reach hr
  obtain ⟨hup, -⟩ := obeyed_of_reach hb hr
  have hi : PutInv S base c.store := by
    rw [Outline.Good, hup] at hgood
    exact hgood.inv
  refine ⟨Machine.settles_of_live (fun c hr => live_of_reach hb hr) hr,
    fun t d res ht => (hb.returned hr t d res ht).1, hi.exact, fun hdone => ?_⟩
  have hperm := counted_perm hS hb hr hi hdone
  refine ⟨?_, ?_⟩
  · rw [hi.total, hperm.length_eq, List.length_map]
  · rw [hi.bytes, (hperm.map _).sum_nat, List.map_map]
    rfl

end Run

end Store

/-! ## Two puts of one container -/

section Sample

attribute [local instance] Sample.primitives

def Sample.served : World :=
  match Prog.run Sample.quiet 1000 (do
      let _ ← openStore Sample.options
      let _ ← (PageStore.ingest Sample.options 0 [Sample.page 7]).run
      (PageStore.sync 0).run : P _) World.empty with
  | some (_, s) => s
  | none => World.empty

def Sample.manifest : Manifest := ((Manifest.decode Sample.container).toOption).getD (Sample.full [])

theorem Sample.decode_container : Manifest.decode Sample.container = .ok Sample.manifest := by
  have hok : (Manifest.decode Sample.container).toOption.isSome = true := by decide +kernel
  unfold Sample.manifest
  cases hd : Manifest.decode Sample.container with
  | error e => simp [hd, Except.toOption] at hok
  | ok m => rfl

theorem Sample.served_fields : (Sample.served.manifests.names = [] ∧ Sample.served.epoch = none ∧
    Sample.served.gate.writer = none ∧ Sample.served.activeLock = none) ∧
    Sample.served.commit.flushing = false ∧ Sample.served.ghost.flusher = none ∧
    Sample.served.ghost.counted = [] ∧
    ∀ p ∈ Sample.served.active.dirtySinceSync.insert Sample.served.active.packId,
      (Sample.served.pages.lookup (.spk p)).isSome = true := by
  decide +kernel

theorem Sample.served_lookup (n : ManifestFile) : Sample.served.manifests.lookup n = none := by
  rw [← Option.not_isSome_iff_eq_none, ← FileSys.mem_names, Sample.served_fields.1.1]
  exact List.not_mem_nil

theorem Sample.served_quiescent : Quiescent {Sample.container} Sample.served := by
  obtain ⟨⟨hnames, hepoch, hgate, hlock⟩, hflag, hflusher, hcounted, hpacks⟩ := Sample.served_fields
  refine ⟨fun b hb => ?_, hepoch, hgate, hlock, hflag, hflusher, .of_names_eq_nil hnames, ?_, hpacks,
    hcounted⟩
  · exact ⟨_, Set.mem_singleton_iff.mp hb ▸ Sample.decode_container⟩
  · intro r i h
    simp [Sample.served_lookup] at h

def Sample.indexed (s _ : World) : Bool :=
  decide (∀ h ∈ hashesOf Sample.manifest, (s.index.get h).isSome = true)

theorem Sample.acceptable {s s' : World} (h : Sample.indexed s s' = true) :
    Acceptable {Sample.container} s Sample.container Sample.manifest where
  mem := rfl
  decode := Sample.decode_container
  pages := of_decide_eq_true h
  parent p hp := by
    have hnone : Sample.manifest.parent = none := by decide +kernel
    rw [hnone] at hp
    cases hp

instance : DecidableRel (putStore Sample.options fun _ _ => True).overlap := fun _ _ =>
  inferInstanceAs (Decidable True)

instance (base : World) : DecidableRel (putStore Sample.options (Apart base)).overlap := fun _ _ =>
  inferInstanceAs (Decidable (_ ∨ _))

def Sample.put {together : SnapshotRef → SnapshotRef → Prop} :
    (putStore Sample.options together).Call := ⟨.putSnapshot Sample.container, _, rfl⟩

theorem Sample.meets_put {together : SnapshotRef → SnapshotRef → Prop} :
    Machine.Meets Sample.indexed (PutOk {Sample.container})
      (.start Sample.put : Cmd (putStore Sample.options together)) :=
  fun _ hs => ⟨_, Sample.acceptable hs⟩

theorem Sample.meets_run {together : SnapshotRef → SnapshotRef → Prop} (t : Tid) (n : Nat) :
    Machine.Meets Sample.indexed (PutOk {Sample.container})
      (.run t Sample.quiet n : Cmd (putStore Sample.options together)) :=
  fun _ _ _ _ _ => rfl

/-- The second put truncates the staging file after the first one has written it; then the first
one renames it. -/
def Sample.truncated : List (Cmd (putStore Sample.options fun _ _ => True)) :=
  [.start Sample.put, .start Sample.put, .run 0 Sample.quiet 17, .run 1 Sample.quiet 16,
    .run 0 Sample.quiet 2]

def Sample.publishedTwice : List (Cmd (putStore Sample.options fun _ _ => True)) :=
  [.start Sample.put, .start Sample.put, .run 0 Sample.quiet 15, .run 1 Sample.quiet 15,
    .run 0 Sample.quiet 100, .run 1 Sample.quiet 100]

def Sample.refused (_ : (putStore Sample.options fun _ _ => True).Call) (r : Reply) : Bool :=
  match r with
  | .putSnapshot (.error _) => true
  | _ => false

theorem Sample.error_of_refused {d : (putStore Sample.options fun _ _ => True).Call} {r : Reply}
    (h : Sample.refused d r = true) : ∃ e, r = .putSnapshot (.error e) := by
  unfold Sample.refused at h
  split at h
  · exact ⟨_, rfl⟩
  · cases h

/-- Two puts of one new container at the same time: an empty manifest file comes into place, the
second put fails, and in another interleaving the container is counted twice. -/
theorem same_ref_puts_collide :
    ∃ (S : Set Bytes) (base : World), Set.InjOn Manifest.snapshotRef S ∧ Quiescent S base ∧
      ∃ a b c : Config (putStore Sample.options fun _ _ => True),
        (putStore Sample.options fun _ _ => True).Reach (PutOk S) ⟨base, .up, []⟩ a ∧
        (putStore Sample.options fun _ _ => True).Reach (PutOk S) a b ∧
        (putStore Sample.options fun _ _ => True).Reach (PutOk S) ⟨base, .up, []⟩ c ∧
        ¬ Exact S a.store.manifests ∧
        (∃ d e, b.threads[1]? = some ⟨d, .ret (.putSnapshot (.error e))⟩) ∧
        ((∀ th ∈ c.threads, th.prog.isDone = true) ∧ (newContainers base c).length = 1 ∧
          c.store.manifestsTotal = base.manifestsTotal + 2) := by
  refine ⟨{Sample.container}, Sample.served, Set.injOn_singleton _ _, Sample.served_quiescent, ?_⟩
  have hcomp : (((putStore Sample.options fun _ _ => True).execAll Sample.indexed Sample.truncated
      ⟨Sample.served, .up, []⟩).any fun a =>
      decide (a.store.manifests.readName (.spm Sample.ref) = some []) &&
      ((putStore Sample.options fun _ _ => True).execAll Sample.indexed
        [.run 1 Sample.quiet 100] a).any fun b => Machine.replied 1 Sample.refused b) = true := by
    decide +kernel
  have htwice : (((putStore Sample.options fun _ _ => True).execAll Sample.indexed
      Sample.publishedTwice ⟨Sample.served, .up, []⟩).any fun c =>
      decide ((∀ th ∈ c.threads, th.prog.isDone = true) ∧
        (newContainers Sample.served c).length = 1 ∧
        c.store.manifestsTotal = Sample.served.manifestsTotal + 2)) = true := by
    decide +kernel
  simp only [Option.any_eq_true, Bool.and_eq_true, decide_eq_true_eq] at hcomp htwice
  obtain ⟨a, ha, hempty, b, hb, hrep⟩ := hcomp
  obtain ⟨c, hc, hcount⟩ := htwice
  refine ⟨a, b, c, Machine.reach_of_execAll ?_ ha, Machine.reach_of_execAll ?_ hb,
    Machine.reach_of_execAll ?_ hc, ?_, ?_, hcount⟩
  · simp [Sample.truncated, Sample.meets_put, Sample.meets_run]
  · simp [Sample.meets_run]
  · simp [Sample.publishedTwice, Sample.meets_put, Sample.meets_run]
  · intro hexact
    obtain ⟨i, hi, hnil⟩ := Option.map_eq_some_iff.mp hempty
    have hmem := (hexact _ i hi).1
    rw [hnil] at hmem
    exact absurd (Set.mem_singleton_iff.mp hmem) (by decide +kernel)
  · obtain ⟨d, r, hth, hrefused⟩ := Machine.exists_of_replied hrep
    obtain ⟨e, rfl⟩ := Sample.error_of_refused hrefused
    exact ⟨d, e, hth⟩

def Sample.putTwice : List (Cmd (putStore Sample.options (Apart Sample.served))) :=
  [.start Sample.put, .run 0 Sample.quiet 100, .start Sample.put, .run 1 Sample.quiet 100]

theorem puts_apart_are_safe_twice :
    ∃ c : Config (putStore Sample.options (Apart Sample.served)),
      c.threads.length = 2 ∧ (newContainers Sample.served c).length = 1 ∧
      Exact {Sample.container} c.store.manifests ∧
      c.store.manifestsTotal = Sample.served.manifestsTotal + 1 := by
  have hcomp : (((putStore Sample.options (Apart Sample.served)).execAll Sample.indexed
      Sample.putTwice ⟨Sample.served, .up, []⟩).any fun c =>
      decide (c.threads.length = 2 ∧ (newContainers Sample.served c).length = 1 ∧
        ∀ th ∈ c.threads, th.prog.isDone = true)) = true := by
    decide +kernel
  simp only [Option.any_eq_true, decide_eq_true_eq] at hcomp
  obtain ⟨c, hc, hlen, hnew, hdone⟩ := hcomp
  have hreach : (putStore Sample.options (Apart Sample.served)).Reach (PutOk {Sample.container})
      ⟨Sample.served, .up, []⟩ c := Machine.reach_of_execAll
    (by simp [Sample.putTwice, Sample.meets_put, Sample.meets_run]) hc
  obtain ⟨-, -, hexact, hcount⟩ :=
    puts_apart_are_safe (Set.injOn_singleton _ _) Sample.served_quiescent hreach
  exact ⟨c, hlen, hnew, hexact, by rw [(hcount hdone).1, hnew]; rfl⟩

end Sample

end SnapStore
