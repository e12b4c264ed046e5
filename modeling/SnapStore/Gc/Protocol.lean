import SnapStore.System
import SnapStore.Closure

/-!
# The protocol between commits and the garbage collector

What the manifests submitted to the store name, what a step of a commit or of the collector does
to the part of the state the protocol is about, and what each side relies on.
-/

namespace SnapStore

open Disk Conc SnapshotStore

variable [Primitives]

/-! ## Submitted containers -/

/-- A submitted container with reference `r` decodes to a manifest with these pages and parent. -/
def Named (S : Set Bytes) : Closure.Naming SnapshotRef PageHash := fun r ks p =>
  ∃ c m, c ∈ S ∧ Manifest.snapshotRef c = r ∧ Manifest.decode c = .ok m ∧
    ks = hashesOf m ∧ p = m.parent

def CollisionFree (S : Set Bytes) : Prop :=
  ∀ c c' m m', c ∈ S → c' ∈ S → Manifest.decode c = .ok m → Manifest.decode c' = .ok m' →
    ∀ b, b <+: c → Manifest.snapshotRef b = Manifest.snapshotRef c' → b = c'

theorem CollisionFree.functional {S : Set Bytes} (hS : CollisionFree S) :
    Closure.Functional (Named S) := by
  rintro r ks p ks' p' ⟨c, m, hc, hr, hm, rfl, rfl⟩ ⟨c', m', hc', hr', hm', rfl, rfl⟩
  obtain rfl := hS c c' m m' hc hc' hm hm' c (List.prefix_refl c) (hr.trans hr'.symm)
  rw [hm] at hm'
  cases hm'
  exact ⟨rfl, rfl⟩

/-! ## The manifest files -/

def ManifestFile.staged : ManifestFile → ManifestFile
  | .spm r => .tmp r
  | .tmp r => .tmp r

/-- A file created under the staging name of `r` holds part of a submitted container for `r`. -/
structure ManifestsOk (S : Set Bytes) (fs : ManifestsFs) : Prop where
  births : FileSys.BirthsOk ManifestFile.staged fs
  content : ∀ r i, fs.birth i = some (.tmp r) →
    ∃ c m, c ∈ S ∧ Manifest.snapshotRef c = r ∧ Manifest.decode c = .ok m ∧ fs.content i <+: c

namespace ManifestsOk

variable {S : Set Bytes} {fs : ManifestsFs}

theorem empty : ManifestsOk S .empty :=
  ⟨.empty, fun r i h => by simp [FileSys.empty] at h⟩

theorem fdatasync (h : ManifestsOk S fs) (i : Ino) : ManifestsOk S (fs.fdatasync i) := by
  refine ⟨h.births.setInode _ _, ?_⟩
  intro r j hj
  simpa using h.content r j hj

theorem fsyncDir (h : ManifestsOk S fs) (here : ManifestFile → Bool) :
    ManifestsOk S (fs.fsyncDir here) := ⟨h.births.fsyncDir here, h.content⟩

theorem unlink (h : ManifestsOk S fs) (name : ManifestFile) : ManifestsOk S (fs.unlink name) :=
  ⟨h.births.unlink name, h.content⟩

theorem rename (h : ManifestsOk S fs) {r : SnapshotRef} {i : Ino}
    (hi : fs.lookup (.tmp r) = some i) : ManifestsOk S (fs.rename (.tmp r) (.spm r) i) :=
  ⟨h.births.rename hi rfl, h.content⟩

theorem write (h : ManifestsOk S fs) (hS : CollisionFree S) {c : Bytes} {m : Manifest} {i : Ino}
    (hc : c ∈ S) (hm : Manifest.decode c = .ok m)
    (hi : fs.birth i = some (.tmp (Manifest.snapshotRef c))) {b : Bytes} (hb : b <+: c) :
    ManifestsOk S (fs.write i 0 b) := by
  refine ⟨h.births.setInode _ _, ?_⟩
  intro r j hj
  rw [FileSys.birth_write] at hj
  rw [FileSys.content_write]
  split
  · next heq =>
    subst heq
    rw [hj] at hi
    cases hi
    obtain ⟨c', m', hc', hr', hm', hpre⟩ := h.content _ _ hj
    obtain rfl := hS c' c m' m hc' hc hm' hm c' (List.prefix_refl c') hr'
    exact ⟨c', m', hc', rfl, hm', writeAt_zero_prefix hpre hb⟩
  · exact h.content r j hj

theorem openTruncate (h : ManifestsOk S fs) {c : Bytes} {m : Manifest} (hc : c ∈ S)
    (hm : Manifest.decode c = .ok m) :
    ManifestsOk S (fs.openTruncate (.tmp (Manifest.snapshotRef c))).2 ∧
      (fs.openTruncate (.tmp (Manifest.snapshotRef c))).2.birth
        (fs.openTruncate (.tmp (Manifest.snapshotRef c))).1 =
          some (.tmp (Manifest.snapshotRef c)) := by
  have htmp : (ManifestFile.tmp (Manifest.snapshotRef c)).staged = .tmp (Manifest.snapshotRef c) := rfl
  obtain ⟨hb, hf⟩ := h.births.openTruncate htmp
  refine ⟨⟨hb, ?_⟩, hf⟩
  intro r j hj
  unfold FileSys.openTruncate at hj ⊢
  split at hj
  · next i hi =>
    obtain ⟨c', m', hc', hr', hm', hpre⟩ := h.content r j hj
    refine ⟨c', m', hc', hr', hm', ?_⟩
    simp only [FileSys.content_setInode, Inode.content_issue, FileOp.apply, List.take_zero]
    split
    · exact List.nil_prefix
    · exact hpre
  · next hn =>
    simp only [FileSys.content_create]
    rw [FileSys.birth_create] at hj
    split at hj
    · next heq =>
      cases hj
      rw [if_pos heq]
      exact ⟨c, m, hc, rfl, hm, List.nil_prefix⟩
    · next hne =>
      rw [if_neg hne]
      exact h.content r j hj

end ManifestsOk

/-! ## What the protocol is about -/

def Stored (s : World) (r : SnapshotRef) : Prop := hasManifest s r = true

def Indexed (s : World) (h : PageHash) : Prop := (s.index.get h).isSome = true

instance (s : World) (r : SnapshotRef) : Decidable (Stored s r) :=
  inferInstanceAs (Decidable (_ = true))

instance (s : World) (h : PageHash) : Decidable (Indexed s h) :=
  inferInstanceAs (Decidable (_ = true))

def IsLate (s : World) (r : SnapshotRef) : Prop := ∃ l, s.epoch = some l ∧ r ∈ l

def Publishing (s : World) (r : SnapshotRef) : Prop := ∃ t, (t, r) ∈ s.ghost.publishing

/-- The parameters of the protocol: the submitted containers, when a page counts as present, and
whether the steps are assumed to be tidy. -/
structure Protocol where
  S : Set Bytes
  collisionFree : CollisionFree S
  Pres : World → PageHash → Prop
  pres_indexed : ∀ s h, Pres s h → Indexed s h
  tidy : Prop

variable (π : Protocol)

def Complete (s : World) (r : SnapshotRef) : Prop :=
  Closure.Complete (Named π.S) (Stored s) (π.Pres s) r

def HasNeeds (s : World) (r : SnapshotRef) : Prop :=
  Closure.Local (Named π.S) (Stored s) (π.Pres s) r

structure Tidy (s s' : World) : Prop where
  /-- No cycle ends between its first removal and the end of its manifest sweep. -/
  finish : s.ghost.sweeping = true → s.epoch ≠ none → s'.epoch ≠ none
  /-- A stored manifest that is registered during a cycle has a complete closure. -/
  complete : ∀ l r, s.epoch = some l → s'.epoch = some (l ++ [r]) → Stored s r → Complete π s r
  /-- A manifest put in place during a cycle completes its closure. -/
  publish : ∀ t r, s'.ghost.publishing = (t, r) :: s.ghost.publishing → s.epoch ≠ none →
    Complete π s' r
  /-- A manifest put in place during a cycle is registered. -/
  register : ∀ t r, (t, r) ∈ s.ghost.publishing → (t, r) ∉ s'.ghost.publishing →
    s.epoch ≠ none → s'.epoch ≠ none → IsLate s' r

structure Admissible (s s' : World) : Prop where
  pres : ∀ h, π.Pres s h → Indexed s' h → π.Pres s' h
  publish : ∀ t r, s'.ghost.publishing = (t, r) :: s.ghost.publishing →
    ∀ ks p, Named π.S r ks p → ∀ h ∈ ks, Indexed s' h → π.Pres s' h
  tidy : π.tidy → Tidy π s s'

/-! ## The invariant -/

structure TidyInv (s : World) : Prop where
  shard : ∀ r, Stored s r → shardOf r ∈ s.shardDirs
  grounded : ∀ r, Stored s r → Closure.Grounded (Named π.S) r
  sweeping : s.ghost.sweeping = true → s.epoch ≠ none
  needs : s.ghost.sweeping = false → ∀ r, Stored s r → HasNeeds π s r
  late : ∀ r, IsLate s r → Stored s r → Complete π s r
  publishing : ∀ r, Publishing s r → HasNeeds π s r

structure ProtocolInv (s : World) : Prop where
  gate : s.gate.writer ≠ none → s.gate.readers = []
  manifests : ManifestsOk π.S s.manifests
  dangling : s.epoch = none → s.ghost.dangling = []
  publishing : ∀ t r, (t, r) ∈ s.ghost.publishing → t ∈ s.gate.readers
  tidy : π.tidy → TidyInv π s

/-! ## Steps -/

/-- The step leaves the state of the protocol alone; the index may grow. -/
structure Frame (s s' : World) : Prop where
  manifests : s'.manifests = s.manifests
  epoch : s'.epoch = s.epoch
  gate : s'.gate = s.gate
  db : s'.db = s.db
  shardDirs : s'.shardDirs = s.shardDirs
  publishing : s'.ghost.publishing = s.ghost.publishing
  dangling : s'.ghost.dangling = s.ghost.dangling
  registered : s'.ghost.registered = s.ghost.registered
  sweeping : s'.ghost.sweeping = s.ghost.sweeping
  actorCounter : s'.actorCounter = s.actorCounter
  running : s'.ghost.running = s.ghost.running
  finished : s'.ghost.finished = s.ghost.finished
  indexed : ∀ h, Indexed s h → Indexed s' h

structure Staging (fs fs' : ManifestsFs) : Prop where
  ok : ManifestsOk π.S fs'
  births : ∀ i n, fs.birth i = some n → fs'.birth i = some n
  spm : ∀ r, fs'.lookup (.spm r) = fs.lookup (.spm r)

inductive ClientMove (t : Tid) (s : World) : World → Prop where
  | frame {s' : World} (h : Frame s s') : ClientMove t s s'
  | lock (h : s.gate.writer = none) :
      ClientMove t s { s with gate := { s.gate with readers := t :: s.gate.readers } }
  | unlock : ClientMove t s { s with
      gate := { s.gate with readers := s.gate.readers.erase t }
      ghost := { s.ghost with
        publishing := s.ghost.publishing.filter fun x => x.1 ≠ t
        demand := s.ghost.demand.filter fun x => x.1 ≠ t } }
  | push (r : SnapshotRef) (l : List SnapshotRef) (hg : t ∈ s.gate.readers)
      (he : s.epoch = some l) : ClientMove t s { s with
        epoch := some (l ++ [r])
        ghost := { s.ghost with
          publishing := s.ghost.publishing.filter (· ≠ (t, r))
          dangling := s.ghost.dangling.filter (· ≠ r) } }
  | idle (r : SnapshotRef) (he : s.epoch = none) : ClientMove t s { s with
      ghost := { s.ghost with
        publishing := s.ghost.publishing.filter (· ≠ (t, r))
        dangling := s.ghost.dangling.filter (· ≠ r) } }
  | note (r : SnapshotRef) (hc : π.tidy → Complete π s r) : ClientMove t s { s with
      ghost := { s.ghost with registered := r :: s.ghost.registered } }
  | shardDir (d : Nat) : ClientMove t s { s with shardDirs := s.shardDirs.insert d }
  | staging {fs : ManifestsFs} (h : Staging π s.manifests fs) :
      ClientMove t s { s with manifests := fs }
  | rename (r : SnapshotRef) (i : Ino) (ks : List PageHash) (p : Option SnapshotRef)
      (hg : t ∈ s.gate.readers) (hi : s.manifests.lookup (.tmp r) = some i)
      (hd : shardOf r ∈ s.shardDirs) (hn : Named π.S r ks p) (hk : ∀ h ∈ ks, Indexed s h)
      (hp : ∀ q, p = some q → Stored s q) : ClientMove t s { s with
        manifests := s.manifests.rename (.tmp r) (.spm r) i
        ghost := { s.ghost with publishing := (t, r) :: s.ghost.publishing } }
  | rows (db : MetaDb) (n : Nat) (h : ∀ r, db.HasRow r → s.db.HasRow r ∨
      (t ∈ s.gate.readers ∧ (s.epoch = none ∨ IsLate s r))) :
      ClientMove t s { s with db := db, actorCounter := n }

/-- Items and resources that the collector keeps: closed, and with every root that was found. -/
structure Spares (s : World) (items : SnapshotRef → Prop) (resources : PageHash → Prop) : Prop where
  closed : Closure.ClosedUnder (Named π.S) items resources
  roots : ∀ r, s.db.HasRow r → items r ∨ r ∈ s.ghost.dangling

inductive CollectorMove (t : Tid) (s : World) : World → Prop where
  | frame {s' : World} (h : Frame s s') : CollectorMove t s s'
  | lock (hw : s.gate.writer = none) (hr : s.gate.readers = []) :
      CollectorMove t s { s with gate := { s.gate with writer := some t } }
  | unlock : CollectorMove t s { s with gate := { s.gate with writer := none } }
  | begin (fence : PackId) (hw : s.gate.writer = some t) (he : s.epoch = none) :
      CollectorMove t s { s with
        epoch := some []
        ghost := { s.ghost with dangling := [], cycle := s.ghost.cycle + 1, fence := fence } }
  | finish : CollectorMove t s
      { s with epoch := none, ghost := { s.ghost with dangling := [] } }
  | drain (l : List SnapshotRef) (hw : s.gate.writer = some t) (he : s.epoch = some l) :
      CollectorMove t s { s with
        epoch := some []
        ghost := { s.ghost with dangling := s.ghost.dangling.filter (· ∉ l) } }
  | dangling (r : SnapshotRef) (he : s.epoch ≠ none) (hr : ¬ Stored s r) :
      CollectorMove t s
        { s with ghost := { s.ghost with dangling := r :: s.ghost.dangling } }
  | remove (h : PageHash) (p : PackId) (items : SnapshotRef → Prop) (resources : PageHash → Prop)
      (hw : s.gate.writer = some t) (he : s.epoch = some []) (hs : Spares π s items resources)
      (hh : ¬ resources h) : CollectorMove t s
        { s with index := s.index.removeIfInPack h p, ghost := s.ghost.removed h }
  | unlink (r : SnapshotRef) (items : SnapshotRef → Prop) (resources : PageHash → Prop)
      (hw : s.gate.writer = some t) (he : s.epoch = some []) (hs : Spares π s items resources)
      (hr : ¬ items r) : CollectorMove t s { s with
        manifests := s.manifests.unlink (.spm r)
        ghost := { s.ghost with sweeping := true } }
  | staging {fs : ManifestsFs} (h : Staging π s.manifests fs) :
      CollectorMove t s { s with manifests := fs }
  | settle (h : π.tidy → ∀ r, Stored s r → HasNeeds π s r) : CollectorMove t s
      { s with ghost := { s.ghost with sweeping := false } }
  | rows (db : MetaDb) (n : Nat) (h : ∀ r, db.HasRow r → s.db.HasRow r) :
      CollectorMove t s { s with db := db, actorCounter := n }
  | record (run : Option CycleRun) (finished : List Nat) : CollectorMove t s
      { s with ghost := { s.ghost with running := run, finished := finished } }

/-! ## What the others may rely on -/

structure Gated (t : Tid) (s s' : World) : Prop where
  reader : t ∈ s'.gate.readers
  births : ∀ i n, s.manifests.birth i = some n → s'.manifests.birth i = some n
  shards : ∀ d ∈ s.shardDirs, d ∈ s'.shardDirs
  indexed : ∀ h, Indexed s h → Indexed s' h
  pres : ∀ h, π.Pres s h → π.Pres s' h
  stored : ∀ r, Stored s r → Stored s' r
  closed : s.epoch = none → s'.epoch = none
  late : ∀ r, IsLate s r → IsLate s' r ∨ s'.epoch = none

def ClientRely (t : Tid) (s s' : World) : Prop := t ∈ s.gate.readers → Gated π t s s'

structure During (s s' : World) : Prop where
  epoch : s'.epoch ≠ none
  late : ∀ r, IsLate s r → IsLate s' r
  pres : ∀ h, π.Pres s h → π.Pres s' h
  stored : ∀ r, Stored s r → Stored s' r
  dangling : ∀ r ∈ s.ghost.dangling, r ∈ s'.ghost.dangling ∨ IsLate s' r
  rows : ∀ r, s'.db.HasRow r → s.db.HasRow r ∨ IsLate s' r
  sweeping : s'.ghost.sweeping = s.ghost.sweeping
  fresh : π.tidy → ∀ r, Stored s' r → Stored s r ∨ IsLate s' r ∨ Publishing s' r
  publishing : π.tidy → ∀ r, Publishing s r → Publishing s' r ∨ IsLate s' r
  arrivals : π.tidy → ∀ r, Stored s' r → Stored s r ∨ Complete π s' r

structure Held (t : Tid) (s s' : World) : Prop where
  writer : s'.gate.writer = some t
  epoch : s'.epoch = s.epoch
  rows : ∀ r, s'.db.HasRow r → s.db.HasRow r
  stored : ∀ r, Stored s' r → Stored s r

structure CollectorRely (t : Tid) (s s' : World) : Prop where
  births : ∀ i n, s.manifests.birth i = some n → s'.manifests.birth i = some n
  closed : s.epoch = none → s'.epoch = none
  during : s.epoch ≠ none → During π s s'
  held : s.gate.writer = some t → Held t s s'

end SnapStore
