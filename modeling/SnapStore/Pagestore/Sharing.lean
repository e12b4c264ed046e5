import SnapStore.Pagestore.Contents
import SnapStore.Pagestore.PackIds

/-!
# The packs of a store under concurrent calls

Every pack belongs to somebody at any moment.  The active pack and the ids above it belong to the
holder of the `active` lock, the packs below it and those allocated for a compaction to the
collection.  Nobody else touches the files of a pack or an index entry that leads into it.
-/

namespace SnapStore

open Disk Conc

def PageFile.pack : PageFile → PackId
  | .spk p => p
  | .idx p => p
  | .idxTmp p => p

section Disk

variable [Primitives]

structure Bounded (cap : Nat) (rs : List Entry) : Prop where
  hashed : Hashed rs
  size : recordOffset rs.length ≤ cap

theorem Bounded.nil {cap : Nat} (h : packHeaderSize ≤ cap) : Bounded cap [] := by
  refine ⟨fun r hr => ?_, h⟩
  cases hr

structure PackOf (cap : Nat) (rs : List Entry) (b : Bytes) : Prop where
  bounded : Bounded cap rs
  shape : ∃ hdr, IsHeader hdr ∧ (b = openPack hdr rs ∨ b = sealedPack hdr rs)

def SidecarOf (cap : Nat) (p : PackId) (c b : Bytes) : Prop :=
  ∃ rs es, Closed c rs ∧ Bounded cap rs ∧ b = encodeSidecar es ∧ Lists (fun _ => rs) p es

/-- The directory of a store in which every write reaches its file: each pack file is new or holds
whole records, and each sidecar lists the records of its pack. -/
structure DiskSound (cap : Nat) (fs : PagesFs) : Prop where
  unaliased : fs.Unaliased
  pack : ∀ p b, fs.readName (.spk p) = some b → b = [] ∨ ∃ rs, PackOf cap rs b
  sidecar : ∀ p b, fs.readName (.idx p) = some b →
    ∃ c, fs.readName (.spk p) = some c ∧ SidecarOf cap p c b
  ids : ∀ p, (fs.lookup (.spk p)).isSome = true → p < 2 ^ 32

namespace DiskSound

variable {cap : Nat} {fs fs' : PagesFs} {p : PackId}

theorem empty (cap : Nat) : DiskSound cap .empty := by
  refine ⟨FileSys.Unaliased.empty, fun p b h => ?_, fun p b h => ?_, fun p h => ?_⟩
  · cases h
  · cases h
  · cases h

theorem setPack (h : DiskSound cap fs) (hf : fs.SameBut (· = .spk p) fs')
    (hidx : fs.lookup (.idx p) = none)
    (hb : ∀ b, fs'.readName (.spk p) = some b → b = [] ∨ ∃ rs, PackOf cap rs b)
    (hp : (fs'.lookup (.spk p)).isSome = true → p < 2 ^ 32) : DiskSound cap fs' := by
  refine ⟨hf.unaliased, fun q b hq => ?_, fun q b hq => ?_, fun q hq => ?_⟩
  · by_cases hqp : q = p
    · subst hqp
      exact hb b hq
    · rw [hf.readName (by simpa using hqp)] at hq
      exact h.pack q b hq
  · rw [hf.readName (by simp)] at hq
    obtain ⟨c, hc, hs⟩ := h.sidecar q b hq
    have hqp : q ≠ p := by
      intro heq
      subst heq
      rw [FileSys.readName, hidx] at hq
      cases hq
    refine ⟨c, ?_, hs⟩
    rw [hf.readName (by simpa using hqp)]
    exact hc
  · by_cases hqp : q = p
    · subst hqp
      exact hp hq
    · rw [hf.lookup (.spk q) (by simpa using hqp)] at hq
      exact h.ids q hq

theorem stage {N : PageFile → Prop} (h : DiskSound cap fs) (hf : fs.SameBut N fs')
    (hN : ∀ n, N n → ∃ q, n = .idxTmp q) : DiskSound cap fs' := by
  have hspk : ∀ q, ¬ N (.spk q) := fun q hq => by
    obtain ⟨_, hn⟩ := hN _ hq
    cases hn
  have hidx : ∀ q, ¬ N (.idx q) := fun q hq => by
    obtain ⟨_, hn⟩ := hN _ hq
    cases hn
  refine ⟨hf.unaliased, fun q b hq => ?_, fun q b hq => ?_, fun q hq => ?_⟩
  · rw [hf.readName (hspk q)] at hq
    exact h.pack q b hq
  · rw [hf.readName (hidx q)] at hq
    obtain ⟨c, hc, hs⟩ := h.sidecar q b hq
    refine ⟨c, ?_, hs⟩
    rw [hf.readName (hspk q)]
    exact hc
  · rw [hf.lookup (.spk q) (hspk q)] at hq
    exact h.ids q hq

theorem setSidecar (h : DiskSound cap fs) (hf : fs.SameBut (fun n => n = .idxTmp p ∨ n = .idx p) fs')
    (hb : ∀ b, fs'.readName (.idx p) = some b →
      ∃ c, fs.readName (.spk p) = some c ∧ SidecarOf cap p c b) : DiskSound cap fs' := by
  refine ⟨hf.unaliased, fun q b hq => ?_, fun q b hq => ?_, fun q hq => ?_⟩
  · rw [hf.readName (by simp)] at hq
    exact h.pack q b hq
  · have hspk : fs'.readName (.spk q) = fs.readName (.spk q) := hf.readName (by simp)
    rw [hspk]
    by_cases hqp : q = p
    · subst hqp
      exact hb b hq
    · rw [hf.readName (by simp [hqp])] at hq
      exact h.sidecar q b hq
  · rw [hf.lookup (.spk q) (by simp)] at hq
    exact h.ids q hq

theorem idx_eq_none (h : DiskSound cap fs) (hp : ∀ c, fs.readName (.spk p) = some c → c = []) :
    fs.lookup (.idx p) = none := by
  rw [← Option.not_isSome_iff_eq_none]
  intro hsome
  obtain ⟨j, hj⟩ := Option.isSome_iff_exists.mp hsome
  obtain ⟨c, hc, rs, es, hclosed, -⟩ := h.sidecar p _ (FileSys.readName_eq hj)
  have hlen := hclosed.header_le
  rw [hp c hc] at hlen
  exact hlen (by decide)

end DiskSound

/-- The bytes of a pack: its file, and the write buffer behind the file of the active pack. -/
def World.packBytes (s : World) (p : PackId) : Option Bytes :=
  (s.pages.readName (.spk p)).map
    (· ++ if p = s.active.packId then s.active.writer.writeBuf else [])

def Located (s : World) (h : PageHash) (l : PageLoc) : Prop :=
  ∃ b, s.packBytes l.pack = some b ∧ RecordAt b l.offset h

end Disk

namespace Sharing

section Frames

def Owned (s : World) (p : PackId) : Prop := s.active.packId ≤ p ∧ p ∉ s.ghost.gcPacks

/-- The files of the pack and the index entries that lead into it are as before. -/
structure SamePack (p : PackId) (s s' : World) : Prop where
  lookup : ∀ n, n.pack = p → s'.pages.lookup n = s.pages.lookup n
  content : ∀ n i, n.pack = p → s.pages.lookup n = some i → s'.pages.content i = s.pages.content i
  index : ∀ h l, l.pack = p → (s'.index.get h = some l ↔ s.index.get h = some l)

/-- What the holder of the `active` lock sees of the steps of the others. -/
structure Undisturbed (s s' : World) : Prop where
  active : s'.active = s.active
  lock : s'.activeLock = s.activeLock
  gc : s'.ghost.gcPacks = s.ghost.gcPacks
  packs : ∀ p, Owned s p → SamePack p s s'
  absent : ∀ h, s.index.get h = none → s'.index.get h = none

structure Compatible (s s' : World) : Prop where
  active : s.active.packId ≤ s'.active.packId
  gc : s'.ghost.gcPacks = s.ghost.gcPacks
  packs : ∀ p, ¬ Owned s p → SamePack p s s'

variable {s s' s'' : World} {p : PackId}

namespace SamePack

theorem of_eq (hp : s'.pages = s.pages) (hix : s'.index = s.index) : SamePack p s s' :=
  ⟨fun _ _ => by rw [hp], fun _ _ _ _ => by rw [hp], fun _ _ _ => by rw [hix]⟩

theorem trans (h : SamePack p s s') (h' : SamePack p s' s'') : SamePack p s s'' where
  lookup n hn := (h'.lookup n hn).trans (h.lookup n hn)
  content n i hn hi := by
    rw [h'.content n i hn (by rw [h.lookup n hn, hi]), h.content n i hn hi]
  index k l hl := (h'.index k l hl).trans (h.index k l hl)

theorem readName (h : SamePack p s s') {n : PageFile} (hn : n.pack = p) :
    s'.pages.readName n = s.pages.readName n := by
  cases hi : s.pages.lookup n with
  | none => rw [FileSys.readName, FileSys.readName, h.lookup n hn, hi]; rfl
  | some i =>
    rw [FileSys.readName_eq hi, FileSys.readName_eq (by rw [h.lookup n hn, hi]),
      h.content n i hn hi]

theorem of_frame {N : PageFile → Prop} (hf : s.pages.SameBut N s'.pages) (hix : s'.index = s.index)
    (hN : ∀ n, n.pack = p → ¬ N n) : SamePack p s s' :=
  ⟨fun n hn => hf.lookup n (hN n hn), fun n i hn => hf.content n i (hN n hn),
    fun _ _ _ => by rw [hix]⟩

end SamePack

namespace Undisturbed

theorem of_eq (hp : s'.pages = s.pages) (hix : s'.index = s.index) (ha : s'.active = s.active)
    (hl : s'.activeLock = s.activeLock) (hg : s'.ghost.gcPacks = s.ghost.gcPacks) :
    Undisturbed s s' :=
  ⟨ha, hl, hg, fun _ _ => .of_eq hp hix, fun _ => by rw [hix]; exact id⟩

theorem owned (h : Undisturbed s s') : Owned s' p ↔ Owned s p := by
  rw [Owned, Owned, h.active, h.gc]

theorem trans (h : Undisturbed s s') (h' : Undisturbed s' s'') : Undisturbed s s'' where
  active := h'.active.trans h.active
  lock := h'.lock.trans h.lock
  gc := h'.gc.trans h.gc
  packs p hp := (h.packs p hp).trans (h'.packs p (h.owned.mpr hp))
  absent k hk := h'.absent k (h.absent k hk)

end Undisturbed

namespace Compatible

theorem of_eq (hp : s'.pages = s.pages) (hix : s'.index = s.index)
    (ha : s.active.packId ≤ s'.active.packId) (hg : s'.ghost.gcPacks = s.ghost.gcPacks) :
    Compatible s s' := ⟨ha, hg, fun _ _ => .of_eq hp hix⟩

theorem not_owned (h : Compatible s s') (hp : ¬ Owned s p) : ¬ Owned s' p := by
  intro ⟨hle, hgc⟩
  rw [h.gc] at hgc
  exact hp ⟨le_trans h.active hle, hgc⟩

theorem trans (h : Compatible s s') (h' : Compatible s' s'') : Compatible s s'' where
  active := le_trans h.active h'.active
  gc := h'.gc.trans h.gc
  packs p hp := (h.packs p hp).trans (h'.packs p (h.not_owned hp))

end Compatible

end Frames

section Invariant

variable [Primitives] {cap : Nat} {s s' : World} {rs : List Entry} {p : PackId} {h : PageHash}
  {l : PageLoc}

/-- The part of the invariant that holds in the middle of a rotation too. -/
structure Base (cap : Nat) (s : World) : Prop where
  disk : DiskSound cap s.pages
  below : PacksBelow s.active.nextPackId s
  active : s.active.packId < s.active.nextPackId
  next : s.active.nextPackId < 2 ^ 32
  file : s.pages.lookup (.spk s.active.packId) = some s.active.writer.file
  gc : ∀ g ∈ s.ghost.gcPacks, g < s.active.nextPackId
  own : s.active.packId ∉ s.ghost.gcPacks
  located : ∀ h l, s.index.get h = some l → Located s h l

structure Open (cap : Nat) (rs : List Entry) (s : World) : Prop where
  holds : s.active.writer.Holds (s.pages.content s.active.writer.file) rs
  idx : s.pages.lookup (.idx s.active.packId) = none
  cap : s.active.writer.maxBytes ≤ cap

structure Shut (rs : List Entry) (s : World) : Prop where
  sealed : s.active.writer.sealed = true
  buf : s.active.writer.writeBuf = []
  pack : ∃ hdr, IsHeader hdr ∧ s.pages.content s.active.writer.file = sealedPack hdr rs

def Covers (rs : List Entry) (s : World) : Prop :=
  ∀ h l, l.pack = s.active.packId → (s.index.get h = some l ↔ Packs.At (fun _ => rs) h l)

structure Settled (cap : Nat) (rs : List Entry) (s : World) : Prop where
  bounded : Bounded cap rs
  writer : Open cap rs s ∨ Shut rs s
  covers : Covers rs s

theorem Settled.congr (h : Settled cap rs s) (hp : s'.pages = s.pages)
    (hw : s'.active.writer = s.active.writer) (hid : s'.active.packId = s.active.packId)
    (hix : s'.index = s.index) : Settled cap rs s' := by
  refine ⟨h.bounded, h.writer.imp (fun ho => ⟨?_, ?_, ?_⟩) fun hs => ⟨?_, ?_, ?_⟩, fun k l hl => ?_⟩
  · rw [hp, hw]
    exact ho.holds
  · rw [hp, hid]
    exact ho.idx
  · rw [hw]
    exact ho.cap
  · rw [hw]
    exact hs.sealed
  · rw [hw]
    exact hs.buf
  · rw [hp, hw]
    exact hs.pack
  · rw [hid] at hl
    rw [hix]
    exact h.covers k l hl

structure Inv (cap : Nat) (s : World) : Prop extends Base cap s where
  settled : s.activeLock = none → ∃ rs, Settled cap rs s

theorem Base.owned (h : Base cap s) : Owned s s.active.packId := ⟨le_rfl, h.own⟩

namespace Undisturbed

theorem active_pack (h : Undisturbed s s') (hs : Base cap s') : SamePack s.active.packId s s' := by
  refine h.packs _ (h.owned.mp ?_)
  rw [← h.active]
  exact hs.owned

theorem content_active (h : Undisturbed s s') (hs : Base cap s') :
    s'.pages.content s.active.writer.file = s.pages.content s.active.writer.file := by
  have hfile := hs.file
  rw [h.active, (h.active_pack hs).lookup _ rfl] at hfile
  exact (h.active_pack hs).content (.spk s.active.packId) _ rfl hfile

theorem opened (h : Undisturbed s s') (hs : Base cap s') (ho : Open cap rs s) : Open cap rs s' := by
  refine ⟨?_, ?_, ?_⟩
  · rw [h.active, h.content_active hs]
    exact ho.holds
  · rw [h.active, (h.active_pack hs).lookup _ rfl]
    exact ho.idx
  · rw [h.active]
    exact ho.cap

theorem shut (h : Undisturbed s s') (hs : Base cap s') (ho : Shut rs s) : Shut rs s' := by
  refine ⟨?_, ?_, ?_⟩
  · rw [h.active]
    exact ho.sealed
  · rw [h.active]
    exact ho.buf
  · rw [h.active, h.content_active hs]
    exact ho.pack

theorem covers (h : Undisturbed s s') (hs : Base cap s') (hc : Covers rs s) : Covers rs s' := by
  intro k l hl
  rw [h.active] at hl
  rw [(h.active_pack hs).index k l hl]
  exact hc k l hl

theorem settled (h : Undisturbed s s') (hs : Base cap s') (ha : Settled cap rs s) :
    Settled cap rs s' :=
  ⟨ha.bounded, ha.writer.imp (h.opened hs) (h.shut hs), h.covers hs ha.covers⟩

end Undisturbed

theorem Base.grow (h : Base cap s) (hdisk : DiskSound cap s'.pages) (hpacks : SamePacks s s')
    (hid : s'.active.packId = s.active.packId)
    (hnext : s'.active.nextPackId = s.active.nextPackId)
    (hfile : s'.active.writer.file = s.active.writer.file)
    (hgc : s'.ghost.gcPacks = s.ghost.gcPacks) (hix : s'.index = s.index)
    (hbytes : ∀ p b, s.packBytes p = some b → ∃ b', s'.packBytes p = some b' ∧ b <+: b') :
    Base cap s' where
  disk := hdisk
  below := by
    rw [hnext]
    exact hpacks.below h.below
  active := by
    rw [hid, hnext]
    exact h.active
  next := by
    rw [hnext]
    exact h.next
  file := by
    rw [hid, hfile, hpacks]
    exact h.file
  gc g hg := by
    rw [hgc] at hg
    rw [hnext]
    exact h.gc g hg
  own := by
    rw [hid, hgc]
    exact h.own
  located k l hk := by
    rw [hix] at hk
    obtain ⟨b, hb, hrec⟩ := h.located k l hk
    obtain ⟨b', hb', hpre⟩ := hbytes l.pack b hb
    exact ⟨b', hb', hrec.mono hpre⟩

end Invariant

/-! ## Rules -/

section Rules

/-- What the thread `t` relies on; `collects` says that its call is a collection. -/
def Rely (collects : Prop) (t : Tid) (s s' : World) : Prop :=
  (s.activeLock = some t → Undisturbed s s') ∧ (collects → Compatible s s')

structure Guar (collects : Prop) (t : Tid) (s s' : World) : Prop where
  others : ∀ u, u ≠ t → s.activeLock = some u → Undisturbed s s'
  lock : ∀ u, u ≠ t → s'.activeLock = some u → s.activeLock = some u
  client : ¬ collects → Compatible s s'

variable {collects : Prop} {t : Tid} {s s' s'' : World} {p : PackId}

theorem Rely.refl (s : World) : Rely collects t s s :=
  ⟨fun _ => .of_eq rfl rfl rfl rfl rfl, fun _ => .of_eq rfl rfl le_rfl rfl⟩

theorem Rely.trans (h : Rely collects t s s') (h' : Rely collects t s' s'') :
    Rely collects t s s'' := by
  refine ⟨fun hl => ?_, fun hc => (h.2 hc).trans (h'.2 hc)⟩
  have hu := h.1 hl
  exact hu.trans (h'.1 (hu.lock.trans hl))

def Writes (o : Oracle) : Prop := o.fault .pack .write = none

def rules [Primitives] (cap : Nat) (collects : Prop) (t : Tid) : Rules Oracle World where
  may o _ _ := Writes o
  inv := Inv cap
  rely := Rely collects t
  guar := Guar collects t
  rely_refl := Rely.refl
  rely_trans _ _ _ := Rely.trans

def Mine (collects : Prop) (t : Tid) (p : PackId) (s : World) : Prop :=
  s.activeLock = some t ∧ Owned s p ∨ collects ∧ ¬ Owned s p

structure FileStep (t : Tid) (p : PackId) (s s' : World) : Prop where
  frame : s.pages.SameBut (fun n => n.pack = p) s'.pages
  index : s'.index = s.index
  lock : s'.activeLock = s.activeLock
  gc : s'.ghost.gcPacks = s.ghost.gcPacks
  active : s'.active = s.active ∨
    s.activeLock = some t ∧ s'.active.packId = s.active.packId

namespace FileStep

theorem packId (h : FileStep t p s s') : s'.active.packId = s.active.packId := by
  rcases h.active with ha | ⟨-, ha⟩
  · rw [ha]
  · exact ha

theorem samePack (h : FileStep t p s s') {q : PackId} (hq : q ≠ p) : SamePack q s s' :=
  .of_frame h.frame h.index fun _ hn hp => hq (hn.symm.trans hp)

theorem undisturbed (h : FileStep t p s s') (hp : ¬ Owned s p) (hl : s.activeLock ≠ some t) :
    Undisturbed s s' := by
  refine ⟨h.active.resolve_right fun ha => hl ha.1, h.lock, h.gc, fun q hq => h.samePack ?_,
    fun k => by rw [h.index]; exact id⟩
  intro heq
  subst heq
  exact hp hq

theorem compatible (h : FileStep t p s s') (hp : Owned s p) : Compatible s s' := by
  refine ⟨le_of_eq h.packId.symm, h.gc, fun q hq => h.samePack ?_⟩
  intro heq
  subst heq
  exact hq hp

theorem guar (h : FileStep t p s s') (hm : Mine collects t p s) : Guar collects t s s' := by
  refine ⟨fun u hu hl => ?_, fun u _ hl => h.lock ▸ hl, fun hc => ?_⟩
  · have hne : s.activeLock ≠ some t := by
      rw [hl]
      intro heq
      exact hu (Option.some.inj heq)
    rcases hm with ⟨hl', -⟩ | ⟨-, ho⟩
    · exact absurd hl' hne
    · exact h.undisturbed ho hne
  · rcases hm with ⟨-, ho⟩ | ⟨hc', -⟩
    · exact h.compatible ho
    · exact absurd hc' hc

theorem inv [Primitives] {cap : Nat} (h : FileStep t p s s') (hm : Mine collects t p s)
    (hi : Inv cap s) (hb : Base cap s') : Inv cap s' := by
  refine ⟨hb, fun hl => ?_⟩
  rw [h.lock] at hl
  rcases hm with ⟨hl', -⟩ | ⟨-, ho⟩
  · rw [hl] at hl'
    cases hl'
  · obtain ⟨rs, hrs⟩ := hi.settled hl
    exact ⟨rs, (h.undisturbed ho (by rw [hl]; simp)).settled hb hrs⟩

end FileStep

end Rules

section Assertions

variable [Primitives] {cap : Nat} {collects : Prop} {t : Tid} {p : PackId}

theorem stable_held {F : World → Prop}
    (hF : ∀ s s', Base cap s' → Undisturbed s s' → F s → F s') :
    Stable (rules cap collects t) fun s => s.activeLock = some t ∧ F s := by
  intro s s' ⟨hl, hf⟩ hr hi
  have hu : Undisturbed s s' := hr.1 hl
  exact ⟨hu.lock.trans hl, hF s s' hi.toBase hu hf⟩

end Assertions

end Sharing

end SnapStore
