import SnapStore.Disk.Bytes
import Mathlib.Data.List.AList

/-!
# A file system with a volatile and a durable state

Every file and the directory keep the operations that have not reached the disk.  `fdatasync`
makes the contents of one file durable, a directory `fsync` its entries.  A process kill keeps all
operations.
-/

namespace Disk

inductive FileOp where
  | write (off : Nat) (bs : Bytes)
  | truncate (n : Nat)

def FileOp.apply (c : Bytes) : FileOp → Bytes
  | .write off bs => writeAt c off bs
  | .truncate n => c.take n

/-- A file: the contents at its last `fdatasync` and what was issued since. -/
structure Inode where
  synced : Bytes
  pending : List FileOp

namespace Inode

def content (f : Inode) : Bytes := f.pending.foldl FileOp.apply f.synced

def issue (f : Inode) (op : FileOp) : Inode := { f with pending := f.pending ++ [op] }

def sync (f : Inode) : Inode := ⟨f.content, []⟩

def empty : Inode := ⟨[], []⟩

@[simp] theorem content_issue (f : Inode) (op : FileOp) :
    (f.issue op).content = op.apply f.content := by
  simp [content, issue]

@[simp] theorem content_sync (f : Inode) : f.sync.content = f.content := rfl

end Inode

abbrev Ino := Nat

abbrev Dir (ν : Type) := AList fun _ : ν => Ino

inductive DirOp (ν : Type) where
  | link (name : ν) (ino : Ino)
  | unlink (name : ν)
  | rename (old new : ν) (ino : Ino)

variable {ν : Type} [DecidableEq ν]

def DirOp.apply (d : Dir ν) : DirOp ν → Dir ν
  | .link name ino => d.insert name ino
  | .unlink name => d.erase name
  | .rename old new ino => (d.erase old).insert new ino

def DirOp.target : DirOp ν → ν
  | .link name _ => name
  | .unlink name => name
  | .rename _ new _ => new

structure FileSys (ν : Type) [DecidableEq ν] where
  dir : Dir ν
  /-- The entries that are on the disk, and what was issued since. -/
  durable : Dir ν
  pending : List (DirOp ν)
  inode : Ino → Inode
  birth : Ino → Option ν
  nextIno : Ino

namespace FileSys

def empty : FileSys ν := ⟨∅, ∅, [], fun _ => .empty, fun _ => none, 0⟩

def lookup (fs : FileSys ν) (name : ν) : Option Ino := fs.dir.lookup name

def content (fs : FileSys ν) (i : Ino) : Bytes := (fs.inode i).content

def readName (fs : FileSys ν) (name : ν) : Option Bytes := (fs.lookup name).map fs.content

def names (fs : FileSys ν) : List ν := fs.dir.keys

theorem mem_names {fs : FileSys ν} {name : ν} :
    name ∈ fs.names ↔ (fs.lookup name).isSome = true := AList.lookup_isSome.symm

def setInode (fs : FileSys ν) (i : Ino) (f : Inode) : FileSys ν :=
  { fs with inode := Function.update fs.inode i f }

def dirOp (fs : FileSys ν) (op : DirOp ν) : FileSys ν :=
  { fs with dir := op.apply fs.dir, pending := fs.pending ++ [op] }

def create (fs : FileSys ν) (name : ν) : FileSys ν :=
  { fs.dirOp (.link name fs.nextIno) with
    inode := Function.update fs.inode fs.nextIno .empty
    birth := Function.update fs.birth fs.nextIno (some name)
    nextIno := fs.nextIno + 1 }

def openTruncate (fs : FileSys ν) (name : ν) : Ino × FileSys ν :=
  match fs.lookup name with
  | some i => (i, fs.setInode i ((fs.inode i).issue (.truncate 0)))
  | none => (fs.nextIno, fs.create name)

def write (fs : FileSys ν) (i : Ino) (off : Nat) (bs : Bytes) : FileSys ν :=
  fs.setInode i ((fs.inode i).issue (.write off bs))

def truncate (fs : FileSys ν) (i : Ino) (n : Nat) : FileSys ν :=
  fs.setInode i ((fs.inode i).issue (.truncate n))

def fdatasync (fs : FileSys ν) (i : Ino) : FileSys ν := fs.setInode i (fs.inode i).sync

def unlink (fs : FileSys ν) (name : ν) : FileSys ν := fs.dirOp (.unlink name)

def rename (fs : FileSys ν) (old new : ν) (i : Ino) : FileSys ν := fs.dirOp (.rename old new i)

/-- `fsync` of the directory that holds the names selected by `here`. -/
def fsyncDir (fs : FileSys ν) (here : ν → Bool) : FileSys ν :=
  { fs with
    durable := (fs.pending.filter fun op => here op.target).foldl DirOp.apply fs.durable
    pending := fs.pending.filter fun op => !here op.target }

/-! ## What each operation changes -/

section Lemmas

variable (fs : FileSys ν) (name m old new : ν) (i j : Ino) (off n : Nat) (bs : Bytes)

theorem lookup_create : (fs.create name).lookup m =
    if m = name then some fs.nextIno else fs.lookup m := by
  simp only [lookup, create, dirOp, DirOp.apply]
  split
  · subst_vars; exact AList.lookup_insert _
  · exact AList.lookup_insert_ne ‹_›

theorem lookup_unlink : (fs.unlink name).lookup m = if m = name then none else fs.lookup m := by
  simp only [lookup, unlink, dirOp, DirOp.apply]
  split
  · subst_vars; exact AList.lookup_erase _ _
  · exact AList.lookup_erase_ne ‹_›

theorem lookup_rename : (fs.rename old new i).lookup m =
    if m = new then some i else if m = old then none else fs.lookup m := by
  simp only [lookup, rename, dirOp, DirOp.apply]
  by_cases h : m = new
  · rw [if_pos h, h]; exact AList.lookup_insert _
  · rw [if_neg h, AList.lookup_insert_ne h]
    split
    · subst_vars; exact AList.lookup_erase _ _
    · exact AList.lookup_erase_ne ‹_›

@[simp] theorem lookup_write : (fs.write i off bs).lookup = fs.lookup := rfl

theorem content_setInode (f : Inode) : (fs.setInode i f).content j =
    if j = i then f.content else fs.content j := by
  simp only [content, setInode, Function.update_apply]
  split <;> rfl

theorem content_create : (fs.create name).content j =
    if j = fs.nextIno then [] else fs.content j := by
  simp only [content, create, dirOp, Function.update_apply]
  split <;> rfl

theorem content_write : (fs.write i off bs).content j =
    if j = i then writeAt (fs.content i) off bs else fs.content j := by
  rw [write, content_setInode, Inode.content_issue]
  rfl

theorem content_truncate : (fs.truncate i n).content j =
    if j = i then (fs.content i).take n else fs.content j := by
  rw [truncate, content_setInode, Inode.content_issue]
  rfl

@[simp] theorem content_fdatasync : (fs.fdatasync i).content j = fs.content j := by
  rw [fdatasync, content_setInode, Inode.content_sync]
  split
  · subst_vars; rfl
  · rfl

@[simp] theorem content_rename : (fs.rename old new i).content = fs.content := rfl

theorem birth_create : (fs.create name).birth j =
    if j = fs.nextIno then some name else fs.birth j := by
  simp only [create, dirOp, Function.update_apply]

@[simp] theorem birth_write : (fs.write i off bs).birth = fs.birth := rfl

@[simp] theorem nextIno_create : (fs.create name).nextIno = fs.nextIno + 1 := rfl

theorem lookup_openTruncate_ne {fs : FileSys ν} {name m : ν} (h : m ≠ name) :
    (fs.openTruncate name).2.lookup m = fs.lookup m := by
  unfold openTruncate
  split
  · rfl
  · rw [lookup_create, if_neg h]

theorem birth_openTruncate {fs : FileSys ν} {name : ν} (hb : ∀ i, fs.birth i ≠ none → i < fs.nextIno)
    (i : Ino) (n : ν) (h : fs.birth i = some n) : (fs.openTruncate name).2.birth i = some n := by
  unfold openTruncate
  split
  · exact h
  · rw [birth_create, if_neg (Nat.ne_of_lt (hb i (by simp [h])))]
    exact h

end Lemmas

/-! ## Names and files

A program that keeps its names apart opens each file under one name; the file may be renamed, but
a name never leads to a file of another kind. -/

def Binds (P : ν → Ino → Prop) : DirOp ν → Prop
  | .link name i => P name i
  | .unlink _ => True
  | .rename _ new i => P new i

/-- Every directory entry, on the disk or not, leads to a file created under the name `κ` gives. -/
structure BirthsOk (κ : ν → ν) (fs : FileSys ν) : Prop where
  dir : ∀ n i, fs.lookup n = some i → fs.birth i = some (κ n)
  durable : ∀ n i, fs.durable.lookup n = some i → fs.birth i = some (κ n)
  pending : ∀ op ∈ fs.pending, Binds (fun n i => fs.birth i = some (κ n)) op
  born : ∀ i, fs.birth i ≠ none → i < fs.nextIno

theorem lookup_apply {P : ν → Ino → Prop} {d : Dir ν} {op : DirOp ν}
    (hd : ∀ n i, d.lookup n = some i → P n i) (ho : Binds P op) :
    ∀ n i, (op.apply d).lookup n = some i → P n i := by
  intro n i h
  cases op with
  | link name j =>
    by_cases hn : n = name
    · subst hn
      rw [DirOp.apply, AList.lookup_insert] at h
      cases h
      exact ho
    · rw [DirOp.apply, AList.lookup_insert_ne hn] at h
      exact hd n i h
  | unlink name =>
    by_cases hn : n = name
    · subst hn
      rw [DirOp.apply, AList.lookup_erase] at h
      cases h
    · rw [DirOp.apply, AList.lookup_erase_ne hn] at h
      exact hd n i h
  | rename old new j =>
    by_cases hn : n = new
    · subst hn
      rw [DirOp.apply, AList.lookup_insert] at h
      cases h
      exact ho
    · rw [DirOp.apply, AList.lookup_insert_ne hn] at h
      by_cases hold : n = old
      · subst hold
        rw [AList.lookup_erase] at h
        cases h
      · rw [AList.lookup_erase_ne hold] at h
        exact hd n i h

theorem lookup_foldl_apply {P : ν → Ino → Prop} {ops : List (DirOp ν)} {d : Dir ν}
    (hd : ∀ n i, d.lookup n = some i → P n i) (ho : ∀ op ∈ ops, Binds P op) :
    ∀ n i, (ops.foldl DirOp.apply d).lookup n = some i → P n i := by
  induction ops generalizing d with
  | nil => exact hd
  | cons op ops ih =>
    exact ih (lookup_apply hd (ho op List.mem_cons_self)) fun o h =>
      ho o (List.mem_cons_of_mem _ h)

omit [DecidableEq ν] in
theorem Binds.mono {P Q : ν → Ino → Prop} (h : ∀ n i, P n i → Q n i) {op : DirOp ν}
    (ho : Binds P op) : Binds Q op := by
  cases op with
  | link name i => exact h _ _ ho
  | unlink name => trivial
  | rename old new i => exact h _ _ ho

namespace BirthsOk

variable {κ : ν → ν} {fs : FileSys ν} {name : ν} {i : Ino}

theorem empty : BirthsOk κ FileSys.empty := by
  constructor
  · intro n i h; simp [lookup, FileSys.empty] at h
  · intro n i h; simp [FileSys.empty] at h
  · intro op h; simp [FileSys.empty] at h
  · intro i h; simp [FileSys.empty] at h

theorem setInode (h : BirthsOk κ fs) (i : Ino) (f : Inode) : BirthsOk κ (fs.setInode i f) :=
  ⟨h.dir, h.durable, h.pending, h.born⟩

theorem dirOp (h : BirthsOk κ fs) {op : DirOp ν}
    (ho : Binds (fun n i => fs.birth i = some (κ n)) op) : BirthsOk κ (fs.dirOp op) := by
  refine ⟨lookup_apply h.dir ho, h.durable, ?_, h.born⟩
  intro o hm
  rcases List.mem_append.mp hm with hm | hm
  · exact h.pending o hm
  · exact List.mem_singleton.mp hm ▸ ho

theorem unlink (h : BirthsOk κ fs) (name : ν) : BirthsOk κ (fs.unlink name) := h.dirOp trivial

theorem rename (h : BirthsOk κ fs) {old new : ν} (hi : fs.lookup old = some i)
    (hκ : κ new = κ old) : BirthsOk κ (fs.rename old new i) :=
  h.dirOp (show fs.birth i = some (κ new) from hκ ▸ h.dir old i hi)

theorem birth_create_of_birth (h : BirthsOk κ fs) {n : ν} (hn : fs.birth i = some n) :
    (fs.create name).birth i = some n := by
  rw [birth_create, if_neg (Nat.ne_of_lt (h.born i (by simp [hn]))), hn]

theorem create (h : BirthsOk κ fs) (hκ : κ name = name) : BirthsOk κ (fs.create name) := by
  have hold : ∀ n i, fs.birth i = some (κ n) → (fs.create name).birth i = some (κ n) :=
    fun _ _ => h.birth_create_of_birth
  have hnew : (fs.create name).birth fs.nextIno = some (κ name) := by
    rw [birth_create, if_pos rfl, hκ]
  refine ⟨?_, fun n i hi => hold n i (h.durable n i hi), ?_, ?_⟩
  · exact lookup_apply (fun n i hi => hold n i (h.dir n i hi))
      (show Binds _ (.link name fs.nextIno) from hnew)
  · intro op hm
    rcases List.mem_append.mp hm with hm | hm
    · exact (h.pending op hm).mono hold
    · rw [List.mem_singleton.mp hm]
      exact hnew
  · intro i hi
    rw [birth_create] at hi
    rw [nextIno_create]
    split at hi
    · next heq => exact heq ▸ Nat.lt_succ_self _
    · exact Nat.lt_succ_of_lt (h.born i hi)

theorem openTruncate (h : BirthsOk κ fs) (hκ : κ name = name) :
    BirthsOk κ (fs.openTruncate name).2 ∧
      (fs.openTruncate name).2.birth (fs.openTruncate name).1 = some name := by
  unfold FileSys.openTruncate
  split
  · next i hi => exact ⟨h.setInode i _, hκ ▸ h.dir name i hi⟩
  · exact ⟨h.create hκ, by rw [birth_create, if_pos rfl]⟩

theorem fsyncDir (h : BirthsOk κ fs) (here : ν → Bool) : BirthsOk κ (fs.fsyncDir here) := by
  refine ⟨h.dir, ?_, fun op hm => h.pending op (List.mem_filter.mp hm).1, h.born⟩
  exact lookup_foldl_apply h.durable fun op hm => h.pending op (List.mem_filter.mp hm).1

end BirthsOk

/-- No file has two names, and the numbers of new files are new. -/
structure Unaliased (fs : FileSys ν) : Prop where
  injective : ∀ n m i, fs.lookup n = some i → fs.lookup m = some i → n = m
  born : ∀ n i, fs.lookup n = some i → i < fs.nextIno

namespace Unaliased

variable {fs : FileSys ν} {name : ν} {i j : Ino}

theorem empty : Unaliased (FileSys.empty : FileSys ν) := by
  constructor
  · intro n m i h
    simp [lookup, FileSys.empty] at h
  · intro n i h
    simp [lookup, FileSys.empty] at h

theorem of_names_eq_nil (h : fs.names = []) : fs.Unaliased := by
  have hnone : ∀ n i, fs.lookup n ≠ some i := by
    intro n i hi
    have hmem : n ∈ fs.names := mem_names.mpr (by rw [hi]; rfl)
    rw [h] at hmem
    cases hmem
  exact ⟨fun n _ i hn => absurd hn (hnone n i), fun n i hn => absurd hn (hnone n i)⟩

theorem create (h : fs.Unaliased) (name : ν) : (fs.create name).Unaliased := by
  have hnew : ∀ n i, (fs.create name).lookup n = some i →
      n = name ∧ i = fs.nextIno ∨ n ≠ name ∧ fs.lookup n = some i := by
    intro n i hi
    rw [lookup_create] at hi
    split at hi
    · next heq => exact .inl ⟨heq, (Option.some.inj hi).symm⟩
    · next hne => exact .inr ⟨hne, hi⟩
  constructor
  · intro n m i hn hm
    rcases hnew n i hn with ⟨rfl, rfl⟩ | ⟨-, hn⟩
    · rcases hnew m _ hm with ⟨rfl, -⟩ | ⟨-, hm⟩
      · rfl
      · exact absurd (h.born m _ hm) (Nat.lt_irrefl _)
    · rcases hnew m i hm with ⟨-, rfl⟩ | ⟨-, hm⟩
      · exact absurd (h.born n _ hn) (Nat.lt_irrefl _)
      · exact h.injective n m i hn hm
  · intro n i hn
    rw [nextIno_create]
    rcases hnew n i hn with ⟨-, rfl⟩ | ⟨-, hn⟩
    · exact Nat.lt_succ_self _
    · exact Nat.lt_succ_of_lt (h.born n i hn)

theorem openTruncate (h : fs.Unaliased) (name : ν) : (fs.openTruncate name).2.Unaliased := by
  unfold FileSys.openTruncate
  split
  · exact ⟨h.injective, h.born⟩
  · exact h.create name

theorem rename (h : fs.Unaliased) {old new : ν} (hi : fs.lookup old = some i) :
    (fs.rename old new i).Unaliased := by
  have hnew : ∀ n j, (fs.rename old new i).lookup n = some j →
      n = new ∧ j = i ∨ n ≠ old ∧ fs.lookup n = some j := by
    intro n j hj
    rw [lookup_rename] at hj
    split at hj
    · next heq => exact .inl ⟨heq, (Option.some.inj hj).symm⟩
    · split at hj
      · cases hj
      · next hne => exact .inr ⟨hne, hj⟩
  constructor
  · intro n m j hn hm
    rcases hnew n j hn with ⟨rfl, rfl⟩ | ⟨hne, hn'⟩
    · rcases hnew m _ hm with ⟨rfl, -⟩ | ⟨hne, hm'⟩
      · rfl
      · exact absurd (h.injective m old _ hm' hi) hne
    · rcases hnew m j hm with ⟨-, rfl⟩ | ⟨-, hm'⟩
      · exact absurd (h.injective n old _ hn' hi) hne
      · exact h.injective n m j hn' hm'
  · intro n j hn
    rcases hnew n j hn with ⟨-, rfl⟩ | ⟨-, hn⟩
    · exact h.born old _ hi
    · exact h.born n j hn

theorem lookup_openTruncate (fs : FileSys ν) (name : ν) :
    (fs.openTruncate name).2.lookup name = some (fs.openTruncate name).1 ∧
      (fs.openTruncate name).2.content (fs.openTruncate name).1 = [] := by
  unfold FileSys.openTruncate
  split
  · next i hi =>
    refine ⟨hi, ?_⟩
    rw [content_setInode, if_pos rfl, Inode.content_issue]
    rfl
  · exact ⟨by rw [lookup_create, if_pos rfl], by rw [content_create, if_pos rfl]⟩

theorem content_openTruncate (h : fs.Unaliased) {m : ν} (hne : m ≠ name)
    (hm : fs.lookup m = some j) : (fs.openTruncate name).2.content j = fs.content j := by
  unfold FileSys.openTruncate
  split
  · next i hi =>
    rw [content_setInode, if_neg]
    exact fun heq => hne (h.injective m name j hm (heq ▸ hi))
  · rw [content_create, if_neg (Nat.ne_of_lt (h.born m j hm))]

theorem content_write (h : fs.Unaliased) {m : ν} {off : Nat} {bs : Bytes} (hne : m ≠ name)
    (hi : fs.lookup name = some i) (hm : fs.lookup m = some j) :
    (fs.write i off bs).content j = fs.content j := by
  rw [FileSys.content_write, if_neg]
  exact fun heq => hne (h.injective m name j hm (heq ▸ hi))

end Unaliased

end FileSys

end Disk
