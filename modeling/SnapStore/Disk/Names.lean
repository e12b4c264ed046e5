import SnapStore.Disk.FileSys

/-!
# Files by their names

Without aliases a file system is a map from names to contents.  `SameBut N` is the frame of an
operation: outside `N` every name leads to the same file with the same contents.
-/

namespace Disk

namespace FileSys

variable {ν : Type} [DecidableEq ν]

structure SameBut (N : ν → Prop) (fs fs' : FileSys ν) : Prop where
  unaliased : fs'.Unaliased
  lookup : ∀ n, ¬ N n → fs'.lookup n = fs.lookup n
  content : ∀ n i, ¬ N n → fs.lookup n = some i → fs'.content i = fs.content i

theorem readName_eq {fs : FileSys ν} {name : ν} {i : Ino} (h : fs.lookup name = some i) :
    fs.readName name = some (fs.content i) := by
  rw [readName, h]
  rfl

theorem readName_unlink {fs : FileSys ν} {name m : ν} :
    (fs.unlink name).readName m = if m = name then none else fs.readName m := by
  rw [readName, lookup_unlink]
  split
  · rfl
  · rfl

theorem exists_lookup_of_readName {fs : FileSys ν} {name : ν} {b : Bytes}
    (h : fs.readName name = some b) : ∃ i, fs.lookup name = some i ∧ fs.content i = b :=
  Option.map_eq_some_iff.mp h

namespace SameBut

variable {fs fs' fs'' : FileSys ν} {N M : ν → Prop} {name old new : ν} {i : Ino}

theorem refl (h : fs.Unaliased) : SameBut N fs fs := ⟨h, fun _ _ => rfl, fun _ _ _ _ => rfl⟩

theorem trans (h : SameBut N fs fs') (h' : SameBut N fs' fs'') : SameBut N fs fs'' := by
  refine ⟨h'.unaliased, fun n hn => (h'.lookup n hn).trans (h.lookup n hn), ?_⟩
  intro n i hn hi
  rw [h'.content n i hn (by rw [h.lookup n hn, hi]), h.content n i hn hi]

theorem mono (h : SameBut N fs fs') (hNM : ∀ n, N n → M n) : SameBut M fs fs' :=
  ⟨h.unaliased, fun n hn => h.lookup n (mt (hNM n) hn),
    fun n i hn => h.content n i (mt (hNM n) hn)⟩

theorem readName (h : SameBut N fs fs') {n : ν} (hn : ¬ N n) :
    fs'.readName n = fs.readName n := by
  cases hi : fs.lookup n with
  | none => rw [FileSys.readName, FileSys.readName, h.lookup n hn, hi]; rfl
  | some i =>
    rw [readName_eq hi, readName_eq (by rw [h.lookup n hn, hi]), h.content n i hn hi]

theorem setInode (h : fs.Unaliased) (hi : fs.lookup name = some i) (f : Inode) :
    SameBut (· = name) fs (fs.setInode i f) := by
  refine ⟨⟨h.injective, h.born⟩, fun _ _ => rfl, ?_⟩
  intro n j hn hj
  rw [content_setInode, if_neg]
  intro heq
  exact hn (h.injective n name j hj (heq ▸ hi))

theorem write (h : fs.Unaliased) (hi : fs.lookup name = some i) (off : Nat) (bs : Bytes) :
    SameBut (· = name) fs (fs.write i off bs) := setInode h hi _

theorem fdatasync (h : fs.Unaliased) (i : Ino) : SameBut N fs (fs.fdatasync i) :=
  ⟨⟨h.injective, h.born⟩, fun _ _ => rfl, fun _ _ _ _ => content_fdatasync _ _ _⟩

theorem fsyncDir (h : fs.Unaliased) (here : ν → Bool) : SameBut N fs (fs.fsyncDir here) :=
  ⟨⟨h.injective, h.born⟩, fun _ _ => rfl, fun _ _ _ _ => rfl⟩

theorem create (h : fs.Unaliased) (name : ν) : SameBut (· = name) fs (fs.create name) := by
  refine ⟨h.create name, fun n hn => by rw [lookup_create, if_neg hn], ?_⟩
  intro n i hn hi
  rw [content_create, if_neg (Nat.ne_of_lt (h.born n i hi))]

theorem unlink (h : fs.Unaliased) (name : ν) : SameBut (· = name) fs (fs.unlink name) := by
  have hkept : ∀ n i, (fs.unlink name).lookup n = some i → fs.lookup n = some i := by
    intro n i hi
    rw [lookup_unlink] at hi
    split at hi
    · cases hi
    · exact hi
  refine ⟨⟨fun m n i hm hn => ?_, fun n i hi => h.born n i (hkept n i hi)⟩, fun n hn => ?_,
    fun _ _ _ _ => rfl⟩
  · exact h.injective m n i (hkept m i hm) (hkept n i hn)
  · rw [lookup_unlink, if_neg hn]

theorem openTruncate (h : fs.Unaliased) (name : ν) :
    SameBut (· = name) fs (fs.openTruncate name).2 :=
  ⟨h.openTruncate name, fun _ hn => lookup_openTruncate_ne hn,
    fun _ _ hn hi => h.content_openTruncate hn hi⟩

theorem rename (h : fs.Unaliased) (hi : fs.lookup old = some i) :
    SameBut (fun n => n = old ∨ n = new) fs (fs.rename old new i) := by
  refine ⟨h.rename hi, fun n hn => ?_, fun _ _ _ _ => rfl⟩
  obtain ⟨hold, hnew⟩ := not_or.mp hn
  rw [lookup_rename, if_neg hnew, if_neg hold]

end SameBut

end FileSys

end Disk
