import SnapStore.Disk.FileSys
import Mathlib.Data.List.Permutation

/-!
# Types shared by the store

Hashes, pages and locations, the hash functions the store is built on, and what the environment
decides at one step: whether an I/O call fails, the clock, and the order in which a hash map or a
hash set is walked.
-/

namespace SnapStore

open Disk

def pageSize : Nat := 4096

/-- A 32-byte digest: a `PageHash` or a `SnapshotRef`. -/
structure Digest where
  bytes : Bytes
  length_bytes : bytes.length = 32
deriving DecidableEq

abbrev PageHash := Digest

abbrev SnapshotRef := Digest

def Digest.ofBytes (b : Bytes) : Digest :=
  ⟨padTo (b.take 32) 32, by simp [padTo]⟩

theorem Digest.ext {d e : Digest} (h : d.bytes = e.bytes) : d = e := by
  cases d; cases e; simp_all

theorem Digest.ofBytes_append (d : Digest) (b : Bytes) : Digest.ofBytes (d.bytes ++ b) = d := by
  apply Digest.ext
  have h := d.length_bytes
  simp [Digest.ofBytes, padTo, h]

theorem Digest.ofBytes_bytes (d : Digest) : Digest.ofBytes d.bytes = d := by
  have h := Digest.ofBytes_append d []
  rwa [List.append_nil] at h

theorem Digest.bytes_ofBytes {b : Bytes} (h : b.length = 32) : (Digest.ofBytes b).bytes = b := by
  simp [Digest.ofBytes, padTo, h]

structure Page where
  bytes : Bytes
  length_bytes : bytes.length = pageSize
deriving DecidableEq

/-- Pack ids are `u32` in the source; where an id is allocated, the overflow is a panic. -/
abbrev PackId := Nat

structure PageLoc where
  pack : PackId
  offset : Nat
deriving DecidableEq

/-- The functions of other crates the store computes with. -/
class Primitives where
  blake3 : Bytes → Digest
  crc32 : Bytes → UInt32
  /-- `zstd::decode_all`; `none` is an error of the decompressor. -/
  zstdDecodeAll : Bytes → Option Bytes

export Primitives (blake3 crc32 zstdDecodeAll)

/-- Names in the `pages/` directory: `pack-<id>.spk`, `pack-<id>.idx`, `pack-<id>.idx.tmp`. -/
inductive PageFile where
  | spk (id : PackId)
  | idx (id : PackId)
  | idxTmp (id : PackId)
deriving DecidableEq

abbrev PagesFs := FileSys PageFile

/-- The kinds of `std::io::Error` the store tells apart. -/
inductive IoError where
  | notFound
  | alreadyExists
  | unexpectedEof
  | other
deriving DecidableEq

inductive Area where
  | pack
  | sidecar
  | pagesDir
  | manifest
  | manifestDir
  | db
deriving DecidableEq

inductive IoOp where
  | create
  | openFile
  | read
  | write
  | sync
  | rename
  | unlink
  | list
deriving DecidableEq

/-- What the environment decides at one step.  A call for which `fault` is `some n` fails; a
write first transfers `n` bytes. -/
structure Oracle where
  fault : Area → IoOp → Option Nat
  clock : Nat
  order : Nat

def Oracle.Quiet (o : Oracle) : Prop := ∀ a op, o.fault a op = none

/-- A permutation of `l` by its number: the first element is number `n` modulo the length. -/
def arrange {α : Type} : Nat → Nat → List α → List α
  | 0, _, l => l
  | k + 1, n, l =>
    match l[n % l.length]? with
    | some a => a :: arrange k (n / l.length) (l.eraseIdx (n % l.length))
    | none => l

theorem arrange_perm {α : Type} (k n : Nat) (l : List α) : (arrange k n l).Perm l := by
  induction k generalizing n l with
  | zero => exact List.Perm.refl l
  | succ k ih =>
    rw [arrange]
    split
    · next a ha =>
      obtain ⟨hlt, rfl⟩ := List.getElem?_eq_some_iff.mp ha
      exact ((ih _ _).cons _).trans (List.getElem_cons_eraseIdx_perm hlt)
    · exact List.Perm.refl l

def Oracle.walk {α : Type} (o : Oracle) (l : List α) : List α := arrange l.length o.order l

theorem Oracle.walk_perm {α : Type} (o : Oracle) (l : List α) : (o.walk l).Perm l :=
  arrange_perm _ _ _

@[simp] theorem Oracle.mem_walk {α : Type} {o : Oracle} {l : List α} {a : α} :
    a ∈ o.walk l ↔ a ∈ l := (o.walk_perm l).mem_iff

theorem ite_error_eq_ok {ε α : Type} {c : Prop} [Decidable c] {e : ε} {x : Except ε α} {a : α} :
    (if c then Except.error e else x) = .ok a ↔ ¬ c ∧ x = .ok a := by
  split <;> simp_all

end SnapStore
