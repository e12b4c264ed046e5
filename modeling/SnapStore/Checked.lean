import SnapStore.Disk.Bytes

/-!
# Operations that can panic

Slices, conversions to an array, `usize` arithmetic and allocations of a program on a 64-bit
machine.  A program stops with an error of its own or with a panic.
-/

namespace Checked

open Disk

inductive Halt (ε : Type) where
  | error (e : ε)
  | panic
deriving DecidableEq

/-- The values of a `usize`. -/
def usizeBound : Nat := 2 ^ 64

/-- No slice and no allocation is longer than `isize::MAX` bytes. -/
def isizeBound : Nat := 2 ^ 63

structure ByteSlice where
  bytes : Bytes
  length_lt : bytes.length < isizeBound

variable {ε α : Type}

def index (buf : Bytes) (a b : Nat) : Except (Halt ε) Bytes :=
  if a ≤ b ∧ b ≤ buf.length then .ok (slice buf a (b - a)) else .error .panic

def toArray (n : Nat) (b : Bytes) : Except (Halt ε) Bytes :=
  if b.length = n then .ok b else .error .panic

def uintAt (n : Nat) (buf : Bytes) (a b : Nat) : Except (Halt ε) Nat := do
  let s ← index buf a b
  let bytes ← toArray n s
  return leNat bytes

def usize (n : Nat) : Except (Halt ε) Nat := if n < usizeBound then .ok n else .error .panic

/-- `usize` arithmetic in a build with overflow checks or without. -/
def arith (checks : Bool) (n : Nat) : Except (Halt ε) Nat :=
  if checks then usize n else .ok (n % usizeBound)

/-- `a - b` in `usize`; an underflow counts as a panic also where the build would wrap. -/
def minus (a b : Nat) : Except (Halt ε) Nat := if b ≤ a then .ok (a - b) else .error .panic

def modifyAt (v : List α) (i : Nat) (f : α → α) : Except (Halt ε) (List α) :=
  if i < v.length then .ok (v.modify i f) else .error .panic

/-- `checked_add` or `checked_mul`, with the error for an overflow. -/
def checkedOr (e : ε) (n : Nat) : Except (Halt ε) Nat :=
  if n < usizeBound then .ok n else .error (.error e)

/-- `Vec::with_capacity` for `n` elements of `size` bytes. -/
def withCapacity (n size : Nat) : Except (Halt ε) Unit :=
  if n * size < isizeBound then .ok () else .error .panic

def debugAssert (debug : Bool) (p : Prop) [Decidable p] : Except (Halt ε) Unit :=
  if debug = true ∧ ¬ p then .error .panic else .ok ()

variable {buf : Bytes} {n a b : Nat}

theorem index_eq (hab : a ≤ b) (hb : b ≤ buf.length) :
    (index buf a b : Except (Halt ε) Bytes) = .ok (slice buf a (b - a)) := if_pos ⟨hab, hb⟩

theorem index_take (h : n ≤ buf.length) :
    (index buf 0 n : Except (Halt ε) Bytes) = .ok (buf.take n) := index_eq (Nat.zero_le n) h

theorem index_suffix (h : n ≤ buf.length) :
    (index buf n buf.length : Except (Halt ε) Bytes) = .ok (buf.drop n) := by
  rw [index_eq h (Nat.le_refl _), slice, List.take_of_length_le (by rw [List.length_drop])]

theorem toArray_eq (h : buf.length = n) : (toArray n buf : Except (Halt ε) Bytes) = .ok buf :=
  if_pos h

theorem uintAt_eq (hab : a + n = b) (hb : b ≤ buf.length) :
    (uintAt n buf a b : Except (Halt ε) Nat) = .ok (leNat (slice buf a n)) := by
  have hn : b - a = n := by omega
  have hlen : (slice buf a n).length = n := by
    rw [length_slice]
    omega
  simp only [uintAt, index_eq (by omega : a ≤ b) hb, hn, toArray_eq hlen, bind, Except.bind, pure,
    Except.pure]

theorem usize_eq (h : n < usizeBound) : (usize n : Except (Halt ε) Nat) = .ok n := if_pos h

theorem arith_eq {checks : Bool} (h : n < usizeBound) :
    (arith checks n : Except (Halt ε) Nat) = .ok n := by
  cases checks with
  | false => exact congrArg Except.ok (Nat.mod_eq_of_lt h)
  | true => exact usize_eq h

theorem withCapacity_eq {size : Nat} (h : n * size < isizeBound) :
    (withCapacity n size : Except (Halt ε) Unit) = .ok () := if_pos h

theorem debugAssert_eq {debug : Bool} {p : Prop} [Decidable p] (h : debug = true → p) :
    (debugAssert debug p : Except (Halt ε) Unit) = .ok () := if_neg fun hp => hp.2 (h hp.1)

theorem ite_mapError {c : Prop} [Decidable c] {e : ε} {x : Except ε α} {y : Except (Halt ε) α}
    (h : ¬ c → y = x.mapError .error) :
    (if c then .error (.error e) else y) = (if c then .error e else x).mapError Halt.error := by
  by_cases hc : c
  · rw [if_pos hc, if_pos hc]
    rfl
  · rw [if_neg hc, if_neg hc, h hc]

theorem ne_panic_of_mapError {x : Except ε α} : x.mapError Halt.error ≠ .error .panic := by
  cases x <;> simp [Except.mapError]

theorem mapError_eq_ok {x : Except ε α} {r : α} :
    x.mapError Halt.error = .ok r ↔ x = .ok r := by
  cases x <;> simp [Except.mapError]

theorem mapM_eq_ok {β γ : Type} {f : β → Except ε γ} {g : β → γ} {l : List β}
    (h : ∀ x ∈ l, f x = .ok (g x)) : l.mapM f = .ok (l.map g) := by
  induction l with
  | nil => rfl
  | cons x l ih =>
    rw [List.mapM_cons, h x List.mem_cons_self, ih fun y hy => h y (List.mem_cons_of_mem x hy)]
    rfl

end Checked
