import Mathlib.Data.List.Basic

/-!
# Transactions with savepoints

The state of a database inside a transaction: the current contents and the open savepoints, the
innermost first.  A statement that fails leaves the transaction as it is.
-/

namespace Sql

structure Transaction (σ : Type) where
  current : σ
  savepoints : List (Nat × σ)

namespace Transaction

variable {σ : Type}

def begin (s : σ) : Transaction σ := ⟨s, []⟩

def write (t : Transaction σ) (s : σ) : Transaction σ := { t with current := s }

def savepoint (t : Transaction σ) (name : Nat) : Transaction σ :=
  { t with savepoints := (name, t.current) :: t.savepoints }

/-- `RELEASE`: the innermost savepoint of that name and all inside it are forgotten. -/
def release (t : Transaction σ) (name : Nat) : Transaction σ :=
  { t with savepoints := (t.savepoints.dropWhile fun p => p.1 ≠ name).tail }

/-- `ROLLBACK TO`: back to the innermost savepoint of that name, which stays open. -/
def rollbackTo (t : Transaction σ) (name : Nat) : Transaction σ :=
  match t.savepoints.dropWhile fun p => p.1 ≠ name with
  | [] => t
  | p :: rest => ⟨p.2, p :: rest⟩

@[simp] theorem current_begin (s : σ) : (begin s).current = s := rfl

@[simp] theorem current_write (t : Transaction σ) (s : σ) : (t.write s).current = s := rfl

@[simp] theorem current_savepoint (t : Transaction σ) (n : Nat) :
    (t.savepoint n).current = t.current := rfl

@[simp] theorem current_release (t : Transaction σ) (n : Nat) :
    (t.release n).current = t.current := rfl

@[simp] theorem current_rollbackTo (t : Transaction σ) (n : Nat) (s : σ) :
    (((t.savepoint n).write s).rollbackTo n).current = t.current := by
  simp [rollbackTo, write, savepoint]

end Transaction

end Sql
