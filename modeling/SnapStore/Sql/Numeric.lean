import Mathlib.Algebra.BigOperators.Fin
import Mathlib.Data.Int.Basic

/-!
# Integers of SQLite

An INTEGER has 64 bits.  A sum that does not fit is computed with doubles and becomes a REAL, which
a column with INTEGER affinity stores as an INTEGER again if it is one.  The sums of this kind are
whole numbers, so a REAL is given by its value.
-/

namespace Sql

inductive Number where
  | int (v : Int)
  | real (v : Int)
deriving DecidableEq

def InI64 (v : Int) : Prop := -2 ^ 63 ≤ v ∧ v < 2 ^ 63

instance (v : Int) : Decidable (InI64 v) := inferInstanceAs (Decidable (_ ∧ _))

def roundDouble (v : Int) : Int :=
  let n := v.natAbs
  let e := n.log2 + 1 - 53
  let q := n / 2 ^ e
  let r := n % 2 ^ e
  let rounded := if 2 * r < 2 ^ e then q else if 2 ^ e < 2 * r then q + 1 else q + q % 2
  v.sign * (rounded * 2 ^ e : Nat)

namespace Number

def add (x : Number) (d : Int) : Number :=
  match x with
  | .int v => if InI64 (v + d) then .int (v + d) else .real (roundDouble (roundDouble v + roundDouble d))
  | .real v => .real (roundDouble (v + roundDouble d))

def stored : Number → Number
  | .int v => .int v
  | .real v => if -2 ^ 63 < v ∧ v < 2 ^ 63 - 1 then .int v else .real v

/-- An `i64` of a row; a REAL is an error of the type. -/
def getI64 : Number → Option Int
  | .int v => some v
  | .real _ => none

theorem add_of_inI64 {v d : Int} (h : InI64 (v + d)) : (Number.int v).add d = .int (v + d) := if_pos h

@[simp] theorem stored_int (v : Int) : (Number.int v).stored = .int v := rfl

@[simp] theorem getI64_int (v : Int) : (Number.int v).getI64 = some v := rfl

/-- The largest integer plus one is a REAL, and stays one in the column. -/
example : ((Number.int (2 ^ 63 - 1)).add 1).stored = .real (2 ^ 63) := by decide

end Number

end Sql
