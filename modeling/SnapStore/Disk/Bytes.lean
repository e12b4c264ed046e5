import Mathlib.Algebra.BigOperators.Fin
import Mathlib.Data.List.Basic
import Mathlib.Data.List.Infix

/-!
# Byte strings

Little-endian integers, slices, and writes at an offset.
-/

namespace Disk

abbrev Bytes := List UInt8

def leBytes : Nat → Nat → Bytes
  | 0, _ => []
  | w + 1, n => UInt8.ofNat (n % 256) :: leBytes w (n / 256)

def leNat : Bytes → Nat
  | [] => 0
  | b :: bs => b.toNat + 256 * leNat bs

@[simp] theorem length_leBytes (w n : Nat) : (leBytes w n).length = w := by
  induction w generalizing n with
  | zero => rfl
  | succ w ih => simp [leBytes, ih]

theorem leNat_leBytes {w n : Nat} (h : n < 256 ^ w) : leNat (leBytes w n) = n := by
  induction w generalizing n with
  | zero =>
    have : n = 0 := by simpa using h
    simp [leBytes, leNat, this]
  | succ w ih =>
    have hdiv : n / 256 < 256 ^ w := by
      rw [Nat.div_lt_iff_lt_mul (by decide), ← Nat.pow_succ]
      exact h
    have hbyte : (UInt8.ofNat (n % 256)).toNat = n % 256 := by simp
    rw [leBytes, leNat, ih hdiv, hbyte]
    omega

theorem leNat_lt (b : Bytes) : leNat b < 256 ^ b.length := by
  induction b with
  | nil => simp [leNat]
  | cons x b ih =>
    have hx : x.toNat < 256 := UInt8.toNat_lt x
    rw [leNat, List.length_cons, Nat.pow_succ]
    omega

theorem leBytes_leNat {b : Bytes} {w : Nat} (h : b.length = w) : leBytes w (leNat b) = b := by
  induction b generalizing w with
  | nil =>
    subst h
    rfl
  | cons x b ih =>
    subst h
    have hx : x.toNat < 256 := UInt8.toNat_lt x
    have hdiv : (x.toNat + 256 * leNat b) / 256 = leNat b := by omega
    have hmod : (x.toNat + 256 * leNat b) % 256 = x.toNat := by omega
    rw [List.length_cons, leNat, leBytes, hdiv, hmod, ih rfl, UInt8.ofNat_toNat]

def slice (b : Bytes) (off n : Nat) : Bytes := (b.drop off).take n

@[simp] theorem length_slice (b : Bytes) (off n : Nat) :
    (slice b off n).length = min n (b.length - off) := by simp [slice]

theorem slice_append_left {b c : Bytes} {off n : Nat} (h : off + n ≤ b.length) :
    slice (b ++ c) off n = slice b off n := by
  unfold slice
  rw [List.drop_append_of_le_length (by omega), List.take_append_of_le_length]
  rw [List.length_drop]
  omega

theorem slice_append_right {b c : Bytes} {i n : Nat} :
    slice (b ++ c) (b.length + i) n = slice c i n := by
  unfold slice
  rw [← List.drop_drop, List.drop_left]

theorem slice_prefix {b c : Bytes} {off n : Nat} (hp : b <+: c) (h : off + n ≤ b.length) :
    slice c off n = slice b off n := by
  obtain ⟨d, rfl⟩ := hp
  exact slice_append_left h

theorem slice_self {b : Bytes} {n : Nat} (h : b.length = n) : slice b 0 n = b := by
  simp [slice, List.take_of_length_le (le_of_eq h)]

theorem slice_zero_append {b c : Bytes} {n : Nat} (h : b.length = n) : slice (b ++ c) 0 n = b := by
  rw [slice_append_left (by omega), slice_self h]

theorem slice_skip {a b : Bytes} {off k n : Nat} (ha : a.length = k) (h : k ≤ off) :
    slice (a ++ b) off n = slice b (off - k) n := by
  obtain ⟨i, rfl⟩ := Nat.exists_eq_add_of_le h
  rw [← ha, slice_append_right, Nat.add_sub_cancel_left]

theorem leNat_field {w n : Nat} (h : n < 256 ^ w) (b : Bytes) :
    leNat (slice (leBytes w n ++ b) 0 w) = n := by
  rw [slice_zero_append (length_leBytes w n), leNat_leBytes h]

theorem slice_slice {b : Bytes} {off n i k : Nat} (h : i + k ≤ n) :
    slice (slice b off n) i k = slice b (off + i) k := by
  unfold slice
  rw [List.drop_take, List.drop_drop, List.take_take, Nat.min_eq_left (by omega)]

theorem slice_take {b : Bytes} {off n e : Nat} (h : off + n ≤ e) :
    slice (b.take e) off n = slice b off n := by
  rw [slice, slice, List.drop_take, List.take_take, Nat.min_eq_left (by omega)]

theorem leNat_slice_lt (b : Bytes) (off n : Nat) : leNat (slice b off n) < 256 ^ n := by
  have hlen : (slice b off n).length ≤ n := by
    rw [length_slice]
    exact Nat.min_le_left _ _
  exact (leNat_lt _).trans_le (Nat.pow_le_pow_right (by decide) hlen)

theorem take_add_slice (b : Bytes) (off n : Nat) :
    b.take (off + n) = b.take off ++ slice b off n := List.take_add

theorem slice_add (b : Bytes) (off n k : Nat) :
    slice b off (n + k) = slice b off n ++ slice b (off + n) k := by
  unfold slice
  rw [List.take_add, List.drop_drop]

def padTo (c : Bytes) (n : Nat) : Bytes := c ++ List.replicate (n - c.length) 0

def writeAt (c : Bytes) (off : Nat) (bs : Bytes) : Bytes :=
  (padTo c off).take off ++ bs ++ c.drop (off + bs.length)

theorem writeAt_end (c bs : Bytes) : writeAt c c.length bs = c ++ bs := by
  simp [writeAt, padTo]

theorem writeAt_nil_zero (bs : Bytes) : writeAt [] 0 bs = bs := by
  simp [writeAt, padTo]

theorem writeAt_zero_prefix {a b c : Bytes} (ha : a <+: c) (hb : b <+: c) :
    writeAt a 0 b <+: c := by
  obtain ⟨x, rfl⟩ := hb
  simp only [writeAt, List.take_zero, List.nil_append, Nat.zero_add]
  refine List.prefix_append_right_inj _ |>.mpr ?_
  have hd := ha.drop b.length
  rwa [List.drop_left] at hd

end Disk
