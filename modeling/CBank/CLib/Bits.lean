import Mathlib.Algebra.GroupWithZero.Nat
import Mathlib.Data.List.Basic

/-!
# Bit Strings

`bitsOf w n` are the low `w` bits of a number, the highest one first, and `bitsValue` is the number
a bit string denotes. `groupsOf k` cuts a list into pieces of `k`, a shorter rest aside, and
`zeroExtend k` fills a bit string up to a multiple of `k` bits.

## Main results

* `bitsOf_add`: the bits of a number in two parts.
* `bitsValue_bitsOf`: the bits denote the number.
* `groupsOf_append`: the pieces behind a first one.
-/

namespace CLib

/-- The low `w` bits of a number, the highest one first. -/
def bitsOf (w n : ℕ) : List Bool := (List.range w).map fun i => n.testBit (w - 1 - i)

/-- The number a bit string denotes. -/
def bitsValue (bits : List Bool) : ℕ := bits.foldl (fun v b => 2 * v + b.toNat) 0

/-- `n / d`, rounded up. -/
def divUp (n d : ℕ) : ℕ := (n + d - 1) / d

/-- Pieces of `k` elements; a shorter rest is left out. -/
def groupsOf {α : Type*} (k : ℕ) (l : List α) : List (List α) :=
  (List.range (l.length / k)).map fun i => (l.drop (k * i)).take k

/-- A bit string with zeros behind it, up to a multiple of `k` bits. -/
def zeroExtend (k : ℕ) (bits : List Bool) : List Bool :=
  bits ++ List.replicate ((k - bits.length % k) % k) false

theorem length_bitsOf (w n : ℕ) : (bitsOf w n).length = w := by
  rw [bitsOf, List.length_map, List.length_range]

/-- **The bits of a number in two parts.** -/
theorem bitsOf_add (w v n : ℕ) : bitsOf (w + v) n = bitsOf w (n / 2 ^ v) ++ bitsOf v n := by
  rw [bitsOf, List.range_add, List.map_append, bitsOf, bitsOf, List.map_map]
  congr 1
  · refine List.map_congr_left fun i hi => ?_
    rw [List.mem_range] at hi
    rw [Nat.testBit_div_two_pow]
    congr 1
    omega
  · refine List.map_congr_left fun i hi => ?_
    rw [List.mem_range] at hi
    rw [Function.comp_apply]
    congr 1
    omega

/-- Only the low bits count. -/
theorem bitsOf_congr {w n m : ℕ} (h : n % 2 ^ w = m % 2 ^ w) : bitsOf w n = bitsOf w m := by
  refine List.map_congr_left fun i hi => ?_
  rw [List.mem_range] at hi
  have hbit : ∀ x : ℕ, x.testBit (w - 1 - i) = (x % 2 ^ w).testBit (w - 1 - i) := by
    intro x
    rw [Nat.testBit_mod_two_pow, decide_eq_true (by omega : w - 1 - i < w), Bool.true_and]
  rw [hbit n, hbit m, h]

/-- Bits one behind the other are those of one number. -/
theorem bitsOf_append (w v n m : ℕ) :
    bitsOf w n ++ bitsOf v m = bitsOf (w + v) (n * 2 ^ v + m % 2 ^ v) := by
  have hpos : 0 < 2 ^ v := Nat.pow_pos (by decide)
  have hhigh : (n * 2 ^ v + m % 2 ^ v) / 2 ^ v = n := by
    rw [Nat.mul_comm, Nat.mul_add_div hpos, Nat.div_eq_of_lt (Nat.mod_lt _ hpos), Nat.add_zero]
  have hlow : bitsOf v (n * 2 ^ v + m % 2 ^ v) = bitsOf v m :=
    bitsOf_congr (by rw [Nat.mul_comm, Nat.mul_add_mod, Nat.mod_mod])
  rw [bitsOf_add, hhigh, hlow]

theorem bitsOf_zero (w : ℕ) : bitsOf w 0 = List.replicate w false := by
  rw [bitsOf, List.eq_replicate_iff]
  refine ⟨by rw [List.length_map, List.length_range], fun b hb => ?_⟩
  obtain ⟨i, -, rfl⟩ := List.mem_map.mp hb
  exact Nat.zero_testBit _

/-- A bit string denotes its first part, shifted, and its second part. -/
theorem bitsValue_append (a b : List Bool) :
    bitsValue (a ++ b) = bitsValue a * 2 ^ b.length + bitsValue b := by
  have hfold : ∀ (b : List Bool) (v : ℕ),
      b.foldl (fun v b => 2 * v + b.toNat) v = v * 2 ^ b.length + bitsValue b := by
    intro b
    induction b with
    | nil => simp [bitsValue]
    | cons x b ih =>
        intro v
        have hcons : bitsValue (x :: b) = x.toNat * 2 ^ b.length + bitsValue b := by
          rw [bitsValue, List.foldl_cons, Nat.mul_zero, Nat.zero_add, ih]
        rw [List.foldl_cons, ih, hcons, List.length_cons, Nat.pow_succ, Nat.add_mul,
          Nat.mul_comm (2 ^ b.length), ← Nat.mul_assoc, Nat.mul_comm v, Nat.add_assoc]
  rw [bitsValue, List.foldl_append, hfold]
  rfl

/-- **The bits of a number denote it.** -/
theorem bitsValue_bitsOf (w n : ℕ) : bitsValue (bitsOf w n) = n % 2 ^ w := by
  induction w generalizing n with
  | zero => simp [bitsOf, bitsValue, Nat.mod_one]
  | succ w ih =>
      have hlow : bitsValue (bitsOf 1 n) = n % 2 := by
        have hbit : bitsValue (bitsOf 1 n) = (n.testBit 0).toNat := by simp [bitsOf, bitsValue]
        rw [hbit, Nat.testBit_zero]
        rcases Nat.mod_two_eq_zero_or_one n with h | h
        · simp [h]
        · simp [h]
      rw [bitsOf_add, bitsValue_append, ih, length_bitsOf, hlow, Nat.pow_one, Nat.pow_succ 2 w,
        Nat.mul_comm (2 ^ w), Nat.mod_mul, Nat.add_comm, Nat.mul_comm]

/-- The pieces behind a first one. -/
theorem groupsOf_append {α : Type*} {k : ℕ} (hk : 0 < k) {g : List α} (hg : g.length = k)
    (l : List α) : groupsOf k (g ++ l) = g :: groupsOf k l := by
  have hcount : (g ++ l).length / k = l.length / k + 1 := by
    rw [List.length_append, hg, Nat.add_div_left _ hk]
  rw [groupsOf, hcount, List.range_succ_eq_map, List.map_cons, List.map_map, groupsOf]
  congr 1
  · rw [Nat.mul_zero, List.drop_zero, List.take_append_of_le_length (Nat.le_of_eq hg.symm),
      List.take_of_length_le (Nat.le_of_eq hg)]
  · refine List.map_congr_left fun i _ => ?_
    rw [Function.comp_apply, Nat.mul_succ, Nat.add_comm, ← hg, List.drop_length_add_append]

/-- A whole number of pieces in front does not change what is filled up. -/
theorem zeroExtend_append {k m : ℕ} {g : List Bool} (hg : g.length = k * m) (l : List Bool) :
    zeroExtend k (g ++ l) = g ++ zeroExtend k l := by
  rw [zeroExtend, List.length_append, hg, Nat.mul_add_mod, zeroExtend, List.append_assoc]

end CLib
