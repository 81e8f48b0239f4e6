/-
Words of bits: how many are set below a place, and what a loop finds that shifts a probe bit to the right.
-/
import Mathlib.Algebra.Group.Nat.Defs
import Mathlib.Data.Nat.Basic

namespace FortiRdp.Run.Bits

variable {w : Nat}

/-- The number of bits that are set below place `n`. -/
def onesBelow (x : BitVec w) (n : Nat) : Nat := (List.range n).countP x.getLsbD

/-- The number of bits that are set. -/
def ones (x : BitVec w) : Nat := onesBelow x w

/-- The loop: a bit of the probe that is set in the word is counted, and the probe is shifted. -/
def probed (x : BitVec w) : Nat → BitVec w → Nat → Nat
  | 0, _, count => count
  | i + 1, probe, count => probed x i (probe >>> 1) (if x &&& probe ≠ 0 then count + 1 else count)

theorem onesBelow_succ (x : BitVec w) (n : Nat) : onesBelow x (n + 1) = onesBelow x n + (x.getLsbD n).toNat := by
  unfold onesBelow
  rw [List.range_succ, List.countP_append, List.countP_singleton]
  cases x.getLsbD n <;> rfl

theorem onesBelow_le (x : BitVec w) (m : Nat) : ∀ k, onesBelow x m ≤ onesBelow x (m + k)
  | 0 => le_rfl
  | k + 1 => by
    rw [← Nat.add_assoc, onesBelow_succ]
    exact le_trans (onesBelow_le x m k) (Nat.le_add_right _ _)

/-- There are as many below `m` as below a later place when none is set in between. -/
theorem onesBelow_eq_iff (x : BitVec w) (m : Nat) :
    ∀ k, onesBelow x m = onesBelow x (m + k) ↔ ∀ i, i < k → x.getLsbD (m + i) = false
  | 0 => iff_of_true rfl fun _ hi => absurd hi (Nat.not_lt_zero _)
  | k + 1 => by
    have hle := onesBelow_le x m k
    have ih := onesBelow_eq_iff x m k
    rw [← Nat.add_assoc, onesBelow_succ]
    constructor
    · intro h i hi
      cases hbit : x.getLsbD (m + k) with
      | true =>
        rw [hbit, Bool.toNat_true] at h
        omega
      | false =>
        rw [hbit, Bool.toNat_false, Nat.add_zero] at h
        rcases Nat.lt_succ_iff_lt_or_eq.1 hi with hlt | rfl
        · exact ih.1 h i hlt
        · exact hbit
    · intro h
      rw [h k (Nat.lt_succ_self k), Bool.toNat_false, Nat.add_zero]
      exact ih.2 fun i hi => h i (Nat.lt_succ_of_lt hi)

/-- All the bits that are set are below `m` when the word is below its power of two. -/
theorem onesBelow_eq_ones_iff (x : BitVec w) {m : Nat} (hm : m ≤ w) : onesBelow x m = ones x ↔ x.toNat < 2 ^ m := by
  obtain ⟨k, rfl⟩ := Nat.exists_eq_add_of_le hm
  refine (onesBelow_eq_iff x m k).trans ⟨?_, ?_⟩
  · intro h
    refine Nat.lt_pow_two_of_testBit _ fun i hi => ?_
    obtain ⟨j, rfl⟩ := Nat.exists_eq_add_of_le hi
    by_cases hj : j < k
    · exact h j hj
    · exact BitVec.getLsbD_of_ge x (m + j) (by omega)
  · intro h i _
    exact Nat.testBit_lt_two_pow (lt_of_lt_of_le h (Nat.pow_le_pow_right Nat.two_pos (Nat.le_add_right m i)))

/-! ## The loop -/

theorem twoPow_shift (j : Nat) (h : j + 1 < w) : BitVec.twoPow w (j + 1) >>> 1 = BitVec.twoPow w j := by
  refine BitVec.eq_of_toNat_eq ?_
  rw [BitVec.toNat_ushiftRight, BitVec.toNat_twoPow_of_lt h, BitVec.toNat_twoPow_of_lt (Nat.lt_of_succ_lt h),
    Nat.shiftRight_succ, Nat.shiftRight_zero, Nat.pow_succ, Nat.mul_div_cancel _ Nat.two_pos]

theorem twoPow_last (h : 0 < w) : BitVec.twoPow w 0 >>> 1 = 0#w := by
  refine BitVec.eq_of_toNat_eq ?_
  rw [BitVec.toNat_ushiftRight, BitVec.toNat_twoPow_of_lt h]
  rfl

theorem and_twoPow_ne (x : BitVec w) {j : Nat} (h : j < w) : x &&& BitVec.twoPow w j ≠ 0 ↔ x.getLsbD j = true := by
  have hne : BitVec.twoPow w j ≠ 0#w := by
    intro heq
    have hnat := congrArg BitVec.toNat heq
    rw [BitVec.toNat_twoPow_of_lt h] at hnat
    exact absurd hnat (Nat.ne_of_gt (Nat.two_pow_pos j))
  rw [BitVec.and_twoPow]
  cases x.getLsbD j with
  | true => exact iff_of_true hne rfl
  | false => exact iff_of_false (not_not.2 rfl) Bool.false_ne_true

/-- A probe that was shifted out counts nothing. -/
theorem probed_zero (x : BitVec w) : ∀ i count, probed x i 0#w count = count
  | 0, _ => rfl
  | i + 1, count => by
    have hshift : 0#w >>> 1 = 0#w := BitVec.zero_ushiftRight
    have hand : ¬ x &&& 0#w ≠ 0 := not_not.2 BitVec.and_zero
    rw [probed, if_neg hand, hshift]
    exact probed_zero x i count

/-- A probe that starts at place `j` visits this place and those below it, each once. -/
theorem probed_twoPow (x : BitVec w) : ∀ {j i : Nat} (count : Nat), j < w → j < i →
    probed x i (BitVec.twoPow w j) count = count + onesBelow x (j + 1)
  | _, 0, _, _, hi => absurd hi (Nat.not_lt_zero _)
  | j, i + 1, count, hj, hi => by
    have hcount : (if x &&& BitVec.twoPow w j ≠ 0 then count + 1 else count) = count + (x.getLsbD j).toNat := by
      rw [if_congr (and_twoPow_ne x hj) rfl rfl]
      cases x.getLsbD j <;> rfl
    rw [probed, hcount]
    cases j with
    | zero =>
      rw [twoPow_last hj, probed_zero, onesBelow_succ]
      exact congrArg (count + ·) (Nat.zero_add _).symm
    | succ j =>
      rw [twoPow_shift j hj, probed_twoPow x _ (Nat.lt_of_succ_lt hj) (Nat.lt_of_succ_lt_succ hi), onesBelow_succ x (j + 1)]
      omega

end FortiRdp.Run.Bits
