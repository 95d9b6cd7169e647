import Mathlib.Algebra.Group.Nat.Defs

/-!
Fields of machine words: what masks and shifts do to a run of `n` bits from bit `s` on.
-/

namespace BitField

variable {v w : Nat}

/--
Two words that are stored one after the other, the high one first.
-/
theorem shiftLeft_or_eq_append (high : BitVec v) (low : BitVec w)
    : high.setWidth (v + w) <<< w ||| low.setWidth (v + w) = high ++ low := by
  rw [← BitVec.setWidth_append_eq_shiftLeft_setWidth_or]
  apply BitVec.setWidth_eq

/--
A word is the concatenation of its three parts.
-/
theorem append_three {u : Nat} (x : BitVec (u + v + w))
    : x.extractLsb' (v + w) u ++ x.extractLsb' w v ++ x.extractLsb' 0 w = x := by
  have hhigh : x.extractLsb' (v + w) u ++ x.extractLsb' w v = x.extractLsb' w (u + v) := by
    apply BitVec.eq_of_getLsbD_eq
    intro i hi
    rw [BitVec.getLsbD_append, BitVec.getLsbD_extractLsb', BitVec.getLsbD_extractLsb', BitVec.getLsbD_extractLsb']
    by_cases hv : i < v
    . simp [hv, hi]
    . have hu : i - v < u := by omega
      have hsum : v + w + (i - v) = w + i := by omega
      simp [hv, hi, hu, hsum]
  rw [hhigh]
  apply BitVec.extractLsb'_append_extractLsb'

section Shift

variable (x : BitVec w)

theorem extractLsb'_ushiftRight (k s n : Nat) : (x >>> k).extractLsb' s n = x.extractLsb' (k + s) n := by
  apply BitVec.eq_of_getLsbD_eq
  intro i hi
  rw [BitVec.getLsbD_extractLsb', BitVec.getLsbD_extractLsb', BitVec.getLsbD_ushiftRight, Nat.add_assoc]

theorem extractLsb'_shiftLeft {k s n : Nat} (hlow : k ≤ s) (hhigh : s + n ≤ w)
    : (x <<< k).extractLsb' s n = x.extractLsb' (s - k) n := by
  apply BitVec.eq_of_getLsbD_eq
  intro i hi
  have hlt : s + i < w := by omega
  have hge : ¬s + i < k := by omega
  have hsub : s + i - k = s - k + i := by omega
  rw [BitVec.getLsbD_extractLsb', BitVec.getLsbD_extractLsb', BitVec.getLsbD_shiftLeft, hsub]
  simp only [hlt, hge, decide_true, decide_false, Bool.not_false, Bool.true_and]

theorem extractLsb'_shiftLeft_of_add_le {k s n : Nat} (h : s + n ≤ k) : (x <<< k).extractLsb' s n = 0#n := by
  apply BitVec.eq_of_getLsbD_eq
  intro i hi
  have hlt : s + i < k := by omega
  rw [BitVec.getLsbD_extractLsb', BitVec.getLsbD_shiftLeft]
  simp [hlt]

end Shift

section Mask

variable {x mask : BitVec w} {s n : Nat}

theorem extractLsb'_and_of_allOnes (h : mask.extractLsb' s n = BitVec.allOnes n)
    : (x &&& mask).extractLsb' s n = x.extractLsb' s n := by
  rw [BitVec.extractLsb'_and, h, BitVec.and_allOnes]

theorem extractLsb'_and_of_zero (h : mask.extractLsb' s n = 0#n) : (x &&& mask).extractLsb' s n = 0#n := by
  rw [BitVec.extractLsb'_and, h, BitVec.and_zero]

/--
A field that is taken from `y` where the bits of `mask` are taken from `x`.
-/
theorem extractLsb'_merge {y : BitVec w} (h : mask.extractLsb' s n = 0#n)
    (hnot : (~~~mask).extractLsb' s n = BitVec.allOnes n)
    : ((x &&& mask) ||| (y &&& ~~~mask)).extractLsb' s n = y.extractLsb' s n := by
  rw [BitVec.extractLsb'_or, extractLsb'_and_of_zero h, extractLsb'_and_of_allOnes hnot, BitVec.zero_or]

/--
A word with no bit outside of `mask` is zero in each field outside of `mask`.
-/
theorem extractLsb'_eq_zero (hmask : x &&& mask = x) (h : mask.extractLsb' s n = 0#n)
    : x.extractLsb' s n = 0#n := by
  rw [← hmask]
  exact extractLsb'_and_of_zero h

end Mask

theorem toNat_extractLsb'_zero {x : BitVec w} {n : Nat} (h : x.toNat < 2 ^ n)
    : (x.extractLsb' 0 n).toNat = x.toNat := by
  rw [BitVec.extractLsb'_toNat, Nat.shiftRight_zero]
  exact Nat.mod_eq_of_lt h

end BitField
