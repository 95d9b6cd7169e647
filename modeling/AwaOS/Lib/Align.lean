import Mathlib.Algebra.Group.Nat.Defs

/-!
Clearing the low bits of a machine word.
-/

namespace Align

variable {w : Nat}

/--
All bits from bit `k` on.
-/
def highMask (w k : Nat) : BitVec w :=
  BitVec.allOnes w <<< k

theorem and_highMask (x : BitVec w) (k : Nat) : x &&& highMask w k = (x >>> k) <<< k := by
  unfold highMask
  apply BitVec.eq_of_getLsbD_eq
  intro i hi
  rw [BitVec.getLsbD_and, BitVec.getLsbD_shiftLeft, BitVec.getLsbD_shiftLeft, BitVec.getLsbD_ushiftRight]
  by_cases hk : i < k
  . simp [hk]
  . have hlt : i - k < w := by omega
    have hsum : k + (i - k) = i := by omega
    simp [hk, hi, hlt, hsum]

theorem toNat_and_highMask (x : BitVec w) (k : Nat) : (x &&& highMask w k).toNat = x.toNat / 2 ^ k * 2 ^ k := by
  have hle : x.toNat / 2 ^ k * 2 ^ k ≤ x.toNat := Nat.div_mul_le_self _ _
  have hlt := x.isLt
  rw [and_highMask, BitVec.toNat_shiftLeft, BitVec.toNat_ushiftRight, Nat.shiftLeft_eq,
    Nat.shiftRight_eq_div_pow, Nat.mod_eq_of_lt (by omega)]

/--
A multiple of `2 ^ k` has no bit below `k`.
-/
theorem ofNat_and_highMask (n k : Nat) (hn : n < 2 ^ w) (hdvd : n % 2 ^ k = 0)
    : BitVec.ofNat w n &&& highMask w k = BitVec.ofNat w n := by
  apply BitVec.eq_of_toNat_eq
  rw [toNat_and_highMask, BitVec.toNat_ofNat, Nat.mod_eq_of_lt hn]
  exact Nat.div_mul_cancel (Nat.dvd_of_mod_eq_zero hdvd)

/--
The low bits are what was cleared.
-/
theorem and_highMask_add (x : BitVec w) (k : Nat)
    : (x &&& highMask w k) + BitVec.ofNat w (x.toNat % 2 ^ k) = x := by
  apply BitVec.eq_of_toNat_eq
  rw [BitVec.toNat_add, toNat_and_highMask, BitVec.toNat_ofNat, Nat.add_mod_mod, Nat.mul_comm, Nat.div_add_mod]
  exact Nat.mod_eq_of_lt x.isLt

end Align
