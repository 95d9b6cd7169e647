import Mathlib.Logic.Function.Basic

/-!
Bitmaps that are stored as bytes. Item `q` lives in byte `q / 8`, the lowest numbered item of a byte
in its most significant bit.
-/

abbrev Bitmap := Nat → BitVec 8

namespace Bitmap

/--
The bit of item `q`.
-/
def test (bm : Bitmap) (q : Nat) : Bool :=
  (bm (q / 8)).getMsbD (q % 8)

/--
The byte that has only the bit of item `q` set.
-/
def bit (q : Nat) : BitVec 8 :=
  0x80#8 >>> (q % 8)

def set (bm : Bitmap) (q : Nat) : Bitmap :=
  Function.update bm (q / 8) (bm (q / 8) ||| bit q)

def clear (bm : Bitmap) (q : Nat) : Bitmap :=
  Function.update bm (q / 8) (bm (q / 8) &&& ~~~bit q)

theorem ext {bm bm' : Bitmap} (h : ∀ q, bm.test q = bm'.test q) : bm = bm' := by
  funext group
  apply BitVec.eq_of_getMsbD_eq
  intro i hi
  have hbit := h (group * 8 + i)
  unfold test at hbit
  have hgroup : (group * 8 + i) / 8 = group := by omega
  have hoff : (group * 8 + i) % 8 = i := by omega
  rwa [hgroup, hoff] at hbit

theorem shifted_getMsbD {i j : Nat} (hi : i < 8) (hj : j < 8) : (0x80#8 >>> j).getMsbD i = decide (i = j) := by
  have shifted : ∀ j, j < 8 → ∀ i, i < 8 → (0x80#8 >>> j).getMsbD i = decide (i = j) := by decide
  apply shifted
  . exact hj
  . exact hi

theorem bit_getMsbD (q i : Nat) (hi : i < 8) : (bit q).getMsbD i = decide (i = q % 8) := by
  apply shifted_getMsbD
  . exact hi
  . omega

@[simp]
theorem test_set (bm : Bitmap) (q r : Nat)
    : (bm.set q).test r = (decide (r = q) || bm.test r) := by
  have hr : r % 8 < 8 := by omega
  unfold test set
  by_cases hbyte : r / 8 = q / 8
  . have hiff : r % 8 = q % 8 ↔ r = q := by omega
    simp [hbyte, bit_getMsbD q (r % 8) hr, hiff, Bool.or_comm]
  . have hne : r ≠ q := by
      intro h
      simp [h] at hbyte
    simp [hbyte, hne]

@[simp]
theorem test_clear (bm : Bitmap) (q r : Nat)
    : (bm.clear q).test r = (decide (r ≠ q) && bm.test r) := by
  have hr : r % 8 < 8 := by omega
  unfold test clear
  by_cases hbyte : r / 8 = q / 8
  . have hiff : r % 8 = q % 8 ↔ r = q := by omega
    simp [hbyte, bit_getMsbD q (r % 8) hr, hiff, hr, Bool.and_comm]
  . have hne : r ≠ q := by
      intro h
      simp [h] at hbyte
    simp [hbyte, hne]

theorem getMsbD_allOnes_byte {i : Nat} (hi : i < 8) : (0xFF#8).getMsbD i = true := by
  revert i
  decide

/--
A byte other than `0xFF` has a clear bit.
-/
theorem exists_getMsbD_false {b : BitVec 8} (h : b ≠ 0xFF#8)
    : ∃ i, i < 8 ∧ b.getMsbD i = false := by
  apply Classical.byContradiction
  intro hnone
  apply h
  apply BitVec.eq_of_getMsbD_eq
  intro i hi
  rw [getMsbD_allOnes_byte hi]
  cases hbit : b.getMsbD i with
  | true => rfl
  | false => exact absurd ⟨i, hi, hbit⟩ hnone

theorem bit_and_eq_zero (b : BitVec 8) {i : Nat} (hi : i < 8)
    : b &&& (0x80#8 >>> i) = 0#8 ↔ b.getMsbD i = false := by
  constructor
  . intro hzero
    have hbit : (b &&& (0x80#8 >>> i)).getMsbD i = false := by
      rw [hzero]
      exact BitVec.getMsbD_zero
    rw [BitVec.getMsbD_and, shifted_getMsbD hi hi, decide_eq_true rfl, Bool.and_true] at hbit
    exact hbit
  . intro hclear
    apply BitVec.eq_of_getMsbD_eq
    intro j hj
    rw [BitVec.getMsbD_and, shifted_getMsbD hj hi, BitVec.getMsbD_zero]
    by_cases heq : j = i
    . rw [heq, hclear]
      rfl
    . rw [decide_eq_false heq]
      exact Bool.and_false _

end Bitmap
