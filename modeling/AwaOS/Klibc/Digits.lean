import AwaOS.Klibc.Itoa
import AwaOS.Lib.StateMonad
import Mathlib.Data.Nat.Digits.Defs

/-!
The loops of `__uitoa_internal`: what they write in any base that `base_char` has digits for.
-/

namespace AwaOS

open ByteMem

/--
The digits of a number, the most significant one first.
-/
def numeralDigits (base n : Nat) : List Nat :=
  if n = 0 then
    [0]
  else
    (Nat.digits base n).reverse

def digitByte (k : Nat) : Byte :=
  baseChar.getD k 0

def numeralBytes (base n : Nat) : List Byte :=
  (numeralDigits base n).map digitByte

section Digits

variable {base n : Nat}

theorem numeralDigits_eq_if (hbase : 2 ≤ base)
    : numeralDigits base n
        =
      if n < base then [n] else numeralDigits base (n / base) ++ [n % base] := by
  unfold numeralDigits
  by_cases hzero : n = 0
  . rw [if_pos hzero, if_pos (by omega), hzero]
  . rw [if_neg hzero]
    split
    . next hsmall =>
      rw [Nat.digits_of_lt base n hzero hsmall]
      rfl
    . next hlarge =>
      have hquot : n / base ≠ 0 := Nat.ne_of_gt (Nat.div_pos (Nat.le_of_not_lt hlarge) (by omega))
      rw [if_neg hquot, Nat.digits_def' hbase (Nat.pos_of_ne_zero hzero), List.reverse_cons]

theorem numeralBytes_eq_if (hbase : 2 ≤ base)
    : numeralBytes base n
        =
      if n < base then [digitByte n] else numeralBytes base (n / base) ++ [digitByte (n % base)] := by
  unfold numeralBytes
  rw [numeralDigits_eq_if hbase]
  split
  . rfl
  . rw [List.map_append]
    rfl

theorem baseChar_digit {k : Nat} (hk : k < 36) : deref (baseChar.drop k) = .ok (digitByte k) := by
  have hall : ∀ k, k < 36 → (baseChar.drop k).head? = some (digitByte k) := by decide
  have hhead := hall k hk
  cases hdrop : baseChar.drop k with
  | nil =>
    rw [hdrop] at hhead
    contradiction
  | cons c rest =>
    rw [hdrop] at hhead
    injection hhead with hhead
    rw [hhead]
    rfl

end Digits

section Loops

variable {base : Int32}

theorem digit_value (hle : base.toNat ≤ 36) (hbase : 2 ≤ base.toNat) (value : BitVec 32)
    : deref (baseChar.drop (value % base).toNat) = .ok (digitByte (value.toNat % base.toNat)) := by
  have hlt : value.toNat % base.toNat < base.toNat := Nat.mod_lt _ (by omega)
  rw [BitVec.toNat_umod]
  exact baseChar_digit (by omega)

theorem digits_last (hbase : 2 ≤ base.toNat) (hle : base.toNat ≤ 36) (str fuel : Nat) {value : BitVec 32}
    (ptr : Nat) (m : ByteMem) (hsmall : value.toNat < base.toNat)
    : uitoaInternal.digits str base (fuel + 1) value ptr m
        =
      .ok (ptr + 1, Function.update m (str + ptr) (digitByte value.toNat)) := by
  have hquot : value / base = 0 := by
    apply BitVec.eq_of_toNat_eq
    rw [BitVec.toNat_udiv]
    exact Nat.div_eq_of_lt hsmall
  unfold uitoaInternal.digits
  rw [except_bind_ok (digit_value hle hbase value), Nat.mod_eq_of_lt hsmall]
  dsimp only
  rw [if_neg (not_not.mpr hquot)]
  rfl

theorem digits_step (hbase : 2 ≤ base.toNat) (hle : base.toNat ≤ 36) (str fuel : Nat) {value : BitVec 32}
    (ptr : Nat) (m : ByteMem) (hlarge : base.toNat ≤ value.toNat)
    : uitoaInternal.digits str base (fuel + 1) value ptr m
        =
      uitoaInternal.digits str base fuel (value / base) (ptr + 1)
        (Function.update m (str + ptr) (digitByte (value.toNat % base.toNat))) := by
  have hquot : value / base ≠ 0 := by
    intro hzero
    have hdiv := congrArg BitVec.toNat hzero
    rw [BitVec.toNat_udiv] at hdiv
    have hpos := Nat.div_pos hlarge (by omega)
    exact absurd hdiv (Nat.ne_of_gt hpos)
  rw [uitoaInternal.digits, except_bind_ok (digit_value hle hbase value)]
  dsimp only
  rw [if_pos hquot]

/--
The `do` loop writes the digits from the last one to the first one.
-/
theorem digits_eq (hbase : 2 ≤ base.toNat) (hle : base.toNat ≤ 36) (str fuel : Nat) (value : BitVec 32) (ptr : Nat)
    (m : ByteMem) (hvalue : value.toNat < 2 ^ (fuel + 1))
    : ∃ m', uitoaInternal.digits str base (fuel + 1) value ptr m
          = .ok (ptr + (numeralBytes base.toNat value.toNat).length, m')
        ∧ Holds m' (str + ptr) (numeralBytes base.toNat value.toNat).reverse
        ∧ SameOutside m m' (str + ptr) (str + ptr + (numeralBytes base.toNat value.toNat).length) := by
  have hlast : ∀ (fuel : Nat) (value : BitVec 32) (ptr : Nat) (m : ByteMem), value.toNat < base.toNat →
      ∃ m', uitoaInternal.digits str base (fuel + 1) value ptr m
          = .ok (ptr + (numeralBytes base.toNat value.toNat).length, m')
        ∧ Holds m' (str + ptr) (numeralBytes base.toNat value.toNat).reverse
        ∧ SameOutside m m' (str + ptr) (str + ptr + (numeralBytes base.toNat value.toNat).length) := by
    intro fuel value ptr m hsmall
    rw [numeralBytes_eq_if hbase, if_pos hsmall]
    refine ⟨_, digits_last hbase hle str fuel ptr m hsmall, ?_, ?_⟩
    . rw [List.reverse_singleton, holds_cons]
      constructor
      . exact Function.update_self ..
      . exact holds_nil
    . apply sameOutside_update
      . exact Nat.le_refl _
      . exact Nat.lt_succ_self _
  induction fuel generalizing value ptr m with
  | zero =>
    apply hlast
    omega
  | succ fuel ih =>
    by_cases hsmall : value.toNat < base.toNat
    . exact hlast _ _ _ _ hsmall
    . have hlarge : base.toNat ≤ value.toNat := Nat.le_of_not_lt hsmall
      have hquot : (value / base).toNat < 2 ^ (fuel + 1) := by
        rw [BitVec.toNat_udiv]
        apply Nat.div_lt_of_lt_mul
        have := Nat.mul_le_mul_right (2 ^ (fuel + 1)) hbase
        rw [Nat.pow_succ] at hvalue
        omega
      obtain ⟨m', hdigits, hholds, hsame⟩ := ih (value / base) (ptr + 1)
        (Function.update m (str + ptr) (digitByte (value.toNat % base.toNat))) hquot
      rw [BitVec.toNat_udiv] at hdigits hholds hsame
      rw [digits_step hbase hle str (fuel + 1) ptr m hlarge, numeralBytes_eq_if hbase, if_neg hsmall,
        List.length_append, List.length_singleton, List.reverse_append, List.reverse_singleton]
      refine ⟨m', ?_, ?_, ?_⟩
      . rw [hdigits, Nat.add_right_comm, Nat.add_assoc]
      . rw [List.singleton_append, holds_cons]
        constructor
        . rw [hsame _ (Or.inl (by omega))]
          exact Function.update_self ..
        . exact hholds
      . apply SameOutside.trans (sameOutside_update m _ (Nat.le_refl _) (by omega))
        apply hsame.mono
        . omega
        . omega

/--
The rounds from `i` on exchange each byte with its mirror image.
-/
theorem reverse_eq (str ptr i count : Nat) (m : ByteMem) (hcount : 2 * (i + count) ≤ ptr) (j : Nat) (hj : j < ptr)
    : uitoaInternal.reverse str ptr i count m (str + j)
        =
      if (i ≤ j ∧ j < i + count) ∨ (i ≤ ptr - 1 - j ∧ ptr - 1 - j < i + count) then m (str + (ptr - 1 - j))
      else m (str + j) := by
  induction count generalizing i m with
  | zero =>
    rw [if_neg (by omega)]
    rfl
  | succ count ih =>
    have hswap : ∀ k, k < ptr →
        Function.update (Function.update m (str + i) (m (str + (ptr - i - 1)))) (str + (ptr - i - 1)) (m (str + i))
            (str + k)
          = if k = i ∨ k = ptr - 1 - i then m (str + (ptr - 1 - k)) else m (str + k) := by
      intro k hk
      by_cases hlast : k = ptr - i - 1
      . rw [← hlast, Function.update_self, if_pos (by omega), show ptr - 1 - k = i by omega]
      . rw [Function.update_of_ne (by omega)]
        by_cases hfirst : k = i
        . rw [hfirst, Function.update_self, if_pos (Or.inl rfl), show ptr - 1 - i = ptr - i - 1 by omega]
        . rw [Function.update_of_ne (by omega), if_neg (by omega)]
    unfold uitoaInternal.reverse
    rw [ih (i + 1) _ (by omega), hswap j hj, hswap (ptr - 1 - j) (by omega)]
    by_cases hnow : j = i ∨ j = ptr - 1 - i
    . rw [if_neg (by omega), if_pos hnow, if_pos (by omega)]
    . rw [if_neg hnow, if_neg (show ¬(ptr - 1 - j = i ∨ ptr - 1 - j = ptr - 1 - i) by omega)]
      apply if_congr
      . omega
      . rfl
      . rfl

theorem reverse_outside (str ptr i count : Nat) (m : ByteMem) (hcount : 2 * (i + count) ≤ ptr)
    : SameOutside m (uitoaInternal.reverse str ptr i count m) str (str + ptr) := by
  induction count generalizing i m with
  | zero => exact .refl m _ _
  | succ count ih =>
    unfold uitoaInternal.reverse
    apply SameOutside.trans (sameOutside_update m _ (Nat.le_add_right str i) (by omega))
    apply SameOutside.trans (sameOutside_update _ _ (Nat.le_add_right str (ptr - i - 1)) (by omega))
    exact ih (i + 1) _ (by omega)

theorem holds_reverse {str : Nat} {m : ByteMem} {l : List Byte} (h : Holds m str l.reverse)
    : Holds (uitoaInternal.reverse str l.length 0 (l.length / 2) m) str l := by
  intro j hj
  have hmirror := h (l.length - 1 - j) (by rw [List.length_reverse]; omega)
  rw [List.getElem_reverse] at hmirror
  rw [reverse_eq str l.length 0 (l.length / 2) m (by omega) j hj]
  split
  . rw [hmirror]
    congr 1
    omega
  . -- the byte in the middle is its own mirror image
    have hmiddle : m (str + j) = m (str + (l.length - 1 - j)) := by
      congr 2
      omega
    rw [hmiddle, hmirror]
    congr 1
    omega

/--
The digits and the NUL after them are all that `__uitoa_internal` writes.
-/
theorem uitoaInternal_eq (hbase : 2 ≤ base.toNat) (hle : base.toNat ≤ 36) (value : BitVec 32) (m : ByteMem)
    (str : Nat)
    : ∃ m', uitoaInternal value m str base = .ok ((numeralBytes base.toNat value.toNat).length, m')
        ∧ Holds m' str (numeralBytes base.toNat value.toNat ++ [0])
        ∧ SameOutside m m' str (str + (numeralBytes base.toNat value.toNat).length + 1) := by
  obtain ⟨m₁, hdigits, hholds, hsame⟩ := digits_eq hbase hle str 31 value 0 m value.isLt
  rw [Nat.zero_add] at hdigits
  rw [Nat.add_zero] at hholds hsame
  have hreverse := holds_reverse hholds
  have houtside := reverse_outside str (numeralBytes base.toNat value.toNat).length 0
    ((numeralBytes base.toNat value.toNat).length / 2) m₁ (by omega)
  unfold uitoaInternal
  rw [except_bind_ok hdigits]
  refine ⟨_, rfl, ?_, ?_⟩
  . rw [holds_append]
    constructor
    . apply hreverse.of_sameOn
      exact (sameOutside_update _ 0 (Nat.le_refl _) (Nat.lt_succ_self _)).below str
    . rw [holds_cons]
      constructor
      . exact Function.update_self ..
      . exact holds_nil
  . apply SameOutside.trans (hsame.mono (Nat.le_refl _) (Nat.le_succ _))
    apply SameOutside.trans (houtside.mono (Nat.le_refl _) (Nat.le_succ _))
    apply sameOutside_update
    . exact Nat.le_add_right _ _
    . exact Nat.lt_succ_self _

end Loops

/--
The numeral that `itoa` writes: a sign only in base 10.
-/
def itoaNumeral (value base : Int32) : List Byte :=
  if value.toInt < 0 ∧ base = 10 then
    byte '-' :: numeralBytes base.toNat (-value).toNat
  else
    numeralBytes base.toNat value.toNat

/--
`*size` is the number of digits, without the sign.
-/
theorem itoaInternal_eq {base : Int32} (hbase : 2 ≤ base.toNat) (hle : base.toNat ≤ 36) (value : Int32)
    (m : ByteMem)
    (str : Nat)
    : ∃ size m', itoaInternal value m str base = .ok (size, m')
        ∧ (¬(value.toInt < 0 ∧ base = 10) → size = (itoaNumeral value base).length)
        ∧ Holds m' str (itoaNumeral value base ++ [0])
        ∧ SameOutside m m' str (str + (itoaNumeral value base).length + 1) := by
  unfold itoaInternal itoaNumeral
  split
  . next hsign =>
    obtain ⟨m', heq, hholds, hsame⟩ :=
      uitoaInternal_eq hbase hle (-value) (Function.update m str (byte '-')) (str + 1)
    refine ⟨_, m', heq, fun hnot => absurd hsign hnot, ?_, ?_⟩
    . rw [List.cons_append, holds_cons]
      constructor
      . rw [hsame str (Or.inl (Nat.lt_succ_self str))]
        exact Function.update_self ..
      . exact hholds
    . apply SameOutside.trans (sameOutside_update m (byte '-') (Nat.le_refl str) (by omega))
      apply hsame.mono
      . exact Nat.le_succ str
      . rw [List.length_cons]
        omega
  . obtain ⟨m', heq, hholds, hsame⟩ := uitoaInternal_eq hbase hle value m str
    exact ⟨_, m', heq, fun _ => rfl, hholds, hsame⟩

end AwaOS
