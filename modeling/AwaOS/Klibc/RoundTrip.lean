import AwaOS.Klibc.Digits
import Mathlib.Data.Nat.Digits.Lemmas

/-!
What `itoa` writes can be read back.
-/

namespace AwaOS

open ByteMem

/--
Digits below `base`, without a leading zero except for zero itself.
-/
structure CanonicalDigits (base : Nat) (digits : List Nat) : Prop where
  nonempty : digits ≠ []
  lt_base : ∀ d ∈ digits, d < base
  no_leading_zero : digits.head? = some 0 → digits = [0]

/--
The value of a character as a digit below `base`.
-/
def decodeDigit (base : Nat) (c : Byte) : Option Nat :=
  if byte '0' ≤ c ∧ c ≤ byte '9' ∧ c.toNat - 48 < base then
    some (c.toNat - 48)
  else if byte 'a' ≤ c ∧ c ≤ byte 'z' ∧ c.toNat - 87 < base then
    some (c.toNat - 87)
  else
    none

def decodeDigits (base : Nat) (text : List Byte) : Option Nat :=
  text.foldl (fun n c => do return base * (← n) + (← decodeDigit base c)) (some 0)

/--
Reads a numeral that may have a sign.
-/
def decodeSigned (base : Nat) : List Byte → Option Int
  | [] => none
  | c :: text =>
    if c = byte '-' then
      (decodeDigits base text).map (fun n : Nat => -(n : Int))
    else
      (decodeDigits base (c :: text)).map (fun n : Nat => (n : Int))

section Digits

variable {base n : Nat}

theorem canonicalDigits_numeralDigits (hbase : 2 ≤ base) : CanonicalDigits base (numeralDigits base n) := by
  unfold numeralDigits
  split
  . constructor
    . exact List.cons_ne_nil 0 []
    . intro d hd
      rw [List.mem_singleton.mp hd]
      omega
    . exact fun _ => rfl
  . next hzero =>
    have hne : Nat.digits base n ≠ [] := Nat.digits_ne_nil_iff_ne_zero.mpr hzero
    constructor
    . exact List.reverse_ne_nil_iff.mpr hne
    . intro d hd
      exact Nat.digits_lt_base hbase (List.mem_reverse.mp hd)
    . intro hhead
      rw [List.head?_reverse, List.getLast?_eq_some_getLast hne, Option.some_inj] at hhead
      exact absurd hhead (Nat.getLast_digit_ne_zero base hzero)

theorem toNat_digitByte {k : Nat} (hk : k < 36) : (digitByte k).toNat = if k < 10 then 48 + k else 87 + k := by
  have hall : ∀ k, k < 36 → (digitByte k).toNat = if k < 10 then 48 + k else 87 + k := by decide
  exact hall k hk

theorem digitByte_ne_minus {k : Nat} (hk : k < 36) : digitByte k ≠ byte '-' := by
  intro heq
  have hvalue := toNat_digitByte hk
  rw [heq] at hvalue
  change 45 = _ at hvalue
  split at hvalue <;> omega

theorem decodeDigit_digitByte {k : Nat} (hk : k < base) (hle : base ≤ 36)
    : decodeDigit base (digitByte k) = some k := by
  have hvalue := toNat_digitByte (Nat.lt_of_lt_of_le hk hle)
  unfold decodeDigit
  simp only [BitVec.le_def]
  change (if 48 ≤ (digitByte k).toNat ∧ (digitByte k).toNat ≤ 57 ∧ _ then _
    else if 97 ≤ (digitByte k).toNat ∧ (digitByte k).toNat ≤ 122 ∧ _ then _ else _) = _
  rw [hvalue]
  split
  . next hdecimal =>
    rw [if_pos (by omega)]
    congr 1
    omega
  . next hletter =>
    rw [if_neg (by omega), if_pos (by omega)]
    congr 1
    omega

theorem decodeDigits_append (text : List Byte) (c : Byte)
    : decodeDigits base (text ++ [c])
        =
      (do return base * (← decodeDigits base text) + (← decodeDigit base c)) := by
  unfold decodeDigits
  rw [List.foldl_append]
  rfl

theorem decodeDigits_numeralBytes (hbase : 2 ≤ base) (hle : base ≤ 36)
    : decodeDigits base (numeralBytes base n) = some n := by
  induction n using Nat.strongRecOn with
  | ind n ih =>
    rw [numeralBytes_eq_if hbase]
    split
    . next hsmall =>
      change (do return base * 0 + (← decodeDigit base (digitByte n))) = _
      rw [decodeDigit_digitByte hsmall hle, Nat.mul_zero]
      exact congrArg some (Nat.zero_add n)
    . next hlarge =>
      have hless : n / base < n := Nat.div_lt_self (by omega) hbase
      rw [decodeDigits_append, ih (n / base) hless, decodeDigit_digitByte (Nat.mod_lt n (by omega)) hle]
      exact congrArg some (Nat.div_add_mod n base)

theorem decodeSigned_numeralBytes (hbase : 2 ≤ base) (hle : base ≤ 36)
    : decodeSigned base (numeralBytes base n) = some (n : Int) := by
  have hcanonical := @canonicalDigits_numeralDigits base n hbase
  have hread := @decodeDigits_numeralBytes base n hbase hle
  unfold numeralBytes at *
  cases hdigits : numeralDigits base n with
  | nil => exact absurd hdigits hcanonical.nonempty
  | cons d digits =>
    have hd : d < 36 := by
      have hlt := hcanonical.lt_base d (hdigits ▸ List.mem_cons_self)
      omega
    rw [hdigits, List.map_cons] at hread
    rw [List.map_cons, decodeSigned, if_neg (digitByte_ne_minus hd), hread]
    rfl

end Digits

section Sign

variable {value : Int32}

theorem toInt_eq_toNat (hpos : ¬value.toInt < 0) : value.toInt = value.toNat := by
  rw [BitVec.toInt_eq_toNat_cond] at hpos ⊢
  split at hpos
  . rw [if_pos (by assumption)]
  . omega

/--
Also for the least `int`, whose negative is itself.
-/
theorem toInt_eq_neg_toNat (hneg : value.toInt < 0) : value.toInt = -((-value).toNat : Int) := by
  rw [BitVec.toInt_eq_toNat_cond] at hneg ⊢
  rw [BitVec.toNat_neg]
  split at hneg
  . omega
  . rw [if_neg (by assumption)]
    omega

theorem decodeSigned_negative (hneg : value.toInt < 0)
    : decodeSigned 10 (byte '-' :: numeralBytes 10 (-value).toNat) = some value.toInt := by
  have hread : decodeDigits 10 (numeralBytes 10 (-value).toNat) = some (-value).toNat :=
    decodeDigits_numeralBytes (by decide) (by decide)
  rw [decodeSigned, if_pos rfl, hread, toInt_eq_neg_toNat hneg]
  rfl

end Sign

/--
`itoa` writes a canonical numeral, which is read back as the value in base 10, and as the value modulo 2^32 in any
other base. Without a sign, `*size` is the number of its digits.
-/
theorem itoa_roundTrip {base : Int32} (hbase : 2 ≤ base.toNat) (hle : base.toNat ≤ 36) (value : Int32)
    (m : ByteMem) (str : Nat)
    : ∃ digits size m', itoa value m str base = .ok m'
        ∧ itoaInternal value m str base = .ok (size, m')
        ∧ CanonicalDigits base.toNat digits
        ∧ (¬(value.toInt < 0 ∧ base = 10) → size = digits.length)
        ∧
      let sign := if value.toInt < 0 ∧ base = 10 then [byte '-'] else []
      let text := sign ++ digits.map digitByte
      Holds m' str (text ++ [0])
        ∧ SameOutside m m' str (str + text.length + 1)
        ∧ (base = 10 → decodeSigned 10 text = some value.toInt)
        ∧ (base ≠ 10 → decodeDigits base.toNat text = some value.toNat) := by
  obtain ⟨size, m', heq, hsize, hholds, hsame⟩ := itoaInternal_eq hbase hle value m str
  have hitoa : itoa value m str base = .ok m' := by
    unfold itoa
    rw [except_bind_ok heq]
    rfl
  unfold itoaNumeral at hsize hholds hsame
  by_cases hsign : value.toInt < 0 ∧ base = 10
  . rw [if_pos hsign] at hholds hsame
    refine ⟨numeralDigits base.toNat (-value).toNat, size, m', hitoa, heq, canonicalDigits_numeralDigits hbase,
      fun hnot => absurd hsign hnot, ?_⟩
    rw [if_pos hsign]
    refine ⟨hholds, hsame, ?_, fun hne => absurd hsign.right hne⟩
    intro hten
    rw [hten]
    exact decodeSigned_negative hsign.left
  . rw [if_neg hsign] at hsize hholds hsame
    have hlength : (numeralBytes base.toNat value.toNat).length = (numeralDigits base.toNat value.toNat).length :=
      List.length_map _
    refine ⟨numeralDigits base.toNat value.toNat, size, m', hitoa, heq, canonicalDigits_numeralDigits hbase,
      fun hnot => (hsize hnot).trans hlength, ?_⟩
    rw [if_neg hsign]
    refine ⟨hholds, hsame, ?_, fun _ => decodeDigits_numeralBytes hbase hle⟩
    intro hten
    rw [hten, toInt_eq_toNat (fun hneg => hsign ⟨hneg, hten⟩)]
    exact decodeSigned_numeralBytes (by decide) (by decide)

/--
The least `int`, at the address 0 of a memory that is all zero.
-/
theorem itoa_roundTrip_least
    : ∃ digits size m', itoa 0x80000000 (fun _ => 0) 0 10 = .ok m'
        ∧ itoaInternal 0x80000000 (fun _ => 0) 0 10 = .ok (size, m')
        ∧ CanonicalDigits 10 digits
        ∧ (¬((0x80000000 : Int32).toInt < 0 ∧ (10 : Int32) = 10) → size = digits.length)
        ∧
      let sign := if (0x80000000 : Int32).toInt < 0 ∧ (10 : Int32) = 10 then [byte '-'] else []
      let text := sign ++ digits.map digitByte
      Holds m' 0 (text ++ [0])
        ∧ SameOutside (fun _ => 0) m' 0 (0 + text.length + 1)
        ∧ ((10 : Int32) = 10 → decodeSigned 10 text = some (0x80000000 : Int32).toInt)
        ∧ ((10 : Int32) ≠ 10 → decodeDigits 10 text = some (0x80000000 : Int32).toNat) :=
  itoa_roundTrip (by decide) (by decide) 0x80000000 (fun _ => 0) 0

end AwaOS
