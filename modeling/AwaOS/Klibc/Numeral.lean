import AwaOS.Klibc.Digits
import AwaOS.Klibc.Sprintf.Impl
import AwaOS.Klibc.Strlen

/-!
What `itoa` leaves in `numbuf`. The digits of a numeral are the ones of `Nat.toDigits`.
-/

namespace AwaOS

open ByteMem

def digitBytes (base n : Nat) : List Byte :=
  (Nat.toDigits base n).map byte

section Digits

variable {base n : Nat}

theorem digitBytes_eq_if (hbase : 2 ≤ base)
    : digitBytes base n
        =
      if n < base then [byte (Nat.digitChar n)]
      else digitBytes base (n / base) ++ [byte (Nat.digitChar (n % base))] := by
  unfold digitBytes
  rw [Nat.toDigits_eq_if hbase]
  split
  . rfl
  . rw [List.map_append]
    rfl

theorem length_digitBytes_pos : 0 < (digitBytes base n).length := by
  unfold digitBytes
  rw [List.length_map]
  exact Nat.length_toDigits_pos

theorem length_digitBytes_le (hbase : 10 ≤ base) (hn : n < 2 ^ 32) : (digitBytes base n).length ≤ 10 := by
  unfold digitBytes
  rw [List.length_map, Nat.length_toDigits_le_iff (by omega) (by decide)]
  have hpow : 10 ^ 10 ≤ base ^ 10 := Nat.pow_le_pow_left hbase 10
  omega

theorem digitBytes_eq_numeralBytes (hbase : 2 ≤ base) (hle : base ≤ 16)
    : digitBytes base n = numeralBytes base n := by
  have hdigit : ∀ k, k < 16 → byte (Nat.digitChar k) = digitByte k := by decide
  induction n using Nat.strongRecOn with
  | ind n ih =>
    rw [digitBytes_eq_if hbase, numeralBytes_eq_if hbase]
    split
    . next hsmall => rw [hdigit n (by omega)]
    . next hlarge =>
      have hrest := ih (n / base) (Nat.div_lt_self (by omega) hbase)
      have hlast : n % base < base := Nat.mod_lt n (by omega)
      rw [hrest, hdigit (n % base) (by omega)]

theorem mem_toDigits {c : Char} (hbase : 2 ≤ base) (hmem : c ∈ Nat.toDigits base n)
    : ∃ k, k < base ∧ c = Nat.digitChar k := by
  induction n using Nat.strongRecOn with
  | ind n ih =>
    rw [Nat.toDigits_eq_if hbase] at hmem
    split at hmem
    . next hsmall => exact ⟨n, hsmall, List.mem_singleton.mp hmem⟩
    . next hlarge =>
      cases List.mem_append.mp hmem with
      | inl hrest =>
        apply ih (n / base) _ hrest
        apply Nat.div_lt_self
        . omega
        . exact hbase
      | inr hlast => exact ⟨n % base, Nat.mod_lt _ (by omega), List.mem_singleton.mp hlast⟩

theorem ne_of_mem_digitBytes {c d : Byte} (hbase : 2 ≤ base) (hle : base ≤ 16)
    (hd : ∀ k, k < 16 → byte (Nat.digitChar k) ≠ d) (hmem : c ∈ digitBytes base n)
    : c ≠ d := by
  obtain ⟨digit, hdigit, hc⟩ := List.mem_map.mp hmem
  obtain ⟨k, hk, heq⟩ := mem_toDigits hbase hdigit
  rw [← hc, heq]
  exact hd k (by omega)

theorem zero_not_mem_digitBytes (hbase : 2 ≤ base) (hle : base ≤ 16) : 0 ∉ digitBytes base n :=
  fun hmem => ne_of_mem_digitBytes hbase hle (by decide) hmem rfl

theorem minus_not_mem_digitBytes (hbase : 2 ≤ base) (hle : base ≤ 16) : byte '-' ∉ digitBytes base n :=
  fun hmem => ne_of_mem_digitBytes hbase hle (by decide) hmem rfl

end Digits

/--
The characters that `itoa` writes.
-/
def itoaText (value base : Int32) : List Byte :=
  if value.toInt < 0 ∧ base = 10 then
    byte '-' :: digitBytes base.toNat (-value).toNat
  else
    digitBytes base.toNat value.toNat

section Itoa

variable {base : Int32} (value : Int32)

theorem length_itoaText_lt (hbase : 10 ≤ base.toNat) : (itoaText value base).length < 12 := by
  have hdigits := fun n => @length_digitBytes_le base.toNat n hbase
  unfold itoaText
  split
  . exact Nat.succ_lt_succ (Nat.lt_succ_of_le (hdigits _ (-value).isLt))
  . exact Nat.lt_of_le_of_lt (hdigits _ value.isLt) (by decide)

theorem zero_not_mem_itoaText (hbase : 10 ≤ base.toNat) (hle : base.toNat ≤ 16) : 0 ∉ itoaText value base := by
  have hdigits := fun n => @zero_not_mem_digitBytes base.toNat n (by omega) hle
  unfold itoaText
  split
  . rw [List.mem_cons]
    intro hor
    cases hor with
    | inl hsign => contradiction
    | inr hmem => exact hdigits _ hmem
  . exact hdigits _

theorem itoaText_eq_itoaNumeral (hbase : 10 ≤ base.toNat) (hle : base.toNat ≤ 16)
    : itoaText value base = itoaNumeral value base := by
  unfold itoaText itoaNumeral
  rw [digitBytes_eq_numeralBytes (by omega) hle, digitBytes_eq_numeralBytes (by omega) hle]

theorem itoa_eq (hbase : 10 ≤ base.toNat) (hle : base.toNat ≤ 16) (m : ByteMem)
    : ∃ m', itoa value m 0 base = .ok m'
        ∧ Holds m' 0 (itoaText value base ++ [0])
        ∧ SameOutside m m' 0 ((itoaText value base).length + 1) := by
  obtain ⟨size, m', heq, -, hholds, hsame⟩ := itoaInternal_eq (show 2 ≤ base.toNat by omega)
    (show base.toNat ≤ 36 by omega) value m 0
  rw [itoaText_eq_itoaNumeral value hbase hle]
  rw [Nat.zero_add] at hsame
  refine ⟨m', ?_, hholds, hsame⟩
  unfold itoa
  rw [except_bind_ok heq]
  rfl

end Itoa

section Numbuf

variable {m : ByteMem} {text : List Byte}

/--
`c & ~((c & 0x40) >> 1)`
-/
def capital (c : Byte) : Byte :=
  c &&& ~~~((c &&& 0x40#8) >>> 1)

theorem capital_ne_zero {c : Byte} (hne : c ≠ 0) : capital c ≠ 0 := by
  have hall : ∀ c : Byte, c ≠ 0 → capital c ≠ 0 := by decide +kernel
  exact hall c hne

theorem capitalize_zero (i count : Nat) (hend : m i = 0) : capitalize m i count = m := by
  cases count with
  | zero => rfl
  | succ count =>
    rw [capitalize, if_neg (not_not.mpr hend)]

theorem capitalize_eq (i count : Nat) (hholds : Holds m i (text ++ [0])) (hzero : 0 ∉ text)
    (hcount : text.length ≤ count)
    : Holds (capitalize m i count) i (text.map capital ++ [0])
        ∧ SameOutside m (capitalize m i count) i (i + text.length) := by
  induction text generalizing m i count with
  | nil =>
    rw [capitalize_zero i count (hholds 0 (Nat.succ_pos _))]
    exact ⟨hholds, .refl m _ _⟩
  | cons c text ih =>
    rw [List.length_cons] at hcount
    rw [List.cons_append, holds_cons] at hholds
    have hne : c ≠ 0 := fun heq => hzero (heq ▸ List.mem_cons_self)
    cases count with
    | zero => omega
    | succ count =>
      have hupdate := sameOutside_update m (capital c) (Nat.le_refl i) (Nat.lt_succ_self i)
      have hrest : Holds (Function.update m i (capital c)) (i + 1) (text ++ [0]) :=
        hholds.right.of_sameOn (hupdate.above _)
      obtain ⟨hcapital, hsame⟩ := ih (i + 1) count hrest (fun hmem => hzero (List.mem_cons_of_mem c hmem))
        (by omega)
      rw [capitalize, hholds.left, if_pos hne]
      change Holds (capitalize (Function.update m i (capital c)) (i + 1) count) i _
        ∧ SameOutside m (capitalize (Function.update m i (capital c)) (i + 1) count) i _
      constructor
      . rw [List.map_cons, List.cons_append, holds_cons]
        constructor
        . rw [hsame i (Or.inl (Nat.lt_succ_self i))]
          exact Function.update_self ..
        . exact hcapital
      . rw [List.length_cons]
        apply SameOutside.trans (hupdate.mono (Nat.le_refl _) (by omega))
        apply hsame.mono
        . exact Nat.le_succ i
        . omega

/--
The array starts with the text and its NUL.
-/
theorem numbufBytes_eq (hholds : Holds m 0 (text ++ [0])) (hlen : text.length < numbufsiz)
    : ∃ rest, numbufBytes m = text ++ 0 :: rest := by
  refine ⟨(numbufBytes m).drop (text.length + 1), ?_⟩
  have hlength : (numbufBytes m).length = numbufsiz := by
    unfold numbufBytes
    rw [List.length_map, List.length_range]
  have htake : (numbufBytes m).take (text.length + 1) = text ++ [0] := by
    apply List.ext_getElem
    . rw [List.length_take, hlength, List.length_append, List.length_singleton]
      omega
    . intro i hi hi'
      rw [List.getElem_take, ← hholds i hi', Nat.zero_add]
      unfold numbufBytes
      rw [List.getElem_map, List.getElem_range]
  calc numbufBytes m
    _ = (numbufBytes m).take (text.length + 1) ++ (numbufBytes m).drop (text.length + 1) :=
      (List.take_append_drop _ _).symm
    _ = text ++ 0 :: (numbufBytes m).drop (text.length + 1) := by
      rw [htake, List.append_assoc]
      rfl

end Numbuf

/--
The characters of a number in its field, without the prefix.
-/
def numberText (conv : Conversion) : List Byte :=
  if hasFlag conv.flags flagCaps then
    (itoaText conv.num conv.base).map capital
  else
    itoaText conv.num conv.base

theorem zero_not_mem_numberText (conv : Conversion) (hbase : 10 ≤ conv.base.toNat) (hle : conv.base.toNat ≤ 16)
    : 0 ∉ numberText conv := by
  have hzero := zero_not_mem_itoaText conv.num hbase hle
  unfold numberText
  split
  . intro hmem
    obtain ⟨c, hc, hcapital⟩ := List.mem_map.mp hmem
    apply capital_ne_zero _ hcapital
    intro heq
    exact hzero (heq ▸ hc)
  . exact hzero

theorem length_numberText (conv : Conversion)
    : (numberText conv).length = (itoaText conv.num conv.base).length := by
  unfold numberText
  split
  . exact List.length_map _
  . rfl

theorem formatNumber_eq (conv : Conversion) (numbuf : ByteMem) (hnumeric : hasFlag conv.flags flagNumeric)
    (hbase : 10 ≤ conv.base.toNat) (hle : conv.base.toNat ≤ 16)
    : ∃ rest numbuf', formatNumber conv numbuf = .ok (numberText conv ++ 0 :: rest, numbuf')
        ∧ SameOutside numbuf numbuf' 0 numbufsiz := by
  obtain ⟨m, hitoa, hholds, hsame⟩ := itoa_eq conv.num hbase hle numbuf
  have hlen := length_itoaText_lt conv.num hbase
  have hzero := zero_not_mem_itoaText conv.num hbase hle
  have hsize : (itoaText conv.num conv.base).length < numbufsiz := Nat.lt_trans hlen (by decide)
  unfold formatNumber numberText
  rw [if_pos hnumeric, except_bind_ok hitoa]
  dsimp only
  split
  . obtain ⟨hcapital, hsame'⟩ := capitalize_eq 0 numbufsiz hholds hzero (Nat.le_of_lt hsize)
    obtain ⟨rest, hrest⟩ := numbufBytes_eq hcapital (by rw [List.length_map]; exact hsize)
    refine ⟨rest, _, by rw [← hrest]; rfl, ?_⟩
    apply SameOutside.trans (hsame.mono (Nat.le_refl 0) hsize)
    exact hsame'.mono (Nat.le_refl 0) (by omega)
  . obtain ⟨rest, hrest⟩ := numbufBytes_eq hholds hsize
    exact ⟨rest, m, by rw [← hrest]; rfl, hsame.mono (Nat.le_refl 0) hsize⟩

end AwaOS
