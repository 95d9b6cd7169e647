import AwaOS.Klibc.Sprintf.Impl
import AwaOS.Lib.StateMonad

/-!
`__sprintf_internal` always ends: every round of the outer loop consumes a byte of the format, and a number
has at most as many digits as it has bits.
-/

namespace AwaOS

/--
The computation ends, and a result of it satisfies `P`.
-/
abbrev Ends {α : Type} (P : α → Prop) (x : LibcM α) : Prop :=
  Within (· ≠ .endless) P x

theorem deref_ends (ptr : List Byte) : Ends (fun c => ptr = c :: ptr.tail) (deref ptr) := by
  cases ptr with
  | nil => exact within_throw LibcFault.noConfusion
  | cons c ptr => exact within_pure rfl

theorem strchr_ends (character : Byte) (str : List Byte) : Ends (fun _ => True) (strchr character str) := by
  induction str with
  | nil => exact within_throw LibcFault.noConfusion
  | cons c str ih =>
    unfold strchr
    split
    . split
      . exact within_pure trivial
      . exact ih.bind (fun _ _ => within_pure trivial)
    . split
      . exact within_pure trivial
      . exact within_pure trivial

theorem strlen_ends (str : List Byte) : Ends (fun _ => True) (strlen str) := by
  induction str with
  | nil => exact within_throw LibcFault.noConfusion
  | cons c str ih =>
    unfold strlen
    split
    . exact ih.bind (fun _ _ => within_pure trivial)
    . exact within_pure trivial

theorem strnlen_ends (str : List Byte) (maxLen : Nat) : Ends (fun _ => True) (strnlen str maxLen) := by
  suffices hgo : ∀ len, Ends (fun _ => True) (strnlen.go maxLen len str) from hgo 0
  induction str with
  | nil => exact fun _ => within_throw LibcFault.noConfusion
  | cons c str ih =>
    intro len
    unfold strnlen.go
    split
    . exact ih (len + 1)
    . exact within_pure trivial

section Digits

variable {base : Int32}

theorem digits_ends (hbase : 2 ≤ base.toNat) (str fuel : Nat) (value : BitVec 32) (ptr : Nat) (m : ByteMem)
    (hvalue : value.toNat < 2 ^ (fuel + 1))
    : Ends (fun _ => True) (uitoaInternal.digits str base (fuel + 1) value ptr m) := by
  induction fuel generalizing value ptr m with
  | zero =>
    have hquot : value / base = 0 := by
      apply BitVec.eq_of_toNat_eq
      rw [BitVec.toNat_udiv]
      exact Nat.div_eq_of_lt (by omega)
    refine (deref_ends _).bind (fun digit _ => ?_)
    dsimp only
    rw [if_neg (not_not.mpr hquot)]
    exact within_pure trivial
  | succ fuel ih =>
    refine (deref_ends _).bind (fun digit _ => ?_)
    dsimp only
    split
    . apply ih
      rw [BitVec.toNat_udiv]
      apply Nat.div_lt_of_lt_mul
      have := Nat.mul_le_mul_right (2 ^ (fuel + 1)) hbase
      rw [Nat.pow_succ] at hvalue
      omega
    . exact within_pure trivial

theorem itoa_ends (hbase : 2 ≤ base.toNat) (value : Int32) (m : ByteMem) (str : Nat)
    : Ends (fun _ => True) (itoa value m str base) := by
  have hunsigned : ∀ (value : BitVec 32) m str, Ends (fun _ => True) (uitoaInternal value m str base) :=
    fun value m str => (digits_ends hbase str 31 value 0 m value.isLt).bind (fun _ _ => within_pure trivial)
  unfold itoa itoaInternal
  split
  . exact (hunsigned _ _ _).bind (fun _ _ => within_pure trivial)
  . exact (hunsigned _ _ _).bind (fun _ _ => within_pure trivial)

end Digits

section Scan

variable (fmt : List Byte)

theorem scanFlags_ends (flags : Int32) : Ends (fun r => r.2.length ≤ fmt.length) (scanFlags flags fmt) := by
  induction fmt generalizing flags with
  | nil => exact within_throw LibcFault.noConfusion
  | cons c fmt ih =>
    unfold scanFlags
    split
    . refine (strchr_ends c flagChars).bind (fun r _ => ?_)
      cases r with
      | none => exact within_pure (Nat.le_refl _)
      | some flagc => exact (ih _).mono (fun _ hle => Nat.le_succ_of_le hle)
    . exact within_pure (Nat.le_refl _)

theorem scanNumber_ends (n : Int32) : Ends (fun r => r.2.length ≤ fmt.length) (scanNumber n fmt) := by
  induction fmt generalizing n with
  | nil => exact within_throw LibcFault.noConfusion
  | cons c fmt ih =>
    unfold scanNumber
    split
    . exact (ih _).mono (fun _ hle => Nat.le_succ_of_le hle)
    . exact within_pure (Nat.le_refl _)

theorem skipLength_ends : Ends (fun r => r.length ≤ fmt.length) (skipLength fmt) := by
  induction fmt with
  | nil => exact within_throw LibcFault.noConfusion
  | cons c fmt ih =>
    unfold skipLength
    split
    . exact ih.mono (fun _ hle => Nat.le_succ_of_le hle)
    . exact within_pure (Nat.le_refl _)

variable (vargs : List VaArg)

theorem vaWord_ends : Ends (fun _ => True) (vaWord vargs) := by
  unfold vaWord
  split
  . exact within_pure trivial
  . exact within_throw LibcFault.noConfusion

theorem vaString_ends : Ends (fun _ => True) (vaString vargs) := by
  unfold vaString
  split
  . exact within_pure trivial
  . exact within_throw LibcFault.noConfusion

theorem length_tail_le : fmt.tail.length ≤ fmt.length := by
  rw [List.length_tail]
  exact Nat.sub_le _ _

theorem scanWidth_ends : Ends (fun r => r.2.1.length ≤ fmt.length) (scanWidth fmt vargs) := by
  refine (deref_ends fmt).bind (fun c _ => ?_)
  split
  . exact (scanNumber_ends fmt 0).bind (fun _ hle => within_pure hle)
  . split
    . exact (vaWord_ends vargs).bind (fun _ _ => within_pure (length_tail_le fmt))
    . exact within_pure (Nat.le_refl _)

theorem scanPrecision_number_ends
    : Ends (fun r => r.2.1.length ≤ fmt.length) (scanPrecision.number fmt vargs) := by
  refine (deref_ends fmt).bind (fun c _ => ?_)
  split
  . exact (scanNumber_ends fmt 0).bind (fun _ hle => within_pure hle)
  . split
    . exact (vaWord_ends vargs).bind (fun _ _ => within_pure (length_tail_le fmt))
    . exact within_pure (Nat.le_refl _)

theorem scanPrecision_ends : Ends (fun r => r.2.1.length ≤ fmt.length) (scanPrecision fmt vargs) := by
  refine (deref_ends fmt).bind (fun c _ => ?_)
  split
  . refine (scanPrecision_number_ends fmt.tail vargs).bind (fun _ hle => within_pure ?_)
    exact Nat.le_trans hle (length_tail_le fmt)
  . exact within_pure (Nat.le_refl _)

end Scan

section Convert

open ByteMem

theorem sameOutside_setNumbuf (numbuf : ByteMem) (c : Byte)
    : SameOutside numbuf (setNumbuf numbuf c) 0 numbufsiz := by
  unfold setNumbuf
  apply SameOutside.trans
  . exact sameOutside_update numbuf c (Nat.le_refl 0) (by decide)
  . exact sameOutside_update _ 0 (Nat.zero_le 1) (by decide)

/--
What a conversion does apart from its value: it consumes its character unless that is the NUL, has a base that
`itoa` can print, and keeps to `numbuf`.
-/
structure ConvertResult (scan : Scan) (r : Conversion × Scan) : Prop where
  base : r.1.base = 10 ∨ r.1.base = 16
  consumed : (∃ c, c ≠ 0 ∧ scan.fmt = c :: r.2.fmt) ∨ r.2.fmt = scan.fmt
  buffer : SameOutside scan.numbuf r.2.numbuf 0 numbufsiz

theorem convert_within {E : LibcFault → Prop} (flags : Int32) {scan : Scan}
    (hderef : Within E (fun c => scan.fmt = c :: scan.fmt.tail) (deref scan.fmt))
    (hword : Within E (fun _ => True) (vaWord scan.vargs))
    (hstring : Within E (fun _ => True) (vaString scan.vargs))
    : Within E (ConvertResult scan) (convert flags scan) := by
  have hsame := SameOutside.refl scan.numbuf 0 numbufsiz
  refine hderef.bind (fun c hcons => ?_)
  have hchar : ∀ {d : Char}, c = byte d → byte d ≠ 0 → ∃ c, c ≠ 0 ∧ scan.fmt = c :: scan.fmt.tail :=
    fun heq hne => ⟨c, heq ▸ hne, hcons⟩
  dsimp only
  by_cases hd : c = byte 'd' ∨ c = byte 'i'
  . rw [if_pos hd]
    have hconsumed := hd.elim (fun heq => hchar heq (by decide)) (fun heq => hchar heq (by decide))
    exact hword.bind (fun _ _ => within_pure ⟨Or.inl rfl, Or.inl hconsumed, hsame⟩)
  rw [if_neg hd]
  by_cases hu : c = byte 'u'
  . rw [if_pos hu]
    exact hword.bind (fun _ _ => within_pure ⟨Or.inl rfl, Or.inl (hchar hu (by decide)), hsame⟩)
  rw [if_neg hu]
  by_cases hx : c = byte 'x'
  . rw [if_pos hx]
    exact hword.bind (fun _ _ => within_pure ⟨Or.inr rfl, Or.inl (hchar hx (by decide)), hsame⟩)
  rw [if_neg hx]
  by_cases hX : c = byte 'X'
  . rw [if_pos hX]
    exact hword.bind (fun _ _ => within_pure ⟨Or.inr rfl, Or.inl (hchar hX (by decide)), hsame⟩)
  rw [if_neg hX]
  by_cases hp : c = byte 'p'
  . rw [if_pos hp]
    exact hword.bind (fun _ _ => within_pure ⟨Or.inr rfl, Or.inl (hchar hp (by decide)), hsame⟩)
  rw [if_neg hp]
  by_cases hs : c = byte 's'
  . rw [if_pos hs]
    exact hstring.bind (fun _ _ => within_pure ⟨Or.inl rfl, Or.inl (hchar hs (by decide)), hsame⟩)
  rw [if_neg hs]
  by_cases hc : c = byte 'c'
  . rw [if_pos hc]
    refine hword.bind (fun _ _ => within_pure ⟨Or.inl rfl, Or.inl (hchar hc (by decide)), ?_⟩)
    exact sameOutside_setNumbuf _ _
  rw [if_neg hc]
  refine within_pure ⟨Or.inl rfl, ?_, sameOutside_setNumbuf _ _⟩
  -- at the end of the format the NUL is left for the outer loop
  by_cases hnul : c = 0
  . exact Or.inr (if_neg (not_not.mpr hnul))
  . left
    refine ⟨c, hnul, ?_⟩
    dsimp only
    rw [if_pos hnul]
    exact hcons

theorem ConvertResult.length_le {scan : Scan} {r : Conversion × Scan} (h : ConvertResult scan r)
    : r.2.fmt.length ≤ scan.fmt.length := by
  cases h.consumed with
  | inl hcons =>
    obtain ⟨c, _, hcons⟩ := hcons
    rw [hcons]
    exact Nat.le_succ _
  | inr hsame => exact Nat.le_of_eq (congrArg List.length hsame)

theorem ConvertResult.two_le_base {scan : Scan} {r : Conversion × Scan} (h : ConvertResult scan r)
    : 2 ≤ r.1.base.toNat := by
  cases h.base with
  | inl heq =>
    rw [heq]
    decide
  | inr heq =>
    rw [heq]
    decide

theorem convert_ends (flags : Int32) (scan : Scan) : Ends (ConvertResult scan) (convert flags scan) := by
  apply convert_within
  . exact deref_ends scan.fmt
  . exact vaWord_ends scan.vargs
  . exact vaString_ends scan.vargs

end Convert

theorem formatNumber_ends (conv : Conversion) (numbuf : ByteMem) (hbase : 2 ≤ conv.base.toNat)
    : Ends (fun _ => True) (formatNumber conv numbuf) := by
  unfold formatNumber
  split
  . exact (itoa_ends hbase conv.num numbuf 0).bind (fun _ _ => within_pure trivial)
  . exact within_pure trivial

theorem scanField_ends (scan : Scan) : Ends (fun r => r.2.fmt.length ≤ scan.fmt.length) (scanField scan) := by
  refine (scanFlags_ends scan.fmt 0).bind (fun r₁ h₁ => ?_)
  refine (scanWidth_ends r₁.2 scan.vargs).bind (fun r₂ h₂ => ?_)
  refine (scanPrecision_ends r₂.2.1 r₂.2.2).bind (fun r₃ h₃ => ?_)
  refine (skipLength_ends r₃.2.1).bind (fun fmt h₄ => ?_)
  refine (convert_ends r₁.1 { scan with fmt := fmt, vargs := r₃.2.2 }).bind (fun r₅ h₅ => ?_)
  refine (formatNumber_ends r₅.1 r₅.2.numbuf h₅.two_le_base).bind (fun _ _ => within_pure ?_)
  calc r₅.2.fmt.length
    _ ≤ fmt.length := h₅.length_le
    _ ≤ r₃.2.1.length := h₄
    _ ≤ r₂.2.1.length := h₃
    _ ≤ r₁.2.length := h₂
    _ ≤ scan.fmt.length := h₁

theorem layout_ends (flags width precision : Int32) (sign data : List Byte)
    : Ends (fun _ => True) (layout flags width precision sign data) := by
  have hdata : Ends (fun _ => True) (dataLen flags precision data) := by
    unfold dataLen
    split
    . exact strnlen_ends data _
    . exact strlen_ends data
  exact hdata.bind (fun _ _ => (strlen_ends sign).bind (fun _ _ => within_pure trivial))

theorem putString_ends (out : Out) (str : List Byte) : Ends (fun _ => True) (out.putString str) := by
  induction str generalizing out with
  | nil => exact within_throw LibcFault.noConfusion
  | cons c str ih =>
    unfold Out.putString
    split
    . exact ih _
    . exact within_pure trivial

theorem putData_ends (out : Out) (len : Nat) (data : List Byte)
    : Ends (fun _ => True) (out.putData len data) := by
  induction len generalizing out data with
  | zero => exact within_pure trivial
  | succ len ih =>
    cases data with
    | nil => exact within_throw LibcFault.noConfusion
    | cons c data => exact ih _ data

theorem putDirective_ends (scan : Scan) (out : Out)
    : Ends (fun r => r.1.fmt.length ≤ scan.fmt.length) (putDirective scan out) := by
  refine (scanField_ends scan).bind (fun r hle => ?_)
  refine (layout_ends _ _ _ _ _).bind (fun lay _ => ?_)
  have hput : Ends (fun _ => True) (out.putField r.1.conv.flags lay (signPrefix r.1.conv) r.1.data) :=
    (putString_ends _ _).bind (fun _ _ => (putData_ends _ _ _).bind (fun _ _ => within_pure trivial))
  exact hput.bind (fun _ _ => within_pure hle)

theorem loop_ends (maxLen fuel : Nat) (scan : Scan) (out : Out) (hfuel : scan.fmt.length < fuel)
    : Ends (fun _ => True) (sprintfInternal.loop maxLen fuel scan out) := by
  induction fuel generalizing scan out with
  | zero => exact absurd hfuel (Nat.not_lt_zero _)
  | succ fuel ih =>
    unfold sprintfInternal.loop
    refine (deref_ends scan.fmt).bind (fun c hc => ?_)
    have htail : scan.fmt.tail.length < fuel := by
      have := congrArg List.length hc
      rw [List.length_cons] at this
      omega
    split
    . exact within_pure trivial
    split
    . exact within_pure trivial
    split
    . exact ih _ _ htail
    . refine (putDirective_ends _ out).bind (fun r hle => ih r.1 r.2 ?_)
      exact Nat.lt_of_le_of_lt hle htail

/--
`__sprintf_internal` ends for every format, limit and argument list.
-/
theorem sprintfInternal_ends (m : ByteMem) (buffer : Nat) (fmt : List Byte) (maxLen : Nat) (vargs : List VaArg)
    (numbuf : ByteMem)
    : sprintfInternal m buffer fmt maxLen vargs numbuf ≠ .error .endless := by
  have hends : Ends (fun _ => True) (sprintfInternal m buffer fmt maxLen vargs numbuf) :=
    (loop_ends maxLen _ _ _ (Nat.lt_succ_self _)).bind (fun _ _ => within_pure trivial)
  intro h
  rw [h] at hends
  exact hends rfl

end AwaOS
