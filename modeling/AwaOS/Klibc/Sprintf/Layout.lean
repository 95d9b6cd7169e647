import AwaOS.Klibc.Sprintf.Bounded
import AwaOS.Klibc.Sprintf.Directive

/-!
The layout of a field: spaces, sign, zeros and body.
-/

namespace AwaOS

open ByteMem

/--
The sign or the `0x` that the flags select.
-/
def Directive.signText (d : Directive) : List Byte :=
  match d.operand with
  | .signed x =>
    if x.toInt < 0 then
      [byte '-']
    else if d.flags.contains (byte '+') then
      [byte '+']
    else if d.flags.contains (byte ' ') then
      [byte ' ']
    else
      []
  | .hex _ n => if d.flags.contains (byte '#') && n ≠ 0 then [byte '0', byte 'x'] else []
  | .pointer _ => [byte '0', byte 'x']
  | _ => []

def Directive.zeros (d : Directive) (body : List Byte) : Nat :=
  if d.operand.numeric then
    match d.precision with
    | some p => p - body.length
    | none =>
      if d.flags.contains (byte '0') && !d.flags.contains (byte '-') then
        (d.width.getD 0).toNat - body.length - d.signText.length
      else
        0
  else
    0

def Directive.spaces (d : Directive) (body : List Byte) : Nat :=
  (d.width.getD 0).toNat - d.signText.length - d.zeros body - body.length

/--
The field of a directive that prints `body`.
-/
def Directive.layOut (d : Directive) (body : List Byte) : List Byte :=
  let padding := List.replicate (d.spaces body) (byte ' ')
  let field := d.signText ++ List.replicate (d.zeros body) (byte '0') ++ body
  if d.flags.contains (byte '-') then field ++ padding else padding ++ field

section Sign

theorem signPrefix_eq {d : Directive} {conv : Conversion} (h : Converted d.flags d.operand conv)
    : signPrefix conv = d.signText ++ [0] := by
  obtain ⟨flags, width, precision, operand⟩ := d
  unfold signPrefix Directive.signText
  rw [h.flags, h.base, h.num]
  simp only [hasFlag_flagNumeric, hasFlag_flagSigned, hasFlag_flagNegative, hasFlag_flagAlt2, hasFlag_flagAlt_or,
    hasFlag_flagSpacepositive_or, hasFlag_flagPluspositive_or]
  cases operand with
  | signed x =>
    by_cases hneg : x.toInt < 0
    . simp [hneg]
      rfl
    . cases flags.contains (byte '+') with
      | true =>
        simp [hneg]
        rfl
      | false =>
        cases flags.contains (byte ' ') with
        | true =>
          simp [hneg]
          rfl
        | false =>
          simp [hneg]
          rfl
  | hex caps n =>
    cases flags.contains (byte '#') with
    | true =>
      by_cases hzero : n = 0#32
      . simp [hzero]
        rfl
      . simp [hzero]
        rfl
    | false =>
      simp
      rfl
  | pointer n =>
    simp
    rfl
  | unsigned n =>
    simp
    rfl
  | string s =>
    simp
    rfl
  | char c =>
    simp
    rfl

theorem zero_not_mem_signText (d : Directive) : 0 ∉ d.signText := by
  unfold Directive.signText
  split
  . split
    . decide
    . split
      . decide
      . split
        . decide
        . decide
  . split
    . decide
    . decide
  . decide
  . decide

theorem length_signText_le (d : Directive) : d.signText.length ≤ 2 := by
  unfold Directive.signText
  split
  . split
    . decide
    . split
      . decide
      . split
        . decide
        . decide
  . split
    . decide
    . decide
  . decide
  . decide

theorem signText_of_text {d : Directive} (h : d.operand.numeric = false) : d.signText = [] := by
  unfold Directive.signText
  split
  . next heq =>
    rw [heq] at h
    contradiction
  . next heq =>
    rw [heq] at h
    contradiction
  . next heq =>
    rw [heq] at h
    contradiction
  . rfl

end Sign

section Layout

theorem toInt_ofNat_eq {n : Nat} (hn : n < 2 ^ 31) : (BitVec.ofNat 32 n).toInt = n := by
  rw [← BitVec.ofInt_natCast]
  apply BitVec.toInt_ofInt_eq_self
  . decide
  . exact Int.le_trans (by decide) (Int.natCast_nonneg n)
  . omega

/--
Width and precision are numbers that an `int` holds.
-/
structure Directive.Covered (d : Directive) : Prop where
  width : ∀ w, d.width = some w → 0 ≤ w ∧ w < 2 ^ 31
  precision : ∀ p, d.precision = some p → p < 2 ^ 31
  number : ∀ p, d.precision = some p → d.operand.numeric = true → p < 2 ^ 30

theorem covered_of_none (flags : List Byte) (operand : Operand)
    : (⟨flags, none, none, operand⟩ : Directive).Covered := by
  constructor
  . intro w hw
    contradiction
  . intro p hp
    contradiction
  . intro p hp
    contradiction

theorem Directive.Covered.toInt_width {d : Directive} (h : d.Covered)
    : (BitVec.ofInt 32 (d.width.getD (-1))).toInt = d.width.getD (-1) ∧ -1 ≤ d.width.getD (-1)
        ∧ d.width.getD (-1) < 2 ^ 31 ∧ (d.width.getD 0).toNat = (d.width.getD (-1)).toNat := by
  cases hwidth : d.width with
  | none => decide
  | some w =>
    obtain ⟨hle, hlt⟩ := h.width w hwidth
    refine ⟨?_, Int.le_trans (by decide) hle, hlt, rfl⟩
    apply BitVec.toInt_ofInt_eq_self
    . decide
    . exact Int.le_trans (by decide) hle
    . exact hlt

theorem Directive.Covered.precisionWord_eq {d : Directive} (h : d.Covered) {p : Nat} (hp : d.precision = some p)
    : precisionWord (some p) = BitVec.ofNat 32 p ∧ (BitVec.ofNat 32 p).toInt = p := by
  have hword := toInt_ofNat_eq (h.precision p hp)
  refine ⟨?_, hword⟩
  unfold precisionWord
  dsimp only
  rw [hword, if_neg (by omega)]

/--
The zeros that the code counts.
-/
theorem zeros_eq {d : Directive} (hcovered : d.Covered) (body : List Byte)
    (hbody : d.operand.numeric = true → body.length < 2 ^ 30)
    : (if hasFlag (flagBits d.flags ||| d.operand.flags) flagNumeric && decide (0 ≤ (precisionWord d.precision).toInt)
      then
        if (precisionWord d.precision).toInt > (BitVec.ofNat 32 body.length).toInt
        then precisionWord d.precision - BitVec.ofNat 32 body.length
        else 0
      else if hasFlag (flagBits d.flags ||| d.operand.flags) flagNumeric
          && hasFlag (flagBits d.flags ||| d.operand.flags) flagZero
          && !hasFlag (flagBits d.flags ||| d.operand.flags) flagLeftjustify
          && decide ((BitVec.ofNat 32 body.length + BitVec.ofNat 32 d.signText.length).toInt
            < (BitVec.ofInt 32 (d.width.getD (-1))).toInt)
      then BitVec.ofInt 32 (d.width.getD (-1)) - BitVec.ofNat 32 body.length - BitVec.ofNat 32 d.signText.length
      else 0)
        =
      BitVec.ofNat 32 (d.zeros body) := by
  rw [hasFlag_flagNumeric, hasFlag_flagZero_or, hasFlag_flagLeftjustify_or]
  unfold Directive.zeros
  cases hnumeric : d.operand.numeric with
  | false => rfl
  | true =>
    obtain ⟨hword, hge, hlt, hnat⟩ := hcovered.toInt_width
    have hsign := length_signText_le d
    have hshort := hbody hnumeric
    have hlen := toInt_ofNat_eq (show body.length < 2 ^ 31 by omega)
    have hsum : BitVec.ofNat 32 body.length + BitVec.ofNat 32 d.signText.length
        = BitVec.ofNat 32 (body.length + d.signText.length) := (BitVec.ofNat_add _ _).symm
    rw [hlen, hsum, hword, toInt_ofNat_eq (show body.length + d.signText.length < 2 ^ 31 by omega),
      BitVec.sub_sub, hsum]
    rw [if_pos rfl, Bool.true_and, Bool.true_and]
    cases hprecision : d.precision with
    | some p =>
      obtain ⟨hp, hpint⟩ := hcovered.precisionWord_eq hprecision
      rw [hp, hpint, if_pos (by simp)]
      dsimp only
      split
      . next hmore =>
        apply BitVec.ofNat_sub_ofNat_of_le
        . omega
        . omega
      . next hmore =>
        rw [Nat.sub_eq_zero_of_le (by omega)]
        rfl
    | none =>
      rw [if_neg (by decide)]
      dsimp only
      cases d.flags.contains (byte '0') && !d.flags.contains (byte '-') with
      | false => rfl
      | true =>
        rw [Bool.true_and, hnat, if_pos rfl, Nat.sub_sub]
        split
        . next hmore =>
          have hless := of_decide_eq_true hmore
          have hcast : BitVec.ofInt 32 (d.width.getD (-1)) = BitVec.ofNat 32 (d.width.getD (-1)).toNat := by
            rw [← BitVec.ofInt_natCast, Int.toNat_of_nonneg (by omega)]
          rw [hcast]
          apply BitVec.ofNat_sub_ofNat_of_le
          . omega
          . omega
        . next hmore =>
          have hless := of_decide_eq_false (Bool.not_eq_true _ ▸ hmore)
          rw [Nat.sub_eq_zero_of_le (by omega)]
          rfl

theorem zeros_add_lt {d : Directive} (hcovered : d.Covered) (body : List Byte) (hbody : body.length < 2 ^ 31)
    (hshort : d.operand.numeric = true → body.length < 2 ^ 30)
    : body.length + d.zeros body + d.signText.length < 2 ^ 31 := by
  obtain ⟨_, _, hlt, hnat⟩ := hcovered.toInt_width
  have hsign := length_signText_le d
  unfold Directive.zeros
  rw [hnat]
  cases hnumeric : d.operand.numeric with
  | false =>
    rw [signText_of_text hnumeric]
    exact hbody
  | true =>
    have hshort := hshort hnumeric
    rw [if_pos rfl]
    split
    . next p hp =>
      have := hcovered.number p hp hnumeric
      omega
    . split
      . omega
      . omega

/--
The layout that the code computes is the one of the directive.
-/
theorem layout_eq {d : Directive} {field : Field} (h : Scanned d field) (hcovered : d.Covered) {body : List Byte}
    (hlen : dataLen field.conv.flags field.precision field.data = .ok body.length) (hbody : body.length < 2 ^ 31)
    (hnumeric : d.operand.numeric = true → body.length < 2 ^ 30)
    : ∃ lay, layout field.conv.flags field.width field.precision (signPrefix field.conv) field.data = .ok lay
        ∧ lay.len.toInt.toNat = body.length
        ∧ lay.zeros.toInt.toNat = d.zeros body
        ∧ lay.width.toInt.toNat = d.spaces body := by
  obtain ⟨hword, hge, hlt, hnat⟩ := hcovered.toInt_width
  have hfits := zeros_add_lt hcovered body hbody hnumeric
  have hstrlen : strlen (signPrefix field.conv) = .ok d.signText.length := by
    rw [signPrefix_eq h.conv]
    exact strlen_text (zero_not_mem_signText d) []
  have hwidth : BitVec.ofInt 32 (d.width.getD (-1))
        - (BitVec.ofNat 32 body.length + BitVec.ofNat 32 (d.zeros body) + BitVec.ofNat 32 d.signText.length)
      = BitVec.ofInt 32 (d.width.getD (-1) - (body.length + d.zeros body + d.signText.length : Nat)) := by
    rw [← BitVec.ofNat_add, ← BitVec.ofNat_add, Int.sub_eq_add_neg, BitVec.ofInt_add, BitVec.ofInt_neg,
      BitVec.ofInt_natCast, BitVec.sub_eq_add_neg]
  unfold layout
  rw [except_bind_ok hlen, except_bind_ok hstrlen, h.conv.flags, h.width, h.precision]
  refine ⟨_, rfl, ?_, ?_, ?_⟩
  . dsimp only
    rw [toInt_ofNat_eq hbody, Int.toNat_natCast]
  . dsimp only
    rw [zeros_eq hcovered body hnumeric, toInt_ofNat_eq (by omega), Int.toNat_natCast]
  . dsimp only
    rw [zeros_eq hcovered body hnumeric, hwidth, BitVec.toInt_ofInt_eq_self (by decide) (by omega) (by omega)]
    unfold Directive.spaces
    omega

/--
The text of a field is the one of the directive.
-/
theorem fieldText_eq {d : Directive} {field : Field} (body : List Byte) (h : Scanned d field)
    (hcovered : d.Covered)
    (hlen : dataLen field.conv.flags field.precision field.data = .ok body.length) (hbody : body.length < 2 ^ 31)
    (hnumeric : d.operand.numeric = true → body.length < 2 ^ 30) (htake : field.data.take body.length = body)
    : ∃ lay, layout field.conv.flags field.width field.precision (signPrefix field.conv) field.data = .ok lay
        ∧ fieldText field.conv.flags lay (signPrefix field.conv) field.data = d.layOut body := by
  obtain ⟨lay, hlay, hlen', hzeros, hwidth⟩ := layout_eq h hcovered hlen hbody hnumeric
  have hsign : (signPrefix field.conv).takeWhile (· ≠ 0) = d.signText := by
    rw [signPrefix_eq h.conv]
    change chars _ = _
    rw [chars_append (zero_not_mem_signText d), chars_zero_cons, List.append_nil]
  refine ⟨lay, hlay, ?_⟩
  unfold fieldText Directive.layOut
  dsimp only
  rw [hlen', hzeros, hwidth, htake, hsign, h.conv.flags, hasFlag_flagLeftjustify_or]

end Layout

end AwaOS
