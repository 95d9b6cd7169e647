import AwaOS.Klibc.Sprintf.Layout

/-!
The texts of the directives of a format, and when `sprintf` writes them.
-/

namespace AwaOS

open ByteMem

section Digits

/--
The canonical numeral of a number, without its sign.
-/
def Operand.digits : Operand → List Byte
  | .signed x => digitBytes 10 x.toInt.natAbs
  | .unsigned n => digitBytes 10 n.toNat
  | .hex false n => digitBytes 16 n.toNat
  | .hex true n => (Nat.toDigits 16 n.toNat).map (fun c => byte c.toUpper)
  | .pointer n => digitBytes 16 n.toNat
  | _ => []

/--
`itoa` takes an `int`: a number in base 10 has to be less than 2^31.
-/
def Operand.FitsInt (operand : Operand) : Prop :=
  operand.numeric = true → operand.base = 10 → operand.num.toNat < 2 ^ 31

theorem itoaText_decimal (value : Int32)
    : itoaText value 10
        =
      if value.toNat < 2 ^ 31 then digitBytes 10 value.toNat else byte '-' :: digitBytes 10 (-value).toNat := by
  have hsign : value.toInt < 0 ↔ 2 ^ 32 ≤ 2 * value.toNat := BitVec.toInt_neg_iff
  unfold itoaText
  by_cases hsmall : value.toNat < 2 ^ 31
  . rw [if_pos hsmall, if_neg (fun h => absurd (hsign.mp h.left) (by omega))]
    rfl
  . rw [if_neg hsmall, if_pos ⟨hsign.mpr (by omega), rfl⟩]
    rfl

theorem itoaText_hex (value : Int32) : itoaText value 16 = digitBytes 16 value.toNat := by
  unfold itoaText
  rw [if_neg]
  . rfl
  . intro hand
    exact absurd hand.right (by decide)

theorem capital_digits (n : Nat)
    : (digitBytes 16 n).map capital = (Nat.toDigits 16 n).map (fun c => byte c.toUpper) := by
  have hall : ∀ k, k < 16 → capital (byte (Nat.digitChar k)) = byte (Nat.digitChar k).toUpper := by decide
  unfold digitBytes
  rw [List.map_map, List.map_inj_left]
  intro c hc
  obtain ⟨k, hk, heq⟩ := mem_toDigits (by decide) hc
  rw [heq]
  exact hall k hk

theorem toNat_num_signed (x : Int32) : (Operand.signed x).num.toNat = x.toInt.natAbs := by
  have hlt := x.isLt
  have hsign : x.toInt < 0 ↔ 2 ^ 32 ≤ 2 * x.toNat := BitVec.toInt_neg_iff
  have hvalue := BitVec.toInt_eq_toNat_cond x
  change (if x.toInt < 0 then -x else x).toNat = _
  by_cases hneg : x.toInt < 0
  . rw [if_pos hneg, BitVec.toNat_neg]
    rw [if_neg (by omega)] at hvalue
    omega
  . rw [if_neg hneg]
    rw [if_pos (by omega)] at hvalue
    omega

/--
What the code writes for a number in base 10: a second `-` if it does not fit.
-/
theorem decimal_cases (operand : Operand) (hnumeric : operand.numeric = true) (hbase : operand.base = 10)
    : (operand.FitsInt ∧ itoaText operand.num 10 = digitBytes 10 operand.num.toNat)
        ∨
      (¬operand.FitsInt ∧ ∃ digits, itoaText operand.num 10 = byte '-' :: digits) := by
  rw [itoaText_decimal]
  by_cases hsmall : operand.num.toNat < 2 ^ 31
  . rw [if_pos hsmall]
    exact Or.inl ⟨fun _ _ => hsmall, rfl⟩
  . rw [if_neg hsmall]
    exact Or.inr ⟨fun hfits => hsmall (hfits hnumeric hbase), _, rfl⟩

theorem numberText_cases {flags : List Byte} {operand : Operand} {conv : Conversion}
    (h : Converted flags operand conv) (hnumeric : operand.numeric = true)
    : (operand.FitsInt ∧ numberText conv = operand.digits)
        ∨
      (¬operand.FitsInt ∧ ∃ digits, numberText conv = byte '-' :: digits) := by
  have hhex : operand.base = 16 → operand.FitsInt := by
    intro hbase _ hten
    rw [hbase] at hten
    exact absurd hten (by decide)
  unfold numberText
  rw [h.flags, hasFlag_flagCaps, h.num, h.base]
  cases operand with
  | signed x =>
    have hcases := decimal_cases (.signed x) rfl rfl
    rw [toNat_num_signed] at hcases
    exact hcases
  | unsigned n => exact decimal_cases (.unsigned n) rfl rfl
  | hex caps n =>
    refine Or.inl ⟨hhex rfl, ?_⟩
    cases caps with
    | false => exact itoaText_hex n
    | true =>
      change (itoaText n 16).map capital = _
      rw [itoaText_hex]
      exact capital_digits n.toNat
  | pointer n => exact Or.inl ⟨hhex rfl, itoaText_hex n⟩
  | string s => contradiction
  | char c => contradiction

theorem minus_not_mem_digits (operand : Operand) : byte '-' ∉ operand.digits := by
  cases operand with
  | signed x => exact minus_not_mem_digitBytes (by decide) (by decide)
  | unsigned n => exact minus_not_mem_digitBytes (by decide) (by decide)
  | hex caps n =>
    cases caps with
    | false => exact minus_not_mem_digitBytes (by decide) (by decide)
    | true =>
      have hall : ∀ k, k < 16 → byte (Nat.digitChar k).toUpper ≠ byte '-' := by decide
      intro hmem
      obtain ⟨c, hc, hminus⟩ := List.mem_map.mp hmem
      obtain ⟨k, hk, heq⟩ := mem_toDigits (by decide) hc
      rw [heq] at hminus
      exact hall k hk hminus
  | pointer n => exact minus_not_mem_digitBytes (by decide) (by decide)
  | string s => exact List.not_mem_nil
  | char c => exact List.not_mem_nil

end Digits

section Body

/--
How many characters of a text are printed. With a precision it is what `strnlen` of the code returns, which for a
longer text is one more than the precision.
-/
def textLen (precision : Option Nat) (text : List Byte) : LibcM Nat :=
  match precision with
  | some p => strnlen text p
  | none => strlen text

def printedText (precision : Option Nat) (text : List Byte) : LibcM (List Byte) := do
  let len ← textLen precision text
  return text.take len

/--
The digits of a number, or the characters of a text.
-/
def Directive.body (d : Directive) : LibcM (List Byte) :=
  match d.operand with
  | .string s => printedText d.precision s
  | .char c => printedText d.precision [c, 0]
  | operand => pure operand.digits

/--
The text of a directive.
-/
def Directive.text (d : Directive) : LibcM (List Byte) := do
  let body ← d.body
  return d.layOut body

/--
The two kinds of directives that the code gets wrong are excluded: numbers in base 10 from 2^31 on, and texts
of 2^31 characters or more.
-/
structure Directive.Exact (d : Directive) : Prop where
  number : d.operand.FitsInt
  text : d.operand.numeric = false → ∀ body, d.body = .ok body → body.length < 2 ^ 31

variable {d : Directive} {field : Field}

theorem dataLen_number (h : Scanned d field) (hnumeric : d.operand.numeric = true)
    : dataLen field.conv.flags field.precision field.data = .ok (numberText field.conv).length
        ∧ field.data.take (numberText field.conv).length = numberText field.conv
        ∧ (numberText field.conv).length < 12 := by
  obtain ⟨rest, hrest⟩ := h.number hnumeric
  have hbase := h.conv.base_cases
  have hzero := zero_not_mem_numberText field.conv (by omega) (by omega)
  unfold dataLen
  rw [h.conv.flags, hasFlag_flagNumeric, hnumeric, Bool.not_true, Bool.and_false, hrest]
  refine ⟨strlen_text hzero rest, List.take_left, ?_⟩
  rw [length_numberText]
  exact length_itoaText_lt field.conv.num (by omega)

theorem dataLen_text (h : Scanned d field) (hcovered : d.Covered) (hnumeric : d.operand.numeric = false)
    : dataLen field.conv.flags field.precision field.data = textLen d.precision field.data := by
  unfold dataLen textLen
  rw [h.conv.flags, hasFlag_flagNumeric, hnumeric, Bool.not_false, Bool.and_true, h.precision]
  cases hprecision : d.precision with
  | none => rfl
  | some p =>
    have hlt := hcovered.precision p hprecision
    obtain ⟨hword, hint⟩ := hcovered.precisionWord_eq hprecision
    rw [hword, hint, if_pos (by simp), BitVec.toNat_ofNat, Nat.mod_eq_of_lt (by omega)]

theorem chars_char (c : Byte) (rest : List Byte)
    : chars (c :: 0 :: rest) = chars [c, 0] ∧ (chars (c :: 0 :: rest)).length ≤ 1 := by
  by_cases hc : c = 0
  . rw [hc]
    exact ⟨rfl, Nat.zero_le 1⟩
  . rw [chars_cons_of_ne hc, chars_cons_of_ne hc]
    exact ⟨rfl, Nat.le_refl 1⟩

/--
Behind the NUL nothing is read.
-/
theorem textLen_char (precision : Option Nat) (c : Byte) (rest : List Byte)
    : textLen precision (c :: 0 :: rest) = textLen precision [c, 0] ∧
      ∀ len, textLen precision (c :: 0 :: rest) = .ok len → len ≤ 1 := by
  obtain ⟨hrest, hle⟩ := chars_char c rest
  have hlong : 2 ≤ (c :: 0 :: rest).length := Nat.le_add_left 2 rest.length
  unfold textLen
  cases precision with
  | none =>
    dsimp only
    rw [strlen_eq, strlen_eq, if_pos (by omega), hrest, if_pos (by rw [← hrest]; exact Nat.lt_succ_of_le hle)]
    refine ⟨rfl, fun len hlen => ?_⟩
    cases hlen
    rw [← hrest]
    exact hle
  | some p =>
    dsimp only
    rw [strnlen_eq, strnlen_eq, if_pos (by omega), hrest, if_pos (by rw [← hrest]; change _ < 2; omega)]
    refine ⟨rfl, fun len hlen => ?_⟩
    cases hlen
    rw [← hrest]
    omega

/--
The code prints the characters that the directive asks for.
-/
theorem body_of_text (h : Scanned d field) (hcovered : d.Covered) (hnumeric : d.operand.numeric = false)
    : d.body = (do
        let len ← dataLen field.conv.flags field.precision field.data
        return field.data.take len) := by
  have hshows := h.text hnumeric
  rw [dataLen_text h hcovered hnumeric]
  unfold Directive.body
  cases hoperand : d.operand with
  | string s =>
    rw [hoperand] at hshows
    rw [show field.data = s from hshows]
    rfl
  | char c =>
    rw [hoperand] at hshows
    obtain ⟨rest, hrest⟩ := hshows
    obtain ⟨heq, hle⟩ := textLen_char d.precision c rest
    rw [hrest]
    dsimp only
    unfold printedText
    cases hlen : textLen d.precision (c :: 0 :: rest) with
    | error e =>
      rw [heq] at hlen
      rw [hlen]
      rfl
    | ok len =>
      have hone := hle len hlen
      rw [heq] at hlen
      rw [hlen]
      change Except.ok ([c, 0].take len) = Except.ok ((c :: 0 :: rest).take len)
      cases len with
      | zero => rfl
      | succ len =>
        have hzero : len = 0 := by omega
        subst hzero
        rfl
  | signed x =>
    rw [hoperand] at hnumeric
    contradiction
  | unsigned n =>
    rw [hoperand] at hnumeric
    contradiction
  | hex caps n =>
    rw [hoperand] at hnumeric
    contradiction
  | pointer n =>
    rw [hoperand] at hnumeric
    contradiction

theorem body_of_number (hnumeric : d.operand.numeric = true) : d.body = .ok d.operand.digits := by
  unfold Directive.body
  cases hoperand : d.operand with
  | string s =>
    rw [hoperand] at hnumeric
    contradiction
  | char c =>
    rw [hoperand] at hnumeric
    contradiction
  | signed x => rfl
  | unsigned n => rfl
  | hex caps n => rfl
  | pointer n => rfl

end Body

section Directive

variable {d : Directive} {fmt fmt' body : List Byte} {vargs vargs' : List VaArg}

theorem directiveText_of_layout {scan scan' : Scan} {field : Field} {lay : Layout}
    (hscan : scanField scan = .ok (field, scan'))
    (hlay : layout field.conv.flags field.width field.precision (signPrefix field.conv) field.data = .ok lay)
    : directiveText scan = .ok (scan', fieldText field.conv.flags lay (signPrefix field.conv) field.data) := by
  unfold directiveText
  rw [except_bind_ok hscan]
  dsimp only
  rw [except_bind_ok hlay]
  rfl

/--
A number is written with the digits that the code makes, whether they are right or not.
-/
theorem directiveText_number (numbuf : ByteMem) (h : parseDirective fmt vargs = some (d, fmt', vargs'))
    (hcovered : d.Covered) (hnumeric : d.operand.numeric = true)
    : ∃ field numbuf', Scanned d field
        ∧ directiveText ⟨fmt, vargs, numbuf⟩ = .ok (⟨fmt', vargs', numbuf'⟩,
          d.layOut (numberText field.conv)) := by
  obtain ⟨field, numbuf', hscan, hscanned, _⟩ := scanField_eq numbuf h
  obtain ⟨hlen, htake, hshort⟩ := dataLen_number hscanned hnumeric
  obtain ⟨lay, hlay, htext⟩ := fieldText_eq _ hscanned hcovered hlen (by omega) (fun _ => by omega) htake
  refine ⟨field, numbuf', hscanned, ?_⟩
  rw [directiveText_of_layout hscan hlay, htext]

theorem directiveText_exact (numbuf : ByteMem) (h : parseDirective fmt vargs = some (d, fmt', vargs'))
    (hcovered : d.Covered) (hexact : d.Exact) (hbody : d.body = .ok body)
    : ∃ numbuf', directiveText ⟨fmt, vargs, numbuf⟩ = .ok (⟨fmt', vargs', numbuf'⟩, d.layOut body) := by
  cases hnumeric : d.operand.numeric with
  | true =>
    obtain ⟨field, numbuf', hscanned, htext⟩ := directiveText_number numbuf h hcovered hnumeric
    rw [body_of_number hnumeric] at hbody
    cases hbody
    cases numberText_cases hscanned.conv hnumeric with
    | inl hfits =>
      rw [hfits.right] at htext
      exact ⟨numbuf', htext⟩
    | inr hover => exact absurd hexact.number hover.left
  | false =>
    obtain ⟨field, numbuf', hscan, hscanned, _⟩ := scanField_eq numbuf h
    have hshort := hexact.text hnumeric body hbody
    rw [body_of_text hscanned hcovered hnumeric] at hbody
    obtain ⟨len, hlen, hbody⟩ := except_bind_eq_ok.mp hbody
    cases hbody
    have hlength : (field.data.take len).length = len := by
      rw [List.length_take]
      exact Nat.min_eq_left (Nat.le_of_lt (dataLen_lt hlen))
    obtain ⟨lay, hlay, htext⟩ := fieldText_eq (field.data.take len) hscanned hcovered
      (by rw [hlength]; exact hlen) hshort (fun htrue => by rw [hnumeric] at htrue; contradiction)
      (by rw [hlength])
    refine ⟨numbuf', ?_⟩
    rw [directiveText_of_layout hscan hlay, htext]

theorem count_layOut (d : Directive) (body : List Byte)
    : (d.layOut body).count (byte '-') = d.signText.count (byte '-') + body.count (byte '-') := by
  have hfill : ∀ (c : Byte) n, c ≠ byte '-' → (List.replicate n c).count (byte '-') = 0 := by
    intro c n hne
    rw [List.count_replicate, if_neg]
    rw [beq_iff_eq]
    exact hne
  unfold Directive.layOut
  dsimp only
  split
  . rw [List.count_append, List.count_append, List.count_append, hfill _ _ (by decide), hfill _ _ (by decide)]
    omega
  . rw [List.count_append, List.count_append, List.count_append, hfill _ _ (by decide), hfill _ _ (by decide)]
    omega

theorem length_le_layOut (d : Directive) (body : List Byte) : body.length ≤ (d.layOut body).length := by
  unfold Directive.layOut
  dsimp only
  split
  . rw [List.length_append, List.length_append]
    omega
  . rw [List.length_append, List.length_append]
    omega

/--
What is left of a width is an `int`.
-/
theorem toNat_sub_add_lt (width len : Int32) (hwidth : -1 ≤ width.toInt)
    : (width - len).toInt.toNat + len.toInt.toNat < 2 ^ 31 := by
  have hw := width.isLt
  have hl := len.isLt
  have hwi := BitVec.toInt_eq_toNat_cond width
  have hli := BitVec.toInt_eq_toNat_cond len
  have hdi := BitVec.toInt_eq_toNat_cond (width - len)
  have hdn := BitVec.toNat_sub width len
  have hd := (width - len).isLt
  split at hwi
  . split at hli
    . split at hdi
      . omega
      . omega
    . split at hdi
      . omega
      . omega
  . split at hli
    . split at hdi
      . omega
      . omega
    . split at hdi
      . omega
      . omega

/--
The counters of the code are `int`s.
-/
theorem length_fieldText_lt {field : Field} {lay : Layout} (hscanned : Scanned d field) (hcovered : d.Covered)
    (hnumeric : d.operand.numeric = false)
    (hlay : layout field.conv.flags field.width field.precision (signPrefix field.conv) field.data = .ok lay)
    : (fieldText field.conv.flags lay (signPrefix field.conv) field.data).length < 2 ^ 31 := by
  obtain ⟨hword, hge, _, _⟩ := hcovered.toInt_width
  have hsign : signPrefix field.conv = [0] := by
    rw [signPrefix_eq hscanned.conv, signText_of_text hnumeric, List.nil_append]
  unfold layout at hlay
  rw [hsign, hscanned.conv.flags, hasFlag_flagNumeric, hnumeric] at hlay
  obtain ⟨len, hlen, hlay⟩ := except_bind_eq_ok.mp hlay
  have hroom := toNat_sub_add_lt field.width (BitVec.ofNat 32 len) (by rw [hscanned.width, hword]; exact hge)
  have hlay : lay = ⟨BitVec.ofNat 32 len, 0, field.width - (BitVec.ofNat 32 len + 0 + 0)⟩ := by
    cases hlay
    rfl
  have hadd : ∀ x : Int32, x + 0 + 0 = x := by
    intro x
    simp
  rw [hadd] at hlay
  have htake : ([0] : List Byte).takeWhile (· ≠ 0) = [] := rfl
  have hzero : (0 : Int32).toInt.toNat = 0 := rfl
  rw [hlay, hsign]
  unfold fieldText
  dsimp only
  rw [htake, hzero, List.replicate_zero, List.nil_append, List.nil_append]
  split
  . rw [List.length_append, List.length_take, List.length_replicate]
    omega
  . rw [List.length_append, List.length_take, List.length_replicate]
    omega

/--
A directive that the code gets wrong is not written as it should be.
-/
theorem directiveText_inexact (numbuf : ByteMem) (h : parseDirective fmt vargs = some (d, fmt', vargs'))
    (hcovered : d.Covered) (hbody : d.body = .ok body) (hnot : ¬d.Exact) (scan' : Scan)
    : directiveText ⟨fmt, vargs, numbuf⟩ ≠ .ok (scan', d.layOut body) := by
  intro htext
  cases hnumeric : d.operand.numeric with
  | true =>
    obtain ⟨field, numbuf', hscanned, hwritten⟩ := directiveText_number numbuf h hcovered hnumeric
    rw [body_of_number hnumeric] at hbody
    cases hbody
    cases numberText_cases hscanned.conv hnumeric with
    | inl hfits =>
      apply hnot
      constructor
      . exact hfits.left
      . intro hfalse
        rw [hnumeric] at hfalse
        contradiction
    | inr hover =>
      obtain ⟨_, digits, hdigits⟩ := hover
      rw [hwritten, hdigits] at htext
      injection htext with htext
      injection htext with _ hfield
      -- the code writes one `-` more
      have hcount := congrArg (List.count (byte '-')) hfield
      rw [count_layOut, count_layOut, List.count_cons_self,
        List.count_eq_zero.mpr (minus_not_mem_digits d.operand)] at hcount
      omega
  | false =>
    obtain ⟨field, numbuf', hscan, hscanned, _⟩ := scanField_eq numbuf h
    unfold directiveText at htext
    rw [except_bind_ok hscan] at htext
    obtain ⟨lay, hlay, htext⟩ := except_bind_eq_ok.mp htext
    injection htext with htext
    injection htext with _ hfield
    have hshort := length_fieldText_lt hscanned hcovered hnumeric hlay
    have hlong := length_le_layOut d body
    rw [hfield] at hshort
    apply hnot
    constructor
    . intro htrue
      rw [hnumeric] at htrue
      contradiction
    . intro _ body' hbody'
      rw [hbody] at hbody'
      cases hbody'
      exact Nat.lt_of_le_of_lt hlong hshort

/--
A text that cannot be read is not written.
-/
theorem directiveText_error (numbuf : ByteMem) {e : LibcFault}
    (h : parseDirective fmt vargs = some (d, fmt', vargs'))
    (hcovered : d.Covered) (hnumeric : d.operand.numeric = false) (hbody : d.body = .error e)
    : directiveText ⟨fmt, vargs, numbuf⟩ = .error e := by
  obtain ⟨field, numbuf', hscan, hscanned, _⟩ := scanField_eq numbuf h
  rw [body_of_text hscanned hcovered hnumeric] at hbody
  unfold directiveText
  rw [except_bind_ok hscan]
  cases hlen : dataLen field.conv.flags field.precision field.data with
  | error e' =>
    rw [hlen] at hbody
    cases hbody
    have hlay :
        layout field.conv.flags field.width field.precision (signPrefix field.conv) field.data = .error e := by
      unfold layout
      rw [hlen]
      rfl
    dsimp only
    rw [hlay]
    rfl
  | ok len =>
    rw [hlen] at hbody
    contradiction

/--
A format that is a directive only.
-/
theorem sprintf_single (m : ByteMem) (buffer : Nat) (numbuf : ByteMem)
    (h : parseDirective fmt vargs = some (d, [0], vargs'))
    : sprintf m buffer (byte '%' :: fmt) vargs numbuf
        =
      (directiveText ⟨fmt, vargs, numbuf⟩).map (fun r => written m buffer r.snd) := by
  obtain ⟨field, numbuf', hscan, _⟩ := scanField_eq numbuf h
  have hpieces : pieces ((byte '%' :: fmt).length + 1) ⟨byte '%' :: fmt, vargs, numbuf⟩
      = (directiveText ⟨fmt, vargs, numbuf⟩).map (fun r => [r.snd]) := by
    rw [List.length_cons, pieces, except_bind_ok (deref_cons _ _), if_neg (by decide), if_neg (by decide)]
    dsimp only [List.tail_cons]
    unfold directiveText
    rw [except_bind_ok hscan]
    dsimp only
    cases layout field.conv.flags field.width field.precision (signPrefix field.conv) field.data with
    | error e => rfl
    | ok lay => rfl
  unfold sprintf sprintfInternal
  rw [loop_zero, hpieces]
  cases directiveText ⟨fmt, vargs, numbuf⟩ with
  | error e => rfl
  | ok r =>
    obtain ⟨scan', text⟩ := r
    change Except.ok (written m buffer [text].flatten) = Except.ok (written m buffer text)
    rw [List.flatten_cons, List.flatten_nil, List.append_nil]

end Directive

section Format

def Piece.text : Piece → LibcM (List Byte)
  | .plain c => pure [c]
  | .directive d => d.text

/--
The texts of the pieces.
-/
def Texts (ps : List Piece) (texts : List (List Byte)) : Prop :=
  List.Forall₂ (fun p text => p.text = .ok text) ps texts

/--
The outer loop writes these texts, one in each round, and nothing else but the NUL.
-/
structure Writes (fmt : List Byte) (vargs : List VaArg) (numbuf : ByteMem) (texts : List (List Byte)) : Prop where
  pieces : pieces (fmt.length + 1) ⟨fmt, vargs, numbuf⟩ = .ok texts
  sprintf : ∀ m buffer, sprintf m buffer fmt vargs numbuf = .ok (written m buffer texts.flatten)

theorem pieces_eq_iff {fuel : Nat} {fmt : List Byte} {vargs : List VaArg} {ps : List Piece}
    {texts : List (List Byte)} (numbuf : ByteMem) (hparse : parse fuel fmt vargs = some ps)
    (hcovered : ∀ d, Piece.directive d ∈ ps → d.Covered) (htexts : Texts ps texts)
    : pieces fuel ⟨fmt, vargs, numbuf⟩ = .ok texts ↔ ∀ d, Piece.directive d ∈ ps → d.Exact := by
  induction fuel generalizing fmt vargs ps texts numbuf with
  | zero => contradiction
  | succ fuel ih =>
    cases fmt with
    | nil => contradiction
    | cons c fmt =>
      unfold parse at hparse
      unfold pieces
      rw [except_bind_ok (deref_cons c fmt)]
      split at hparse
      . next hc =>
        cases hparse
        cases htexts
        rw [if_pos hc]
        exact ⟨fun _ d hd => absurd hd List.not_mem_nil, fun _ => rfl⟩
      . next hc =>
        rw [if_neg hc]
        split at hparse
        . next hplain =>
          obtain ⟨ps, hps, hparse⟩ := Option.bind_eq_some_iff.mp hparse
          cases hparse
          rw [if_pos hplain]
          cases htexts with
          | cons hhead htail =>
            cases hhead
            have hiff := ih numbuf hps (fun d hd => hcovered d (List.mem_cons_of_mem _ hd)) htail
            constructor
            . intro h
              obtain ⟨rest, hrest, h⟩ := except_bind_eq_ok.mp h
              cases h
              intro d hd
              cases hd with
              | tail _ hd => exact hiff.mp hrest d hd
            . intro h
              dsimp only [List.tail_cons]
              rw [except_bind_ok (hiff.mpr (fun d hd => h d (List.mem_cons_of_mem _ hd)))]
              rfl
        . next hdirective =>
          obtain ⟨⟨d, fmt', vargs'⟩, hd, hparse⟩ := Option.bind_eq_some_iff.mp hparse
          obtain ⟨ps, hps, hparse⟩ := Option.bind_eq_some_iff.mp hparse
          cases hparse
          rw [if_neg hdirective]
          cases htexts with
          | cons hhead htail =>
            obtain ⟨body, hbody, hhead⟩ := except_bind_eq_ok.mp hhead
            cases hhead
            have hd' := hcovered d List.mem_cons_self
            have hiff := fun numbuf => ih numbuf hps (fun d hd => hcovered d (List.mem_cons_of_mem _ hd)) htail
            constructor
            . intro h
              obtain ⟨⟨scan', text⟩, htext, h⟩ := except_bind_eq_ok.mp h
              obtain ⟨rest, hrest, h⟩ := except_bind_eq_ok.mp h
              cases h
              by_cases hexact : d.Exact
              . obtain ⟨numbuf', hwritten⟩ := directiveText_exact numbuf hd hd' hexact hbody
                have hscan := Except.ok.inj (htext.symm.trans hwritten)
                injection hscan with hscan _
                rw [hscan] at hrest
                intro e he
                cases he with
                | head => exact hexact
                | tail _ he => exact (hiff numbuf').mp hrest e he
              . exact absurd htext (directiveText_inexact numbuf hd hd' hbody hexact scan')
            . intro h
              obtain ⟨numbuf', hwritten⟩ :=
                directiveText_exact numbuf hd hd' (h d List.mem_cons_self) hbody
              have hrest := (hiff numbuf').mpr (fun e he => h e (List.mem_cons_of_mem _ he))
              dsimp only [List.tail_cons]
              rw [except_bind_ok hwritten, except_bind_ok hrest]
              rfl

/--
`sprintf` writes every directive as its flags, width and precision ask for if and only if no number in base 10
is 2^31 or more, and no text is that long.
-/
theorem sprintf_layout_iff (fmt : List Byte) (vargs : List VaArg) (numbuf : ByteMem) (ps : List Piece)
    (texts : List (List Byte)) (hparse : parse (fmt.length + 1) fmt vargs = some ps)
    (hcovered : ∀ d, Piece.directive d ∈ ps → d.Covered) (htexts : Texts ps texts)
    : Writes fmt vargs numbuf texts ↔ ∀ d, Piece.directive d ∈ ps → d.Exact := by
  have hiff := pieces_eq_iff numbuf hparse hcovered htexts
  constructor
  . intro h
    exact hiff.mp h.pieces
  . intro h
    have hpieces := hiff.mpr h
    exact ⟨hpieces, fun m buffer => sprintf_eq_ok.mpr ⟨texts, hpieces, rfl⟩⟩

end Format

theorem sprintf_layout_iff_flags
    : Writes (cstr "%-+8.3d|%#x") [.word 7, .word 255] (fun _ => 0)
          ["+007    ".toList.map byte, [byte '|'], "0xff".toList.map byte]
        ↔
      ∀ d, Piece.directive d ∈ [.directive ⟨[byte '-', byte '+'], some 8, some 3, .signed 7⟩, .plain (byte '|'),
        .directive ⟨[byte '#'], none, none, .hex false 255⟩] → d.Exact := by
  apply sprintf_layout_iff
  . rfl
  . intro d hd
    cases hd with
    | head =>
      constructor
      . intro w hw
        cases hw
        decide
      . intro p hp
        cases hp
        decide
      . intro p hp
        cases hp
        decide
    | tail _ hd =>
      cases hd with
      | tail _ hd =>
        cases hd with
        | head => exact covered_of_none _ _
        | tail _ hd => cases hd
  . exact .cons rfl (.cons rfl (.cons rfl .nil))

/--
`%u` prints a `-` from 2^31 on.
-/
theorem sprintf_layout_unsigned
    : parse 3 (cstr "%u") [.word 0x80000000] = some [.directive ⟨[], none, none, .unsigned 0x80000000⟩]
        ∧ (⟨[], none, none, .unsigned 0x80000000⟩ : Directive).Covered
        ∧ Texts [.directive ⟨[], none, none, .unsigned 0x80000000⟩] ["2147483648".toList.map byte]
        ∧ pieces 3 ⟨cstr "%u", [.word 0x80000000], fun _ => 0⟩ = .ok ["-2147483648".toList.map byte]
        ∧ ¬Writes (cstr "%u") [.word 0x80000000] (fun _ => 0) ["2147483648".toList.map byte] := by
  have hpieces : pieces 3 ⟨cstr "%u", [.word 0x80000000], fun _ => 0⟩ = .ok ["-2147483648".toList.map byte] := by
    rfl
  refine ⟨rfl, covered_of_none _ _, .cons rfl .nil, hpieces, ?_⟩
  intro h
  have hsame := Except.ok.inj (hpieces.symm.trans h.pieces)
  exact absurd hsame (by decide)

end AwaOS
