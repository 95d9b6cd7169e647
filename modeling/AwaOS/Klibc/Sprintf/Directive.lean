import AwaOS.Klibc.Numeral
import AwaOS.Klibc.Sprintf.Ends
import Mathlib.Algebra.Group.Int.Defs
import Mathlib.Algebra.Group.Nat.Defs

/-!
The directives of a format: what `%`, flags, width, precision and conversion ask for. `scanField` reads them
as they are defined here.
-/

namespace AwaOS

open ByteMem

/--
What a directive prints.
-/
inductive Operand where
  | signed (x : Int32)
  | unsigned (n : BitVec 32)
  | hex (caps : Bool) (n : BitVec 32)
  | pointer (n : BitVec 32)
  | string (s : List Byte)
  | char (c : Byte)

/--
`width` is as it stands in the format or in the arguments. A negative precision counts as 0.
-/
structure Directive where
  flags : List Byte
  width : Option Int
  precision : Option Nat
  operand : Operand

def isFlag (c : Byte) : Bool :=
  c = byte '#' ∨ c = byte '0' ∨ c = byte '-' ∨ c = byte ' ' ∨ c = byte '+'

def isLength (c : Byte) : Bool :=
  c = byte 'l' ∨ c = byte 'z'

/--
The value of the digits after a number `n`.
-/
def decimal (n : Nat) : List Byte → Nat
  | [] => n
  | c :: digits => decimal (10 * n + (c.toNat - 48)) digits

def takeWord : List VaArg → Option (BitVec 32 × List VaArg)
  | .word w :: vargs => some (w, vargs)
  | _ => none

def takeString : List VaArg → Option (List Byte × List VaArg)
  | .string s :: vargs => some (s, vargs)
  | _ => none

/--
A number in the format, which starts with a digit from `lo` on, or `*` for an argument.
-/
def parseNumber (lo : Char) (fmt : List Byte) (vargs : List VaArg)
    : Option (Option Int × List Byte × List VaArg) :=
  match fmt with
  | [] => none
  | c :: rest =>
    if isDigitFrom lo c then
      some (some (decimal 0 (fmt.takeWhile (isDigitFrom '0'))), fmt.dropWhile (isDigitFrom '0'), vargs)
    else if c = byte '*' then do
      let (w, vargs) ← takeWord vargs
      some (some w.toInt, rest, vargs)
    else
      some (none, fmt, vargs)

/--
A `.` without a number asks for the precision 0.
-/
def parsePrecision (fmt : List Byte) (vargs : List VaArg) : Option (Option Nat × List Byte × List VaArg) :=
  match fmt with
  | [] => none
  | c :: rest =>
    if c = byte '.' then do
      let (precision, fmt, vargs) ← parseNumber '0' rest vargs
      some (some (precision.getD 0).toNat, fmt, vargs)
    else
      some (none, fmt, vargs)

def parseWord (operand : BitVec 32 → Operand) (vargs : List VaArg) : Option (Operand × List VaArg) := do
  let (w, vargs) ← takeWord vargs
  some (operand w, vargs)

/--
A character without a meaning stands for itself, and the end of the format for a `%`.
-/
def parseOperand (c : Byte) (vargs : List VaArg) : Option (Operand × List VaArg) :=
  if c = byte 'd' ∨ c = byte 'i' then
    parseWord .signed vargs
  else if c = byte 'u' then
    parseWord .unsigned vargs
  else if c = byte 'x' then
    parseWord (.hex false) vargs
  else if c = byte 'X' then
    parseWord (.hex true) vargs
  else if c = byte 'p' then
    parseWord .pointer vargs
  else if c = byte 's' then do
    let (s, vargs) ← takeString vargs
    some (.string s, vargs)
  else if c = byte 'c' then
    parseWord (fun w => .char (w.setWidth 8)) vargs
  else
    some (.char (if c ≠ 0 then c else byte '%'), vargs)

/--
The directive after a `%`, the rest of the format and the arguments that it leaves. `none` if an argument
is missing or has another type.
-/
def parseDirective (fmt : List Byte) (vargs : List VaArg) : Option (Directive × List Byte × List VaArg) := do
  let (width, fmt', vargs) ← parseNumber '1' (fmt.dropWhile isFlag) vargs
  let (precision, fmt', vargs) ← parsePrecision fmt' vargs
  match fmt'.dropWhile isLength with
  | [] => none
  | c :: rest =>
    let (operand, vargs) ← parseOperand c vargs
    some (⟨fmt.takeWhile isFlag, width, precision, operand⟩, if c ≠ 0 then rest else c :: rest, vargs)

inductive Piece where
  | plain (c : Byte)
  | directive (d : Directive)

/--
A format up to its NUL.
-/
def parse : Nat → List Byte → List VaArg → Option (List Piece)
  | 0, _, _ => none
  | _ + 1, [], _ => none
  | fuel + 1, c :: fmt, vargs =>
    if c = 0 then
      some []
    else if c ≠ byte '%' then do
      let ps ← parse fuel fmt vargs
      some (.plain c :: ps)
    else do
      let (d, fmt, vargs) ← parseDirective fmt vargs
      let ps ← parse fuel fmt vargs
      some (.directive d :: ps)

section Arguments

variable {vargs vargs' : List VaArg}

theorem deref_cons (c : Byte) (ptr : List Byte) : deref (c :: ptr) = .ok c :=
  rfl

theorem vaWord_eq {w : BitVec 32} (h : takeWord vargs = some (w, vargs')) : vaWord vargs = .ok (w, vargs') := by
  unfold takeWord at h
  split at h
  . cases h
    rfl
  . contradiction

theorem vaString_eq {s : List Byte} (h : takeString vargs = some (s, vargs'))
    : vaString vargs = .ok (s, vargs') := by
  unfold takeString at h
  split at h
  . cases h
    rfl
  . contradiction

end Arguments

section Flags

def flagBit (c : Byte) : Int32 :=
  if c = byte '#' then flagAlt
  else if c = byte '0' then flagZero
  else if c = byte '-' then flagLeftjustify
  else if c = byte ' ' then flagSpacepositive
  else if c = byte '+' then flagPluspositive
  else 0

def flagBits : List Byte → Int32
  | [] => 0
  | c :: flags => flagBit c ||| flagBits flags

theorem strchr_flagChars {c : Byte} (hc : c ≠ 0)
    : (isFlag c = true ∧ ∃ i, strchr c flagChars = .ok (some i) ∧ 1 <<< i = flagBit c)
        ∨
      (isFlag c = false ∧ strchr c flagChars = .ok none) := by
  have hflags : flagChars = [byte '#', byte '0', byte '-', byte ' ', byte '+', 0] := rfl
  have hmiss : ∀ (d : Byte) (str : List Byte), d ≠ 0 → d ≠ c →
      strchr c (d :: str) = strchr c str >>= fun r => pure (r.map (· + 1)) := by
    intro d str hd hne
    rw [strchr, if_pos hd, if_neg hne]
  have hhit : ∀ (str : List Byte), strchr c (c :: str) = .ok (some 0) := by
    intro str
    rw [strchr, if_pos hc, if_pos rfl]
    rfl
  have hend : strchr c [0] = .ok none := by
    rw [strchr, if_neg (not_not.mpr rfl), if_neg hc]
    rfl
  rw [hflags]
  unfold isFlag flagBit
  by_cases halt : byte '#' = c
  . rw [halt, hhit, if_pos rfl]
    exact Or.inl ⟨by simp, 0, rfl, rfl⟩
  rw [hmiss _ _ (by decide) halt, if_neg (Ne.symm halt)]
  by_cases hzero : byte '0' = c
  . rw [hzero, hhit, if_pos rfl]
    exact Or.inl ⟨by simp, 1, rfl, rfl⟩
  rw [hmiss _ _ (by decide) hzero, if_neg (Ne.symm hzero)]
  by_cases hleft : byte '-' = c
  . rw [hleft, hhit, if_pos rfl]
    exact Or.inl ⟨by simp, 2, rfl, rfl⟩
  rw [hmiss _ _ (by decide) hleft, if_neg (Ne.symm hleft)]
  by_cases hspace : byte ' ' = c
  . rw [hspace, hhit, if_pos rfl]
    exact Or.inl ⟨by simp, 3, rfl, rfl⟩
  rw [hmiss _ _ (by decide) hspace, if_neg (Ne.symm hspace)]
  by_cases hplus : byte '+' = c
  . rw [hplus, hhit, if_pos rfl]
    exact Or.inl ⟨by simp, 4, rfl, rfl⟩
  rw [hmiss _ _ (by decide) hplus, hend]
  refine Or.inr ⟨?_, rfl⟩
  simp [Ne.symm halt, Ne.symm hzero, Ne.symm hleft, Ne.symm hspace, Ne.symm hplus]

theorem or_flagBits_nil (flags : Int32) : flags ||| flagBits [] = flags :=
  BitVec.or_zero

theorem scanFlags_eq (flags : Int32) {fmt : List Byte} (hend : fmt.dropWhile isFlag ≠ [])
    : scanFlags flags fmt = .ok (flags ||| flagBits (fmt.takeWhile isFlag), fmt.dropWhile isFlag) := by
  induction fmt generalizing flags with
  | nil => contradiction
  | cons c fmt ih =>
    unfold scanFlags
    by_cases hc : c = 0
    . have hnot : ¬isFlag c = true := by
        rw [hc]
        decide
      rw [if_neg (not_not.mpr hc), List.takeWhile_cons_of_neg hnot, List.dropWhile_cons_of_neg hnot,
        or_flagBits_nil]
      rfl
    . rw [if_pos hc]
      cases strchr_flagChars hc with
      | inl hflag =>
        obtain ⟨hflag, i, hstrchr, hbit⟩ := hflag
        rw [List.dropWhile_cons_of_pos hflag] at hend
        rw [except_bind_ok hstrchr, List.takeWhile_cons_of_pos hflag, List.dropWhile_cons_of_pos hflag, flagBits,
          ← hbit, ← BitVec.or_assoc]
        exact ih _ hend
      | inr hother =>
        obtain ⟨hother, hstrchr⟩ := hother
        have hnot : ¬isFlag c = true := by
          rw [hother]
          exact Bool.false_ne_true
        rw [except_bind_ok hstrchr, List.takeWhile_cons_of_neg hnot, List.dropWhile_cons_of_neg hnot,
          or_flagBits_nil]
        rfl

end Flags

section Numbers

theorem decimal_step {c : Byte} (hdigit : isDigitFrom '0' c = true) (n : Nat)
    : 10 * BitVec.ofNat 32 n + c.setWidth 32 - (byte '0').setWidth 32
        =
      BitVec.ofNat 32 (10 * n + (c.toNat - 48)) := by
  have hle : 48 ≤ c.toNat := (of_decide_eq_true hdigit).left
  apply BitVec.eq_of_toNat_eq
  rw [BitVec.toNat_sub, BitVec.toNat_add, BitVec.toNat_mul, BitVec.toNat_setWidth, BitVec.toNat_ofNat,
    BitVec.toNat_ofNat, BitVec.toNat_setWidth]
  change (2 ^ 32 - 48 + (10 * (n % 2 ^ 32) % 2 ^ 32 + c.toNat % 2 ^ 32) % 2 ^ 32) % 2 ^ 32 = _
  omega

theorem scanNumber_eq (n : Nat) {fmt : List Byte} (hend : fmt.dropWhile (isDigitFrom '0') ≠ [])
    : scanNumber (BitVec.ofNat 32 n) fmt
        =
      .ok (BitVec.ofNat 32 (decimal n (fmt.takeWhile (isDigitFrom '0'))), fmt.dropWhile (isDigitFrom '0')) := by
  induction fmt generalizing n with
  | nil => contradiction
  | cons c fmt ih =>
    unfold scanNumber
    by_cases hdigit : isDigitFrom '0' c = true
    . rw [List.dropWhile_cons_of_pos hdigit] at hend
      rw [if_pos hdigit, List.takeWhile_cons_of_pos hdigit, List.dropWhile_cons_of_pos hdigit,
        decimal_step hdigit]
      exact ih _ hend
    . rw [if_neg hdigit, List.takeWhile_cons_of_neg hdigit, List.dropWhile_cons_of_neg hdigit]
      rfl

theorem skipLength_eq {fmt : List Byte} (hend : fmt.dropWhile isLength ≠ [])
    : skipLength fmt = .ok (fmt.dropWhile isLength) := by
  induction fmt with
  | nil => contradiction
  | cons c fmt ih =>
    unfold skipLength
    by_cases hlength : c = byte 'l' ∨ c = byte 'z'
    . have hpos : isLength c = true := decide_eq_true hlength
      rw [List.dropWhile_cons_of_pos hpos] at hend
      rw [if_pos hlength, List.dropWhile_cons_of_pos hpos]
      exact ih hend
    . have hneg : ¬isLength c = true := by
        unfold isLength
        rw [decide_eq_true_eq]
        exact hlength
      rw [if_neg hlength, List.dropWhile_cons_of_neg hneg]
      rfl

variable {fmt fmt' : List Byte} {vargs vargs' : List VaArg} {value : Option Int}

/--
Width and precision are read in the same way.
-/
theorem scan_eq_parseNumber (lo : Char) (h : parseNumber lo fmt vargs = some (value, fmt', vargs'))
    (hend : fmt' ≠ [])
    : (do
        let c ← deref fmt
        if isDigitFrom lo c then
          let (n, fmt) ← scanNumber 0 fmt
          return (n, fmt, vargs)
        else if c = byte '*' then
          let (n, vargs) ← vaWord vargs
          return (n, fmt.tail, vargs)
        else
          return (-1, fmt, vargs))
        =
      Except.ok (BitVec.ofInt 32 (value.getD (-1)), fmt', vargs') := by
  cases fmt with
  | nil => contradiction
  | cons c fmt =>
    rw [parseNumber] at h
    rw [except_bind_ok (deref_cons c fmt)]
    split at h
    . next hdigit =>
      cases h
      have hscan : scanNumber 0 (c :: fmt) = _ := scanNumber_eq 0 hend
      rw [if_pos hdigit, except_bind_ok hscan, Option.getD_some, BitVec.ofInt_natCast]
      rfl
    . next hdigit =>
      rw [if_neg hdigit]
      split at h
      . next hstar =>
        rw [if_pos hstar]
        obtain ⟨⟨w, vargs₁⟩, hword, h⟩ := Option.bind_eq_some_iff.mp h
        cases h
        rw [except_bind_ok (vaWord_eq hword), Option.getD_some, BitVec.ofInt_toInt]
        rfl
      . next hstar =>
        cases h
        rw [if_neg hstar]
        rfl

theorem scanWidth_eq (h : parseNumber '1' fmt vargs = some (value, fmt', vargs')) (hend : fmt' ≠ [])
    : scanWidth fmt vargs = .ok (BitVec.ofInt 32 (value.getD (-1)), fmt', vargs') :=
  scan_eq_parseNumber '1' h hend

/--
The precision as the code keeps it. One that does not fit an `int` is wrapped.
-/
def precisionWord : Option Nat → Int32
  | none => -1
  | some p => if (BitVec.ofNat 32 p).toInt < 0 then 0 else BitVec.ofNat 32 p

/--
What the code does to a negative precision.
-/
theorem precisionWord_toNat (value : Int) (hle : -2 ^ 31 ≤ value)
    : (if (BitVec.ofInt 32 value).toInt < 0 then 0 else BitVec.ofInt 32 value)
        =
      precisionWord (some value.toNat) := by
  by_cases hneg : value < 0
  . have hvalue : (BitVec.ofInt 32 value).toInt = value := by
      apply BitVec.toInt_ofInt_eq_self
      . decide
      . exact hle
      . exact Int.lt_trans hneg (by decide)
    rw [hvalue, if_pos hneg, Int.toNat_of_nonpos (Int.le_of_lt hneg)]
    rfl
  . have hnat : BitVec.ofInt 32 value = BitVec.ofNat 32 value.toNat := by
      rw [← BitVec.ofInt_natCast, Int.toNat_of_nonneg (Int.not_lt.mp hneg)]
    rw [hnat]
    rfl

theorem le_of_parseNumber {lo : Char} {p : Int} (h : parseNumber lo fmt vargs = some (some p, fmt', vargs'))
    : -2 ^ 31 ≤ p := by
  cases fmt with
  | nil => contradiction
  | cons c fmt =>
    rw [parseNumber] at h
    split at h
    . cases h
      exact Int.le_trans (by decide) (Int.natCast_nonneg _)
    . split at h
      . obtain ⟨⟨w, vargs₁⟩, _, h⟩ := Option.bind_eq_some_iff.mp h
        cases h
        exact BitVec.le_toInt w
      . cases h

theorem scanPrecision_eq {p : Option Nat} (h : parsePrecision fmt vargs = some (p, fmt', vargs'))
    (hend : fmt' ≠ [])
    : scanPrecision fmt vargs = .ok (precisionWord p, fmt', vargs') := by
  cases fmt with
  | nil => contradiction
  | cons c fmt =>
    rw [parsePrecision] at h
    unfold scanPrecision
    rw [except_bind_ok (deref_cons c fmt)]
    split at h
    . next hdot =>
      rw [if_pos hdot]
      obtain ⟨⟨p, rest, vargs₁⟩, hp, h⟩ := Option.bind_eq_some_iff.mp h
      cases h
      have hnumber : scanPrecision.number fmt vargs = .ok (BitVec.ofInt 32 (p.getD (-1)), fmt', vargs') :=
        scan_eq_parseNumber '0' hp hend
      rw [List.tail_cons, except_bind_ok hnumber]
      cases p with
      | none => rfl
      | some p =>
        change Except.ok (_, fmt', vargs') = _
        rw [Option.getD_some, Option.getD_some, precisionWord_toNat p (le_of_parseNumber hp)]
    . next hdot =>
      cases h
      rw [if_neg hdot]
      rfl

theorem ne_nil_of_parseNumber {lo : Char} (h : parseNumber lo fmt vargs = some (value, fmt', vargs'))
    : fmt ≠ [] := by
  intro hnil
  rw [hnil] at h
  contradiction

theorem ne_nil_of_parsePrecision {p : Option Nat} (h : parsePrecision fmt vargs = some (p, fmt', vargs'))
    : fmt ≠ [] := by
  intro hnil
  rw [hnil] at h
  contradiction

end Numbers

section Conversion

/--
The array `data` has the characters of an operand that is not a number.
-/
def Operand.Shows : Operand → List Byte → Prop
  | .string s, data => data = s
  | .char c, data => ∃ rest, data = c :: 0 :: rest
  | _, _ => True

@[simp]
def Operand.numeric : Operand → Bool
  | .string _ => false
  | .char _ => false
  | _ => true

@[simp]
def Operand.base : Operand → Int32
  | .hex _ _ => 16
  | .pointer _ => 16
  | _ => 10

@[simp]
def Operand.num : Operand → BitVec 32
  | .signed x => if x.toInt < 0 then -x else x
  | .unsigned n => n
  | .hex _ n => n
  | .pointer n => n
  | _ => 0

@[simp]
def Operand.isSigned : Operand → Bool
  | .signed _ => true
  | _ => false

@[simp]
def Operand.negative : Operand → Bool
  | .signed x => x.toInt < 0
  | _ => false

@[simp]
def Operand.caps : Operand → Bool
  | .hex caps _ => caps
  | _ => false

@[simp]
def Operand.isPointer : Operand → Bool
  | .pointer _ => true
  | _ => false

/--
The flags that the `switch` adds.
-/
def Operand.flags (operand : Operand) : Int32 :=
  (if operand.numeric then flagNumeric else 0)
    ||| (if operand.isSigned then flagSigned else 0)
    ||| (if operand.negative then flagNegative else 0)
    ||| (if operand.caps then flagCaps else 0)
    ||| (if operand.isPointer then flagAlt ||| flagAlt2 else 0)

section OperandFlags

theorem flags_signed (x : Int32)
    : (Operand.signed x).flags = flagNumeric ||| flagSigned ||| if x.toInt < 0 then flagNegative else 0 := by
  simp [Operand.flags]

theorem flags_unsigned (n : BitVec 32) : (Operand.unsigned n).flags = flagNumeric := by
  simp [Operand.flags]

theorem flags_hex (n : BitVec 32) : (Operand.hex false n).flags = flagNumeric := by
  simp [Operand.flags]

theorem flags_caps (n : BitVec 32) : (Operand.hex true n).flags = flagCaps ||| flagNumeric := by
  simp [Operand.flags, BitVec.or_comm]

theorem flags_pointer (n : BitVec 32) : (Operand.pointer n).flags = flagAlt ||| flagAlt2 ||| flagNumeric := by
  simp [Operand.flags, BitVec.or_comm]

theorem or_flags_text (flags : Int32) {operand : Operand} (h : operand.numeric = false)
    : flags = flags ||| operand.flags := by
  cases operand with
  | string s => simp [Operand.flags]
  | char c => simp [Operand.flags]
  | signed x => contradiction
  | unsigned n => contradiction
  | hex caps n => contradiction
  | pointer n => contradiction

end OperandFlags

/--
What the `switch` leaves for an operand.
-/
structure Converted (flags : List Byte) (operand : Operand) (conv : Conversion) : Prop where
  flags : conv.flags = flagBits flags ||| operand.flags
  base : conv.base = operand.base
  num : conv.num = operand.num
  data : operand.Shows conv.data

theorem parseWord_eq_some {op : BitVec 32 → Operand} {vargs vargs' : List VaArg} {operand : Operand}
    (h : parseWord op vargs = some (operand, vargs'))
    : ∃ w, takeWord vargs = some (w, vargs') ∧ operand = op w := by
  obtain ⟨⟨w, vargs₁⟩, hword, h⟩ := Option.bind_eq_some_iff.mp h
  cases h
  exact ⟨w, hword, rfl⟩

theorem setNumbuf_eq (numbuf : ByteMem) (c : Byte)
    : (∃ rest, numbufBytes (setNumbuf numbuf c) = c :: 0 :: rest)
        ∧ SameOutside numbuf (setNumbuf numbuf c) 0 numbufsiz := by
  constructor
  . unfold setNumbuf
    have hholds : Holds (Function.update (Function.update numbuf 0 c) 1 0) 0 ([c] ++ [0]) := by
      rw [List.singleton_append, holds_cons, holds_cons]
      constructor
      . rw [Function.update_of_ne (by decide)]
        exact Function.update_self ..
      . constructor
        . exact Function.update_self ..
        . exact holds_nil
    obtain ⟨rest, hrest⟩ := numbufBytes_eq hholds (by rw [List.length_singleton]; decide)
    exact ⟨rest, hrest⟩
  . exact sameOutside_setNumbuf numbuf c

theorem convert_eq (flags rest : List Byte) {c : Byte} {vargs vargs' : List VaArg} {operand : Operand}
    (numbuf : ByteMem) (h : parseOperand c vargs = some (operand, vargs'))
    : ∃ conv numbuf', convert (flagBits flags) ⟨c :: rest, vargs, numbuf⟩
          = .ok (conv, ⟨if c ≠ 0 then rest else c :: rest, vargs', numbuf'⟩)
        ∧ Converted flags operand conv
        ∧ SameOutside numbuf numbuf' 0 numbufsiz := by
  have hchar : ∀ {d : Char}, c = byte d → byte d ≠ 0 → c ≠ 0 := fun heq hne => heq ▸ hne
  have hsame := SameOutside.refl numbuf 0 numbufsiz
  unfold parseOperand at h
  unfold convert
  rw [except_bind_ok (deref_cons c rest)]
  dsimp only [List.tail_cons]
  by_cases hd : c = byte 'd' ∨ c = byte 'i'
  . rw [if_pos hd] at h ⊢
    obtain ⟨x, hword, rfl⟩ := parseWord_eq_some h
    have hne : c ≠ 0 := hd.elim (fun heq => hchar heq (by decide)) (fun heq => hchar heq (by decide))
    rw [except_bind_ok (vaWord_eq hword), if_pos hne]
    refine ⟨_, numbuf, rfl, ⟨?_, rfl, ?_, trivial⟩, hsame⟩
    . rw [flags_signed]
    . dsimp only [Operand.num]
      split
      . rfl
      . rfl
  rw [if_neg hd] at h ⊢
  by_cases hu : c = byte 'u'
  . rw [if_pos hu] at h ⊢
    obtain ⟨n, hword, rfl⟩ := parseWord_eq_some h
    rw [except_bind_ok (vaWord_eq hword), if_pos (hchar hu (by decide))]
    exact ⟨_, numbuf, rfl, ⟨by rw [flags_unsigned], rfl, rfl, trivial⟩, hsame⟩
  rw [if_neg hu] at h ⊢
  by_cases hx : c = byte 'x'
  . rw [if_pos hx] at h ⊢
    obtain ⟨n, hword, rfl⟩ := parseWord_eq_some h
    rw [except_bind_ok (vaWord_eq hword), if_pos (hchar hx (by decide))]
    exact ⟨_, numbuf, rfl, ⟨by rw [flags_hex], rfl, rfl, trivial⟩, hsame⟩
  rw [if_neg hx] at h ⊢
  by_cases hX : c = byte 'X'
  . rw [if_pos hX] at h ⊢
    obtain ⟨n, hword, rfl⟩ := parseWord_eq_some h
    rw [except_bind_ok (vaWord_eq hword), if_pos (hchar hX (by decide))]
    exact ⟨_, numbuf, rfl, ⟨by rw [flags_caps, ← BitVec.or_assoc], rfl, rfl, trivial⟩, hsame⟩
  rw [if_neg hX] at h ⊢
  by_cases hp : c = byte 'p'
  . rw [if_pos hp] at h ⊢
    obtain ⟨n, hword, rfl⟩ := parseWord_eq_some h
    rw [except_bind_ok (vaWord_eq hword), if_pos (hchar hp (by decide))]
    exact ⟨_, numbuf, rfl, ⟨by rw [flags_pointer], rfl, rfl, trivial⟩, hsame⟩
  rw [if_neg hp] at h ⊢
  by_cases hs : c = byte 's'
  . rw [if_pos hs] at h ⊢
    obtain ⟨⟨s, vargs₁⟩, hstring, h⟩ := Option.bind_eq_some_iff.mp h
    cases h
    rw [except_bind_ok (vaString_eq hstring), if_pos (hchar hs (by decide))]
    exact ⟨_, numbuf, rfl, ⟨or_flags_text _ rfl, rfl, rfl, rfl⟩, hsame⟩
  rw [if_neg hs] at h ⊢
  by_cases hc : c = byte 'c'
  . rw [if_pos hc] at h ⊢
    obtain ⟨w, hword, rfl⟩ := parseWord_eq_some h
    have hnumbuf := setNumbuf_eq numbuf (w.setWidth 8)
    rw [except_bind_ok (vaWord_eq hword), if_pos (hchar hc (by decide))]
    exact ⟨_, _, rfl, ⟨or_flags_text _ rfl, rfl, rfl, hnumbuf.left⟩, hnumbuf.right⟩
  rw [if_neg hc] at h ⊢
  cases h
  have hnumbuf := setNumbuf_eq numbuf (if c ≠ 0 then c else byte '%')
  exact ⟨_, _, rfl, ⟨or_flags_text _ rfl, rfl, rfl, hnumbuf.left⟩, hnumbuf.right⟩

end Conversion

section HasFlag

theorem hasFlag_or (a b flag : Int32) : hasFlag (a ||| b) flag = (hasFlag a flag || hasFlag b flag) := by
  unfold hasFlag
  rw [BitVec.and_or_distrib_right, ← Bool.decide_or]
  apply decide_eq_decide.mpr
  rw [← not_iff_not, not_or, not_not, not_not, not_not]
  exact BitVec.or_eq_zero_iff

theorem hasFlag_zero (flag : Int32) : hasFlag 0 flag = false := by
  unfold hasFlag
  rw [show (0 : Int32) &&& flag = 0 from BitVec.zero_and]
  rfl

theorem hasFlag_flagBits (flags : List Byte) (flag : Int32)
    : hasFlag (flagBits flags) flag = flags.any (fun c => hasFlag (flagBit c) flag) := by
  induction flags with
  | nil => exact hasFlag_zero flag
  | cons c flags ih =>
    rw [flagBits, hasFlag_or, ih, List.any_cons]

/--
A flag that the `switch` sets is none of those in the format.
-/
theorem hasFlag_flagBits_eq_false {flag : Int32} (flags : List Byte)
    (h : hasFlag flagAlt flag = false ∧ hasFlag flagZero flag = false ∧ hasFlag flagLeftjustify flag = false
      ∧ hasFlag flagSpacepositive flag = false ∧ hasFlag flagPluspositive flag = false)
    : hasFlag (flagBits flags) flag = false := by
  obtain ⟨halt, hzero, hleft, hspace, hplus⟩ := h
  rw [hasFlag_flagBits, List.any_eq_false]
  intro c _
  rw [Bool.not_eq_true]
  unfold flagBit
  split
  . exact halt
  split
  . exact hzero
  split
  . exact hleft
  split
  . exact hspace
  split
  . exact hplus
  . exact hasFlag_zero flag

/--
A flag of the format is set if and only if its character is there.
-/
theorem hasFlag_flagBits_eq_contains {flag : Int32} {d : Byte} (flags : List Byte)
    (h : ∀ c, hasFlag (flagBit c) flag = decide (d = c))
    : hasFlag (flagBits flags) flag = flags.contains d := by
  rw [hasFlag_flagBits]
  induction flags with
  | nil => rfl
  | cons c flags ih =>
    rw [List.any_cons, List.contains_cons, ih, h c]
    rfl

variable (flags : List Byte)

theorem hasFlag_flagAlt : hasFlag (flagBits flags) flagAlt = flags.contains (byte '#') := by
  apply hasFlag_flagBits_eq_contains
  decide +kernel

theorem hasFlag_flagZero : hasFlag (flagBits flags) flagZero = flags.contains (byte '0') := by
  apply hasFlag_flagBits_eq_contains
  decide +kernel

theorem hasFlag_flagLeftjustify : hasFlag (flagBits flags) flagLeftjustify = flags.contains (byte '-') := by
  apply hasFlag_flagBits_eq_contains
  decide +kernel

theorem hasFlag_flagSpacepositive : hasFlag (flagBits flags) flagSpacepositive = flags.contains (byte ' ') := by
  apply hasFlag_flagBits_eq_contains
  decide +kernel

theorem hasFlag_flagPluspositive : hasFlag (flagBits flags) flagPluspositive = flags.contains (byte '+') := by
  apply hasFlag_flagBits_eq_contains
  decide +kernel

end HasFlag

section Operand

variable (flags : List Byte) (operand : Operand)

theorem hasFlag_ite (b : Bool) (word flag : Int32)
    : hasFlag (if b = true then word else 0) flag = (b && hasFlag word flag) := by
  cases b with
  | false => exact hasFlag_zero flag
  | true => rfl

theorem hasFlag_operand (flag : Int32)
    : hasFlag operand.flags flag
        =
      (operand.numeric && hasFlag flagNumeric flag || operand.isSigned && hasFlag flagSigned flag
        || operand.negative && hasFlag flagNegative flag || operand.caps && hasFlag flagCaps flag
        || operand.isPointer && hasFlag (flagAlt ||| flagAlt2) flag) := by
  unfold Operand.flags
  rw [hasFlag_or, hasFlag_or, hasFlag_or, hasFlag_or, hasFlag_ite, hasFlag_ite, hasFlag_ite, hasFlag_ite,
    hasFlag_ite]

theorem hasFlag_flagNumeric : hasFlag (flagBits flags ||| operand.flags) flagNumeric = operand.numeric := by
  rw [hasFlag_or, hasFlag_flagBits_eq_false flags (by decide), hasFlag_operand]
  simp [hasFlag, flagNumeric, flagSigned, flagNegative, flagCaps, flagAlt, flagAlt2]

theorem hasFlag_flagSigned : hasFlag (flagBits flags ||| operand.flags) flagSigned = operand.isSigned := by
  rw [hasFlag_or, hasFlag_flagBits_eq_false flags (by decide), hasFlag_operand]
  simp [hasFlag, flagNumeric, flagSigned, flagNegative, flagCaps, flagAlt, flagAlt2]

theorem hasFlag_flagNegative : hasFlag (flagBits flags ||| operand.flags) flagNegative = operand.negative := by
  rw [hasFlag_or, hasFlag_flagBits_eq_false flags (by decide), hasFlag_operand]
  simp [hasFlag, flagNumeric, flagSigned, flagNegative, flagCaps, flagAlt, flagAlt2]

theorem hasFlag_flagCaps : hasFlag (flagBits flags ||| operand.flags) flagCaps = operand.caps := by
  rw [hasFlag_or, hasFlag_flagBits_eq_false flags (by decide), hasFlag_operand]
  simp [hasFlag, flagNumeric, flagSigned, flagNegative, flagCaps, flagAlt, flagAlt2]

theorem hasFlag_flagAlt2 : hasFlag (flagBits flags ||| operand.flags) flagAlt2 = operand.isPointer := by
  rw [hasFlag_or, hasFlag_flagBits_eq_false flags (by decide), hasFlag_operand]
  simp [hasFlag, flagNumeric, flagSigned, flagNegative, flagCaps, flagAlt, flagAlt2]

theorem hasFlag_flagAlt_or
    : hasFlag (flagBits flags ||| operand.flags) flagAlt = (flags.contains (byte '#') || operand.isPointer) := by
  rw [hasFlag_or, hasFlag_flagAlt, hasFlag_operand]
  simp [hasFlag, flagNumeric, flagSigned, flagNegative, flagCaps, flagAlt, flagAlt2]

theorem hasFlag_flagZero_or
    : hasFlag (flagBits flags ||| operand.flags) flagZero = flags.contains (byte '0') := by
  rw [hasFlag_or, hasFlag_flagZero, hasFlag_operand]
  simp [hasFlag, flagNumeric, flagSigned, flagNegative, flagCaps, flagAlt, flagAlt2, flagZero]

theorem hasFlag_flagLeftjustify_or
    : hasFlag (flagBits flags ||| operand.flags) flagLeftjustify = flags.contains (byte '-') := by
  rw [hasFlag_or, hasFlag_flagLeftjustify, hasFlag_operand]
  simp [hasFlag, flagNumeric, flagSigned, flagNegative, flagCaps, flagAlt, flagAlt2, flagLeftjustify]

theorem hasFlag_flagSpacepositive_or
    : hasFlag (flagBits flags ||| operand.flags) flagSpacepositive = flags.contains (byte ' ') := by
  rw [hasFlag_or, hasFlag_flagSpacepositive, hasFlag_operand]
  simp [hasFlag, flagNumeric, flagSigned, flagNegative, flagCaps, flagAlt, flagAlt2, flagSpacepositive]

theorem hasFlag_flagPluspositive_or
    : hasFlag (flagBits flags ||| operand.flags) flagPluspositive = flags.contains (byte '+') := by
  rw [hasFlag_or, hasFlag_flagPluspositive, hasFlag_operand]
  simp [hasFlag, flagNumeric, flagSigned, flagNegative, flagCaps, flagAlt, flagAlt2, flagPluspositive]

end Operand

/--
What the loop body knows of a directive before it writes the field.
-/
structure Scanned (d : Directive) (field : Field) : Prop where
  conv : Converted d.flags d.operand field.conv
  width : field.width = BitVec.ofInt 32 (d.width.getD (-1))
  precision : field.precision = precisionWord d.precision
  number : d.operand.numeric = true → ∃ rest, field.data = numberText field.conv ++ 0 :: rest
  text : d.operand.numeric = false → d.operand.Shows field.data

theorem Converted.base_cases {flags : List Byte} {operand : Operand} {conv : Conversion}
    (h : Converted flags operand conv)
    : conv.base.toNat = 10 ∨ conv.base.toNat = 16 := by
  rw [h.base]
  cases operand with
  | hex caps n => exact Or.inr rfl
  | pointer n => exact Or.inr rfl
  | signed x => exact Or.inl rfl
  | unsigned n => exact Or.inl rfl
  | string s => exact Or.inl rfl
  | char c => exact Or.inl rfl

theorem scanField_eq {fmt fmt' : List Byte} {vargs vargs' : List VaArg} {d : Directive} (numbuf : ByteMem)
    (h : parseDirective fmt vargs = some (d, fmt', vargs'))
    : ∃ field numbuf', scanField ⟨fmt, vargs, numbuf⟩ = .ok (field, ⟨fmt', vargs', numbuf'⟩)
        ∧ Scanned d field
        ∧ SameOutside numbuf numbuf' 0 numbufsiz := by
  obtain ⟨⟨width, fmt₁, vargs₁⟩, hwidth, h⟩ := Option.bind_eq_some_iff.mp h
  obtain ⟨⟨precision, fmt₂, vargs₂⟩, hprecision, h⟩ := Option.bind_eq_some_iff.mp h
  dsimp only at h hprecision
  split at h
  . contradiction
  . next c rest hlength =>
    obtain ⟨⟨operand, vargs₃⟩, hoperand, h⟩ := Option.bind_eq_some_iff.mp h
    have hne₂ : fmt₂ ≠ [] := by
      intro hnil
      rw [hnil] at hlength
      contradiction
    have hne : fmt₂.dropWhile isLength ≠ [] := by
      rw [hlength]
      exact List.cons_ne_nil c rest
    obtain ⟨conv, numbuf₁, hconvert, hconverted, hsame₁⟩ :=
      convert_eq (fmt.takeWhile isFlag) rest numbuf hoperand
    unfold scanField
    dsimp only
    rw [except_bind_ok (scanFlags_eq 0 (ne_nil_of_parseNumber hwidth))]
    dsimp only
    rw [except_bind_ok (scanWidth_eq hwidth (ne_nil_of_parsePrecision hprecision))]
    dsimp only
    rw [except_bind_ok (scanPrecision_eq hprecision hne₂)]
    dsimp only
    rw [except_bind_ok (skipLength_eq hne), hlength, show (0 : Int32) ||| _ = _ from BitVec.zero_or,
      except_bind_ok hconvert]
    dsimp only
    cases h
    cases hnumeric : operand.numeric with
    | true =>
      have hflag : hasFlag conv.flags flagNumeric = true := by
        rw [hconverted.flags, hasFlag_flagNumeric, hnumeric]
      have hbase := hconverted.base_cases
      obtain ⟨tail, numbuf₂, hformat, hsame₂⟩ := formatNumber_eq conv numbuf₁ hflag (by omega) (by omega)
      rw [except_bind_ok hformat]
      refine ⟨_, numbuf₂, rfl, ⟨hconverted, rfl, rfl, fun _ => ⟨tail, rfl⟩, fun htext => ?_⟩, hsame₁.trans hsame₂⟩
      rw [hnumeric] at htext
      contradiction
    | false =>
      have hflag : ¬hasFlag conv.flags flagNumeric = true := by
        rw [hconverted.flags, hasFlag_flagNumeric, hnumeric]
        exact Bool.false_ne_true
      have hformat : formatNumber conv numbuf₁ = .ok (conv.data, numbuf₁) := by
        unfold formatNumber
        rw [if_neg hflag]
        rfl
      rw [except_bind_ok hformat]
      refine ⟨_, numbuf₁, rfl, ⟨hconverted, rfl, rfl, fun hnumber => ?_, fun _ => hconverted.data⟩, hsame₁⟩
      rw [hnumeric] at hnumber
      contradiction

end AwaOS
