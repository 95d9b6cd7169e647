import AwaOS.Klibc.Sprintf.Law

/-!
The conversions of numbers, without flags, width and precision: what they print, and what is read back.
-/

namespace AwaOS

/--
The conversions that print a number.
-/
inductive NumberConversion where
  | d | i | u | x | X | p
  deriving DecidableEq

namespace NumberConversion

def char : NumberConversion → Byte
  | d => byte 'd'
  | i => byte 'i'
  | u => byte 'u'
  | x => byte 'x'
  | X => byte 'X'
  | p => byte 'p'

/--
The canonical numeral of an argument.
-/
def numeral : NumberConversion → BitVec 32 → List Byte
  | d, w => (toString w.toInt).toList.map byte
  | i, w => (toString w.toInt).toList.map byte
  | u, w => (toString w.toNat).toList.map byte
  | x, w => (Nat.toDigits 16 w.toNat).map byte
  | X, w => (Nat.toDigits 16 w.toNat).map (fun c => byte c.toUpper)
  | p, w => "0x".toList.map byte ++ (Nat.toDigits 16 w.toNat).map byte

/--
The value of a digit, in lower or upper case.
-/
def digitValue (c : Byte) : Nat :=
  if c.toNat < 58 then c.toNat - 48
  else if c.toNat < 71 then c.toNat - 55
  else c.toNat - 87

def readDigits (base : Nat) (text : List Byte) : Nat :=
  text.foldl (fun n c => base * n + digitValue c) 0

def readSigned : List Byte → Int
  | [] => 0
  | c :: text => if c = byte '-' then -(readDigits 10 text : Int) else readDigits 10 (c :: text)

/--
Reads a text back.
-/
def read : NumberConversion → List Byte → BitVec 32
  | d, text => BitVec.ofInt 32 (readSigned text)
  | i, text => BitVec.ofInt 32 (readSigned text)
  | u, text => BitVec.ofNat 32 (readDigits 10 text)
  | x, text => BitVec.ofNat 32 (readDigits 16 text)
  | X, text => BitVec.ofNat 32 (readDigits 16 text)
  | p, text => BitVec.ofNat 32 (readDigits 16 (text.drop 2))

def operand : NumberConversion → BitVec 32 → Operand
  | d, w => .signed w
  | i, w => .signed w
  | u, w => .unsigned w
  | x, w => .hex false w
  | X, w => .hex true w
  | p, w => .pointer w

/--
The arguments that are printed right: `%d` and `%i` fail for the least `int`, `%u` from 2^31 on.
-/
def Printable : NumberConversion → BitVec 32 → Prop
  | d, w => w ≠ 0x80000000
  | i, w => w ≠ 0x80000000
  | u, w => w.toNat < 2 ^ 31
  | _, _ => True

section Read

theorem readDigits_append (base : Nat) (text : List Byte) (c : Byte)
    : readDigits base (text ++ [c]) = base * readDigits base text + digitValue c := by
  unfold readDigits
  rw [List.foldl_append]
  rfl

/--
The digits of a number in either case are read back, from the last one on.
-/
theorem readDigits_toDigits {base : Nat} (hbase : 2 ≤ base) (f : Char → Byte)
    (hf : ∀ k, k < base → digitValue (f (Nat.digitChar k)) = k) (n : Nat)
    : readDigits base ((Nat.toDigits base n).map f) = n := by
  induction n using Nat.strongRecOn with
  | ind n ih =>
    rw [Nat.toDigits_eq_if hbase]
    split
    . next hsmall =>
      have hdigit := hf n hsmall
      rw [List.map_singleton]
      change base * 0 + digitValue (f (Nat.digitChar n)) = n
      omega
    . next hlarge =>
      have hless : n / base < n := Nat.div_lt_self (by omega) hbase
      rw [List.map_append, List.map_singleton, readDigits_append, ih (n / base) hless,
        hf (n % base) (Nat.mod_lt _ (by omega))]
      exact Nat.div_add_mod n base

theorem readDigits_decimal (n : Nat) : readDigits 10 (digitBytes 10 n) = n :=
  readDigits_toDigits (by decide) byte (by decide) n

theorem readDigits_hex (n : Nat) : readDigits 16 (digitBytes 16 n) = n :=
  readDigits_toDigits (by decide) byte (by decide) n

theorem readDigits_caps (n : Nat) : readDigits 16 ((Nat.toDigits 16 n).map (fun c => byte c.toUpper)) = n :=
  readDigits_toDigits (by decide) (fun c => byte c.toUpper) (by decide) n

theorem toString_natCast (n : Nat) : (toString n).toList.map byte = digitBytes 10 n := by
  rw [Nat.toString_eq_repr, Nat.toList_repr]
  rfl

theorem toString_int (x : Int)
    : (toString x).toList.map byte
        =
      if x < 0 then byte '-' :: digitBytes 10 x.natAbs else digitBytes 10 x.natAbs := by
  rw [Int.toString_eq_repr, Int.repr_eq_if]
  by_cases hneg : x < 0
  . rw [if_neg (by omega), if_pos hneg, String.toList_append, Nat.toList_repr, show (-x).toNat = x.natAbs by omega]
    rfl
  . rw [if_pos (by omega), if_neg hneg, Nat.toList_repr, show x.toNat = x.natAbs by omega]
    rfl

theorem readSigned_toString (x : Int) : readSigned ((toString x).toList.map byte) = x := by
  rw [toString_int]
  split
  . next hneg =>
    rw [readSigned, if_pos rfl, readDigits_decimal]
    omega
  . next hpos =>
    have hread := readDigits_decimal x.natAbs
    have hminus := @minus_not_mem_digitBytes 10 x.natAbs (by decide) (by decide)
    cases hdigits : digitBytes 10 x.natAbs with
    | nil =>
      have hlength := @length_digitBytes_pos 10 x.natAbs
      rw [hdigits] at hlength
      contradiction
    | cons c text =>
      rw [hdigits] at hread hminus
      rw [readSigned, if_neg (fun heq : c = byte '-' => hminus (heq ▸ List.mem_cons_self)), hread]
      omega

theorem read_numeral (conv : NumberConversion) (w : BitVec 32) : conv.read (conv.numeral w) = w := by
  have hsigned : BitVec.ofInt 32 (readSigned ((toString w.toInt).toList.map byte)) = w := by
    rw [readSigned_toString, BitVec.ofInt_toInt]
  have hword : BitVec.ofNat 32 w.toNat = w := by
    rw [BitVec.ofNat_toNat, BitVec.setWidth_eq]
  have hhex : BitVec.ofNat 32 (readDigits 16 (digitBytes 16 w.toNat)) = w := by
    rw [readDigits_hex, hword]
  cases conv with
  | d => exact hsigned
  | i => exact hsigned
  | u =>
    change BitVec.ofNat 32 (readDigits 10 ((toString w.toNat).toList.map byte)) = w
    rw [toString_natCast, readDigits_decimal, hword]
  | x => exact hhex
  | X =>
    change BitVec.ofNat 32 (readDigits 16 ((Nat.toDigits 16 w.toNat).map (fun c => byte c.toUpper))) = w
    rw [readDigits_caps, hword]
  | p => exact hhex

end Read

section Print

/--
A directive without flags, width and precision.
-/
def directive (conv : NumberConversion) (w : BitVec 32) : Directive :=
  ⟨[], none, none, conv.operand w⟩

theorem numeric_operand (conv : NumberConversion) (w : BitVec 32) : (conv.operand w).numeric = true := by
  cases conv with
  | d => rfl
  | i => rfl
  | u => rfl
  | x => rfl
  | X => rfl
  | p => rfl

theorem signText_digits (conv : NumberConversion) (w : BitVec 32)
    : (conv.directive w).signText ++ (conv.operand w).digits = conv.numeral w := by
  have hsigned : (⟨[], none, none, .signed w⟩ : Directive).signText ++ digitBytes 10 w.toInt.natAbs
      = (toString w.toInt).toList.map byte := by
    rw [toString_int]
    unfold Directive.signText
    dsimp only
    split
    . rfl
    . rfl
  cases conv with
  | d => exact hsigned
  | i => exact hsigned
  | u => exact (toString_natCast w.toNat).symm
  | x => rfl
  | X => rfl
  | p => rfl

theorem layOut_numeral (conv : NumberConversion) (w : BitVec 32)
    : (conv.directive w).layOut (conv.operand w).digits = conv.numeral w := by
  have hzeros : (conv.directive w).zeros (conv.operand w).digits = 0 := by
    unfold Directive.zeros
    split
    . rfl
    . rfl
  have hspaces : (conv.directive w).spaces (conv.operand w).digits = 0 := by
    unfold Directive.spaces
    change 0 - _ - _ - _ = 0
    omega
  unfold Directive.layOut
  rw [hzeros, hspaces, List.replicate_zero, List.replicate_zero, List.append_nil]
  exact signText_digits conv w

theorem parse_directive (conv : NumberConversion) (w : BitVec 32) (rest : List Byte) (vargs : List VaArg)
    : parseDirective (conv.char :: rest) (.word w :: vargs) = some (conv.directive w, rest, vargs) := by
  cases conv with
  | d => rfl
  | i => rfl
  | u => rfl
  | x => rfl
  | X => rfl
  | p => rfl

theorem exact_directive (conv : NumberConversion) (w : BitVec 32)
    : (conv.directive w).Exact ↔ conv.Printable w := by
  have hnumber : (conv.directive w).Exact ↔ (conv.operand w).FitsInt := by
    constructor
    . intro h
      exact h.number
    . intro h
      refine ⟨h, fun hfalse => ?_⟩
      rw [show (conv.directive w).operand = conv.operand w from rfl, numeric_operand] at hfalse
      contradiction
  have hsigned : (Operand.signed w).FitsInt ↔ w ≠ 0x80000000 := by
    have hleast : w = 0x80000000 ↔ w.toInt = -2 ^ 31 := (BitVec.toInt_inj (y := 0x80000000#32)).symm
    have hle := BitVec.le_toInt w
    have hlt := @BitVec.toInt_lt 32 w
    unfold Operand.FitsInt
    rw [toNat_num_signed, ne_eq, hleast]
    constructor
    . intro h
      have := h rfl rfl
      omega
    . intro h _ _
      omega
  rw [hnumber]
  cases conv with
  | d => exact hsigned
  | i => exact hsigned
  | u => exact ⟨fun h => h rfl rfl, fun h _ _ => h⟩
  | x => exact ⟨fun _ => trivial, fun _ _ hbase => absurd hbase (show (16 : Int32) ≠ 10 by decide)⟩
  | X => exact ⟨fun _ => trivial, fun _ _ hbase => absurd hbase (show (16 : Int32) ≠ 10 by decide)⟩
  | p => exact ⟨fun _ => trivial, fun _ _ hbase => absurd hbase (show (16 : Int32) ≠ 10 by decide)⟩

/--
The directive prints the numeral, in any format and as the only one of a format, and it can be read back.
-/
structure Prints (conv : NumberConversion) (w : BitVec 32) : Prop where
  directive : ∀ rest vargs numbuf, ∃ numbuf',
    directiveText ⟨conv.char :: rest, .word w :: vargs, numbuf⟩ = .ok (⟨rest, vargs, numbuf'⟩, conv.numeral w)
  sprintf : ∀ m buffer numbuf,
    sprintf m buffer [byte '%', conv.char, 0] [.word w] numbuf = .ok (written m buffer (conv.numeral w))
  read : conv.read (conv.numeral w) = w

/--
A number is printed right if and only if `itoa` takes it as it is.
-/
theorem prints_iff (conv : NumberConversion) (w : BitVec 32) : Prints conv w ↔ conv.Printable w := by
  rw [← exact_directive]
  have hcovered : (conv.directive w).Covered := covered_of_none _ _
  have hbody : (conv.directive w).body = .ok (conv.operand w).digits := body_of_number (numeric_operand conv w)
  have hlayout := layOut_numeral conv w
  constructor
  . intro h
    by_contra hnot
    obtain ⟨numbuf', htext⟩ := h.directive [] [] (fun _ => 0)
    rw [← hlayout] at htext
    exact directiveText_inexact _ (parse_directive conv w [] []) hcovered hbody hnot _ htext
  . intro h
    constructor
    . intro rest vargs numbuf
      have htext := directiveText_exact numbuf (parse_directive conv w rest vargs) hcovered h hbody
      rw [hlayout] at htext
      exact htext
    . intro m buffer numbuf
      have hparse := parse_directive conv w [0] []
      obtain ⟨numbuf', htext⟩ := directiveText_exact numbuf hparse hcovered h hbody
      rw [sprintf_single m buffer numbuf hparse, htext, hlayout]
      rfl
    . exact read_numeral conv w

/--
The least `int` gets a second sign, from `itoa`.
-/
theorem prints_least
    : sprintf (fun _ => 0) 0x100 (cstr "%d") [.word 0x80000000] (fun _ => 0)
          = .ok (written (fun _ => 0) 0x100 ("--2147483648".toList.map byte))
        ∧ d.numeral 0x80000000 = "-2147483648".toList.map byte
        ∧ ¬Prints d 0x80000000 := by
  have hpieces : pieces 3 ⟨cstr "%d", [.word 0x80000000], fun _ => 0⟩ = .ok ["--2147483648".toList.map byte] := by
    rfl
  refine ⟨sprintf_eq_ok.mpr ⟨_, hpieces, by rw [List.flatten_cons, List.flatten_nil, List.append_nil]⟩,
    by decide, ?_⟩
  intro h
  obtain ⟨numbuf', htext⟩ := h.directive [0] [] (fun _ => 0)
  have hsame : (directiveText ⟨[d.char, 0], [.word 0x80000000], fun _ => 0⟩).map Prod.snd
      = .ok ("--2147483648".toList.map byte) := by
    rfl
  rw [htext] at hsame
  have hnumeral : d.numeral 0x80000000 = "--2147483648".toList.map byte := Except.ok.inj hsame
  exact absurd hnumeral (by decide)

end Print

end NumberConversion

end AwaOS
