import AwaOS.Klibc.String
import Mathlib.Logic.Function.Basic

/-!
`libs/klibc/stdlib/itoa.c`
-/

namespace AwaOS

abbrev Int32 := BitVec 32

def baseChar : List Byte :=
  cstr "0123456789abcdefghijklmnopqrstuvwxyz"

/--
The `do` loop of `__uitoa_internal`. A `base` of at least 2 makes at most 32 digits.
-/
def uitoaInternal.digits (str : Nat) (base : Int32) : Nat → BitVec 32 → Nat → ByteMem → LibcM (Nat × ByteMem)
  | 0, _, _, _ => throw .endless
  | fuel + 1, value, ptr, m => do
    let digit ← deref (baseChar.drop (value % base).toNat)
    let m := Function.update m (str + ptr) digit
    let value := value / base
    let ptr := ptr + 1
    if value ≠ 0 then
      uitoaInternal.digits str base fuel value ptr m
    else
      pure (ptr, m)

/--
The `for` loop of `__uitoa_internal` from `i` on, with `count` rounds left.
-/
def uitoaInternal.reverse (str ptr : Nat) : Nat → Nat → ByteMem → ByteMem
  | _, 0, m => m
  | i, count + 1, m =>
    let c := m (str + i)
    let m := Function.update m (str + i) (m (str + (ptr - i - 1)))
    let m := Function.update m (str + (ptr - i - 1)) c
    uitoaInternal.reverse str ptr (i + 1) count m

/--
`__uitoa_internal`. Returns what it stores in `*size`.
-/
def uitoaInternal (value : BitVec 32) (m : ByteMem) (str : Nat) (base : Int32) : LibcM (Nat × ByteMem) := do
  let (ptr, m) ← uitoaInternal.digits str base 32 value 0 m
  let m := uitoaInternal.reverse str ptr 0 (ptr / 2) m
  return (ptr, Function.update m (str + ptr) 0)

/--
`__itoa_internal`
-/
def itoaInternal (value : Int32) (m : ByteMem) (str : Nat) (base : Int32) : LibcM (Nat × ByteMem) :=
  if value.toInt < 0 ∧ base = 10 then
    uitoaInternal (-value) (Function.update m str (byte '-')) (str + 1) base
  else
    uitoaInternal value m str base

def itoa (value : Int32) (m : ByteMem) (str : Nat) (base : Int32) : LibcM ByteMem := do
  let (_, m) ← itoaInternal value m str base
  return m

end AwaOS
