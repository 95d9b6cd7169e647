import AwaOS.Lib.ByteMemory

/-!
The parts of `libs/klibc` that work on strings. A pointer into an array is the list of the bytes from
there to the end of the array, so that reading outside the array shows.
-/

namespace AwaOS

abbrev Byte := BitVec 8

def byte (c : Char) : Byte :=
  BitVec.ofNat 8 c.toNat

/--
What a library function can do wrong.
-/
inductive LibcFault where
  /-- It reads an array outside its bounds. -/
  | outOfBounds
  /-- It takes an argument that is missing or of another type. -/
  | argument
  /-- Its loop does not end. -/
  | endless
  deriving DecidableEq

abbrev LibcM := Except LibcFault

/--
`*ptr`
-/
def deref : List Byte → LibcM Byte
  | [] => throw .outOfBounds
  | c :: _ => pure c

/--
A string literal.
-/
def cstr (s : String) : List Byte :=
  s.toList.map byte ++ [0]

/--
Returns how far the result is from `str`, `none` for `NULL`.
-/
def strchr (character : Byte) : List Byte → LibcM (Option Nat)
  | [] => throw .outOfBounds
  | c :: str =>
    if c ≠ 0 then
      if c = character then
        pure (some 0)
      else do
        return (← strchr character str).map (· + 1)
    else if character = 0 then
      pure (some 0)
    else
      pure none

def strlen : List Byte → LibcM Nat
  | [] => throw .outOfBounds
  | c :: str =>
    if c ≠ 0 then do
      return (← strlen str) + 1
    else
      pure 0

/--
`while (str[len] && len <= max_len) len++;`
-/
def strnlen.go (maxLen len : Nat) : List Byte → LibcM Nat
  | [] => throw .outOfBounds
  | c :: str =>
    if c ≠ 0 ∧ len ≤ maxLen then
      strnlen.go maxLen (len + 1) str
    else
      pure len

def strnlen (str : List Byte) (maxLen : Nat) : LibcM Nat :=
  strnlen.go maxLen 0 str

end AwaOS
