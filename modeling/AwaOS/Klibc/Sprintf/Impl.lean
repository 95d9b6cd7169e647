import AwaOS.Klibc.Itoa

/-!
`libs/klibc/stdio/sprintf.c`. An `int` is a word that `BitVec.toInt` reads, and it wraps where C leaves
the overflow undefined.
-/

namespace AwaOS

def numbufsiz : Nat := 24

def flagChars : List Byte :=
  cstr "#0- +"

def flagAlt : Int32 := 1 <<< 0

def flagZero : Int32 := 1 <<< 1

def flagLeftjustify : Int32 := 1 <<< 2

def flagSpacepositive : Int32 := 1 <<< 3

def flagPluspositive : Int32 := 1 <<< 4

def flagNumeric : Int32 := 1 <<< 5

def flagSigned : Int32 := 1 <<< 6

def flagNegative : Int32 := 1 <<< 7

def flagAlt2 : Int32 := 1 <<< 8

def flagCaps : Int32 := 1 <<< 9

/--
An argument in a `va_list`. `int`, `long` and pointers are words.
-/
inductive VaArg where
  | word (w : BitVec 32)
  | string (s : List Byte)

/--
What the outer loop of `__sprintf_internal` goes on with, apart from its output. `numbuf` holds
`NUMBUFSIZ` bytes.
-/
structure Scan where
  fmt : List Byte
  vargs : List VaArg
  numbuf : ByteMem

/--
The buffer that is written to. A text of 2^32 bytes does not fit into memory, so `ptr` does not wrap.
-/
structure Out where
  mem : ByteMem
  buffer : Nat
  ptr : Nat

/--
`va_arg(vargs, int)` and its like
-/
def vaWord : List VaArg → LibcM (BitVec 32 × List VaArg)
  | .word w :: vargs => pure (w, vargs)
  | _ => throw .argument

/--
`va_arg(vargs, char*)`
-/
def vaString : List VaArg → LibcM (List Byte × List VaArg)
  | .string s :: vargs => pure (s, vargs)
  | _ => throw .argument

/--
`buffer[ptr++] = c;`
-/
def Out.put (out : Out) (c : Byte) : Out :=
  { out with mem := Function.update out.mem (out.buffer + out.ptr) c, ptr := out.ptr + 1 }

def hasFlag (flags flag : Int32) : Bool :=
  flags &&& flag ≠ 0

/--
`*fmt >= lo && *fmt <= '9'`
-/
def isDigitFrom (lo : Char) (c : Byte) : Bool :=
  byte lo ≤ c ∧ c ≤ byte '9'

/--
The loop over the flags, after the `%`.
-/
def scanFlags (flags : Int32) : List Byte → LibcM (Int32 × List Byte)
  | [] => throw .outOfBounds
  | c :: fmt =>
    if c ≠ 0 then do
      match ← strchr c flagChars with
      | some flagc => scanFlags (flags ||| 1 <<< flagc) fmt
      | none => pure (flags, c :: fmt)
    else
      pure (flags, c :: fmt)

/--
`for (n = 0; *fmt >= '0' && *fmt <= '9'; ) { n = 10 * n + *fmt++ - '0'; }` from `n` on
-/
def scanNumber (n : Int32) : List Byte → LibcM (Int32 × List Byte)
  | [] => throw .outOfBounds
  | c :: fmt =>
    if isDigitFrom '0' c then
      scanNumber (10 * n + c.setWidth 32 - (byte '0').setWidth 32) fmt
    else
      pure (n, c :: fmt)

def scanWidth (fmt : List Byte) (vargs : List VaArg) : LibcM (Int32 × List Byte × List VaArg) := do
  let c ← deref fmt
  if isDigitFrom '1' c then
    let (width, fmt) ← scanNumber 0 fmt
    return (width, fmt, vargs)
  else if c = byte '*' then
    let (width, vargs) ← vaWord vargs
    return (width, fmt.tail, vargs)
  else
    return (-1, fmt, vargs)

/--
The precision after the `.`
-/
def scanPrecision.number (fmt : List Byte) (vargs : List VaArg) : LibcM (Int32 × List Byte × List VaArg) := do
  let c ← deref fmt
  if isDigitFrom '0' c then
    let (precision, fmt) ← scanNumber 0 fmt
    return (precision, fmt, vargs)
  else if c = byte '*' then
    let (precision, vargs) ← vaWord vargs
    return (precision, fmt.tail, vargs)
  else
    return (-1, fmt, vargs)

def scanPrecision (fmt : List Byte) (vargs : List VaArg) : LibcM (Int32 × List Byte × List VaArg) := do
  let c ← deref fmt
  if c = byte '.' then
    let (precision, fmt, vargs) ← scanPrecision.number fmt.tail vargs
    return (if precision.toInt < 0 then 0 else precision, fmt, vargs)
  else
    return (-1, fmt, vargs)

/--
`case 'l': case 'z':`. A `long` is as large as an `int`, so `length` makes no difference.
-/
def skipLength : List Byte → LibcM (List Byte)
  | [] => throw .outOfBounds
  | c :: fmt =>
    if c = byte 'l' ∨ c = byte 'z' then
      skipLength fmt
    else
      pure (c :: fmt)

/--
The local variables after the `switch`. For numbers `data` is set later.
-/
structure Conversion where
  flags : Int32
  base : Int32
  num : BitVec 32
  data : List Byte

/--
`numbuf` as an array.
-/
def numbufBytes (numbuf : ByteMem) : List Byte :=
  (List.range numbufsiz).map numbuf

/--
`numbuf[0] = c; numbuf[1] = '\0';`
-/
def setNumbuf (numbuf : ByteMem) (c : Byte) : ByteMem :=
  Function.update (Function.update numbuf 0 c) 1 0

/--
The `switch` over the conversion character. The result is the state with which the outer loop goes on,
after its `++fmt`.
-/
def convert (flags : Int32) (scan : Scan) : LibcM (Conversion × Scan) := do
  let c ← deref scan.fmt
  let next := { scan with fmt := scan.fmt.tail }
  if c = byte 'd' ∨ c = byte 'i' then
    let (x, vargs) ← vaWord scan.vargs
    let negative : Int32 := if x.toInt < 0 then flagNegative else 0
    let num := if negative ≠ 0 then -x else x
    return (⟨flags ||| (flagNumeric ||| flagSigned ||| negative), 10, num, cstr ""⟩,
      { next with vargs := vargs })
  else if c = byte 'u' then
    let (num, vargs) ← vaWord scan.vargs
    return (⟨flags ||| flagNumeric, 10, num, cstr ""⟩, { next with vargs := vargs })
  else if c = byte 'x' then
    let (num, vargs) ← vaWord scan.vargs
    return (⟨flags ||| flagNumeric, 16, num, cstr ""⟩, { next with vargs := vargs })
  else if c = byte 'X' then
    let (num, vargs) ← vaWord scan.vargs
    return (⟨(flags ||| flagCaps) ||| flagNumeric, 16, num, cstr ""⟩, { next with vargs := vargs })
  else if c = byte 'p' then
    let (num, vargs) ← vaWord scan.vargs
    return (⟨flags ||| (flagAlt ||| flagAlt2 ||| flagNumeric), 16, num, cstr ""⟩, { next with vargs := vargs })
  else if c = byte 's' then
    let (data, vargs) ← vaString scan.vargs
    return (⟨flags, 10, 0, data⟩, { next with vargs := vargs })
  else if c = byte 'c' then
    let (w, vargs) ← vaWord scan.vargs
    let numbuf := setNumbuf scan.numbuf (w.setWidth 8)
    return (⟨flags, 10, 0, numbufBytes numbuf⟩, { next with vargs := vargs, numbuf := numbuf })
  else
    let numbuf := setNumbuf scan.numbuf (if c ≠ 0 then c else byte '%')
    -- at the end of the format, `fmt--` makes up for the `++fmt` of the outer loop
    let fmt := if c ≠ 0 then scan.fmt.tail else scan.fmt
    return (⟨flags, 10, 0, numbufBytes numbuf⟩, { scan with fmt := fmt, numbuf := numbuf })

/--
`while ((flags & FLAG_CAPS) && (c = data[i])) { data[i] = c & ~((c & 0x40) >> 1); i++; }` for an array of
`count` bytes from `i` on
-/
def capitalize (m : ByteMem) (i : Nat) : Nat → ByteMem
  | 0 => m
  | count + 1 =>
    if m i ≠ 0 then
      capitalize (Function.update m i (m i &&& ~~~((m i &&& 0x40#8) >>> 1))) (i + 1) count
    else
      m

/--
`if (flags & FLAG_NUMERIC) { ... }`
-/
def formatNumber (conv : Conversion) (numbuf : ByteMem) : LibcM (List Byte × ByteMem) :=
  if hasFlag conv.flags flagNumeric then do
    let numbuf ← itoa conv.num numbuf 0 conv.base
    let numbuf := if hasFlag conv.flags flagCaps then capitalize numbuf 0 numbufsiz else numbuf
    return (numbufBytes numbuf, numbuf)
  else
    pure (conv.data, numbuf)

def signPrefix (conv : Conversion) : List Byte :=
  if hasFlag conv.flags flagNumeric && hasFlag conv.flags flagSigned then
    if hasFlag conv.flags flagNegative then
      cstr "-"
    else if hasFlag conv.flags flagPluspositive then
      cstr "+"
    else if hasFlag conv.flags flagSpacepositive then
      cstr " "
    else
      cstr ""
  else if hasFlag conv.flags flagNumeric && hasFlag conv.flags flagAlt && (conv.base = 16 || conv.base = -16)
      && (conv.num ≠ 0 || hasFlag conv.flags flagAlt2) then
    cstr "0x"
  else
    cstr ""

/--
The lengths of the parts of a field.
-/
structure Layout where
  len : Int32
  zeros : Int32
  width : Int32

/--
How many characters of `data` are written.
-/
def dataLen (flags precision : Int32) (data : List Byte) : LibcM Nat :=
  if 0 ≤ precision.toInt && !hasFlag flags flagNumeric then
    strnlen data precision.toNat
  else
    strlen data

def layout (flags width precision : Int32) (sign data : List Byte) : LibcM Layout := do
  let len : Int32 := BitVec.ofNat 32 (← dataLen flags precision data)
  let signLen : Int32 := BitVec.ofNat 32 (← strlen sign)
  let zeros : Int32 :=
    if hasFlag flags flagNumeric && decide (0 ≤ precision.toInt) then
      if precision.toInt > len.toInt then precision - len else 0
    else if hasFlag flags flagNumeric && hasFlag flags flagZero && !hasFlag flags flagLeftjustify
        && decide ((len + signLen).toInt < width.toInt) then
      width - len - signLen
    else
      0
  return { len := len, zeros := zeros, width := width - (len + zeros + signLen) }

/--
`for (; count > 0; --count) { buffer[ptr++] = c; }`
-/
def Out.putRepeat (out : Out) (c : Byte) : Nat → Out
  | 0 => out
  | count + 1 => (out.put c).putRepeat c count

/--
`for (; *prefix; ++prefix) { buffer[ptr++] = *prefix; }`
-/
def Out.putString (out : Out) : List Byte → LibcM Out
  | [] => throw .outOfBounds
  | c :: str =>
    if c ≠ 0 then
      (out.put c).putString str
    else
      pure out

/--
`for (; len > 0; ++data, --len) { buffer[ptr++] = *data; }`
-/
def Out.putData (out : Out) : Nat → List Byte → LibcM Out
  | 0, _ => pure out
  | _ + 1, [] => throw .outOfBounds
  | len + 1, c :: data => (out.put c).putData len data

/--
The five loops that write a field. A loop with a negative counter does not run.
-/
def Out.putField (out : Out) (flags : Int32) (lay : Layout) (sign data : List Byte) : LibcM Out := do
  let left := if hasFlag flags flagLeftjustify then 0 else lay.width.toInt.toNat
  let out := out.putRepeat (byte ' ') left
  let out ← out.putString sign
  let out := out.putRepeat (byte '0') lay.zeros.toInt.toNat
  let out ← out.putData lay.len.toInt.toNat data
  -- the first loop leaves nothing of a positive width
  let right := if hasFlag flags flagLeftjustify then lay.width.toInt.toNat else 0
  return out.putRepeat (byte ' ') right

/--
A conversion, with the width and the precision of its field and with its digits.
-/
structure Field where
  conv : Conversion
  width : Int32
  precision : Int32
  data : List Byte

/--
The loop body for a `%` up to the digits of a number. `scan.fmt` is after the `%`.
-/
def scanField (scan : Scan) : LibcM (Field × Scan) := do
  let (flags, fmt) ← scanFlags 0 scan.fmt
  let (width, fmt, vargs) ← scanWidth fmt scan.vargs
  let (precision, fmt, vargs) ← scanPrecision fmt vargs
  let fmt ← skipLength fmt
  let (conv, scan) ← convert flags { scan with fmt := fmt, vargs := vargs }
  let (data, numbuf) ← formatNumber conv scan.numbuf
  return ({ conv := conv, width := width, precision := precision, data := data },
    { scan with numbuf := numbuf })

def putDirective (scan : Scan) (out : Out) : LibcM (Scan × Out) := do
  let (field, scan) ← scanField scan
  let sign := signPrefix field.conv
  let lay ← layout field.conv.flags field.width field.precision sign field.data
  let out ← out.putField field.conv.flags lay sign field.data
  return (scan, out)

/--
The outer loop of `__sprintf_internal`. Every round consumes a byte of the format at least.
-/
def sprintfInternal.loop (maxLen : Nat) : Nat → Scan → Out → LibcM Out
  | 0, _, _ => throw .endless
  | fuel + 1, scan, out => do
    let c ← deref scan.fmt
    if c = 0 then
      return out
    else if maxLen ≠ 0 ∧ out.ptr ≥ maxLen - 1 then
      return out
    else if c ≠ byte '%' then
      sprintfInternal.loop maxLen fuel { scan with fmt := scan.fmt.tail } (out.put c)
    else
      let (scan, out) ← putDirective { scan with fmt := scan.fmt.tail } out
      sprintfInternal.loop maxLen fuel scan out

/--
`__sprintf_internal`. `numbuf` is the local array with whatever it holds at the start.
-/
def sprintfInternal (m : ByteMem) (buffer : Nat) (fmt : List Byte) (maxLen : Nat) (vargs : List VaArg)
    (numbuf : ByteMem)
    : LibcM Out := do
  let out ← sprintfInternal.loop maxLen (fmt.length + 1) { fmt := fmt, vargs := vargs, numbuf := numbuf }
    { mem := m, buffer := buffer, ptr := 0 }
  return out.put 0

def sprintf (m : ByteMem) (buffer : Nat) (fmt : List Byte) (vargs : List VaArg)
    (numbuf : ByteMem) : LibcM Out :=
  sprintfInternal m buffer fmt 0 vargs numbuf

def snprintf (m : ByteMem) (buffer n : Nat) (fmt : List Byte) (vargs : List VaArg)
    (numbuf : ByteMem) : LibcM Out :=
  sprintfInternal m buffer fmt n vargs numbuf

end AwaOS
