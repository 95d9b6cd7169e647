import AwaOS.Klibc.Mem

/-!
The console, `kernel/tty/tty.c`.
-/

namespace AwaOS

def ttyWidth : Nat := 80

def ttyHeight : Nat := 25

abbrev VgaAttribute := BitVec 16

/--
The static variables of `tty.c`, and the memory that `tty_vga_buffer` points into. `tty_x` stays below 84
and `tty_y` below 27, so the width of neither matters.
-/
structure Tty where
  mem : ByteMem
  vgaBuffer : Nat
  themeColor : VgaAttribute
  x : Nat
  y : Nat

/--
`tty_vga_buffer + index`
-/
def Tty.cellAddr (tty : Tty) (index : Nat) : Nat :=
  tty.vgaBuffer + 2 * index

def Tty.writeCell (tty : Tty) (index : Nat) (w : VgaAttribute) : Tty :=
  { tty with mem := tty.mem.write16 (tty.cellAddr index) w }

def ttySetBuffer (tty : Tty) (vgaBuf : Nat) : Tty :=
  { tty with vgaBuffer := vgaBuf }

def ttySetTheme (tty : Tty) (fg bg : VgaAttribute) : Tty :=
  { tty with themeColor := (bg <<< 4 ||| fg) <<< 8 }

/--
`for (i = 0; i < count; i++) { *(tty_vga_buffer + i + index) = tty_theme_color; }`
-/
def Tty.fillTheme (tty : Tty) (index : Nat) : Nat → Tty
  | 0 => tty
  | count + 1 => (tty.writeCell index tty.themeColor).fillTheme (index + 1) count

def ttyScrollUp (tty : Tty) : Tty :=
  let lastLine := ttyWidth * (ttyHeight - 1)
  let tty := { tty with mem := memcpy tty.mem tty.vgaBuffer (tty.cellAddr ttyWidth) (lastLine * 2) }
  let tty := tty.fillTheme lastLine ttyWidth
  { tty with y := if tty.y = 0 then 0 else ttyHeight - 1 }

/--
The `switch` of `tty_put_char`. A `char` is signed.
-/
def ttyPutChar.emit (tty : Tty) (chr : Byte) : Tty :=
  if chr = byte '\t' then
    { tty with x := tty.x + 4 }
  else if chr = byte '\n' then
    { tty with y := tty.y + 1, x := 0 }
  else if chr = byte '\r' then
    { tty with x := 0 }
  else
    let tty := tty.writeCell (tty.x + tty.y * ttyWidth) (tty.themeColor ||| chr.signExtend 16)
    { tty with x := tty.x + 1 }

/--
`if (tty_x >= TTY_WIDTH) { tty_x = 0; tty_y++; }`
-/
def ttyPutChar.wrap (tty : Tty) : Tty :=
  if ttyWidth ≤ tty.x then
    { tty with x := 0, y := tty.y + 1 }
  else
    tty

def ttyPutChar (tty : Tty) (chr : Byte) : Tty :=
  let tty := ttyPutChar.wrap (ttyPutChar.emit tty chr)
  if ttyHeight ≤ tty.y then
    ttyScrollUp tty
  else
    tty

def ttyPutStr (tty : Tty) : List Byte → LibcM Tty
  | [] => throw .outOfBounds
  | c :: str =>
    if c ≠ 0 then
      ttyPutStr (ttyPutChar tty c) str
    else
      pure tty

def ttyClear (tty : Tty) : Tty :=
  let tty := tty.fillTheme 0 (ttyWidth * ttyHeight)
  { tty with x := 0, y := 0 }

/--
`for (i = 0; i < TTY_WIDTH; i++) { *(tty_vga_buffer + i + y * TTY_WIDTH) = tty_theme_color; }`
-/
def ttyClearLine (tty : Tty) (y : Nat) : Tty :=
  tty.fillTheme (y * ttyWidth) ttyWidth

def ttySetCpos (tty : Tty) (x y : Nat) : Tty :=
  { tty with x := x % ttyWidth, y := y % ttyHeight }

def ttyInit (tty : Tty) (vgaBuf : Nat) : Tty :=
  ttyClear { tty with vgaBuffer := vgaBuf }

end AwaOS
