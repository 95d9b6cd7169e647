import AwaOS.Klibc.Strlen
import AwaOS.Tty.Console
import AwaOS.Tty.Run
import Mathlib.Logic.Function.Basic

/-!
The attributes of the cells. Printing keeps them as long as no character is above 0x7F: a `char` is signed, and the
bits that it is extended by end up in the attribute.
-/

namespace AwaOS

open Tty

/--
The attribute byte of a theme.
-/
def attributeByte (fg bg : VgaAttribute) : Byte :=
  (bg <<< 4 ||| fg).setWidth 8

/--
The calls that print: all but `tty_set_theme`, `tty_clear` and `tty_put_char`.
-/
def TtyCall.Prints : TtyCall → Prop
  | putStr _ => True
  | setCpos _ _ => True
  | clearLine y => y < ttyHeight
  | scrollUp => True
  | _ => False

/--
The character of each cell, 0 where it is blank.
-/
abbrev Glyphs := Nat → Byte

namespace Glyphs

def blank : Glyphs :=
  fun _ => 0

def scrollUp (g : Glyphs) : Glyphs := fun i =>
  if i < ttyWidth * (ttyHeight - 1) then
    g (i + ttyWidth)
  else
    0

def clearLine (g : Glyphs) (y : Nat) : Glyphs := fun i =>
  if y * ttyWidth ≤ i ∧ i < y * ttyWidth + ttyWidth then
    0
  else
    g i

/--
A character is written where the cursor is.
-/
def emit (tty : Tty) (chr : Byte) (g : Glyphs) : Glyphs :=
  if chr = byte '\t' ∨ chr = byte '\n' ∨ chr = byte '\r' then
    g
  else
    Function.update g (tty.x + tty.y * ttyWidth) chr

def putChar (tty : Tty) (chr : Byte) (g : Glyphs) : Glyphs :=
  if ttyHeight ≤ (ttyPutChar.wrap (ttyPutChar.emit tty chr)).y then
    (g.emit tty chr).scrollUp
  else
    g.emit tty chr

def putStr (tty : Tty) : List Byte → Glyphs → Glyphs
  | [], g => g
  | c :: str, g =>
    if c ≠ 0 then
      putStr (ttyPutChar tty c) str (g.putChar tty c)
    else
      g

def call (tty : Tty) : TtyCall → Glyphs → Glyphs
  | .putStr str, g => g.putStr tty str
  | .scrollUp, g => g.scrollUp
  | .clearLine y, g => g.clearLine y
  | _, g => g

end Glyphs

/--
The states that the console goes through, and the characters that are on the screen then.
-/
inductive Printed (Q : TtyCall → Prop) (start : Tty) : Tty → Glyphs → Prop where
  | start : Printed Q start start Glyphs.blank
  | step {tty tty' : Tty} {g : Glyphs} {call : TtyCall} (hrun : Printed Q start tty g) (hcall : Q call)
      (hstep : call.run tty = .ok tty')
      : Printed Q start tty' (g.call tty call)

/--
No character of the string changes the attribute: none is above 0x7F, or all bits of the attribute are set anyway.
-/
def TtyCall.Plain (attr : Byte) : TtyCall → Prop
  | putStr str => ∀ c ∈ chars str, c ≤ 0x7F ∨ attr = 0xFF
  | _ => True

theorem themeColor_ttySetTheme (tty : Tty) (fg bg : VgaAttribute)
    : (ttySetTheme tty fg bg).themeColor = attributeByte fg bg ++ 0#8 := by
  change (bg <<< 4 ||| fg) <<< 8 = (bg <<< 4 ||| fg).setWidth 8 ++ 0#8
  generalize bg <<< 4 ||| fg = w
  apply BitVec.eq_of_getLsbD_eq
  intro i hi
  rw [BitVec.getLsbD_shiftLeft, BitVec.getLsbD_append, BitVec.getLsbD_setWidth]
  by_cases hlow : i < 8
  . simp [hlow]
  . have hhigh : i - 8 < 8 := by omega
    simp [hlow, hhigh, hi]

/--
The character in the cell, if its sign does not reach the attribute.
-/
theorem attribute_or_chr {attr chr : Byte} (h : chr ≤ 0x7F ∨ attr = 0xFF)
    : (attr ++ 0#8 : VgaAttribute) ||| chr.signExtend 16 = attr ++ chr := by
  cases h with
  | inl hplain =>
    have hextend : ∀ chr : Byte, chr ≤ 0x7F → chr.signExtend 16 = 0#8 ++ chr := by decide
    rw [hextend chr hplain, BitVec.or_append, BitVec.or_zero, BitVec.zero_or]
  | inr hall =>
    rw [hall]
    revert chr
    decide

/--
What `tty_put_char` writes, before it moves the cursor.
-/
theorem cell_emit {tty : Tty} {chr : Byte}
    (hprints : ¬(chr = byte '\t' ∨ chr = byte '\n' ∨ chr = byte '\r')) (i : Nat)
    : (ttyPutChar.emit tty chr).cell i
        =
      if i = tty.x + tty.y * ttyWidth then tty.themeColor ||| chr.signExtend 16 else tty.cell i := by
  rw [not_or, not_or] at hprints
  obtain ⟨htab, hline, hreturn⟩ := hprints
  unfold ttyPutChar.emit
  rw [if_neg htab, if_neg hline, if_neg hreturn]
  change (tty.writeCell _ _).cell i = _
  rw [cell_writeCell]

theorem cell_emit_control {tty : Tty} {chr : Byte}
    (h : chr = byte '\t' ∨ chr = byte '\n' ∨ chr = byte '\r') (i : Nat)
    : (ttyPutChar.emit tty chr).cell i = tty.cell i := by
  unfold ttyPutChar.emit
  split
  . rfl
  split
  . rfl
  split
  . rfl
  . next htab hline hreturn => exact absurd h (by rw [not_or, not_or]; exact ⟨htab, hline, hreturn⟩)

theorem cell_wrap (tty : Tty) (i : Nat) : (ttyPutChar.wrap tty).cell i = tty.cell i := by
  unfold ttyPutChar.wrap
  split
  . rfl
  . rfl

theorem themeColor_wrap_emit (tty : Tty) (chr : Byte)
    : (ttyPutChar.wrap (ttyPutChar.emit tty chr)).themeColor = tty.themeColor := by
  have hwrap : ∀ t : Tty, (ttyPutChar.wrap t).themeColor = t.themeColor := by
    intro t
    unfold ttyPutChar.wrap
    split
    . rfl
    . rfl
  rw [hwrap]
  unfold ttyPutChar.emit
  split
  . rfl
  split
  . rfl
  split
  . rfl
  . rfl

/--
The cells have the attribute, and their characters.
-/
def Shown (attr : Byte) (tty : Tty) (g : Glyphs) : Prop :=
  ∀ i, i < ttyWidth * ttyHeight → tty.cell i = attr ++ g i

section Shown

variable {attr : Byte} {tty : Tty} {g : Glyphs}

theorem Shown.emit (h : Shown attr tty g) (htheme : tty.themeColor = attr ++ 0#8) {chr : Byte}
    (hplain : chr ≤ 0x7F ∨ attr = 0xFF)
    : Shown attr (ttyPutChar.wrap (ttyPutChar.emit tty chr)) (g.emit tty chr) := by
  intro i hi
  unfold Glyphs.emit
  rw [cell_wrap]
  split
  . next hcontrol =>
    rw [cell_emit_control hcontrol]
    exact h i hi
  . next hprints =>
    rw [cell_emit hprints, htheme, attribute_or_chr hplain]
    by_cases hcursor : i = tty.x + tty.y * ttyWidth
    . rw [if_pos hcursor, hcursor, Function.update_self]
    . rw [if_neg hcursor, Function.update_of_ne hcursor]
      exact h i hi

theorem Shown.scrollUp (h : Shown attr tty g) (htheme : tty.themeColor = attr ++ 0#8)
    : Shown attr (ttyScrollUp tty) g.scrollUp := by
  intro i hi
  have hsize : ttyWidth * ttyHeight = ttyWidth * (ttyHeight - 1) + ttyWidth := by decide
  rw [cell_ttyScrollUp tty i hi, htheme]
  unfold Glyphs.scrollUp
  split
  . exact h _ (by omega)
  . rfl

theorem Shown.clearLine (h : Shown attr tty g) (htheme : tty.themeColor = attr ++ 0#8) (y : Nat)
    : Shown attr (ttyClearLine tty y) (g.clearLine y) := by
  intro i hi
  unfold ttyClearLine Glyphs.clearLine
  rw [cell_fillTheme, htheme]
  split
  . rfl
  . exact h i hi

end Shown

/--
The theme has the attribute, and so have the cells, besides their characters.
-/
structure Painted (attr : Byte) (tty : Tty) (g : Glyphs) : Prop where
  theme_eq : tty.themeColor = attr ++ 0#8
  shown : Shown attr tty g

namespace Painted

variable {attr : Byte} {tty tty' : Tty} {g : Glyphs}

theorem putChar (h : Painted attr tty g) {chr : Byte} (hplain : chr ≤ 0x7F ∨ attr = 0xFF)
    : Painted attr (ttyPutChar tty chr) (g.putChar tty chr) := by
  have hshown := h.shown.emit h.theme_eq hplain
  have htheme := (themeColor_wrap_emit tty chr).trans h.theme_eq
  unfold ttyPutChar Glyphs.putChar
  dsimp only
  split
  . exact ⟨(themeColor_ttyScrollUp _).trans htheme, hshown.scrollUp htheme⟩
  . exact ⟨htheme, hshown⟩

theorem putStr {str : List Byte} (h : Painted attr tty g) (hplain : ∀ c ∈ chars str, c ≤ 0x7F ∨ attr = 0xFF)
    (hput : ttyPutStr tty str = .ok tty')
    : Painted attr tty' (g.putStr tty str) := by
  induction str generalizing tty g with
  | nil => contradiction
  | cons c str ih =>
    unfold ttyPutStr at hput
    unfold Glyphs.putStr
    split at hput
    . next hne =>
      rw [chars_cons_of_ne hne] at hplain
      rw [if_pos hne]
      apply ih (h.putChar (hplain c List.mem_cons_self)) _ hput
      intro d hd
      exact hplain d (List.mem_cons_of_mem c hd)
    . next hzero =>
      rw [if_neg hzero, ← show tty = tty' from Except.ok.inj hput]
      exact h

theorem call {call : TtyCall} (h : Painted attr tty g) (hprints : call.Prints) (hplain : call.Plain attr)
    (hcall : call.run tty = .ok tty')
    : Painted attr tty' (g.call tty call) := by
  cases call with
  | putStr str => exact h.putStr hplain hcall
  | setCpos x y =>
    rw [← show ttySetCpos tty x y = tty' from Except.ok.inj hcall]
    exact ⟨h.theme_eq, h.shown⟩
  | clearLine y =>
    rw [← show ttyClearLine tty y = tty' from Except.ok.inj hcall]
    exact ⟨(themeColor_fillTheme _ _ _).trans h.theme_eq, h.shown.clearLine h.theme_eq y⟩
  | scrollUp =>
    rw [← show ttyScrollUp tty = tty' from Except.ok.inj hcall]
    exact ⟨(themeColor_ttyScrollUp _).trans h.theme_eq, h.shown.scrollUp h.theme_eq⟩
  | putChar chr => exact absurd hprints id
  | clear => exact absurd hprints id
  | setTheme fg bg => exact absurd hprints id

end Painted

/--
After `tty_set_theme` and `tty_clear`, printing text without characters above 0x7F keeps the attribute of every cell,
and a cell that was written for a character holds it.
-/
theorem printing_keepsAttribute {tty₀ tty : Tty} {fg bg : VgaAttribute} {g : Glyphs}
    (hrun : Printed (fun call => call.Prints ∧ call.Plain (attributeByte fg bg)) (ttyClear (ttySetTheme tty₀ fg bg))
      tty g)
    : ∀ i, i < 2000 → tty.cell i = attributeByte fg bg ++ g i := by
  have hpainted : Painted (attributeByte fg bg) tty g := by
    induction hrun with
    | start =>
      have htheme := themeColor_ttySetTheme tty₀ fg bg
      refine ⟨(themeColor_ttyClear _).trans htheme, ?_⟩
      intro i hi
      rw [cell_ttyClear _ i hi, htheme]
      rfl
    | step _ hcall hstep ih => exact ih.call hcall.left hcall.right hstep
  exact hpainted.shown

theorem putStr_single {chr : Byte} (hne : chr ≠ 0) (tty : Tty)
    : (TtyCall.putStr [chr, 0]).run tty = .ok (ttyPutChar tty chr) := by
  change ttyPutStr tty [chr, 0] = _
  rw [ttyPutStr, if_pos hne, ttyPutStr, if_neg (not_not.mpr rfl)]
  rfl

theorem printing_keepsAttribute_single
    : (ttyPutChar (ttyClear (ttySetTheme bootTty 15 0)) (byte 'A')).cell 0
        =
      attributeByte 15 0
        ++ Glyphs.blank.call (ttyClear (ttySetTheme bootTty 15 0)) (.putStr [byte 'A', 0]) 0 := by
  have hplain : (TtyCall.putStr [byte 'A', 0]).Plain (attributeByte 15 0) := by
    change ∀ c ∈ chars [byte 'A', 0], _
    decide
  have hprints : (TtyCall.putStr [byte 'A', 0]).Prints := trivial
  have hput := putStr_single (show byte 'A' ≠ 0 by decide) (ttyClear (ttySetTheme bootTty 15 0))
  exact @printing_keepsAttribute bootTty _ 15 0 _ (.step .start ⟨hprints, hplain⟩ hput) 0 (by decide)

/--
The first byte of a Chinese character in UTF-8 gets the attribute 0xFF instead of white on black.
-/
theorem printing_changesAttribute
    : ¬∀ (tty₀ tty : Tty) (fg bg : VgaAttribute) (g : Glyphs), fg < 16 → bg < 16 →
      Printed TtyCall.Prints (ttyClear (ttySetTheme tty₀ fg bg)) tty g →
        ∀ i, i < 2000 → tty.cell i = attributeByte fg bg ++ g i := by
  intro hclaim
  have hcell : ∀ t : Tty, t.x = 0 → t.y = 0 →
      (ttyPutChar t 0xE4).cell 0 = t.themeColor ||| (0xE4 : Byte).signExtend 16 := by
    intro t hx hy
    have hrow : (ttyPutChar.wrap (ttyPutChar.emit t 0xE4)).y = 0 := by
      unfold ttyPutChar.wrap ttyPutChar.emit
      simp [hx, hy, ttyWidth, byte]
    unfold ttyPutChar
    dsimp only
    rw [hrow, if_neg (by decide), cell_wrap, cell_emit (by decide), hx, hy]
    rfl
  have hprints : (TtyCall.putStr [0xE4, 0]).Prints := trivial
  have hrun : Printed TtyCall.Prints (ttyClear (ttySetTheme bootTty 15 0)) _ _ :=
    .step .start hprints (putStr_single (by decide) _)
  have hwrong := hclaim bootTty _ 15 0 _ (by decide) (by decide) hrun 0 (by decide)
  have hall : ∀ c : Byte, (attributeByte 15 0 ++ 0#8 : VgaAttribute) ||| (0xE4 : Byte).signExtend 16
      ≠ attributeByte 15 0 ++ c := by decide
  rw [hcell _ rfl rfl, themeColor_ttyClear, themeColor_ttySetTheme] at hwrong
  exact hall _ hwrong

end AwaOS
