import AwaOS.Tty.Lemmas
import Mathlib.Logic.Function.Basic

/-!
The console as a window on an endless sheet.
-/

namespace AwaOS

/--
A terminal with a sheet of endlessly many rows. A cell is `none` as long as nothing is written to it.
-/
structure Sheet where
  cells : Nat → Nat → Option Byte
  row : Nat
  col : Nat

namespace Sheet

def empty : Sheet :=
  { cells := fun _ _ => none, row := 0, col := 0 }

def write (s : Sheet) (chr : Byte) : Sheet :=
  { s with
    cells := Function.update s.cells s.row (Function.update (s.cells s.row) s.col (some chr))
    col := s.col + 1 }

/--
Reaching column 80 or more goes to the next row.
-/
def wrap (s : Sheet) : Sheet :=
  if 80 ≤ s.col then
    { s with col := 0, row := s.row + 1 }
  else
    s

def emit (s : Sheet) (chr : Byte) : Sheet :=
  if chr = byte '\t' then
    { s with col := s.col + 4 }
  else if chr = byte '\n' then
    { s with col := 0, row := s.row + 1 }
  else if chr = byte '\r' then
    { s with col := 0 }
  else
    s.write chr

def put (s : Sheet) (chr : Byte) : Sheet :=
  (s.emit chr).wrap

/--
The first row of a window of 25 rows whose last row is the one of the cursor, as far as there are so many.
-/
def top (s : Sheet) : Nat :=
  s.row - 24

theorem put_row (s : Sheet) (chr : Byte)
    : (s.put chr).row = s.row ∨ (s.put chr).row = s.row + 1 := by
  unfold put emit write wrap
  grind

theorem put_col_lt (s : Sheet) (chr : Byte) : (s.put chr).col < 80 := by
  unfold put wrap
  split
  . exact Nat.zero_lt_succ _
  . next hcol => exact Nat.lt_of_not_le hcol

/--
How a cell of the sheet looks on the screen.
-/
def look (theme : VgaAttribute) : Option Byte → VgaAttribute
  | none => theme
  | some chr => theme ||| chr.setWidth 16

end Sheet

/--
The screen shows the rows of the sheet from `top` on, and its cursor.
-/
structure Shows (theme : VgaAttribute) (s : Sheet) (top : Nat) (tty : Tty) : Prop where
  theme_eq : tty.themeColor = theme
  cell_eq : ∀ i j, i < 25 → j < 80 → tty.cell (i * 80 + j) = Sheet.look theme (s.cells (top + i) j)
  x_eq : tty.x = s.col
  y_eq : top + tty.y = s.row
  /-- Nothing is written below the window. -/
  below : ∀ row j, top + 25 ≤ row → s.cells row j = none

/--
The characters that the terminal knows: printable ASCII, tab, newline and carriage return.
-/
def isTerminalChar (chr : Byte) : Bool :=
  (byte ' ' ≤ chr ∧ chr ≤ byte '~') ∨ chr = byte '\t' ∨ chr = byte '\n' ∨ chr = byte '\r'

theorem signExtend_terminalChar {chr : Byte} (h : isTerminalChar chr = true)
    : chr.signExtend 16 = chr.setWidth 16 := by
  revert chr
  decide

namespace Shows

variable {theme : VgaAttribute} {s : Sheet} {top : Nat} {tty : Tty}

theorem emit (h : Shows theme s top tty) (chr : Byte) (hchr : isTerminalChar chr = true) (hx : s.col < 80)
    (hy : s.row < top + 25)
    : Shows theme (s.emit chr) top (ttyPutChar.emit tty chr) := by
  have hxeq := h.x_eq
  have hyeq := h.y_eq
  unfold Sheet.emit ttyPutChar.emit
  split
  . exact ⟨h.theme_eq, h.cell_eq, congrArg (· + 4) hxeq, hyeq, h.below⟩
  split
  . exact ⟨h.theme_eq, h.cell_eq, rfl, congrArg (· + 1) hyeq, h.below⟩
  split
  . exact ⟨h.theme_eq, h.cell_eq, rfl, hyeq, h.below⟩
  . constructor
    . exact h.theme_eq
    . intro i j hi hj
      change (tty.writeCell _ _).cell (i * 80 + j) = Sheet.look theme _
      rw [Tty.cell_writeCell, signExtend_terminalChar hchr, h.theme_eq]
      unfold Sheet.write ttyWidth
      dsimp only
      by_cases hrow : top + i = s.row
      . rw [hrow, Function.update_self]
        by_cases hcol : j = s.col
        . rw [if_pos (by omega), hcol, Function.update_self]
          rfl
        . rw [if_neg (by omega), Function.update_of_ne hcol, ← hrow]
          exact h.cell_eq i j hi hj
      . rw [if_neg (by omega), Function.update_of_ne hrow]
        exact h.cell_eq i j hi hj
    . exact congrArg (· + 1) hxeq
    . exact hyeq
    . intro row j hrow
      unfold Sheet.write at *
      dsimp only at *
      rw [Function.update_of_ne (by omega)]
      exact h.below row j hrow

theorem wrap (h : Shows theme s top tty) : Shows theme s.wrap top (ttyPutChar.wrap tty) := by
  have hxeq := h.x_eq
  unfold Sheet.wrap ttyPutChar.wrap ttyWidth
  split
  . next hcol =>
    rw [if_pos (hxeq ▸ hcol)]
    exact ⟨h.theme_eq, h.cell_eq, rfl, congrArg (· + 1) h.y_eq, h.below⟩
  . next hcol =>
    rw [if_neg (hxeq ▸ hcol)]
    exact h

/--
When the cursor has left the screen, the window moves on by a row, which is blank.
-/
theorem scrollUp (h : Shows theme s top tty) (hy : s.row = top + 25)
    : Shows theme s (top + 1) (ttyScrollUp tty) := by
  have hyeq := h.y_eq
  constructor
  . rw [Tty.themeColor_ttyScrollUp, h.theme_eq]
  . intro i j hi hj
    rw [Tty.cell_ttyScrollUp, h.theme_eq]
    . unfold ttyWidth ttyHeight
      by_cases hlast : i = 24
      . rw [if_neg (by omega), h.below (top + 1 + i) j (by omega)]
        rfl
      . rw [if_pos (by omega),
          show i * 80 + j + 80 = (i + 1) * 80 + j by omega, h.cell_eq (i + 1) j (by omega) hj,
          show top + (i + 1) = top + 1 + i by omega]
    . unfold ttyWidth ttyHeight
      omega
  . rw [Tty.x_ttyScrollUp, h.x_eq]
  . rw [Tty.y_ttyScrollUp, if_neg (by omega)]
    unfold ttyHeight
    omega
  . intro row j hrow
    exact h.below row j (by omega)

end Shows

/--
The console shows the last 25 rows.
-/
structure ShowsTail (theme : VgaAttribute) (s : Sheet) (tty : Tty) : Prop where
  shows_top : Shows theme s s.top tty
  col_lt : s.col < 80

theorem ShowsTail.putChar {theme : VgaAttribute} {s : Sheet} {tty : Tty} (h : ShowsTail theme s tty)
    (chr : Byte) (hchr : isTerminalChar chr = true)
    : ShowsTail theme (s.put chr) (ttyPutChar tty chr) := by
  have hrow : s.row < s.top + 25 := by
    unfold Sheet.top
    omega
  have hstep := (h.shows_top.emit chr hchr h.col_lt hrow).wrap
  have hnext := Sheet.put_row s chr
  have hyeq := hstep.y_eq
  constructor
  . unfold ttyPutChar
    dsimp only
    split
    . next hleft =>
      have htop : (s.put chr).row = s.top + 25 := by
        unfold ttyHeight at hleft
        change s.top + _ = (s.put chr).row at hyeq
        unfold Sheet.top at *
        omega
      have hmoved : (s.put chr).top = s.top + 1 := by
        unfold Sheet.top at *
        omega
      rw [hmoved]
      exact hstep.scrollUp htop
    . next hstays =>
      have hsame : (s.put chr).top = s.top := by
        unfold ttyHeight at hstays
        change s.top + _ = (s.put chr).row at hyeq
        unfold Sheet.top at *
        omega
      rw [hsame]
      exact hstep
  . exact Sheet.put_col_lt s chr

/--
After `tty_clear` the console shows an empty sheet.
-/
theorem showsTail_ttyClear (tty : Tty) : ShowsTail tty.themeColor Sheet.empty (ttyClear tty) := by
  constructor
  . constructor
    . exact Tty.themeColor_ttyClear tty
    . intro i j hi hj
      rw [Tty.cell_ttyClear]
      . rfl
      . unfold ttyWidth ttyHeight
        omega
    . rfl
    . rfl
    . intro row j _
      rfl
  . exact Nat.zero_lt_succ _

theorem ttyPutStr_showsTail (text rest : List Byte) (htext : ∀ chr ∈ text, isTerminalChar chr = true)
    {theme : VgaAttribute} {s : Sheet} {tty : Tty} (h : ShowsTail theme s tty)
    : ∃ tty', ttyPutStr tty (text ++ 0 :: rest) = .ok tty' ∧ ShowsTail theme (text.foldl Sheet.put s) tty' := by
  induction text generalizing s tty with
  | nil => exact ⟨tty, rfl, h⟩
  | cons chr text ih =>
    have hchr := htext chr List.mem_cons_self
    have hne : chr ≠ 0 := by
      intro hzero
      rw [hzero] at hchr
      contradiction
    rw [List.cons_append, ttyPutStr, if_pos hne]
    exact ih (fun c hc => htext c (List.mem_cons_of_mem _ hc)) (h.putChar chr hchr)

/--
The console shows the last 25 rows of what is written after `tty_clear`: cell `(i, j)` shows the cell of row
`max(0, r - 24) + i` of the sheet, where `r` is the row of the cursor.
-/
theorem console_shows_tail (tty : Tty) (text rest : List Byte) (htext : ∀ chr ∈ text, isTerminalChar chr = true)
    : ∃ tty', ttyPutStr (ttyClear tty) (text ++ 0 :: rest) = .ok tty'
        ∧
      let s := text.foldl Sheet.put Sheet.empty
      (∀ i j, i < 25 → j < 80 → tty'.cell (i * 80 + j) = Sheet.look tty.themeColor (s.cells (s.row - 24 + i) j))
        ∧ tty'.x = s.col
        ∧ tty'.y = s.row - (s.row - 24) := by
  obtain ⟨tty', hput, htail⟩ := ttyPutStr_showsTail text rest htext (showsTail_ttyClear tty)
  refine ⟨tty', hput, ?_⟩
  intro s
  have hcells := htail.shows_top.cell_eq
  have hy := htail.shows_top.y_eq
  change s.row - 24 + tty'.y = s.row at hy
  exact ⟨hcells, htail.shows_top.x_eq, by omega⟩

/--
The console after `tty_set_theme(VGA_COLOR_WHITE, VGA_COLOR_BLACK)`.
-/
def bootTty : Tty :=
  ttySetTheme { mem := fun _ => 0, vgaBuffer := 0xB8000, themeColor := 0, x := 0, y := 0 } 15 0

/--
Thirty lines of one letter each.
-/
def thirtyLines : List Byte :=
  (List.replicate 30 [byte 'a', byte '\n']).flatten

/--
Of thirty lines, the console shows those from the seventh on.
-/
theorem console_shows_tail_thirtyLines
    : ∃ tty', ttyPutStr (ttyClear bootTty) (thirtyLines ++ [0]) = .ok tty'
        ∧
      let s := thirtyLines.foldl Sheet.put Sheet.empty
      s.row - 24 = 6
        ∧ (∀ i j, i < 25 → j < 80 → tty'.cell (i * 80 + j) = Sheet.look bootTty.themeColor (s.cells (6 + i) j))
        ∧ tty'.x = 0
        ∧ tty'.y = 24 := by
  obtain ⟨tty', hput, hcells, hx, hy⟩ := console_shows_tail bootTty thirtyLines [] (by decide)
  have hrow : (thirtyLines.foldl Sheet.put Sheet.empty).row = 30 := by decide
  have hcol : (thirtyLines.foldl Sheet.put Sheet.empty).col = 0 := by decide
  rw [hrow] at hcells hy
  exact ⟨tty', hput, by rw [hrow], hcells, hx.trans hcol, hy⟩

end AwaOS
