import AwaOS.Tty.Impl

/-!
What the functions of `tty.c` do to the cells of the screen.
-/

namespace AwaOS

namespace Tty

/--
The cell at `index`, counted row by row.
-/
def cell (tty : Tty) (index : Nat) : VgaAttribute :=
  tty.mem.read16 (tty.cellAddr index)

theorem cell_cursor (tty : Tty) (x y i : Nat) : cell { tty with x := x, y := y } i = tty.cell i := by
  rfl

section WriteCell

variable (tty : Tty) (index : Nat) (w : VgaAttribute)

@[simp]
theorem vgaBuffer_writeCell : (tty.writeCell index w).vgaBuffer = tty.vgaBuffer := by
  rfl

@[simp]
theorem themeColor_writeCell : (tty.writeCell index w).themeColor = tty.themeColor := by
  rfl

@[simp]
theorem x_writeCell : (tty.writeCell index w).x = tty.x := by
  rfl

@[simp]
theorem y_writeCell : (tty.writeCell index w).y = tty.y := by
  rfl

theorem cell_writeCell (i : Nat) : (tty.writeCell index w).cell i = if i = index then w else tty.cell i := by
  unfold cell writeCell cellAddr
  dsimp only
  split
  . next heq =>
    rw [heq]
    exact ByteMem.read16_write16_self _ _
  . next hne => exact ByteMem.read16_write16_of_apart _ _ _ (by omega)

end WriteCell

section FillTheme

variable (tty : Tty) (index count : Nat)

@[simp]
theorem vgaBuffer_fillTheme : (tty.fillTheme index count).vgaBuffer = tty.vgaBuffer := by
  induction count generalizing tty index with
  | zero => rfl
  | succ count ih => rw [fillTheme, ih, vgaBuffer_writeCell]

@[simp]
theorem themeColor_fillTheme : (tty.fillTheme index count).themeColor = tty.themeColor := by
  induction count generalizing tty index with
  | zero => rfl
  | succ count ih => rw [fillTheme, ih, themeColor_writeCell]

@[simp]
theorem x_fillTheme : (tty.fillTheme index count).x = tty.x := by
  induction count generalizing tty index with
  | zero => rfl
  | succ count ih => rw [fillTheme, ih, x_writeCell]

@[simp]
theorem y_fillTheme : (tty.fillTheme index count).y = tty.y := by
  induction count generalizing tty index with
  | zero => rfl
  | succ count ih => rw [fillTheme, ih, y_writeCell]

theorem cell_fillTheme (i : Nat)
    : (tty.fillTheme index count).cell i
        =
      if index ≤ i ∧ i < index + count then tty.themeColor else tty.cell i := by
  induction count generalizing tty index with
  | zero =>
    rw [if_neg (by omega)]
    rfl
  | succ count ih =>
    rw [fillTheme, ih, cell_writeCell, themeColor_writeCell]
    by_cases hfirst : i = index
    . rw [if_neg (by omega), if_pos hfirst, if_pos (by omega)]
    . rw [if_neg hfirst]
      congr 1
      rw [eq_iff_iff]
      omega

end FillTheme

@[simp]
theorem themeColor_ttyScrollUp (tty : Tty) : (ttyScrollUp tty).themeColor = tty.themeColor := by
  unfold ttyScrollUp
  dsimp only
  rw [themeColor_fillTheme]

@[simp]
theorem x_ttyScrollUp (tty : Tty) : (ttyScrollUp tty).x = tty.x := by
  unfold ttyScrollUp
  dsimp only
  rw [x_fillTheme]

theorem y_ttyScrollUp (tty : Tty) : (ttyScrollUp tty).y = if tty.y = 0 then 0 else ttyHeight - 1 := by
  unfold ttyScrollUp
  dsimp only
  rw [y_fillTheme]

@[simp]
theorem themeColor_ttyClear (tty : Tty) : (ttyClear tty).themeColor = tty.themeColor := by
  unfold ttyClear
  dsimp only
  rw [themeColor_fillTheme]

/--
The two areas of `tty_scroll_up` overlap, but the cells are moved down.
-/
theorem copied_rows (tty : Tty) (num : Nat)
    : ByteMem.Copied tty.mem (memcpy tty.mem tty.vgaBuffer (tty.cellAddr ttyWidth) num) tty.vgaBuffer
        (tty.cellAddr ttyWidth) num :=
  memcpy_copied tty.mem num (Or.inl (Nat.le_add_right _ _))

/--
The rows move up by one, the last one is blank.
-/
theorem cell_ttyScrollUp (tty : Tty) (i : Nat) (hi : i < ttyWidth * ttyHeight)
    : (ttyScrollUp tty).cell i
        =
      if i < ttyWidth * (ttyHeight - 1) then tty.cell (i + ttyWidth) else tty.themeColor := by
  have hsize : ttyWidth * ttyHeight = ttyWidth * (ttyHeight - 1) + ttyWidth := by decide
  have hrows := copied_rows tty (ttyWidth * (ttyHeight - 1) * 2)
  unfold ttyScrollUp
  dsimp only
  rw [cell_cursor _ _ _ i, cell_fillTheme]
  split
  . next hlast => rw [if_neg (by omega)]
  . next hmoved =>
    have hlow := hrows.inside (2 * i) (by omega)
    have hhigh := hrows.inside (2 * i + 1) (by omega)
    rw [if_pos (by omega)]
    have hsame : tty.vgaBuffer + 2 * ttyWidth + 2 * i = tty.vgaBuffer + 2 * (i + ttyWidth) := by omega
    unfold cell ByteMem.read16
    unfold cellAddr at hlow hhigh ⊢
    dsimp only
    rw [hlow, Nat.add_assoc, hhigh, ← Nat.add_assoc, hsame]

theorem cell_ttyClear (tty : Tty) (i : Nat) (hi : i < ttyWidth * ttyHeight)
    : (ttyClear tty).cell i = tty.themeColor := by
  unfold ttyClear
  dsimp only
  rw [cell_cursor _ _ _ i, cell_fillTheme, if_pos (by omega)]

end Tty

end AwaOS
