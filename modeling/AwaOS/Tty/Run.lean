import AwaOS.Tty.Lemmas

/-!
Sequences of calls to the console. The cursor stays on the screen, and so does all that is read or written.
-/

namespace AwaOS

open ByteMem

inductive TtyCall where
  | putChar (chr : Byte)
  | putStr (str : List Byte)
  | scrollUp
  | clear
  | clearLine (y : Nat)
  | setTheme (fg bg : VgaAttribute)
  | setCpos (x y : Nat)

def TtyCall.run (tty : Tty) : TtyCall → LibcM Tty
  | putChar chr => pure (ttyPutChar tty chr)
  | putStr str => ttyPutStr tty str
  | scrollUp => pure (ttyScrollUp tty)
  | clear => pure (ttyClear tty)
  | clearLine y => pure (ttyClearLine tty y)
  | setTheme fg bg => pure (ttySetTheme tty fg bg)
  | setCpos x y => pure (ttySetCpos tty x y)

/--
`tty_clear_line` is only called for a line of the screen.
-/
def TtyCall.Valid : TtyCall → Prop
  | clearLine y => y < ttyHeight
  | _ => True

/--
The states that calls which satisfy `Q` lead to.
-/
inductive TtyRun (Q : TtyCall → Prop) (start : Tty) : Tty → Prop where
  | refl : TtyRun Q start start
  | step {tty tty' : Tty} {call : TtyCall} (hrun : TtyRun Q start tty) (hcall : Q call)
      (hstep : call.run tty = .ok tty')
      : TtyRun Q start tty'

/-!
The cells that a call reads or writes.
-/

def ttyPutChar.emitCells (tty : Tty) (chr : Byte) : List Nat :=
  if chr = byte '\t' ∨ chr = byte '\n' ∨ chr = byte '\r' then
    []
  else
    [tty.x + tty.y * ttyWidth]

/--
Those that `memcpy` reads, those that it writes, and the last line.
-/
def ttyScrollUp.cells : List Nat :=
  let lastLine := ttyWidth * (ttyHeight - 1)
  (List.range lastLine).map (ttyWidth + ·) ++ List.range lastLine ++ (List.range ttyWidth).map (· + lastLine)

def ttyPutChar.cells (tty : Tty) (chr : Byte) : List Nat :=
  emitCells tty chr ++ if ttyHeight ≤ (wrap (emit tty chr)).y then ttyScrollUp.cells else []

def ttyPutStr.cells (tty : Tty) : List Byte → List Nat
  | [] => []
  | c :: str =>
    if c ≠ 0 then
      ttyPutChar.cells tty c ++ cells (ttyPutChar tty c) str
    else
      []

def TtyCall.cells (tty : Tty) : TtyCall → List Nat
  | putChar chr => ttyPutChar.cells tty chr
  | putStr str => ttyPutStr.cells tty str
  | scrollUp => ttyScrollUp.cells
  | clear => List.range (ttyWidth * ttyHeight)
  | clearLine y => (List.range ttyWidth).map (· + y * ttyWidth)
  | setTheme _ _ => []
  | setCpos _ _ => []

namespace Tty

/--
The cursor is on the screen.
-/
structure OnScreen (tty : Tty) : Prop where
  x_lt : tty.x < ttyWidth
  y_lt : tty.y < ttyHeight

section Cursor

variable {tty : Tty}

theorem onScreen_ttyClear (tty : Tty) : (ttyClear tty).OnScreen :=
  ⟨(by decide : 0 < ttyWidth), (by decide : 0 < ttyHeight)⟩

theorem OnScreen.scrollUp (h : tty.OnScreen) : (ttyScrollUp tty).OnScreen := by
  constructor
  . rw [x_ttyScrollUp]
    exact h.x_lt
  . rw [y_ttyScrollUp]
    split
    . decide
    . decide

/--
`tty_put_char` before it looks for the end of the screen.
-/
theorem OnScreen.wrap (h : tty.OnScreen) (chr : Byte)
    : (ttyPutChar.wrap (ttyPutChar.emit tty chr)).x < ttyWidth
        ∧ (ttyPutChar.wrap (ttyPutChar.emit tty chr)).y ≤ ttyHeight := by
  have hx := h.x_lt
  have hy := h.y_lt
  have hwrap : ∀ t : Tty, t.x < ttyWidth ∧ t.y ≤ ttyHeight ∨ t.y < ttyHeight →
      (ttyPutChar.wrap t).x < ttyWidth ∧ (ttyPutChar.wrap t).y ≤ ttyHeight := by
    intro t ht
    unfold ttyPutChar.wrap
    split
    . exact ⟨(by decide : 0 < ttyWidth), show t.y + 1 ≤ ttyHeight by omega⟩
    . exact ⟨by omega, by omega⟩
  apply hwrap
  unfold ttyPutChar.emit
  split
  . exact Or.inr hy
  split
  . exact Or.inl ⟨(by decide : 0 < ttyWidth), hy⟩
  split
  . exact Or.inr hy
  . exact Or.inr hy

theorem OnScreen.putChar (h : tty.OnScreen) (chr : Byte) : (ttyPutChar tty chr).OnScreen := by
  have hwrap := h.wrap chr
  unfold ttyPutChar
  dsimp only
  split
  . next hend =>
    constructor
    . rw [x_ttyScrollUp]
      exact hwrap.left
    . rw [y_ttyScrollUp]
      split
      . decide
      . decide
  . next hstays => exact ⟨hwrap.left, Nat.lt_of_not_le hstays⟩

theorem OnScreen.putStr {tty' : Tty} {str : List Byte} (h : tty.OnScreen) (hput : ttyPutStr tty str = .ok tty')
    : tty'.OnScreen := by
  induction str generalizing tty with
  | nil => contradiction
  | cons c str ih =>
    unfold ttyPutStr at hput
    split at hput
    . exact ih (h.putChar c) hput
    . cases hput
      exact h

theorem OnScreen.call {tty' : Tty} {call : TtyCall} (h : tty.OnScreen) (hcall : call.run tty = .ok tty')
    : tty'.OnScreen := by
  cases call with
  | putStr str => exact h.putStr hcall
  | putChar chr =>
    rw [← show ttyPutChar tty chr = tty' from Except.ok.inj hcall]
    exact h.putChar chr
  | scrollUp =>
    rw [← show ttyScrollUp tty = tty' from Except.ok.inj hcall]
    exact h.scrollUp
  | clear =>
    rw [← show ttyClear tty = tty' from Except.ok.inj hcall]
    exact onScreen_ttyClear tty
  | clearLine y =>
    rw [← show ttyClearLine tty y = tty' from Except.ok.inj hcall]
    unfold ttyClearLine
    constructor
    . rw [x_fillTheme]
      exact h.x_lt
    . rw [y_fillTheme]
      exact h.y_lt
  | setTheme fg bg =>
    cases hcall
    exact ⟨h.x_lt, h.y_lt⟩
  | setCpos x y =>
    cases hcall
    constructor
    . exact Nat.mod_lt x (by decide)
    . exact Nat.mod_lt y (by decide)

theorem onScreen_of_run {Q : TtyCall → Prop} {start : Tty} (hstart : start.OnScreen) (hrun : TtyRun Q start tty)
    : tty.OnScreen := by
  induction hrun with
  | refl => exact hstart
  | step _ _ hstep ih => exact ih.call hstep

end Cursor

end Tty

end AwaOS
