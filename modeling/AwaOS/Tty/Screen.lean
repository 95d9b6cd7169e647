import AwaOS.Tty.Console
import AwaOS.Tty.Run

/-!
The calls stay on the screen: the cells that they use, and what they do to memory as a whole.
-/

namespace AwaOS

open ByteMem

namespace Tty

/--
The cells of the screen.
-/
def screenCells : Nat :=
  ttyWidth * ttyHeight

section Cells

variable {tty : Tty}

theorem OnScreen.emitCells_lt (h : tty.OnScreen) (chr : Byte)
    : ∀ i ∈ ttyPutChar.emitCells tty chr, i < screenCells := by
  have hx := h.x_lt
  have hy := h.y_lt
  intro i hi
  unfold ttyPutChar.emitCells at hi
  split at hi
  . exact absurd hi List.not_mem_nil
  . rw [List.mem_singleton.mp hi]
    unfold screenCells ttyWidth ttyHeight at *
    omega

theorem scrollUp_cells_lt : ∀ i ∈ ttyScrollUp.cells, i < screenCells := by
  intro i hi
  unfold ttyScrollUp.cells at hi
  simp only [List.mem_append, List.mem_map, List.mem_range] at hi
  unfold screenCells ttyWidth ttyHeight at *
  omega

theorem OnScreen.putChar_cells_lt (h : tty.OnScreen) (chr : Byte)
    : ∀ i ∈ ttyPutChar.cells tty chr, i < screenCells := by
  intro i hi
  unfold ttyPutChar.cells at hi
  cases List.mem_append.mp hi with
  | inl hemit => exact h.emitCells_lt chr i hemit
  | inr hscroll =>
    split at hscroll
    . exact scrollUp_cells_lt i hscroll
    . exact absurd hscroll List.not_mem_nil

theorem OnScreen.putStr_cells_lt (h : tty.OnScreen) (str : List Byte)
    : ∀ i ∈ ttyPutStr.cells tty str, i < screenCells := by
  induction str generalizing tty with
  | nil => exact fun i hi => absurd hi List.not_mem_nil
  | cons c str ih =>
    intro i hi
    unfold ttyPutStr.cells at hi
    split at hi
    . cases List.mem_append.mp hi with
      | inl hfirst => exact h.putChar_cells_lt c i hfirst
      | inr hrest => exact ih (h.putChar c) i hrest
    . exact absurd hi List.not_mem_nil

theorem OnScreen.call_cells_lt (h : tty.OnScreen) {call : TtyCall} (hvalid : call.Valid)
    : ∀ i ∈ call.cells tty, i < screenCells := by
  intro i hi
  cases call with
  | putChar chr => exact h.putChar_cells_lt chr i hi
  | putStr str => exact h.putStr_cells_lt str i hi
  | scrollUp => exact scrollUp_cells_lt i hi
  | clear => exact List.mem_range.mp hi
  | clearLine y =>
    obtain ⟨j, hj, heq⟩ := List.mem_map.mp hi
    have hj' := List.mem_range.mp hj
    change y < ttyHeight at hvalid
    unfold screenCells ttyWidth ttyHeight at *
    omega
  | setTheme fg bg => exact absurd hi List.not_mem_nil
  | setCpos x y => exact absurd hi List.not_mem_nil

end Cells

def withMem (tty : Tty) (m : ByteMem) : Tty :=
  { tty with mem := m }

/--
Whatever is in memory, `g` does the same to it, within the bytes of the screen.
-/
def KeepsToScreen (g : Tty → Tty) (tty : Tty) : Prop :=
  ∃ f, Confined (tty.cellAddr 0) (tty.cellAddr screenCells) f
    ∧ ∀ m, g (tty.withMem m) = (g tty).withMem (f m)

section KeepsToScreen

variable {tty : Tty} {g h : Tty → Tty}

theorem KeepsToScreen.comp (hg : KeepsToScreen g tty) (hh : KeepsToScreen h (g tty))
    (hbuffer : (g tty).vgaBuffer = tty.vgaBuffer)
    : KeepsToScreen (fun t => h (g t)) tty := by
  obtain ⟨f, hf, heq⟩ := hg
  obtain ⟨f', hf', heq'⟩ := hh
  unfold cellAddr at hf hf'
  rw [hbuffer] at hf'
  refine ⟨fun m => f' (f m), hf'.comp hf, ?_⟩
  intro m
  dsimp only
  rw [heq, heq']

/--
Something that leaves memory alone.
-/
theorem keepsToScreen_of_mem (hg : ∀ m, g (tty.withMem m) = (g tty).withMem m) : KeepsToScreen g tty :=
  ⟨id, confined_id _ _, hg⟩

theorem keepsToScreen_writeCell {index : Nat} (w : Tty → VgaAttribute) (hindex : index < screenCells)
    (hw : ∀ m, w (tty.withMem m) = w tty)
    : KeepsToScreen (fun t => t.writeCell index (w t)) tty := by
  refine ⟨fun m => m.write16 (tty.cellAddr index) (w tty), confined_write16 _ ?_ ?_, ?_⟩
  . unfold cellAddr
    omega
  . unfold cellAddr
    omega
  . intro m
    dsimp only
    rw [hw]
    rfl

theorem keepsToScreen_fillTheme {index count : Nat} (hfits : index + count ≤ screenCells)
    : KeepsToScreen (fun t => t.fillTheme index count) tty := by
  induction count generalizing tty index with
  | zero => exact keepsToScreen_of_mem (fun _ => rfl)
  | succ count ih =>
    have hfirst : KeepsToScreen (fun t => t.writeCell index t.themeColor) tty :=
      keepsToScreen_writeCell (fun t => t.themeColor) (by omega) (fun _ => rfl)
    exact hfirst.comp (ih (by omega)) rfl

/--
Cells are filled, and then the cursor moves.
-/
theorem keepsToScreen_fillTheme_cursor {index count : Nat} (x y : Tty → Nat) (hfits : index + count ≤ screenCells)
    (hx : ∀ t m, x (t.withMem m) = x t) (hy : ∀ t m, y (t.withMem m) = y t)
    : KeepsToScreen (fun t =>
        let t := t.fillTheme index count
        { t with x := x t, y := y t }) tty := by
  have hfill : KeepsToScreen (fun t => t.fillTheme index count) tty := keepsToScreen_fillTheme hfits
  have hcursor : ∀ t, KeepsToScreen (fun t => { t with x := x t, y := y t }) t := by
    intro t
    apply keepsToScreen_of_mem
    intro m
    rw [hx, hy]
    rfl
  exact hfill.comp (hcursor _) (vgaBuffer_fillTheme _ _ _)

/--
Cells are copied from behind the first line to the start of the screen.
-/
theorem keepsToScreen_memcpy {num : Nat} (hfits : 2 * ttyWidth + num ≤ 2 * screenCells)
    : KeepsToScreen (fun t => { t with mem := memcpy t.mem t.vgaBuffer (t.cellAddr ttyWidth) num }) tty := by
  refine ⟨fun m => memcpy m tty.vgaBuffer (tty.cellAddr ttyWidth) num, ?_, fun _ => rfl⟩
  apply confined_memcpy
  . exact Nat.le_refl _
  . unfold cellAddr
    omega
  . exact Nat.le_add_right _ _
  . unfold cellAddr
    omega

theorem keepsToScreen_ttyScrollUp : KeepsToScreen ttyScrollUp tty := by
  have hcopy := @keepsToScreen_memcpy tty (ttyWidth * (ttyHeight - 1) * 2) (by decide)
  have hfill : ∀ t, KeepsToScreen (fun t =>
      let t := t.fillTheme (ttyWidth * (ttyHeight - 1)) ttyWidth
      { t with x := t.x, y := if t.y = 0 then 0 else ttyHeight - 1 }) t :=
    fun t => keepsToScreen_fillTheme_cursor (fun t => t.x) (fun t => if t.y = 0 then 0 else ttyHeight - 1)
      (by decide)
      (fun _ _ => rfl) (fun _ _ => rfl)
  have hboth := hcopy.comp (hfill _) rfl
  unfold ttyScrollUp
  exact hboth

theorem keepsToScreen_ttyClear : KeepsToScreen ttyClear tty :=
  keepsToScreen_fillTheme_cursor (fun _ => 0) (fun _ => 0) (by decide) (fun _ _ => rfl) (fun _ _ => rfl)

theorem keepsToScreen_ttyClearLine {y : Nat} (hy : y < ttyHeight)
    : KeepsToScreen (fun t => ttyClearLine t y) tty := by
  apply keepsToScreen_fillTheme
  unfold screenCells ttyWidth ttyHeight at *
  omega

/--
`tty_put_char` up to the end of its `switch`.
-/
theorem keepsToScreen_emit (honScreen : tty.OnScreen) (chr : Byte)
    : KeepsToScreen (fun t => ttyPutChar.emit t chr) tty := by
  have hcell := honScreen.emitCells_lt chr
  unfold ttyPutChar.emitCells at hcell
  by_cases htab : chr = byte '\t'
  . have heq : (fun t => ttyPutChar.emit t chr) = fun t => { t with x := t.x + 4 } := by
      funext t
      unfold ttyPutChar.emit
      rw [if_pos htab]
    rw [heq]
    exact keepsToScreen_of_mem (fun _ => rfl)
  by_cases hline : chr = byte '\n'
  . have heq : (fun t => ttyPutChar.emit t chr) = fun t => { t with y := t.y + 1, x := 0 } := by
      funext t
      unfold ttyPutChar.emit
      rw [if_neg htab, if_pos hline]
    rw [heq]
    exact keepsToScreen_of_mem (fun _ => rfl)
  by_cases hreturn : chr = byte '\r'
  . have heq : (fun t => ttyPutChar.emit t chr) = fun t => { t with x := 0 } := by
      funext t
      unfold ttyPutChar.emit
      rw [if_neg htab, if_neg hline, if_pos hreturn]
    rw [heq]
    exact keepsToScreen_of_mem (fun _ => rfl)
  . have hnot : ¬(chr = byte '\t' ∨ chr = byte '\n' ∨ chr = byte '\r') := by
      rw [not_or, not_or]
      exact ⟨htab, hline, hreturn⟩
    rw [if_neg hnot] at hcell
    have hindex := hcell _ (List.mem_singleton_self _)
    refine ⟨fun m => m.write16 (tty.cellAddr (tty.x + tty.y * ttyWidth)) (tty.themeColor ||| chr.signExtend 16),
      confined_write16 _ ?_ ?_, ?_⟩
    . unfold cellAddr
      omega
    . unfold cellAddr
      omega
    . intro m
      unfold ttyPutChar.emit
      dsimp only
      rw [if_neg htab, if_neg hline, if_neg hreturn, if_neg htab, if_neg hline, if_neg hreturn]
      rfl

theorem keepsToScreen_wrap : KeepsToScreen ttyPutChar.wrap tty := by
  apply keepsToScreen_of_mem
  intro m
  unfold ttyPutChar.wrap
  by_cases hright : ttyWidth ≤ tty.x
  . rw [if_pos hright, if_pos (show ttyWidth ≤ (tty.withMem m).x from hright)]
    rfl
  . rw [if_neg hright, if_neg (show ¬ttyWidth ≤ (tty.withMem m).x from hright)]

theorem vgaBuffer_emit (tty : Tty) (chr : Byte) : (ttyPutChar.emit tty chr).vgaBuffer = tty.vgaBuffer := by
  unfold ttyPutChar.emit
  split
  . rfl
  split
  . rfl
  split
  . rfl
  . rfl

theorem vgaBuffer_wrap (tty : Tty) : (ttyPutChar.wrap tty).vgaBuffer = tty.vgaBuffer := by
  unfold ttyPutChar.wrap
  split
  . rfl
  . rfl

theorem vgaBuffer_ttyScrollUp (tty : Tty) : (ttyScrollUp tty).vgaBuffer = tty.vgaBuffer := by
  unfold ttyScrollUp
  dsimp only
  rw [vgaBuffer_fillTheme]

theorem vgaBuffer_ttyPutChar (tty : Tty) (chr : Byte) : (ttyPutChar tty chr).vgaBuffer = tty.vgaBuffer := by
  unfold ttyPutChar
  dsimp only
  split
  . rw [vgaBuffer_ttyScrollUp, vgaBuffer_wrap, vgaBuffer_emit]
  . rw [vgaBuffer_wrap, vgaBuffer_emit]

theorem keepsToScreen_ttyPutChar (honScreen : tty.OnScreen) (chr : Byte)
    : KeepsToScreen (fun t => ttyPutChar t chr) tty := by
  have hscroll : ∀ t, KeepsToScreen (fun t => if ttyHeight ≤ t.y then ttyScrollUp t else t) t := by
    intro t
    by_cases hend : ttyHeight ≤ t.y
    . obtain ⟨f, hf, heq⟩ := @keepsToScreen_ttyScrollUp t
      refine ⟨f, hf, ?_⟩
      intro m
      dsimp only
      rw [if_pos hend, if_pos (show ttyHeight ≤ (t.withMem m).y from hend), heq]
    . apply keepsToScreen_of_mem
      intro m
      rw [if_neg hend, if_neg (show ¬ttyHeight ≤ (t.withMem m).y from hend)]
  have hwrap := (keepsToScreen_emit honScreen chr).comp keepsToScreen_wrap (vgaBuffer_emit tty chr)
  apply hwrap.comp (hscroll _)
  rw [vgaBuffer_wrap, vgaBuffer_emit]

end KeepsToScreen

/--
Whatever is in memory, the call does the same to it, within the bytes of the screen.
-/
def CallKeepsToScreen (tty : Tty) (call : TtyCall) (tty' : Tty) : Prop :=
  ∃ f, Confined (tty.cellAddr 0) (tty.cellAddr screenCells) f
    ∧ ∀ m, call.run (tty.withMem m) = .ok (tty'.withMem (f m))

section CallKeepsToScreen

variable {tty tty' : Tty}

theorem KeepsToScreen.call {g : Tty → Tty} {call : TtyCall} (h : KeepsToScreen g tty)
    (hrun : ∀ t, call.run t = .ok (g t)) (hcall : call.run tty = .ok tty')
    : CallKeepsToScreen tty call tty' := by
  obtain ⟨f, hf, heq⟩ := h
  have hresult : g tty = tty' := Except.ok.inj ((hrun tty).symm.trans hcall)
  refine ⟨f, hf, ?_⟩
  intro m
  rw [hrun, heq, hresult]

theorem OnScreen.putStr_keeps {str : List Byte} (h : tty.OnScreen) (hput : ttyPutStr tty str = .ok tty')
    : CallKeepsToScreen tty (.putStr str) tty' := by
  induction str generalizing tty with
  | nil => contradiction
  | cons c str ih =>
    unfold ttyPutStr at hput
    split at hput
    . next hne =>
      obtain ⟨f, hf, heq⟩ := keepsToScreen_ttyPutChar h c
      obtain ⟨f', hf', heq'⟩ := ih (h.putChar c) hput
      unfold cellAddr at hf hf'
      rw [vgaBuffer_ttyPutChar] at hf'
      refine ⟨fun m => f' (f m), hf'.comp hf, ?_⟩
      intro m
      change ttyPutStr (tty.withMem m) (c :: str) = _
      unfold ttyPutStr
      rw [if_pos hne]
      dsimp only at heq
      rw [heq]
      exact heq' (f m)
    . next hzero =>
      rw [← show tty = tty' from Except.ok.inj hput]
      refine ⟨id, confined_id _ _, ?_⟩
      intro m
      change ttyPutStr (tty.withMem m) (c :: str) = _
      unfold ttyPutStr
      rw [if_neg hzero]
      rfl

theorem OnScreen.call_keeps {call : TtyCall} (h : tty.OnScreen) (hvalid : call.Valid)
    (hcall : call.run tty = .ok tty')
    : CallKeepsToScreen tty call tty' := by
  cases call with
  | putChar chr => exact (keepsToScreen_ttyPutChar h chr).call (fun _ => rfl) hcall
  | putStr str => exact h.putStr_keeps hcall
  | scrollUp => exact keepsToScreen_ttyScrollUp.call (fun _ => rfl) hcall
  | clear => exact keepsToScreen_ttyClear.call (fun _ => rfl) hcall
  | clearLine y => exact (keepsToScreen_ttyClearLine hvalid).call (fun _ => rfl) hcall
  | setTheme fg bg =>
    have hkeeps : KeepsToScreen (fun t => ttySetTheme t fg bg) tty := keepsToScreen_of_mem (fun _ => rfl)
    exact hkeeps.call (fun _ => rfl) hcall
  | setCpos x y =>
    have hkeeps : KeepsToScreen (fun t => ttySetCpos t x y) tty := keepsToScreen_of_mem (fun _ => rfl)
    exact hkeeps.call (fun _ => rfl) hcall

end CallKeepsToScreen

end Tty

/--
After `tty_init`, whatever is called: the cursor is on the screen, the next call uses only cells of the screen, and
it neither changes nor depends on any other byte of memory.
-/
theorem console_staysOnScreen {tty₀ tty tty' : Tty} {vgaBuf : Nat} {call : TtyCall}
    (hrun : TtyRun TtyCall.Valid (ttyInit tty₀ vgaBuf) tty) (hvalid : call.Valid) (hcall : call.run tty = .ok tty')
    : tty'.x < 80
        ∧ tty'.y < 25
        ∧ (∀ i ∈ call.cells tty, i < 2000)
        ∧ tty.CallKeepsToScreen call tty' := by
  have hstart : (ttyInit tty₀ vgaBuf).OnScreen := Tty.onScreen_ttyClear _
  have honScreen := Tty.onScreen_of_run hstart hrun
  have hafter := honScreen.call hcall
  exact ⟨hafter.x_lt, hafter.y_lt, honScreen.call_cells_lt hvalid, honScreen.call_keeps hvalid hcall⟩

/--
A character in the last cell of the screen. It is written there, and then the screen scrolls.
-/
theorem console_staysOnScreen_lastCell
    : let tty := ttySetCpos (ttyInit bootTty 0xB8000) 79 24
      let tty' := ttyPutChar tty (byte 'A')
      (TtyCall.putChar (byte 'A')).cells tty = 1999 :: ttyScrollUp.cells
        ∧ tty'.x < 80
        ∧ tty'.y < 25
        ∧ (∀ i ∈ (TtyCall.putChar (byte 'A')).cells tty, i < 2000)
        ∧ tty.CallKeepsToScreen (.putChar (byte 'A')) tty' := by
  intro tty tty'
  have hrun : TtyRun TtyCall.Valid (ttyInit bootTty 0xB8000) tty :=
    .step .refl (show (TtyCall.setCpos 79 24).Valid from trivial) rfl
  refine ⟨?_, console_staysOnScreen hrun trivial rfl⟩
  have hscrolls : ttyHeight ≤ (ttyPutChar.wrap (ttyPutChar.emit tty (byte 'A'))).y := by decide
  have hemits : ttyPutChar.emitCells tty (byte 'A') = [1999] := by decide
  change ttyPutChar.cells tty (byte 'A') = _
  rw [ttyPutChar.cells, if_pos hscrolls, hemits, List.singleton_append]

end AwaOS
