import AwaOS.Klibc.Sprintf.Ends
import AwaOS.Klibc.Sprintf.Text
import AwaOS.Lib.Cut

/-!
`snprintf` checks its limit before each round of the outer loop only. It keeps within the limit if and only
if no directive is written across it.
-/

namespace AwaOS

/--
Without a limit every piece is written.
-/
theorem loop_zero (fuel : Nat) (scan : Scan) (out : Out)
    : sprintfInternal.loop 0 fuel scan out = (pieces fuel scan).map (fun ps => out.puts ps.flatten) := by
  induction fuel generalizing scan out with
  | zero => rfl
  | succ fuel ih =>
    unfold sprintfInternal.loop pieces
    cases hc : deref scan.fmt with
    | error e => rfl
    | ok c =>
      simp only [bind, Except.bind, pure, Except.pure, ne_eq, not_true_eq_false, false_and, ↓reduceIte]
      split
      . rfl
      . split
        . rw [ih]
          cases pieces fuel { scan with fmt := scan.fmt.tail } with
          | error e => rfl
          | ok ps => rfl
        . rw [putDirective_eq]
          cases directiveText { scan with fmt := scan.fmt.tail } with
          | error e => rfl
          | ok result =>
            obtain ⟨scan', text⟩ := result
            simp only [Except.map, ih]
            cases pieces fuel scan' with
            | error e => rfl
            | ok ps =>
              simp only [List.flatten_cons, Out.puts_append]

/--
With a limit the pieces are cut off.
-/
theorem loop_limit {n fuel : Nat} {scan : Scan} {ps : List (List Byte)} (hn : 1 ≤ n) (out : Out)
    (h : pieces fuel scan = .ok ps)
    : sprintfInternal.loop n fuel scan out = .ok (out.puts (cut (n - 1 - out.ptr) ps).flatten) := by
  induction fuel generalizing scan out ps with
  | zero => contradiction
  | succ fuel ih =>
    unfold pieces at h
    unfold sprintfInternal.loop
    obtain ⟨c, hc, h⟩ := except_bind_eq_ok.mp h
    rw [except_bind_ok hc]
    split at h
    . next hzero =>
      injection h with h
      rw [if_pos hzero, ← h]
      rfl
    . next hzero =>
      rw [if_neg hzero]
      split
      . next hlimit =>
        rw [Nat.sub_eq_zero_of_le hlimit.right, cut_zero]
        rfl
      . next hlimit =>
        have hroom : n - 1 - out.ptr ≠ 0 := by omega
        split at h
        . next hplain =>
          obtain ⟨rest, hrest, h⟩ := except_bind_eq_ok.mp h
          injection h with h
          rw [if_pos hplain, ih (out.put c) hrest, ← h, cut_cons hroom]
          rfl
        . next hdirective =>
          obtain ⟨⟨scan', text⟩, htext, h⟩ := except_bind_eq_ok.mp h
          obtain ⟨rest, hrest, h⟩ := except_bind_eq_ok.mp h
          injection h with h
          rw [if_neg hdirective, putDirective_eq, htext]
          change sprintfInternal.loop n fuel scan' (out.puts text) = _
          rw [ih (out.puts text) hrest, ← h, cut_cons hroom, List.flatten_cons, Out.puts_append, Out.ptr_puts,
            Nat.sub_add_eq]

/--
What is written for a text, with the NUL after it.
-/
def written (m : ByteMem) (buffer : Nat) (text : List Byte) : Out :=
  (Out.puts { mem := m, buffer := buffer, ptr := 0 } text).put 0

section Written

variable (m : ByteMem) (buffer : Nat) (text : List Byte)

theorem ptr_written : (written m buffer text).ptr = text.length + 1 := by
  unfold written Out.put
  rw [Out.ptr_puts]
  change 0 + text.length + 1 = _
  omega

theorem written_text {i : Nat} (hi : i < text.length) : (written m buffer text).mem (buffer + i) = text[i] := by
  unfold written Out.put
  rw [Out.buffer_puts, Out.ptr_puts]
  have hchar := Out.mem_puts { mem := m, buffer := buffer, ptr := 0 } text i hi
  dsimp only at hchar ⊢
  rw [Function.update_of_ne (by omega)]
  exact hchar

theorem written_nul : (written m buffer text).mem (buffer + text.length) = 0 := by
  unfold written Out.put
  rw [Out.buffer_puts, Out.ptr_puts]
  dsimp only
  rw [Nat.zero_add]
  exact Function.update_self ..

theorem written_outside {b : Nat} (hb : b < buffer ∨ buffer + text.length < b)
    : (written m buffer text).mem b = m b := by
  unfold written Out.put
  rw [Out.buffer_puts, Out.ptr_puts]
  dsimp only
  rw [Function.update_of_ne (by omega)]
  exact Out.mem_puts_of_outside _ text b (by dsimp only; omega)

end Written

section Limit

variable {m : ByteMem} {buffer n : Nat} {fmt : List Byte} {vargs : List VaArg} {numbuf : ByteMem}
  {ps : List (List Byte)}

theorem sprintf_eq_ok {full : Out}
    : sprintf m buffer fmt vargs numbuf = .ok full
        ↔
      ∃ ps, pieces (fmt.length + 1) { fmt := fmt, vargs := vargs, numbuf := numbuf } = .ok ps
        ∧ full = written m buffer ps.flatten := by
  unfold sprintf sprintfInternal
  rw [loop_zero, except_bind_eq_ok]
  cases pieces (fmt.length + 1) { fmt := fmt, vargs := vargs, numbuf := numbuf } with
  | error e => simp [Except.map]
  | ok ps =>
    constructor
    . rintro ⟨out, hout, hfull⟩
      injection hout with hout
      injection hfull with hfull
      exact ⟨ps, rfl, by rw [← hfull, ← hout]; rfl⟩
    . rintro ⟨ps', hps, hfull⟩
      injection hps with hps
      exact ⟨_, rfl, by rw [hfull, ← hps]; rfl⟩

theorem snprintf_eq (hn : 1 ≤ n)
    (hps : pieces (fmt.length + 1) { fmt := fmt, vargs := vargs, numbuf := numbuf } = .ok ps)
    : snprintf m buffer n fmt vargs numbuf = .ok (written m buffer (cut (n - 1) ps).flatten) := by
  unfold snprintf sprintfInternal
  rw [loop_limit hn _ hps]
  rfl

/--
What a call of `snprintf` should leave in memory when `sprintf` leaves `full`. The text of `sprintf` is
`full.ptr - 1` characters long.
-/
structure Truncated (m : ByteMem) (buffer n : Nat) (full out : Out) : Prop where
  within : ∀ b, b < buffer ∨ buffer + n ≤ b → out.mem b = m b
  text : ∀ i, i < min (full.ptr - 1) (n - 1) → out.mem (buffer + i) = full.mem (buffer + i)
  nul : out.mem (buffer + min (full.ptr - 1) (n - 1)) = 0

/--
`snprintf` writes `buffer[0..n-1]` only, and there the first characters of the text of `sprintf`.
-/
def Bounded (buffer n : Nat) (fmt : List Byte) (vargs : List VaArg) (numbuf : ByteMem) : Prop :=
  ∀ m full, sprintf m buffer fmt vargs numbuf = .ok full →
    ∃ out, snprintf m buffer n fmt vargs numbuf = .ok out ∧ Truncated m buffer n full out

/--
The arguments match the format: `sprintf` finds each of them with its type. It never fails to end, by
`sprintfInternal_ends`.
-/
def Matching (fmt : List Byte) (vargs : List VaArg) (numbuf : ByteMem) : Prop :=
  ∃ m buffer full, sprintf m buffer fmt vargs numbuf = .ok full

theorem truncated_of_endsAt (hn : 1 ≤ n) (hends : EndsAt (n - 1) ps)
    : Truncated m buffer n (written m buffer ps.flatten) (written m buffer (cut (n - 1) ps).flatten) := by
  have hroom := (cut_length_le_iff (n - 1) ps).mpr hends
  have hle := le_cut_length (n - 1) ps
  have hprefix := cut_flatten_prefix (n - 1) ps
  have hlen : min ((written m buffer ps.flatten).ptr - 1) (n - 1) = (cut (n - 1) ps).flatten.length := by
    have := hprefix.length_le
    rw [ptr_written]
    omega
  constructor
  . intro b hb
    exact written_outside _ _ _ (by omega)
  . intro i hi
    rw [hlen] at hi
    rw [written_text _ _ _ hi, written_text _ _ _ (Nat.lt_of_lt_of_le hi hprefix.length_le)]
    exact hprefix.getElem hi
  . rw [hlen]
    exact written_nul _ _ _

/--
Where the memory holds no NUL, the NUL after a text that is too long shows.
-/
theorem endsAt_of_bounded (hn : 1 ≤ n) (h : Bounded buffer n fmt vargs numbuf)
    (hps : pieces (fmt.length + 1) { fmt := fmt, vargs := vargs, numbuf := numbuf } = .ok ps)
    : EndsAt (n - 1) ps := by
  rw [← cut_length_le_iff]
  obtain ⟨out, hout, htrunc⟩ := h (fun _ => 1) _ (sprintf_eq_ok.mpr ⟨ps, hps, rfl⟩)
  rw [snprintf_eq hn hps] at hout
  injection hout with hout
  by_contra hlong
  have hsame := htrunc.within (buffer + (cut (n - 1) ps).flatten.length) (Or.inr (by omega))
  rw [← hout, written_nul] at hsame
  exact absurd hsame (by decide)

end Limit

/--
`snprintf` is bounded if and only if no directive is written across the limit: the text of `sprintf` is
short enough, or one of its pieces ends right where the room ends.
-/
theorem snprintf_bounded_iff (buffer n : Nat) (fmt : List Byte) (vargs : List VaArg) (numbuf : ByteMem)
    (hn : 1 ≤ n) (hmatch : Matching fmt vargs numbuf)
    : Bounded buffer n fmt vargs numbuf
        ↔
      ∃ ps, pieces (fmt.length + 1) { fmt := fmt, vargs := vargs, numbuf := numbuf } = .ok ps
        ∧ EndsAt (n - 1) ps := by
  obtain ⟨m, start, full, hfull⟩ := hmatch
  obtain ⟨ps, hps, _⟩ := sprintf_eq_ok.mp hfull
  constructor
  . intro h
    exact ⟨ps, hps, endsAt_of_bounded hn h hps⟩
  . rintro ⟨ps', hps', hends⟩ m full hfull
    obtain ⟨ps'', hps'', hwritten⟩ := sprintf_eq_ok.mp hfull
    have heq : ps'' = ps' := Except.ok.inj (hps''.symm.trans hps')
    rw [hwritten, heq]
    exact ⟨_, snprintf_eq hn hps', truncated_of_endsAt hn hends⟩

theorem snprintf_bounded_iff_number
    : Bounded 0x100 4 (cstr "%d!") [.word 42] (fun _ => 0)
        ↔
      ∃ ps, pieces 5 { fmt := cstr "%d!", vargs := [.word 42], numbuf := fun _ => 0 } = .ok ps
        ∧ EndsAt 3 ps := by
  exact snprintf_bounded_iff 0x100 4 (cstr "%d!") [.word 42] (fun _ => 0) (by decide)
    ⟨fun _ => 1, 0x100, _, rfl⟩

/--
The limit is checked before the `%`, and then the whole string is written: its `o` ends up behind the buffer.
-/
theorem snprintf_overruns
    : Matching (cstr "%s") [.string (cstr "hello world")] (fun _ => 0)
        ∧
      ¬ Bounded 0x100 4 (cstr "%s") [.string (cstr "hello world")] (fun _ => 0) := by
  refine ⟨⟨fun _ => 1, 0x100, _, rfl⟩, ?_⟩
  intro h
  obtain ⟨out, hout, htrunc⟩ := h (fun _ => 1) _ rfl
  have houtside : out.mem 0x104 = 1 := htrunc.within 0x104 (Or.inr (by decide))
  have hwritten : out.mem 0x104 = byte 'o' := by
    injection hout with hout
    rw [← hout]
    rfl
  exact absurd (houtside.symm.trans hwritten) (by decide)

end AwaOS
