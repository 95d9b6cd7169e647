import AwaOS.Klibc.Sprintf.Impl
import AwaOS.Lib.StateMonad

/-!
The text that `__sprintf_internal` writes, as a list of pieces: one for each round of the outer loop.
-/

namespace AwaOS

/--
Writing a text to the buffer.
-/
def Out.puts (out : Out) : List Byte → Out
  | [] => out
  | c :: text => (out.put c).puts text

section Puts

variable (out : Out) (c : Byte) (s t : List Byte)

@[simp]
theorem Out.puts_nil : out.puts [] = out := by
  rfl

theorem Out.puts_append : out.puts (s ++ t) = (out.puts s).puts t := by
  induction s generalizing out with
  | nil => rfl
  | cons c s ih => exact ih (out.put c)

@[simp]
theorem Out.buffer_puts : (out.puts s).buffer = out.buffer := by
  induction s generalizing out with
  | nil => rfl
  | cons c s ih => exact ih (out.put c)

@[simp]
theorem Out.ptr_puts : (out.puts s).ptr = out.ptr + s.length := by
  induction s generalizing out with
  | nil => rfl
  | cons c s ih =>
    rw [puts, ih, List.length_cons]
    change out.ptr + 1 + s.length = _
    omega

theorem Out.mem_puts_of_outside (b : Nat)
    (hb : b < out.buffer + out.ptr ∨ out.buffer + out.ptr + s.length ≤ b)
    : (out.puts s).mem b = out.mem b := by
  induction s generalizing out with
  | nil => rfl
  | cons c s ih =>
    rw [List.length_cons] at hb
    have hrest := ih (out.put c)
    unfold put at hrest
    rw [puts, put, hrest (by dsimp only; omega)]
    exact Function.update_of_ne (by omega) _ _

theorem Out.mem_puts (i : Nat) (hi : i < s.length)
    : (out.puts s).mem (out.buffer + out.ptr + i) = s[i] := by
  induction s generalizing out i with
  | nil => exact absurd hi (Nat.not_lt_zero _)
  | cons c s ih =>
    cases i with
    | zero =>
      rw [puts, mem_puts_of_outside]
      . exact Function.update_self ..
      . left
        unfold put
        dsimp only
        omega
    | succ i =>
      have hrest := ih (out.put c) i (by simpa using hi)
      unfold put at hrest
      rw [puts, put, List.getElem_cons_succ, ← hrest]
      congr 1
      dsimp only
      omega

theorem Out.putRepeat_eq (count : Nat) : out.putRepeat c count = out.puts (List.replicate count c) := by
  induction count generalizing out with
  | zero => rfl
  | succ count ih =>
    rw [putRepeat, ih]
    rfl

theorem Out.putString_eq (hnul : 0 ∈ s) : out.putString s = .ok (out.puts (s.takeWhile (· ≠ 0))) := by
  induction s generalizing out with
  | nil => contradiction
  | cons d s ih =>
    unfold putString
    by_cases hzero : d = 0
    . rw [if_neg (not_not.mpr hzero), List.takeWhile_cons_of_neg (by simpa using hzero)]
      rfl
    . have hmem : 0 ∈ s := by
        cases List.mem_cons.mp hnul with
        | inl heq => exact absurd heq.symm hzero
        | inr hmem => exact hmem
      rw [if_pos hzero, ih (out.put d) hmem, List.takeWhile_cons_of_pos (by simpa using hzero)]
      rfl

theorem Out.putData_eq (len : Nat) (hlen : len ≤ s.length)
    : out.putData len s = .ok (out.puts (s.take len)) := by
  induction s generalizing out len with
  | nil =>
    have hzero : len = 0 := Nat.le_zero.mp hlen
    subst hzero
    rfl
  | cons d s ih =>
    cases len with
    | zero => rfl
    | succ len => exact ih (out.put d) len (by simpa using hlen)

end Puts

/--
The text of a field: padding on one side, and the sign, the zeros and the characters.
-/
def fieldText (flags : Int32) (lay : Layout) (sign data : List Byte) : List Byte :=
  let padding := List.replicate lay.width.toInt.toNat (byte ' ')
  let body := sign.takeWhile (· ≠ 0) ++ List.replicate lay.zeros.toInt.toNat (byte '0')
    ++ data.take lay.len.toInt.toNat
  if hasFlag flags flagLeftjustify then body ++ padding else padding ++ body

theorem putField_eq (out : Out) (flags : Int32) (lay : Layout) (sign data : List Byte) (hnul : 0 ∈ sign)
    (hlen : lay.len.toInt.toNat ≤ data.length)
    : out.putField flags lay sign data = .ok (out.puts (fieldText flags lay sign data)) := by
  unfold Out.putField fieldText
  dsimp only
  simp only [Out.putRepeat_eq, Out.putString_eq _ sign hnul, Out.putData_eq _ data _ hlen, bind,
    Except.bind, pure, Except.pure]
  split
  . simp [Out.puts_append]
  . simp [Out.puts_append]

theorem strlen_lt {str : List Byte} {len : Nat} (h : strlen str = .ok len) : len < str.length := by
  induction str generalizing len with
  | nil => contradiction
  | cons c str ih =>
    unfold strlen at h
    split at h
    . cases hrest : strlen str with
      | error e =>
        rw [hrest] at h
        contradiction
      | ok n =>
        rw [hrest] at h
        injection h with hn
        have := ih hrest
        rw [List.length_cons]
        omega
    . injection h with hn
      rw [List.length_cons]
      omega

theorem strnlen_go_le {str : List Byte} {maxLen start len : Nat} (h : strnlen.go maxLen start str = .ok len)
    : len < start + str.length := by
  induction str generalizing start with
  | nil => contradiction
  | cons c str ih =>
    unfold strnlen.go at h
    rw [List.length_cons]
    split at h
    . have := ih h
      omega
    . injection h with hn
      omega

theorem strnlen_lt {str : List Byte} {maxLen len : Nat} (h : strnlen str maxLen = .ok len)
    : len < str.length := by
  have := strnlen_go_le h
  omega

theorem zero_mem_signPrefix (conv : Conversion) : 0 ∈ signPrefix conv := by
  have hcstr : ∀ s : String, (0 : Byte) ∈ cstr s := fun s => List.mem_append_right _ (List.mem_singleton_self _)
  unfold signPrefix
  split
  . split
    . exact hcstr _
    . split
      . exact hcstr _
      . split
        . exact hcstr _
        . exact hcstr _
  . split
    . exact hcstr _
    . exact hcstr _

theorem toInt_ofNat_le (n : Nat) : (BitVec.ofNat 32 n).toInt.toNat ≤ n := by
  rw [BitVec.toInt_eq_toNat_cond, BitVec.toNat_ofNat]
  split
  . omega
  . omega

theorem dataLen_lt {flags precision : Int32} {data : List Byte} {len : Nat}
    (h : dataLen flags precision data = .ok len)
    : len < data.length := by
  unfold dataLen at h
  split at h
  . exact strnlen_lt h
  . exact strlen_lt h

/--
The characters that the layout counts are there.
-/
theorem layout_len_le {flags width precision : Int32} {sign data : List Byte} {lay : Layout}
    (h : layout flags width precision sign data = .ok lay)
    : lay.len.toInt.toNat ≤ data.length := by
  unfold layout at h
  obtain ⟨len, hlen, h⟩ := except_bind_eq_ok.mp h
  obtain ⟨signLen, _, h⟩ := except_bind_eq_ok.mp h
  injection h with h
  subst h
  exact Nat.le_trans (toInt_ofNat_le len) (Nat.le_of_lt (dataLen_lt hlen))

/--
The text of a directive. `scan.fmt` is after the `%`.
-/
def directiveText (scan : Scan) : LibcM (Scan × List Byte) := do
  let (field, scan) ← scanField scan
  let sign := signPrefix field.conv
  let lay ← layout field.conv.flags field.width field.precision sign field.data
  return (scan, fieldText field.conv.flags lay sign field.data)

theorem putDirective_eq (scan : Scan) (out : Out)
    : putDirective scan out = (directiveText scan).map (fun (scan, text) => (scan, out.puts text)) := by
  unfold putDirective directiveText
  cases hfield : scanField scan with
  | error e => rfl
  | ok result =>
    obtain ⟨field, scan'⟩ := result
    cases hlay : layout field.conv.flags field.width field.precision (signPrefix field.conv) field.data with
    | error e =>
      simp only [bind, Except.bind, hlay]
      rfl
    | ok lay =>
      have hput := putField_eq out field.conv.flags lay (signPrefix field.conv) field.data
        (zero_mem_signPrefix _) (layout_len_le hlay)
      simp only [bind, Except.bind, hlay, hput]
      rfl

/--
What the rounds of the outer loop write, without a limit.
-/
def pieces : Nat → Scan → LibcM (List (List Byte))
  | 0, _ => throw .endless
  | fuel + 1, scan => do
    let c ← deref scan.fmt
    if c = 0 then
      return []
    else if c ≠ byte '%' then
      return [c] :: (← pieces fuel { scan with fmt := scan.fmt.tail })
    else
      let (scan, text) ← directiveText { scan with fmt := scan.fmt.tail }
      return text :: (← pieces fuel scan)

end AwaOS
