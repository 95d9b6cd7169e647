import AwaOS.Klibc.String
import AwaOS.Lib.StateMonad

/-!
`libs/klibc/string/strlen.c`: what the two loops return, and where they leave the array.
-/

namespace AwaOS

/--
The characters of a string, which end before its NUL.
-/
def chars (str : List Byte) : List Byte :=
  str.takeWhile (· ≠ 0)

section Chars

variable {c : Byte} {str text : List Byte}

theorem chars_cons_of_ne (hne : c ≠ 0) : chars (c :: str) = c :: chars str := by
  unfold chars
  rw [List.takeWhile_cons_of_pos (by simpa using hne)]

@[simp]
theorem chars_zero_cons : chars (0 :: str) = [] := by
  rfl

theorem chars_append (hzero : 0 ∉ text) : chars (text ++ str) = text ++ chars str := by
  unfold chars
  rw [List.takeWhile_append_of_pos]
  intro c hc
  rw [decide_eq_true_eq]
  intro heq
  rw [heq] at hc
  contradiction

theorem length_chars_le (str : List Byte) : (chars str).length ≤ str.length :=
  (List.takeWhile_prefix _).length_le

/--
The NUL is at the end of the characters.
-/
theorem length_chars_lt_iff : (chars str).length < str.length ↔ 0 ∈ str := by
  induction str with
  | nil => exact ⟨fun h => absurd h (Nat.not_lt_zero _), fun h => absurd h List.not_mem_nil⟩
  | cons c str ih =>
    by_cases hzero : c = 0
    . rw [hzero, chars_zero_cons]
      exact ⟨fun _ => List.mem_cons_self, fun _ => Nat.succ_pos _⟩
    . rw [chars_cons_of_ne hzero, List.length_cons, List.length_cons, Nat.succ_lt_succ_iff, ih, List.mem_cons]
      constructor
      . exact Or.inr
      . intro hor
        exact hor.resolve_left (fun heq => hzero heq.symm)

theorem zero_mem_take_iff (n : Nat) : 0 ∈ str.take n ↔ (chars str).length < min n str.length := by
  induction str generalizing n with
  | nil => simp
  | cons c str ih =>
    cases n with
    | zero => simp
    | succ n =>
      rw [List.take_succ_cons, List.mem_cons, ih]
      by_cases hzero : c = 0
      . rw [hzero, chars_zero_cons, List.length_nil, List.length_cons]
        exact ⟨fun _ => by omega, fun _ => Or.inl rfl⟩
      . rw [chars_cons_of_ne hzero, List.length_cons, List.length_cons, or_iff_right (Ne.symm hzero)]
        omega

theorem chars_take (n : Nat) : chars (str.take n) = (chars str).take n := by
  induction str generalizing n with
  | nil => rw [List.take_nil, show chars [] = [] from rfl, List.take_nil]
  | cons c str ih =>
    cases n with
    | zero => rfl
    | succ n =>
      rw [List.take_succ_cons]
      by_cases hzero : c = 0
      . rw [hzero, chars_zero_cons, chars_zero_cons, List.take_nil]
      . rw [chars_cons_of_ne hzero, chars_cons_of_ne hzero, ih, List.take_succ_cons]

end Chars

theorem strlen_eq (str : List Byte)
    : strlen str = if (chars str).length < str.length then .ok (chars str).length else .error .outOfBounds := by
  induction str with
  | nil => rfl
  | cons c str ih =>
    unfold strlen
    by_cases hzero : c = 0
    . rw [if_neg (not_not.mpr hzero), hzero, chars_zero_cons]
      rfl
    . rw [if_pos hzero, ih, chars_cons_of_ne hzero, List.length_cons, List.length_cons]
      by_cases hlt : (chars str).length < str.length
      . rw [if_pos hlt, if_pos (Nat.succ_lt_succ hlt)]
        rfl
      . rw [if_neg hlt, if_neg (fun h => hlt (Nat.lt_of_succ_lt_succ h))]
        rfl

theorem strlen_text {text : List Byte} (hzero : 0 ∉ text) (rest : List Byte)
    : strlen (text ++ 0 :: rest) = .ok text.length := by
  rw [strlen_eq, chars_append hzero, chars_zero_cons, List.append_nil, if_pos]
  rw [List.length_append, List.length_cons]
  omega

theorem strnlen_go_eq (maxLen len : Nat) (str : List Byte) (hlen : len ≤ maxLen + 1)
    : strnlen.go maxLen len str
        =
      if min (chars str).length (maxLen + 1 - len) < str.length
      then .ok (len + min (chars str).length (maxLen + 1 - len))
      else .error .outOfBounds := by
  induction str generalizing len with
  | nil => rfl
  | cons c str ih =>
    unfold strnlen.go
    by_cases hzero : c = 0
    . rw [if_neg (fun h => h.left hzero), hzero, chars_zero_cons, List.length_nil, Nat.zero_min,
        List.length_cons, if_pos (Nat.succ_pos _)]
      rfl
    . rw [chars_cons_of_ne hzero, List.length_cons, List.length_cons]
      by_cases hle : len ≤ maxLen
      . have hmin : min ((chars str).length + 1) (maxLen + 1 - len)
            = min (chars str).length (maxLen + 1 - (len + 1)) + 1 := by
          omega
        rw [if_pos ⟨hzero, hle⟩, ih (len + 1) (by omega), hmin]
        apply if_congr
        . exact Nat.succ_lt_succ_iff.symm
        . rw [Nat.add_assoc, Nat.add_comm 1]
        . rfl
      . have hend : maxLen + 1 - len = 0 := by omega
        rw [if_neg (fun h => hle h.right), hend, Nat.min_zero, if_pos (Nat.succ_pos _)]
        rfl

/--
The loop of `strnlen` goes on for `len = max_len`: it stops at `max_len + 1` only.
-/
theorem strnlen_eq (str : List Byte) (maxLen : Nat)
    : strnlen str maxLen
        =
      if min (chars str).length (maxLen + 1) < str.length then .ok (min (chars str).length (maxLen + 1))
      else .error .outOfBounds := by
  unfold strnlen
  rw [strnlen_go_eq maxLen 0 str (Nat.zero_le _), Nat.sub_zero, Nat.zero_add]

end AwaOS
