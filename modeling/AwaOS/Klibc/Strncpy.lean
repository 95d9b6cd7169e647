import AwaOS.Klibc.Strlen

/-!
`strncpy` of `libs/klibc/string/strcpy.c`. Source and destination do not overlap: the source is a list.
-/

namespace AwaOS

open ByteMem

/--
`while ((c = src[i]) && i < n) dest[i++] = c;` from `i` on. `src` is what follows there.
-/
def strncpy.copy (m : ByteMem) (dest n i : Nat) : List Byte → LibcM (Nat × ByteMem)
  | [] => throw .outOfBounds
  | c :: src =>
    if c ≠ 0 ∧ i < n then
      strncpy.copy (Function.update m (dest + i) c) dest n (i + 1) src
    else
      pure (i, m)

/--
`while (i < n) dest[i++] = 0;` with `count` rounds left.
-/
def strncpy.fill (m : ByteMem) (dest i : Nat) : Nat → ByteMem
  | 0 => m
  | count + 1 => strncpy.fill (Function.update m (dest + i) 0) dest (i + 1) count

def strncpy (m : ByteMem) (dest : Nat) (src : List Byte) (n : Nat) : LibcM ByteMem := do
  let (i, m) ← strncpy.copy m dest n 0 src
  return strncpy.fill m dest i (n - i)

theorem copy_eq (m : ByteMem) (dest n i : Nat) (src : List Byte) (hi : i ≤ n)
    (hlt : min (chars src).length (n - i) < src.length)
    : ∃ m', strncpy.copy m dest n i src = .ok (i + min (chars src).length (n - i), m')
        ∧ Holds m' (dest + i) ((chars src).take (n - i))
        ∧ SameOutside m m' (dest + i) (dest + n) := by
  induction src generalizing m i with
  | nil => exact absurd hlt (Nat.not_lt_zero _)
  | cons c src ih =>
    unfold strncpy.copy
    by_cases hgo : c ≠ 0 ∧ i < n
    . obtain ⟨hne, hless⟩ := hgo
      rw [chars_cons_of_ne hne, List.length_cons, List.length_cons] at hlt
      obtain ⟨m', hcopy, hholds, hsame⟩ := ih (Function.update m (dest + i) c) (i + 1) hless (by omega)
      rw [if_pos ⟨hne, hless⟩, chars_cons_of_ne hne, List.length_cons]
      refine ⟨m', ?_, ?_, ?_⟩
      . rw [hcopy]
        congr 2
        omega
      . rw [show n - i = n - (i + 1) + 1 by omega, List.take_succ_cons, holds_cons]
        constructor
        . rw [hsame _ (Or.inl (by omega))]
          exact Function.update_self ..
        . exact hholds
      . apply SameOutside.trans (sameOutside_update m c (Nat.le_refl _) (by omega))
        apply hsame.mono
        . omega
        . exact Nat.le_refl _
    . have hend : (chars (c :: src)).take (n - i) = [] ∧ min (chars (c :: src)).length (n - i) = 0 := by
        by_cases hzero : c = 0
        . rw [hzero, chars_zero_cons, List.take_nil, List.length_nil, Nat.zero_min]
          exact ⟨rfl, rfl⟩
        . have hlast : n - i = 0 := Nat.sub_eq_zero_of_le (Nat.le_of_not_lt (fun hless => hgo ⟨hzero, hless⟩))
          rw [hlast, List.take_zero, Nat.min_zero]
          exact ⟨rfl, rfl⟩
      rw [if_neg hgo, hend.left, hend.right]
      exact ⟨m, rfl, holds_nil, .refl m _ _⟩

/--
Without a NUL among the first `n` bytes, the loop reads the byte at `n` before it compares `i` with `n`.
-/
theorem copy_outOfBounds (m : ByteMem) (dest n i : Nat) (src : List Byte) (hzero : 0 ∉ src)
    (hn : src.length ≤ n - i)
    : strncpy.copy m dest n i src = .error .outOfBounds := by
  induction src generalizing m i with
  | nil => rfl
  | cons c src ih =>
    rw [List.length_cons] at hn
    have hne : c ≠ 0 := fun heq => hzero (heq ▸ List.mem_cons_self)
    rw [strncpy.copy, if_pos ⟨hne, by omega⟩]
    apply ih
    . exact fun hmem => hzero (List.mem_cons_of_mem c hmem)
    . omega

/--
Behind the first NUL nothing is read.
-/
theorem copy_take (m : ByteMem) (dest n i k : Nat) (src : List Byte) (hzero : 0 ∈ src.take k)
    : strncpy.copy m dest n i (src.take k) = strncpy.copy m dest n i src := by
  induction src generalizing m i k with
  | nil => rw [List.take_nil]
  | cons c src ih =>
    cases k with
    | zero => contradiction
    | succ k =>
      rw [List.take_succ_cons] at hzero ⊢
      unfold strncpy.copy
      split
      . next hgo =>
        apply ih
        cases List.mem_cons.mp hzero with
        | inl heq => exact absurd heq.symm hgo.left
        | inr hmem => exact hmem
      . rfl

theorem fill_eq (m : ByteMem) (dest i count : Nat)
    : Holds (strncpy.fill m dest i count) (dest + i) (List.replicate count 0)
        ∧ SameOutside m (strncpy.fill m dest i count) (dest + i) (dest + i + count) := by
  induction count generalizing m i with
  | zero => exact ⟨holds_nil, .refl m _ _⟩
  | succ count ih =>
    obtain ⟨hholds, hsame⟩ := ih (Function.update m (dest + i) 0) (i + 1)
    unfold strncpy.fill
    constructor
    . rw [List.replicate_succ, holds_cons]
      constructor
      . rw [hsame _ (Or.inl (by omega))]
        exact Function.update_self ..
      . exact hholds
    . apply SameOutside.trans (sameOutside_update m 0 (Nat.le_refl _) (by omega))
      apply hsame.mono
      . omega
      . omega

/--
What `strncpy` should leave in `dest[0..n-1]`.
-/
def copied (src : List Byte) (n : Nat) : List Byte :=
  (chars src).take n ++ List.replicate (n - (chars src).length) 0

theorem strncpy_eq (m : ByteMem) (dest : Nat) (src : List Byte) (n : Nat)
    (hlt : min (chars src).length n < src.length)
    : ∃ m', strncpy m dest src n = .ok m' ∧ Holds m' dest (copied src n) ∧ SameOutside m m' dest (dest + n) := by
  obtain ⟨m₁, hcopy, hholds, hsame⟩ := copy_eq m dest n 0 src (Nat.zero_le n) hlt
  rw [Nat.sub_zero, Nat.zero_add] at hcopy
  rw [Nat.sub_zero, Nat.add_zero] at hholds
  obtain ⟨hfill, hsame'⟩ := fill_eq m₁ dest (min (chars src).length n) (n - min (chars src).length n)
  unfold strncpy copied
  rw [except_bind_ok hcopy]
  refine ⟨_, rfl, ?_, ?_⟩
  . rw [holds_append, List.length_take, Nat.min_comm n]
    constructor
    . apply hholds.of_sameOn
      intro b hb hb'
      rw [List.length_take] at hb'
      exact hsame' b (Or.inl (by omega))
    . rw [show n - (chars src).length = n - min (chars src).length n by omega]
      exact hfill
  . apply SameOutside.trans (hsame.mono (Nat.le_refl _) (Nat.le_refl _))
    apply hsame'.mono
    . exact Nat.le_add_right _ _
    . omega

end AwaOS
