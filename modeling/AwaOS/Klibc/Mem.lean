import AwaOS.Klibc.String

/-!
`libs/klibc/string/mem.c`
-/

namespace AwaOS

open ByteMem

/--
`memcpy`, byte by byte from the lowest one on.
-/
def memcpy (m : ByteMem) (dest src : Nat) : Nat → ByteMem
  | 0 => m
  | num + 1 => memcpy (fun b => if b = dest then m src else m b) (dest + 1) (src + 1) num

/--
The loop of `memmove` that copies byte by byte from the highest one on.
-/
def memmove.down (m : ByteMem) (dest src : Nat) : Nat → ByteMem
  | 0 => m
  | i + 1 => memmove.down (fun b => if b = dest + i then m (src + i) else m b) dest src i

/--
`memmove`, for areas that do not wrap. Its first loop is the one of `memcpy`.
-/
def memmove (m : ByteMem) (dest src num : Nat) : ByteMem :=
  if dest < src then
    memcpy m dest src num
  else
    memmove.down m dest src num

section Copied

variable (m : ByteMem) {dest src : Nat} (num : Nat)

theorem memcpy_outside : SameOutside m (memcpy m dest src num) dest (dest + num) := by
  induction num generalizing m dest src with
  | zero => exact .refl m dest dest
  | succ num ih =>
    intro b hb
    rw [memcpy, ih _ b (by omega)]
    exact if_neg (by omega)

/--
The areas may overlap as long as the bytes are moved down.
-/
theorem memcpy_inside {i : Nat} (hsafe : dest ≤ src ∨ src + num ≤ dest) (hi : i < num)
    : memcpy m dest src num (dest + i) = m (src + i) := by
  induction num generalizing m dest src i with
  | zero => exact absurd hi (Nat.not_lt_zero i)
  | succ num ih =>
    rw [memcpy]
    cases i with
    | zero =>
      rw [memcpy_outside _ _ _ (by omega)]
      exact if_pos rfl
    | succ i =>
      rw [show dest + (i + 1) = dest + 1 + i by omega, ih _ (by omega) (by omega), if_neg (by omega),
        show src + 1 + i = src + (i + 1) by omega]

theorem memmove_down_outside : SameOutside m (memmove.down m dest src num) dest (dest + num) := by
  induction num generalizing m with
  | zero => exact .refl m dest dest
  | succ num ih =>
    intro b hb
    rw [memmove.down, ih _ b (by omega)]
    exact if_neg (by omega)

/--
From the highest byte on, the areas may overlap as long as the bytes are moved up.
-/
theorem memmove_down_inside {i : Nat} (hup : src ≤ dest) (hi : i < num)
    : memmove.down m dest src num (dest + i) = m (src + i) := by
  induction num generalizing m with
  | zero => exact absurd hi (Nat.not_lt_zero i)
  | succ num ih =>
    rw [memmove.down]
    cases Nat.lt_succ_iff_lt_or_eq.mp hi with
    | inl hlt =>
      rw [ih _ hlt]
      exact if_neg (by omega)
    | inr heq =>
      rw [memmove_down_outside _ _ _ (by omega), heq]
      exact if_pos rfl

theorem memcpy_copied (hsafe : dest ≤ src ∨ src + num ≤ dest) : Copied m (memcpy m dest src num) dest src num where
  inside := fun _ hi => memcpy_inside m num hsafe hi
  outside := memcpy_outside m num

theorem memmove_copied (dest src : Nat) : Copied m (memmove m dest src num) dest src num := by
  unfold memmove
  split
  . next hlt => exact memcpy_copied m num (Or.inl (Nat.le_of_lt hlt))
  . next hnot =>
    constructor
    . intro i hi
      exact memmove_down_inside m num (Nat.le_of_not_lt hnot) hi
    . exact memmove_down_outside m num

end Copied

/--
`memcpy` within an area neither writes nor depends on what is outside.
-/
theorem confined_memcpy {lo hi dest src : Nat} (num : Nat) (hdest : lo ≤ dest) (hdest' : dest + num ≤ hi)
    (hsrc : lo ≤ src) (hsrc' : src + num ≤ hi)
    : Confined lo hi (fun m => memcpy m dest src num) where
  writes := fun m => (memcpy_outside m num).mono hdest hdest'
  reads := by
    intro m m' hsame
    induction num generalizing m m' dest src with
    | zero => exact hsame
    | succ num ih =>
      apply ih (by omega) (by omega) (by omega) (by omega)
      intro b hb hb'
      dsimp only
      split
      . exact hsame src hsrc (by omega)
      . exact hsame b hb hb'

/--
`memmove` copies a snapshot, however the areas overlap. So does `memcpy` if the bytes are moved down or the areas
have no byte in common.
-/
theorem memmove_snapshot (m : ByteMem) (dest src num : Nat)
    : (∀ i, i < num → memmove m dest src num (dest + i) = m (src + i))
        ∧ (∀ b, b < dest ∨ dest + num ≤ b → memmove m dest src num b = m b)
        ∧ (dest ≤ src ∨ dest + num ≤ src ∨ src + num ≤ dest → memcpy m dest src num = memmove m dest src num) := by
  have hcopied := memmove_copied m num dest src
  refine ⟨hcopied.inside, hcopied.outside, ?_⟩
  intro hsafe
  exact (memcpy_copied m num (by omega)).unique hcopied

end AwaOS
