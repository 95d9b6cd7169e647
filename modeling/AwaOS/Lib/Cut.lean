import Mathlib.Data.List.Infix

/-!
A stream of pieces that is cut off after the first piece that reaches a limit.
-/

/--
The pieces that are taken as long as there is room, the last one as a whole.
-/
def cut {α : Type} : Nat → List (List α) → List (List α)
  | _, [] => []
  | room, p :: ps =>
    if room = 0 then
      []
    else
      p :: cut (room - p.length) ps

/--
No piece crosses the limit: the pieces end before it, or some of them end right at it.
-/
def EndsAt {α : Type} (limit : Nat) (ps : List (List α)) : Prop :=
  ps.flatten.length ≤ limit ∨ ∃ k, (ps.take k).flatten.length = limit

section Cut

variable {α : Type}

theorem cut_zero (ps : List (List α)) : cut 0 ps = [] := by
  cases ps with
  | nil => rfl
  | cons p ps => rfl

theorem cut_cons {room : Nat} {p : List α} {ps : List (List α)} (hroom : room ≠ 0)
    : cut room (p :: ps) = p :: cut (room - p.length) ps := by
  rw [cut, if_neg hroom]

theorem cut_flatten_prefix (room : Nat) (ps : List (List α)) : (cut room ps).flatten <+: ps.flatten := by
  induction ps generalizing room with
  | nil => exact List.prefix_refl _
  | cons p ps ih =>
    unfold cut
    split
    . exact List.nil_prefix
    . rw [List.flatten_cons, List.flatten_cons, List.prefix_append_right_inj]
      exact ih _

theorem le_cut_length (room : Nat) (ps : List (List α))
    : min room ps.flatten.length ≤ (cut room ps).flatten.length := by
  induction ps generalizing room with
  | nil => simp
  | cons p ps ih =>
    have := ih (room - p.length)
    rw [cut]
    split
    . next hzero => simp [hzero]
    . simp only [List.flatten_cons, List.length_append]
      omega

theorem endsAt_cons (room : Nat) (p : List α) (ps : List (List α)) (hroom : room ≠ 0)
    : EndsAt room (p :: ps) ↔ p.length ≤ room ∧ EndsAt (room - p.length) ps := by
  unfold EndsAt
  simp only [List.flatten_cons, List.length_append]
  constructor
  . rintro (hle | ⟨k, hk⟩)
    . exact ⟨by omega, Or.inl (by omega)⟩
    . cases k with
      | zero =>
        simp only [List.take_zero, List.flatten_nil, List.length_nil] at hk
        exact absurd hk.symm hroom
      | succ k =>
        simp only [List.take_succ_cons, List.flatten_cons, List.length_append] at hk
        exact ⟨by omega, Or.inr ⟨k, by omega⟩⟩
  . rintro ⟨hp, hle | ⟨k, hk⟩⟩
    . exact Or.inl (by omega)
    . refine Or.inr ⟨k + 1, ?_⟩
      simp only [List.take_succ_cons, List.flatten_cons, List.length_append]
      omega

/--
The pieces that are taken stay within the limit if and only if none of them crosses it.
-/
theorem cut_length_le_iff (room : Nat) (ps : List (List α))
    : (cut room ps).flatten.length ≤ room ↔ EndsAt room ps := by
  induction ps generalizing room with
  | nil =>
    unfold EndsAt
    simp [cut]
  | cons p ps ih =>
    by_cases hzero : room = 0
    . subst hzero
      rw [cut_zero]
      exact ⟨fun _ => Or.inr ⟨0, rfl⟩, fun _ => Nat.le_refl _⟩
    . rw [endsAt_cons room p ps hzero, ← ih, cut_cons hzero]
      simp only [List.flatten_cons, List.length_append]
      omega

end Cut
