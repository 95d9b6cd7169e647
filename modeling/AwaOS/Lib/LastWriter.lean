/-!
Folds in which the last writer wins.
-/

namespace LastWriter

variable {α β σ : Type}

theorem findRev?_cons (p : α → Bool) (a : α) (l : List α)
    : (a :: l).findRev? p = (l.findRev? p).or (if p a then some a else none) := by
  rw [List.findRev?]
  cases l.findRev? p with
  | none => rfl
  | some b => rfl

theorem findRev?_map (p : β → Bool) (f : α → β) (l : List α)
    : (l.map f).findRev? p = (l.findRev? (p ∘ f)).map f := by
  induction l with
  | nil => rfl
  | cons a l ih =>
    rw [List.map_cons, findRev?_cons, findRev?_cons, ih]
    cases l.findRev? (p ∘ f) with
    | some b => rfl
    | none =>
      cases hp : p (f a) with
      | true => simp [hp]
      | false => simp [hp]

theorem findRev?_eq_some {p : α → Bool} {l : List α} {a : α} (h : l.findRev? p = some a) : a ∈ l ∧ p a = true := by
  induction l with
  | nil => contradiction
  | cons b l ih =>
    rw [findRev?_cons] at h
    cases hl : l.findRev? p with
    | some c =>
      rw [hl, Option.some_or] at h
      obtain ⟨hmem, hpa⟩ := ih (hl.trans h)
      exact ⟨List.mem_cons_of_mem _ hmem, hpa⟩
    | none =>
      rw [hl, Option.none_or] at h
      split at h
      . next hb =>
        cases h
        exact ⟨List.mem_cons_self, hb⟩
      . contradiction

theorem findRev?_eq_none {p : α → Bool} {l : List α} (h : ∀ a ∈ l, p a = false) : l.findRev? p = none := by
  induction l with
  | nil => rfl
  | cons a l ih =>
    rw [findRev?_cons, ih (fun b hb => h b (List.mem_cons_of_mem _ hb)), h a List.mem_cons_self]
    rfl

/--
What a fold leaves where some of the elements write, and the others do not touch it.
-/
theorem foldl_eq {step : σ → α → σ} {read : σ → β} {p : α → Bool} {value : α → β} {l : List α}
    (hwrite : ∀ a ∈ l, ∀ s, p a = true → read (step s a) = value a)
    (hkeep : ∀ a ∈ l, ∀ s, p a = false → read (step s a) = read s) (s : σ)
    : read (l.foldl step s) = ((l.findRev? p).map value).getD (read s) := by
  induction l generalizing s with
  | nil => rfl
  | cons a l ih =>
    rw [List.foldl_cons, findRev?_cons,
      ih (fun b hb => hwrite b (List.mem_cons_of_mem _ hb)) (fun b hb => hkeep b (List.mem_cons_of_mem _ hb))]
    cases hl : l.findRev? p with
    | some b => rfl
    | none =>
      cases hp : p a with
      | true => exact hwrite a List.mem_cons_self s hp
      | false => exact hkeep a List.mem_cons_self s hp

end LastWriter
