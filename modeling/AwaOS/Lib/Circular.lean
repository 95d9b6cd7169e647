import Mathlib.Data.List.Nodup

/-!
Lists that are threaded through a successor function: segments and cycles.
-/

variable {α : Type} {next next' : α → α} {p q x : α} {l : List α}

/--
Following `next` from `p` visits `l` in order and then reaches `q`.
-/
def Chained (next : α → α) : α → List α → α → Prop
  | p, [], q => next p = q
  | p, x :: l, q => next p = x ∧ Chained next x l q

theorem chained_append {a b : List α}
    : Chained next p (a ++ x :: b) q
        ↔
      Chained next p a x ∧ Chained next x b q := by
  induction a generalizing p with
  | nil => rfl
  | cons y a ih =>
    simp only [List.cons_append, Chained]
    rw [ih, and_assoc]

theorem Chained.congr (h : Chained next p l q) (heq : ∀ y ∈ p :: l, next' y = next y)
    : Chained next' p l q := by
  induction l generalizing p with
  | nil =>
    unfold Chained at h ⊢
    rw [heq p (by simp), h]
  | cons y l ih =>
    constructor
    . rw [heq p (by simp)]
      exact h.1
    . apply ih h.2
      intro z hz
      apply heq
      exact List.mem_cons_of_mem p hz

theorem Chained.next_eq (h : Chained next p l q) : next p = l.headD q := by
  cases l with
  | nil => exact h
  | cons y l => exact h.1

theorem Chained.next_mem (h : Chained next p l q) (hx : x ∈ p :: l) : next x = q ∨ next x ∈ l := by
  induction l generalizing p with
  | nil =>
    have hxp := List.mem_singleton.mp hx
    left
    rw [hxp]
    exact h
  | cons y l ih =>
    cases List.mem_cons.mp hx with
    | inl hxp =>
      right
      rw [hxp, h.1]
      simp
    | inr hxl =>
      cases ih h.2 hxl with
      | inl hend => exact Or.inl hend
      | inr hin => exact Or.inr (List.mem_cons_of_mem y hin)

/--
The first element of a segment is left out.
-/
theorem Chained.skip (h : Chained next p (x :: l) q) (hp : next' p = next x) (heq : ∀ y ∈ l, next' y = next y)
    : Chained next' p l q := by
  have hx := h.2
  cases l with
  | nil =>
    unfold Chained at hx ⊢
    rw [hp, hx]
  | cons y l =>
    constructor
    . rw [hp]
      exact hx.1
    . exact hx.2.congr heq

/--
The element after `x` is left out, wherever in the segment `x` is.
-/
theorem Chained.erase [DecidableEq α] {s y : α} (h : Chained next s l q) (hnodup : (s :: l).Nodup) (hq : y ≠ q)
    (hx : x ∈ s :: l) (hnext : next x = y) (hskip : next' x = next y)
    (heq : ∀ z ∈ s :: l, z ≠ x → z ≠ y → next' z = next z)
    : Chained next' s (l.erase y) q := by
  induction l generalizing s with
  | nil =>
    have hxs := List.mem_singleton.mp hx
    rw [hxs] at hnext
    exact absurd (hnext.symm.trans h) hq
  | cons z l ih =>
    rw [List.nodup_cons] at hnodup
    have hz := (List.nodup_cons.mp hnodup.2).1
    cases List.mem_cons.mp hx with
    | inl hxs =>
      subst hxs
      have hzy : z = y := h.1.symm.trans hnext
      subst hzy
      rw [List.erase_cons_head]
      apply h.skip hskip
      intro w hw
      apply heq w (by simp [hw])
      . intro hws
        apply hnodup.1
        rw [← hws]
        exact List.mem_cons_of_mem z hw
      . intro hwz
        apply hz
        rw [← hwz]
        exact hw
    | inr hxl =>
      have hyin : y ∈ l := by
        cases h.2.next_mem hxl with
        | inl hend => exact absurd (hnext.symm.trans hend) hq
        | inr hin =>
          rw [← hnext]
          exact hin
      have hzy : z ≠ y := by
        intro hzy
        apply hz
        rw [hzy]
        exact hyin
      have hsx : s ≠ x := by
        intro hsx
        apply hnodup.1
        rw [hsx]
        exact hxl
      have hsy : s ≠ y := by
        intro hsy
        apply hnodup.1
        rw [hsy]
        exact List.mem_cons_of_mem z hyin
      rw [List.erase_cons_tail (by simpa using hzy)]
      constructor
      . rw [heq s (by simp) hsx hsy]
        exact h.1
      . apply ih h.2 hnodup.2 hxl
        intro w hw
        exact heq w (List.mem_cons_of_mem s hw)

/--
A new element at the end of the segment.
-/
theorem Chained.concat (h : Chained next p l q) (hq : q ∉ l) (hlast : ∀ y ∈ p :: l, next y = q → next' y = x)
    (hnew : next' x = q) (heq : ∀ y ∈ p :: l, next y ≠ q → next' y = next y)
    : Chained next' p (l ++ [x]) q := by
  induction l generalizing p with
  | nil => exact ⟨hlast p List.mem_cons_self h, hnew⟩
  | cons y l ih =>
    rw [List.mem_cons, not_or] at hq
    have hy : next p ≠ q := by
      rw [h.1]
      exact Ne.symm hq.1
    constructor
    . rw [heq p List.mem_cons_self hy]
      exact h.1
    . apply ih h.2 hq.2
      . intro z hz
        exact hlast z (List.mem_cons_of_mem p hz)
      . intro z hz
        exact heq z (List.mem_cons_of_mem p hz)

/--
Following `next` from `head` visits exactly the distinct elements `l` in order and comes back to `head`.
-/
structure Circular (next : α → α) (head : α) (l : List α) : Prop where
  chained : Chained next head l head
  nodup : (head :: l).Nodup

namespace Circular

variable {head : α}

theorem nil (h : next head = head) : Circular next head [] := by
  constructor
  . exact h
  . simp

theorem congr (h : Circular next head l) (heq : ∀ y ∈ head :: l, next' y = next y) : Circular next' head l := by
  constructor
  . exact h.chained.congr heq
  . exact h.nodup

theorem ne_head (h : Circular next head l) (hp : p ∈ l) : p ≠ head := by
  intro heq
  have hnotin := (List.nodup_cons.mp h.nodup).1
  rw [heq] at hp
  exact hnotin hp

theorem next_head (h : Circular next head l) : next head = l.headD head := by
  exact h.chained.next_eq

theorem next_of_append {a b : List α} (h : Circular next head (a ++ p :: b)) : next p = b.headD head := by
  have hsplit := chained_append.mp h.chained
  exact hsplit.2.next_eq

theorem next_ne_self (h : Circular next head l) (hp : p ∈ l) : next p ≠ p := by
  have hne := h.ne_head hp
  obtain ⟨a, b, hl⟩ := List.append_of_mem hp
  subst hl
  have hnodup := (List.nodup_append.mp (List.nodup_cons.mp h.nodup).2).2.1
  cases (chained_append.mp h.chained).2.next_mem List.mem_cons_self with
  | inl hend =>
    rw [hend]
    exact hne.symm
  | inr hin =>
    intro heq
    rw [heq] at hin
    exact (List.nodup_cons.mp hnodup).1 hin

/--
A new element right after `head`.
-/
theorem insert (h : Circular next head l) (hx : x ∉ head :: l) (hhead : next' head = x)
    (hnew : next' x = next head) (heq : ∀ y ∈ l, next' y = next y)
    : Circular next' head (x :: l) := by
  rw [List.mem_cons, not_or] at hx
  have hnodup := List.nodup_cons.mp h.nodup
  constructor
  . constructor
    . exact hhead
    . have hchained := h.chained
      cases l with
      | nil =>
        unfold Chained at hchained ⊢
        rw [hnew, hchained]
      | cons y l =>
        constructor
        . rw [hnew]
          exact hchained.1
        . exact hchained.2.congr heq
  . rw [List.nodup_cons, List.nodup_cons, List.mem_cons, not_or]
    exact ⟨⟨Ne.symm hx.1, hnodup.1⟩, hx.2, hnodup.2⟩

/--
A new element right before `head`.
-/
theorem concat (h : Circular next head l) (hx : x ∉ head :: l)
    (hlast : ∀ y ∈ head :: l, next y = head → next' y = x)
    (hnew : next' x = head) (heq : ∀ y ∈ head :: l, next y ≠ head → next' y = next y)
    : Circular next' head (l ++ [x]) := by
  have hnodup := List.nodup_cons.mp h.nodup
  constructor
  . exact h.chained.concat hnodup.1 hlast hnew heq
  . rw [← List.cons_append, List.nodup_append]
    refine ⟨h.nodup, List.nodup_singleton x, ?_⟩
    intro y hy z hz heq
    rw [List.mem_singleton] at hz
    rw [heq, hz] at hy
    exact hx hy

theorem next_mem (h : Circular next head l) (hp : p ∈ head :: l) : next p ∈ head :: l := by
  cases h.chained.next_mem hp with
  | inl hend =>
    rw [hend]
    exact List.mem_cons_self
  | inr hin => exact List.mem_cons_of_mem head hin

/--
The element after `q` is left out.
-/
theorem remove [DecidableEq α] (h : Circular next head l) (hp : p ∈ l) (hq : q ∈ head :: l) (hnext : next q = p)
    (hskip : next' q = next p) (heq : ∀ y ∈ head :: l, y ≠ q → y ≠ p → next' y = next y)
    : Circular next' head (l.erase p) := by
  have hnodup := List.nodup_cons.mp h.nodup
  constructor
  . exact h.chained.erase h.nodup (h.ne_head hp) hq hnext hskip heq
  . rw [List.nodup_cons]
    constructor
    . intro hin
      exact hnodup.1 (List.mem_of_mem_erase hin)
    . exact hnodup.2.erase p

end Circular
