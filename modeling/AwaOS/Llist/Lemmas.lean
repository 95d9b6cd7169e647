import AwaOS.Lib.Circular
import AwaOS.Llist.Impl

/-!
What the operations of the intrusive list do to the `next` and the `prev` pointers. A list that is only
followed forwards needs less of `prev` than being the inverse of `next`.
-/

namespace AwaOS

variable {α : Type} {m m' : α → LlistHeader α} {head elem p q : α} {l : List α}

/--
The `prev` pointer of `p` leads to the element before `p`.
-/
def PrevRight (m : α → LlistHeader α) (p : α) : Prop :=
  (m (m p).prev).next = p

instance [DecidableEq α] : Decidable (PrevRight m p) :=
  inferInstanceAs (Decidable ((m (m p).prev).next = p))

/--
The list can be followed forwards. The `prev` pointer of an element leads to the element before it, or
to the element itself.
-/
structure Traversable (m : α → LlistHeader α) (head : α) (l : List α) : Prop where
  circular : Circular (fun p => (m p).next) head l
  prev : ∀ p ∈ l, (m p).prev = p ∨ (m p).prev ∈ head :: l ∧ PrevRight m p

theorem Traversable.congr (h : Traversable m head l) (heq : ∀ p ∈ head :: l, m' p = m p)
    : Traversable m' head l := by
  constructor
  . apply h.circular.congr
    intro p hp
    rw [heq p hp]
  . intro p hp
    rw [heq p (List.mem_cons_of_mem head hp)]
    cases h.prev p hp with
    | inl hself => exact Or.inl hself
    | inr hright =>
      right
      refine ⟨hright.1, ?_⟩
      unfold PrevRight
      rw [heq p (List.mem_cons_of_mem head hp), heq _ hright.1]
      exact hright.2

section Operations

variable [DecidableEq α]

@[simp]
theorem setNext_next : (setNext m p q elem).next = if elem = p then q else (m elem).next := by
  unfold setNext
  by_cases h : elem = p
  . subst h
    simp
  . simp [h]

@[simp]
theorem setNext_prev : (setNext m p q elem).prev = (m elem).prev := by
  unfold setNext
  by_cases h : elem = p
  . subst h
    simp
  . simp [h]

@[simp]
theorem setPrev_next : (setPrev m p q elem).next = (m elem).next := by
  unfold setPrev
  by_cases h : elem = p
  . subst h
    simp
  . simp [h]

@[simp]
theorem setPrev_prev : (setPrev m p q elem).prev = if elem = p then q else (m elem).prev := by
  unfold setPrev
  by_cases h : elem = p
  . subst h
    simp
  . simp [h]

theorem llistInitHead_next : (llistInitHead m head p).next = if p = head then head else (m p).next := by
  simp only [llistInitHead, setPrev_next, setNext_next]

theorem llistInitHead_prev : (llistInitHead m head p).prev = if p = head then head else (m p).prev := by
  simp only [llistInitHead, setPrev_prev, setNext_prev]

theorem llistAppend_next
    : (llistAppend m head elem p).next
        =
      if p = head then elem else if p = elem then (m head).next else (m p).next := by
  simp only [llistAppend, llistAdd, setNext_next, setPrev_next]

theorem llistAppend_prev
    : (llistAppend m head elem p).prev
        =
      if p = elem then head else if p = (m head).next then elem else (m p).prev := by
  simp only [llistAppend, llistAdd, setNext_prev, setPrev_prev]

theorem llistPrepend_next
    : (llistPrepend m head elem p).next
        =
      if p = (m head).prev then elem else if p = elem then head else (m p).next := by
  simp only [llistPrepend, llistAdd, setNext_next, setPrev_next]

theorem llistPrepend_prev
    : (llistPrepend m head elem p).prev
        =
      if p = elem then (m head).prev else if p = head then elem else (m p).prev := by
  simp only [llistPrepend, llistAdd, setNext_prev, setPrev_prev]

theorem llistDelete_next
    : (llistDelete m elem p).next
        =
      if p = elem then elem else if p = (m elem).prev then (m elem).next else (m p).next := by
  simp only [llistDelete, setNext_next, setPrev_next]

theorem llistDelete_prev
    : (llistDelete m elem p).prev
        =
      if p = elem then elem else if p = (m elem).next then (m elem).next else (m p).prev := by
  simp only [llistDelete, setNext_prev, setPrev_prev, setNext_next, ite_self]

namespace Traversable

theorem initHead (m : α → LlistHeader α) (head : α) : Traversable (llistInitHead m head) head [] := by
  constructor
  . apply Circular.nil
    simp only [llistInitHead_next, if_true]
  . intro p hp
    cases hp

theorem append (h : Traversable m head l) (helem : elem ∉ head :: l)
    : Traversable (llistAppend m head elem) head (elem :: l) := by
  have hne := helem
  rw [List.mem_cons, not_or] at hne
  constructor
  . apply h.circular.insert helem
    . simp only [llistAppend_next, if_true]
    . simp only [llistAppend_next, if_neg hne.1, if_true]
    . intro p hp
      have hpe : p ≠ elem := by
        intro heq
        rw [heq] at hp
        exact hne.2 hp
      simp only [llistAppend_next, if_neg (h.circular.ne_head hp), if_neg hpe]
  . intro p hp
    unfold PrevRight
    rw [llistAppend_prev]
    split
    . next heq =>
      right
      refine ⟨by simp, ?_⟩
      rw [llistAppend_next, if_pos rfl, heq]
    . next hpe =>
      have hpl : p ∈ l := (List.mem_cons.mp hp).resolve_left hpe
      split
      . next hfirst =>
        right
        refine ⟨by simp, ?_⟩
        rw [llistAppend_next, if_neg hne.1, if_pos rfl, hfirst]
      . next hfirst =>
        cases h.prev p hpl with
        | inl hself => exact Or.inl hself
        | inr hright =>
          right
          have hmem := hright.1
          have hnext := hright.2
          unfold PrevRight at hnext
          have hhead : (m p).prev ≠ head := by
            intro heq
            rw [heq] at hnext
            exact hfirst hnext.symm
          have hapart : (m p).prev ≠ elem := by
            intro heq
            rw [heq] at hmem
            exact helem hmem
          constructor
          . cases List.mem_cons.mp hmem with
            | inl heq => exact absurd heq hhead
            | inr hin => simp [hin]
          . rw [llistAppend_next, if_neg hhead, if_neg hapart]
            exact hnext

/--
The `prev` pointer of an element to be deleted has to lead to the element before it: one that leads to
the element itself makes the deletion keep the element in the list.
-/
theorem delete (h : Traversable m head l) (hp : p ∈ l) (hright : PrevRight m p)
    : Traversable (llistDelete m p) head (l.erase p) := by
  unfold PrevRight at hright
  have hmem : (m p).prev ∈ head :: l := by
    cases h.prev p hp with
    | inl hself =>
      rw [hself] at hright
      exact absurd hright (h.circular.next_ne_self hp)
    | inr hprev => exact hprev.1
  have hqp : (m p).prev ≠ p := by
    intro heq
    rw [heq] at hright
    exact h.circular.next_ne_self hp hright
  constructor
  . apply h.circular.remove hp hmem hright
    . simp only [llistDelete_next, if_neg hqp, if_true]
    . intro y hy hyq hyp
      simp only [llistDelete_next, if_neg hyp, if_neg hyq]
  . intro y hy
    have hyl := List.mem_of_mem_erase hy
    have hyp : y ≠ p := by
      intro heq
      have hnodup := (List.nodup_cons.mp h.circular.nodup).2
      rw [heq] at hy
      exact hnodup.not_mem_erase hy
    unfold PrevRight
    rw [llistDelete_prev, if_neg hyp]
    split
    . next heq => exact Or.inl heq.symm
    . next hnext =>
      cases h.prev y hyl with
      | inl hself => exact Or.inl hself
      | inr hprev =>
        right
        have hbefore := hprev.2
        unfold PrevRight at hbefore
        have hne : (m y).prev ≠ p := by
          intro heq
          rw [heq] at hbefore
          exact hnext hbefore.symm
        have hapart : (m y).prev ≠ (m p).prev := by
          intro heq
          rw [heq, hright] at hbefore
          exact hyp hbefore.symm
        constructor
        . cases List.mem_cons.mp hprev.1 with
          | inl heq => simp [heq]
          | inr hin => exact List.mem_cons_of_mem head ((List.mem_erase_of_ne hne).mpr hin)
        . rw [llistDelete_next, if_neg hne, if_neg hapart]
          exact hbefore

end Traversable

end Operations

end AwaOS
