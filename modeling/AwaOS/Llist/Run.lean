import AwaOS.Llist.Lemmas

/-!
The intrusive list as a sequence. `llist_delete` stores `elem->next` where `elem->prev` is meant, which is
right only if both are the head.
-/

namespace AwaOS

variable {α : Type}

/--
The list is a well formed cycle of `head` and the members `l`.
-/
structure Sequence (m : α → LlistHeader α) (head : α) (l : List α) : Prop where
  next : Circular (fun p => (m p).next) head l
  prev : Circular (fun p => (m p).prev) head l.reverse
  next_prev : ∀ p ∈ head :: l, (m (m p).next).prev = p
  prev_next : ∀ p ∈ head :: l, (m (m p).prev).next = p

/--
The same list read backwards.
-/
def reversed (m : α → LlistHeader α) : α → LlistHeader α :=
  fun p => { prev := (m p).next, next := (m p).prev }

inductive LlistOp (α : Type) where
  | append (elem : α)
  | prepend (elem : α)
  | delete (elem : α)

namespace LlistOp

variable [DecidableEq α]

def run (m : α → LlistHeader α) (head : α) : LlistOp α → α → LlistHeader α
  | append elem => llistAppend m head elem
  | prepend elem => llistPrepend m head elem
  | delete elem => llistDelete m elem

/--
What the operation does to the sequence.
-/
def apply (l : List α) : LlistOp α → List α
  | append elem => elem :: l
  | prepend elem => l ++ [elem]
  | delete elem => l.erase elem

/--
A node is inserted when it is not in the list, and deleted when it is.
-/
def Allowed (head : α) (l : List α) : LlistOp α → Prop
  | append elem => elem ∉ head :: l
  | prepend elem => elem ∉ head :: l
  | delete elem => elem ∈ l

/--
Only the last member is deleted.
-/
def DeletesLast (l : List α) : LlistOp α → Prop
  | delete elem => l = [elem]
  | _ => True

end LlistOp

/--
The lists that can be reached from `llist_init_head` by allowed operations that satisfy `Q`, with the
sequences that they stand for.
-/
inductive LlistRun [DecidableEq α] (Q : List α → LlistOp α → Prop) (head : α)
    : (α → LlistHeader α) → List α → Prop where
  | init (m : α → LlistHeader α) : LlistRun Q head (llistInitHead m head) []
  | step {m : α → LlistHeader α} {l : List α} (h : LlistRun Q head m l) (op : LlistOp α)
      (hallowed : op.Allowed head l) (hQ : Q l op)
      : LlistRun Q head (op.run m head) (op.apply l)

namespace Sequence

variable {m : α → LlistHeader α} {head elem p : α} {l : List α}

theorem reverse (h : Sequence m head l) : Sequence (reversed m) head l.reverse := by
  constructor
  . exact h.prev
  . rw [List.reverse_reverse]
    exact h.next
  . intro p hp
    apply h.prev_next
    simpa using hp
  . intro p hp
    apply h.next_prev
    simpa using hp

variable [DecidableEq α]

theorem initHead (m : α → LlistHeader α) (head : α) : Sequence (llistInitHead m head) head [] := by
  constructor
  . apply Circular.nil
    simp only [llistInitHead_next, if_true]
  . apply Circular.nil
    simp only [llistInitHead_prev, if_true]
  . intro p hp
    rw [List.mem_singleton.mp hp]
    simp only [llistInitHead_next, llistInitHead_prev, if_true]
  . intro p hp
    rw [List.mem_singleton.mp hp]
    simp only [llistInitHead_next, llistInitHead_prev, if_true]

theorem append (h : Sequence m head l) (helem : elem ∉ head :: l)
    : Sequence (llistAppend m head elem) head (elem :: l) := by
  have hne := helem
  rw [List.mem_cons, not_or] at hne
  have hapart : ∀ {y}, y ∈ head :: l → y ≠ elem := by
    intro y hy heq
    rw [heq] at hy
    exact helem hy
  have hfirst : (m (m head).next).prev = head := h.next_prev head List.mem_cons_self
  have hinv : ∀ y ∈ head :: l, (m y).prev = head ↔ y = (m head).next := by
    intro y hy
    constructor
    . intro hprev
      rw [← hprev, h.prev_next y hy]
    . intro heq
      rw [heq, hfirst]
  constructor
  . apply h.next.insert helem
    . simp only [llistAppend_next, if_true]
    . simp only [llistAppend_next, if_neg hne.1, if_true]
    . intro y hy
      have hmem := List.mem_cons_of_mem head hy
      simp only [llistAppend_next, if_neg (h.next.ne_head hy), if_neg (hapart hmem)]
  . rw [List.reverse_cons]
    have hmem : ∀ {y}, y ∈ head :: l.reverse → y ∈ head :: l := by
      intro y hy
      simpa using hy
    apply h.prev.concat
    . intro hin
      exact helem (hmem hin)
    . intro y hy hprev
      have heq := (hinv y (hmem hy)).mp hprev
      simp only [llistAppend_prev, if_neg (hapart (hmem hy)), if_pos heq]
    . simp only [llistAppend_prev, if_true]
    . intro y hy hprev
      have hother : y ≠ (m head).next := by
        intro heq
        exact hprev ((hinv y (hmem hy)).mpr heq)
      simp only [llistAppend_prev, if_neg (hapart (hmem hy)), if_neg hother]
  . have hnext : (m head).next ≠ elem := hapart (h.next.next_mem List.mem_cons_self)
    intro y hy
    rw [llistAppend_next]
    split
    . next heq => rw [llistAppend_prev, if_pos rfl, heq]
    . next hhead =>
      split
      . next heq => rw [llistAppend_prev, if_neg hnext, if_pos rfl, heq]
      . next helem =>
        have hyl : y ∈ head :: l := by
          rw [List.mem_cons, List.mem_cons] at hy
          simp only [hhead, helem, false_or] at hy
          exact List.mem_cons_of_mem head hy
        have hapart' : (m y).next ≠ elem := hapart (h.next.next_mem hyl)
        have hother : (m y).next ≠ (m head).next := by
          intro heq
          apply hhead
          rw [← h.next_prev y hyl, heq, hfirst]
        rw [llistAppend_prev, if_neg hapart', if_neg hother, h.next_prev y hyl]
  . have hnext : (m head).next ≠ elem := hapart (h.next.next_mem List.mem_cons_self)
    intro y hy
    rw [llistAppend_prev]
    split
    . next heq => rw [llistAppend_next, if_pos rfl, heq]
    . next helem =>
      have hyl : y ∈ head :: l := by
        rw [List.mem_cons, List.mem_cons] at hy
        simp only [helem, false_or] at hy
        exact List.mem_cons.mpr hy
      split
      . next heq => rw [llistAppend_next, if_neg hne.1, if_pos rfl, heq]
      . next hother =>
        have hprev : (m y).prev ≠ elem := by
          have hin := h.prev.next_mem (p := y) (by simpa using hyl)
          exact hapart (by simpa using hin)
        have hhead : (m y).prev ≠ head := by
          intro heq
          exact hother ((hinv y hyl).mp heq)
        rw [llistAppend_next, if_neg hhead, if_neg hprev, h.prev_next y hyl]

/--
Inserting before `head` is inserting after `head` in the reversed list.
-/
theorem llistPrepend_eq (helem : elem ≠ head) (hprev : (m head).prev ≠ elem)
    : llistPrepend m head elem = reversed (llistAppend (reversed m) head elem) := by
  funext p
  apply LlistHeader.ext
  . rw [llistPrepend_prev]
    unfold reversed
    dsimp only
    rw [llistAppend_next]
    by_cases hp : p = elem
    . rw [if_pos hp, if_neg (by rw [hp]; exact helem), if_pos hp]
    . simp only [if_neg hp]
  . rw [llistPrepend_next]
    unfold reversed
    dsimp only
    rw [llistAppend_prev]
    by_cases hp : p = elem
    . rw [if_neg (by rw [hp]; exact Ne.symm hprev)]
      simp only [if_pos hp]
    . simp only [if_neg hp]

theorem prepend (h : Sequence m head l) (helem : elem ∉ head :: l)
    : Sequence (llistPrepend m head elem) head (l ++ [elem]) := by
  have hne : elem ≠ head := by
    intro heq
    rw [heq] at helem
    exact helem List.mem_cons_self
  have hback := h.reverse
  have hin : (m head).prev ∈ head :: l.reverse := hback.next.next_mem List.mem_cons_self
  have hprev : (m head).prev ≠ elem := by
    intro heq
    rw [heq] at hin
    apply helem
    simpa using hin
  have happend := (hback.append (by simpa using helem)).reverse
  rw [List.reverse_cons, List.reverse_reverse] at happend
  rw [llistPrepend_eq hne hprev]
  exact happend

theorem delete_last (h : Sequence m head [elem]) : Sequence (llistDelete m elem) head [] := by
  have hne : head ≠ elem := by
    intro heq
    exact h.next.ne_head List.mem_cons_self heq.symm
  have hnext : (m elem).next = head := h.next.next_of_append (a := [])
  have hprev : (m elem).prev = head := h.prev.next_of_append (a := [])
  have hnext' : (llistDelete m elem head).next = head := by
    rw [llistDelete_next, if_neg hne, if_pos hprev.symm, hnext]
  have hprev' : (llistDelete m elem head).prev = head := by
    rw [llistDelete_prev, if_neg hne, if_pos hnext.symm, hnext]
  constructor
  . exact Circular.nil hnext'
  . exact Circular.nil hprev'
  . intro p hp
    rw [List.mem_singleton.mp hp, hnext', hprev']
  . intro p hp
    rw [List.mem_singleton.mp hp, hprev', hnext']

/--
The list stays well formed only if its last member is deleted: otherwise the element after the deleted one
is left with a `prev` pointer to itself.
-/
theorem delete_iff (h : Sequence m head l) (helem : elem ∈ l)
    : Sequence (llistDelete m elem) head (l.erase elem) ↔ l = [elem] := by
  constructor
  . intro hdeleted
    have hne : (m elem).next ≠ elem := h.next.next_ne_self helem
    have hself : (llistDelete m elem (m elem).next).prev = (m elem).next := by
      rw [llistDelete_prev, if_neg hne, if_pos rfl]
    have hin : (m elem).next ∈ head :: l.erase elem := by
      cases List.mem_cons.mp (h.next.next_mem (List.mem_cons_of_mem head helem)) with
      | inl heq =>
        rw [heq]
        exact List.mem_cons_self
      | inr hmem => exact List.mem_cons_of_mem head ((List.mem_erase_of_ne hne).mpr hmem)
    have hloop := hdeleted.prev_next _ hin
    rw [hself] at hloop
    cases List.mem_cons.mp hin with
    | inl heq =>
      have hhead := hdeleted.next.next_head
      rw [heq] at hloop
      rw [hloop] at hhead
      cases hl : l.erase elem with
      | nil =>
        cases List.erase_eq_nil_iff.mp hl with
        | inl hnil =>
          rw [hnil] at helem
          cases helem
        | inr hone => exact hone
      | cons y ys =>
        rw [hl] at hhead
        have hy : y ∈ l.erase elem := by
          rw [hl]
          exact List.mem_cons_self
        exact absurd hhead.symm (hdeleted.next.ne_head hy)
    | inr hmem => exact absurd hloop (hdeleted.next.next_ne_self hmem)
  . intro hl
    subst hl
    rw [List.erase_cons_head]
    exact h.delete_last

end Sequence

variable [DecidableEq α] {m : α → LlistHeader α} {head elem : α} {l : List α}

theorem llistDelete_orphan (m : α → LlistHeader α) (elem : α) : llistDelete m elem elem = ⟨elem, elem⟩ := by
  apply LlistHeader.ext
  . rw [llistDelete_prev, if_pos rfl]
  . rw [llistDelete_next, if_pos rfl]

theorem llist_sequence (h : LlistRun LlistOp.DeletesLast head m l)
    : Sequence m head l ∧ ∀ elem, llistDelete m elem elem = ⟨elem, elem⟩ := by
  refine ⟨?_, llistDelete_orphan m⟩
  induction h with
  | init m => exact Sequence.initHead m head
  | step h op hallowed hQ ih =>
    cases op with
    | append elem => exact ih.append hallowed
    | prepend elem => exact ih.prepend hallowed
    | delete elem => exact (ih.delete_iff hallowed).mpr hQ

theorem llist_sequence_example
    : ∃ m, LlistRun LlistOp.DeletesLast 0 m [2, 3]
        ∧
      Sequence m 0 [2, 3] ∧ ∀ elem, llistDelete m elem elem = ⟨elem, elem⟩ := by
  have hinit : LlistRun LlistOp.DeletesLast 0 (llistInitHead (fun _ => ⟨0, 0⟩) 0) [] := .init _
  have hone := hinit.step (.append 1) (by simp [LlistOp.Allowed]) trivial
  have hnone := hone.step (.delete 1) (by simp [LlistOp.Allowed, LlistOp.apply]) rfl
  have htwo := hnone.step (.append 2) (by simp [LlistOp.Allowed, LlistOp.apply]) trivial
  have hthree := htwo.step (.prepend 3) (by simp [LlistOp.Allowed, LlistOp.apply]) trivial
  exact ⟨_, hthree, llist_sequence hthree⟩

/--
The first of two members is deleted.
-/
theorem llist_not_sequence : ∃ m, LlistRun (fun _ _ => True) 0 m [1] ∧ ¬Sequence m 0 [1] := by
  have hinit : LlistRun (fun _ _ => True) 0 (llistInitHead (fun _ => ⟨0, 0⟩) 0) [] := .init _
  have hone := hinit.step (.append 1) (by simp [LlistOp.Allowed]) trivial
  have htwo := hone.step (.append 2) (by simp [LlistOp.Allowed, LlistOp.apply]) trivial
  have hdeleted := htwo.step (.delete 2) (by simp [LlistOp.Allowed, LlistOp.apply]) trivial
  refine ⟨_, hdeleted, ?_⟩
  intro hsequence
  have hnext := hsequence.prev_next 1 (by decide)
  revert hnext
  decide

end AwaOS
