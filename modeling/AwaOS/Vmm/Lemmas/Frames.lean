import AwaOS.Vmm.Lemmas.MapPage

/-!
What mapping a page does to the bitmap of the frames, whatever the page tables are.
-/

namespace AwaOS

/--
A relation between states that only concerns the physical memory manager.
-/
structure PmmRelation (R : Machine → Machine → Prop) : Prop where
  of_eq : ∀ s s', s'.pmm = s.pmm → R s s'
  trans : ∀ s₁ s₂ s₃, R s₁ s₂ → R s₂ s₃ → R s₁ s₃

section Relates

variable {R : Machine → Machine → Prop} (hR : PmmRelation R)
include hR

theorem PmmRelation.pure {α : Type} (a : α) : Relates R (Pure.pure a : KernelM α) :=
  fun s => hR.of_eq s s rfl

theorem PmmRelation.bind {α β : Type} {x : KernelM α} {f : α → KernelM β} (hx : Relates R x)
    (hf : ∀ a, Relates R (f a))
    : Relates R (x >>= f) :=
  Relates.bind hR.trans hx hf

theorem PmmRelation.load (va : Word) : Relates R (load va) := by
  intro s
  apply hR.of_eq
  unfold AwaOS.load
  split
  . rfl
  . rfl

theorem PmmRelation.store (va w : Word) : Relates R (store va w) := by
  intro s
  apply hR.of_eq
  unfold AwaOS.store
  split
  . rfl
  . rfl

theorem PmmRelation.memsetZero (ptr : Word) (count : Nat) : Relates R (memsetZero ptr count) := by
  induction count generalizing ptr with
  | zero => exact hR.pure ()
  | succ count ih => exact hR.bind (hR.store ptr 0) (fun _ => ih (ptr + 4))

/--
Without force no frame is released.
-/
theorem PmmRelation.makeEntry (l1Inx l2Inx : Nat) (pa attr : Word)
    : Relates R (vmmMapInternal.makeEntry l1Inx l2Inx pa attr false) := by
  refine hR.bind (hR.load _) (fun l2pte => ?_)
  split
  . exact hR.pure false
  . next hfree =>
    have hzero : l2pte = 0 := by simpa using hfree
    rw [if_neg (fun hand => hand.1 hzero)]
    exact hR.bind (hR.store _ _) (fun _ => hR.pure true)

variable (halloc : ∀ s : Machine, R s s.allocated)
include halloc

theorem PmmRelation.makeTable (l1Inx : Nat) (attr : Word)
    : Relates R (vmmMapInternal.makeTable l1Inx attr) := by
  refine hR.bind (hR.load _) (fun l1pte => ?_)
  split
  . refine hR.bind (fun s => halloc s) (fun newL1ptPa => ?_)
    split
    . exact hR.pure false
    . refine hR.bind (hR.store _ _) (fun _ => ?_)
      exact hR.bind (hR.memsetZero _ _) (fun _ => hR.pure true)
  . exact hR.pure true

theorem PmmRelation.mapInternal (l1Inx l2Inx : Nat) (pa attr : Word)
    : Relates R (vmmMapInternal l1Inx l2Inx pa attr false) := by
  refine hR.bind (hR.makeTable halloc l1Inx attr) (fun made => ?_)
  split
  . exact hR.makeEntry l1Inx l2Inx pa attr
  . exact hR.pure false

omit halloc

open vmmMapPage in
theorem PmmRelation.search (pa tattr : Word) (l1Inx l2Inx : Nat) (hl2 : l2Inx ≤ pgMaxEntries) (l1pte : Word)
    : Relates R (search pa tattr l1Inx l2Inx hl2 l1pte) := by
  unfold vmmMapPage.search
  split
  . have hcarry : Relates R (carryEntry l1Inx l2Inx l1pte) := by
      unfold carryEntry
      split
      . exact hR.load _
      . exact hR.pure l1pte
    refine hR.bind hcarry (fun l1pte => ?_)
    refine hR.bind (hR.load _) (fun l2pte => ?_)
    split
    . exact hR.bind (hR.store _ _) (fun _ => hR.pure _)
    . exact PmmRelation.search pa tattr _ _ _ l1pte
  . exact hR.pure _
termination_by pgMaxEntries * pgMaxEntries + 1 - (l1Inx * pgMaxEntries + l2Inx)
decreasing_by
  have hpos := carry_pos l1Inx l2Inx
  have hle : l2Inx ≤ 1024 := hl2
  simp only [pgMaxEntries] at *
  omega

include halloc

theorem PmmRelation.mapPage (va pa tattr : Word) : Relates R (vmmMapPage va pa tattr) := by
  unfold vmmMapPage
  split
  . exact hR.pure 0
  . refine hR.bind (hR.load _) (fun l1pte => ?_)
    refine hR.bind (hR.search pa tattr _ _ _ l1pte) (fun exit => ?_)
    split
    . exact hR.pure _
    . split
      . exact hR.pure 0
      . refine hR.bind (hR.mapInternal halloc _ _ _ _) (fun made => ?_)
        split
        . exact hR.pure 0
        . exact hR.pure _

end Relates

/--
No page becomes free.
-/
theorem pmmRelation_occupied
    : PmmRelation (fun s s' => ∀ ppn, s.pmm.occupied ppn = true → s'.pmm.occupied ppn = true) where
  of_eq := fun _ _ heq ppn hppn => by rwa [heq]
  trans := fun _ _ _ h₁ h₂ ppn hppn => h₂ ppn (h₁ ppn hppn)

namespace Machine

variable {s : Machine}

end Machine

end AwaOS
