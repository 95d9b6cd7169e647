import AwaOS.Pmm.Lemmas.Alloc
import AwaOS.Vmm.Impl
import AwaOS.Vmm.Lemmas.Window

/-!
What `__vmm_map_internal` can do, case by case.
-/

namespace AwaOS

namespace Machine

variable {s : Machine}

/--
The state after a call of `pmm_alloc_page`.
-/
def allocated (s : Machine) : Machine :=
  {
    s with
    pmm := (pmmAllocPage s.pmm).2
    nullReturned := s.nullReturned || (pmmAllocPage s.pmm).1 = 0
  }

/--
The state after a call of `pmm_free_page`.
-/
def released (s : Machine) (page : Word) : Machine :=
  s.setPmm (pmmFreePage s.pmm page).2

/--
The state after a call of `pmm_free_page` for the frame of a present entry.
-/
def releasedEntry (s : Machine) (entry : Word) : Machine :=
  if isCached entry then s.released (pgAlign entry) else s

/--
The state after entry `j` of page table `i` was written.
-/
def setTable (s : Machine) (i j : Nat) (w : Word) : Machine :=
  s.setWord (frameOf (s.dir i)) j w

/--
The state after an empty page table was put in entry `i` of the directory.
-/
def installTable (s : Machine) (i : Nat) (w : Word) : Machine :=
  (s.setWord s.cr3 i w).zeroWords (frameOf w) 0 1024

theorem callPmmAllocPage_eq (s : Machine)
    : callPmmAllocPage s = .ok (pmmAllocPage s.pmm).1 s.allocated := by
  rfl

theorem callPmmFreePage_eq (s : Machine) (page : Word)
    : callPmmFreePage page s = .ok (pmmFreePage s.pmm page).1 (s.released page) := by
  rfl

/--
The frames of the directory and of all page tables are marked as occupied.
-/
def TablesOccupied (s : Machine) : Prop :=
  ∀ i, i < 1024 → s.dir i ≠ 0 → s.pmm.occupied (frameOf (s.dir i)) = true

/--
The entries of `MakeTable` and `MakeEntry` are the ways in which the two parts of `__vmm_map_internal`
end.
-/
inductive MakeTable (s : Machine) (i : Nat) (attr : Word) : EStateM.Result PageFault Machine Bool → Prop
  | kept (hne : s.dir i ≠ 0) : MakeTable s i attr (.ok true s)
  | null (hzero : s.dir i = 0) (hnull : (pmmAllocPage s.pmm).1 = 0) : MakeTable s i attr (.ok false s.allocated)
  | made (hzero : s.dir i = 0) (hfound : (pmmAllocPage s.pmm).1 ≠ 0) (hattr : isCached attr = true)
      : MakeTable s i attr (.ok true (s.allocated.installTable i (newL1Entry attr (pmmAllocPage s.pmm).1)))
  | fault (hzero : s.dir i = 0) (hfound : (pmmAllocPage s.pmm).1 ≠ 0) (hattr : isCached attr = false)
      : MakeTable s i attr
          (.error ⟨l2Vaddr i⟩ (s.allocated.setWord s.cr3 i (newL1Entry attr (pmmAllocPage s.pmm).1)))

inductive MakeEntry (s : Machine) (i j : Nat) (pa attr : Word) (forced : Bool)
    : EStateM.Result PageFault Machine Bool → Prop
  | fault (habsent : isCached (s.dir i) = false)
      : MakeEntry s i j pa attr forced (.error ⟨entryAddr (l2Vaddr i) j⟩ s)
  | taken (hpresent : isCached (s.dir i) = true) (hne : s.table i j ≠ 0) (hforced : forced = false)
      : MakeEntry s i j pa attr forced (.ok false s)
  | made (hpresent : isCached (s.dir i) = true) (hempty : s.table i j = 0)
      : MakeEntry s i j pa attr forced (.ok true (s.setTable i j (newL2Entry attr pa)))
  | forced (hpresent : isCached (s.dir i) = true) (hne : s.table i j ≠ 0) (hforced : forced = true)
      : MakeEntry s i j pa attr forced
          (.ok true ((s.releasedEntry (s.table i j)).setTable i j (newL2Entry attr pa)))

theorem SelfMapped.congr {s' : Machine} (h : s.SelfMapped) (hmem : s'.mem = s.mem) (hcr3 : s'.cr3 = s.cr3)
    : s'.SelfMapped := by
  have hdir : ∀ i, s'.dir i = s.dir i := by
    intro i
    unfold dir
    rw [hmem, hcr3]
  constructor
  . rw [hdir]
    exact h.present
  . rw [hdir, hcr3]
    exact h.self

theorem SelfMapped.setDir (h : s.SelfMapped) (i : Nat) (w : Word) (hi : i ≠ 1023)
    : (s.setWord s.cr3 i w).SelfMapped := by
  have hdir : (s.setWord s.cr3 i w).dir 1023 = s.dir 1023 := by
    simp only [dir, setWord, Function.update_self, Function.update_of_ne (Ne.symm hi)]
  constructor
  . rw [hdir]
    exact h.present
  . rw [hdir]
    exact h.self

theorem dir_setDir_self (s : Machine) (i : Nat) (w : Word) : (s.setWord s.cr3 i w).dir i = w := by
  simp only [dir, setWord, Function.update_self]

theorem frameOf_lt (entry : Word) : frameOf entry < 2 ^ 20 := by
  have := entry.isLt
  unfold frameOf
  rw [BitVec.toNat_ushiftRight, Nat.shiftRight_eq_div_pow]
  omega

theorem frameOf_newL2Entry (flags addr : Word) : frameOf (newL2Entry flags addr) = (addr >>> 12).toNat := by
  unfold frameOf
  rw [newL2Entry_shift]

/--
A frame that `pmm_alloc_page` hands out is neither the directory's nor that of a page table.
-/
theorem TablesOccupied.fresh (h : s.TablesOccupied) (hfound : (pmmAllocPage s.pmm).1 ≠ 0) (i : Nat)
    (hi : i < 1024) (hne : s.dir i ≠ 0)
    : frameOf (s.dir i) ≠ ((pmmAllocPage s.pmm).1 >>> 12).toNat := by
  intro heq
  have hfree := (pmmAllocPage_took s.pmm hfound).free
  rw [← heq, h i hi hne] at hfree
  contradiction

end Machine

open Machine

namespace vmmMapInternal

theorem makeTable_cases {s : Machine} (h : s.SelfMapped) (hocc : s.TablesOccupied) (i : Nat) (hi : i < 1024)
    (attr : Word)
    : MakeTable s i attr (makeTable i attr s) := by
  unfold makeTable
  rw [bind_ok _ (h.load_l1 i hi)]
  by_cases hzero : s.dir i = 0
  . rw [if_pos hzero, bind_ok _ (callPmmAllocPage_eq s)]
    by_cases hnull : (pmmAllocPage s.pmm).1 = 0
    . rw [if_pos hnull]
      exact .null hzero hnull
    . have hi' : i ≠ 1023 := by
        intro heq
        subst heq
        exact ne_zero_of_isCached h.present hzero
      have halloc : s.allocated.SelfMapped := h.congr rfl rfl
      have hlink := halloc.store_l1 i hi (newL1Entry attr (pmmAllocPage s.pmm).1)
      have hlinked := halloc.setDir i (newL1Entry attr (pmmAllocPage s.pmm).1) hi'
      have hdir := s.allocated.dir_setDir_self i (newL1Entry attr (pmmAllocPage s.pmm).1)
      have hcached : isCached (newL1Entry attr (pmmAllocPage s.pmm).1) = isCached attr := by
        rw [newL1Entry_eq, isCached_newL2Entry]
      rw [if_neg hnull, bind_ok _ hlink]
      cases hattr : isCached attr with
      | false =>
        have hfault := hlinked.memsetZero_table_fault i hi (by rw [hdir, hcached, hattr])
        rw [bind_error _ hfault]
        exact .fault hzero hnull hattr
      | true =>
        have hframe : frameOf (newL1Entry attr (pmmAllocPage s.pmm).1) ≠ s.cr3 := by
          rw [newL1Entry_eq, frameOf_newL2Entry, ← h.self]
          exact (hocc.fresh hnull 1023 (by decide) (ne_zero_of_isCached h.present)).symm
        have hcleared := hlinked.memsetZero_table i hi (by rw [hdir, hcached, hattr])
          (by rw [hdir]; exact hframe)
        rw [bind_ok _ hcleared, hdir]
        exact .made hzero hnull hattr
  . rw [if_neg hzero]
    exact .kept hzero

theorem makeEntry_cases {s : Machine} (h : s.SelfMapped) (i j : Nat) (hi : i < 1024) (hj : j < 1024)
    (pa attr : Word) (forced : Bool)
    : MakeEntry s i j pa attr forced (makeEntry i j pa attr forced s) := by
  unfold makeEntry
  dsimp only
  cases hpresent : isCached (s.dir i) with
  | false =>
    rw [bind_error _ (h.load_l2_fault i j hi hj hpresent)]
    exact .fault hpresent
  | true =>
    rw [bind_ok _ (h.load_l2 i j hi hj hpresent)]
    by_cases hempty : s.table i j = 0
    . simp only [hempty, ne_eq, not_true_eq_false, false_and, ↓reduceIte]
      rw [bind_ok _ (h.store_l2 i j hi hj _ hpresent)]
      exact .made hpresent hempty
    . cases forced with
      | false =>
        simp only [hempty, ne_eq, not_false_eq_true, true_and, ↓reduceIte, Bool.not_false]
        exact .taken hpresent hempty rfl
      | true =>
        have hmade := @MakeEntry.forced s i j pa attr true hpresent hempty rfl
        simp only [hempty, ne_eq, not_false_eq_true, true_and, ↓reduceIte, Bool.not_true,
          Bool.false_eq_true, hasFlags_pgPresent]
        unfold releasedEntry at hmade
        split
        . next hcached =>
          have hreleased : (s.released (pgAlign (s.table i j))).SelfMapped := h.congr rfl rfl
          rw [if_pos hcached] at hmade
          rw [bind_ok _ (callPmmFreePage_eq s _), bind_ok _ (hreleased.store_l2 i j hi hj _ hpresent)]
          exact hmade
        . next hcached =>
          rw [if_neg hcached] at hmade
          rw [bind_ok _ (h.store_l2 i j hi hj _ hpresent)]
          exact hmade

end vmmMapInternal

theorem vmmMapInternal_eq (i j : Nat) (pa attr : Word) (forced : Bool) (s : Machine)
    : vmmMapInternal i j pa attr forced s
        =
      match vmmMapInternal.makeTable i attr s with
      | .ok true s' => vmmMapInternal.makeEntry i j pa attr forced s'
      | .ok false s' => .ok false s'
      | .error e s' => .error e s' := by
  unfold vmmMapInternal
  cases hmade : vmmMapInternal.makeTable i attr s with
  | ok made s' =>
    rw [bind_ok _ hmade]
    cases made with
    | true => rfl
    | false => rfl
  | error e s' => rw [bind_error _ hmade]

end AwaOS
