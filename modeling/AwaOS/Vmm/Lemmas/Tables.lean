import AwaOS.Vmm.Lemmas.MapInternal

/-!
What the updates of the machine do to the entries of the directory and of the page tables.
-/

namespace AwaOS

namespace Machine

variable {s : Machine}

@[simp]
theorem dir_allocated (s : Machine) (k : Nat) : s.allocated.dir k = s.dir k := by
  rfl

@[simp]
theorem table_allocated (s : Machine) (k l : Nat) : s.allocated.table k l = s.table k l := by
  rfl

@[simp]
theorem pmm_allocated (s : Machine) : s.allocated.pmm = (pmmAllocPage s.pmm).2 := by
  rfl

@[simp]
theorem dir_released (s : Machine) (page : Word) (k : Nat) : (s.released page).dir k = s.dir k := by
  rfl

@[simp]
theorem table_released (s : Machine) (page : Word) (k l : Nat)
    : (s.released page).table k l = s.table k l := by
  rfl

@[simp]
theorem pmm_released (s : Machine) (page : Word)
    : (s.released page).pmm = (pmmFreePage s.pmm page).2 := by
  rfl

@[simp]
theorem pmm_setTable (s : Machine) (i j : Nat) (w : Word) : (s.setTable i j w).pmm = s.pmm := by
  rfl

@[simp]
theorem pmm_installTable (s : Machine) (i : Nat) (w : Word) : (s.installTable i w).pmm = s.pmm := by
  rfl

theorem occupied_allocated (s : Machine) (frame : Nat) (hframe : s.pmm.occupied frame = true)
    : s.allocated.pmm.occupied frame = true :=
  pmmAllocPage_keeps_occupied s.pmm hframe

theorem occupied_allocated_self (s : Machine) (hfound : (pmmAllocPage s.pmm).1 ≠ 0)
    : s.allocated.pmm.occupied ((pmmAllocPage s.pmm).1 >>> 12).toNat = true := by
  rw [pmm_allocated]
  unfold Pmm.occupied
  rw [(pmmAllocPage_took s.pmm hfound).bitmap, Bitmap.test_set, decide_eq_true rfl, Bool.true_or]

theorem releasedEntry_mem (s : Machine) (entry : Word) : (s.releasedEntry entry).mem = s.mem := by
  unfold releasedEntry
  split
  . rfl
  . rfl

theorem releasedEntry_cr3 (s : Machine) (entry : Word) : (s.releasedEntry entry).cr3 = s.cr3 := by
  unfold releasedEntry
  split
  . rfl
  . rfl

theorem releasedEntry_nullReturned (s : Machine) (entry : Word)
    : (s.releasedEntry entry).nullReturned = s.nullReturned := by
  unfold releasedEntry
  split
  . rfl
  . rfl

theorem dir_congr {s' : Machine} (hmem : s'.mem = s.mem) (hcr3 : s'.cr3 = s.cr3) (k : Nat)
    : s'.dir k = s.dir k := by
  unfold dir
  rw [hmem, hcr3]

theorem table_congr {s' : Machine} (hmem : s'.mem = s.mem) (hcr3 : s'.cr3 = s.cr3) (k l : Nat)
    : s'.table k l = s.table k l := by
  unfold table
  rw [dir_congr hmem hcr3, hmem]

theorem Recursive.congr {s' : Machine} (h : s.Recursive) (hmem : s'.mem = s.mem) (hcr3 : s'.cr3 = s.cr3)
    : s'.Recursive where
  toSelfMapped := h.toSelfMapped.congr hmem hcr3
  distinct := by
    intro i j hi hj
    rw [dir_congr hmem hcr3, dir_congr hmem hcr3]
    exact h.distinct i j hi hj

theorem SelfMapped.table_self (h : s.SelfMapped) (j : Nat) : s.table 1023 j = s.dir j := by
  unfold table
  rw [h.self]
  rfl

section SetTable

variable (i j : Nat) (w : Word)

theorem Recursive.dir_setTable (h : s.Recursive) (hi : i < 1023) (hne : s.dir i ≠ 0) (k : Nat)
    : (s.setTable i j w).dir k = s.dir k :=
  dir_setWord_of_ne _ j w (h.ne_cr3 i hi hne) k

theorem Recursive.table_setTable (h : s.Recursive) (hi : i < 1023) (hne : s.dir i ≠ 0) (k l : Nat)
    (hk : k < 1024) (hkne : s.dir k ≠ 0)
    : (s.setTable i j w).table k l = if k = i ∧ l = j then w else s.table k l := by
  unfold table
  rw [h.dir_setTable i j w hi hne]
  unfold setTable setWord
  dsimp
  by_cases hki : k = i
  . subst hki
    rw [Function.update_self]
    by_cases hlj : l = j
    . subst hlj
      rw [Function.update_self, if_pos ⟨rfl, rfl⟩]
    . rw [Function.update_of_ne hlj, if_neg (fun hand => hlj hand.2)]
  . have hframe : frameOf (s.dir k) ≠ frameOf (s.dir i) := by
      intro heq
      exact hki (h.distinct k i hk (by omega) hkne hne heq)
    rw [Function.update_of_ne hframe, if_neg (fun hand => hki hand.1)]

theorem Recursive.setTable (h : s.Recursive) (hi : i < 1023) (hne : s.dir i ≠ 0)
    : (s.setTable i j w).Recursive where
  present := by
    rw [h.dir_setTable i j w hi hne]
    exact h.present
  self := by
    rw [h.dir_setTable i j w hi hne]
    exact h.self
  distinct := by
    intro k l hk hl
    rw [h.dir_setTable i j w hi hne, h.dir_setTable i j w hi hne]
    exact h.distinct k l hk hl

end SetTable

/--
No entry of the directory refers to this frame.
-/
def Fresh (s : Machine) (frame : Nat) : Prop :=
  ∀ k, k < 1024 → s.dir k ≠ 0 → frameOf (s.dir k) ≠ frame

section InstallTable

variable (i : Nat) (w : Word)

theorem Fresh.ne_cr3 {frame : Nat} (hfresh : s.Fresh frame) (h : s.SelfMapped) : frame ≠ s.cr3 := by
  rw [← h.self]
  exact (hfresh 1023 (by decide) (ne_zero_of_isCached h.present)).symm

theorem SelfMapped.dir_installTable (h : s.SelfMapped) (hfresh : s.Fresh (frameOf w)) (k : Nat)
    : (s.installTable i w).dir k = if k = i then w else s.dir k := by
  have hcr3 := (hfresh.ne_cr3 h).symm
  unfold installTable zeroWords dir setWord
  dsimp
  rw [Function.update_of_ne hcr3, Function.update_self]
  by_cases hki : k = i
  . subst hki
    rw [Function.update_self, if_pos rfl]
  . rw [Function.update_of_ne hki, if_neg hki]

theorem Recursive.table_installTable (h : s.Recursive) (hfresh : s.Fresh (frameOf w)) (k l : Nat)
    (hk : k < 1023) (hkne : k = i ∨ s.dir k ≠ 0) (hl : l < 1024)
    : (s.installTable i w).table k l = if k = i then 0 else s.table k l := by
  unfold table
  rw [h.dir_installTable i w hfresh]
  unfold installTable zeroWords setWord
  dsimp
  by_cases hki : k = i
  . rw [if_pos hki, if_pos hki, Function.update_self, if_pos ⟨by omega, by omega⟩]
  . have hkne : s.dir k ≠ 0 := hkne.resolve_left hki
    rw [if_neg hki, if_neg hki, Function.update_of_ne (hfresh k (by omega) hkne),
      Function.update_of_ne (h.ne_cr3 k hk hkne)]

theorem Recursive.installTable (h : s.Recursive) (hi : i < 1023) (hfresh : s.Fresh (frameOf w))
    : (s.installTable i w).Recursive where
  present := by
    rw [h.dir_installTable i w hfresh, if_neg (by omega)]
    exact h.present
  self := by
    rw [h.dir_installTable i w hfresh, if_neg (by omega)]
    exact h.self
  distinct := by
    intro k l hk hl
    rw [h.dir_installTable i w hfresh, h.dir_installTable i w hfresh]
    intro hkne hlne heq
    by_cases hki : k = i
    . by_cases hli : l = i
      . rw [hki, hli]
      . rw [if_pos hki, if_neg hli] at heq
        rw [if_neg hli] at hlne
        exact absurd heq.symm (hfresh l hl hlne)
    . rw [if_neg hki] at heq hkne
      by_cases hli : l = i
      . rw [if_pos hli] at heq
        exact absurd heq (hfresh k hk hkne)
      . rw [if_neg hli] at heq hlne
        exact h.distinct k l hk hl hkne hlne heq

end InstallTable

theorem frameOf_newL1Entry (attr addr : Word) : frameOf (newL1Entry attr addr) = (addr >>> 12).toNat := by
  rw [newL1Entry_eq, frameOf_newL2Entry]

theorem TablesOccupied.fresh_newL1Entry (h : s.TablesOccupied) (hfound : (pmmAllocPage s.pmm).1 ≠ 0)
    (attr : Word)
    : s.Fresh (frameOf (newL1Entry attr (pmmAllocPage s.pmm).1)) := by
  intro k hk hne
  rw [frameOf_newL1Entry]
  exact h.fresh hfound k hk hne

end Machine

end AwaOS
