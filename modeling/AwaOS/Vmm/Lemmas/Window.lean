import AwaOS.Lib.StateMonad
import AwaOS.Page.Lemmas
import AwaOS.Vmm.Machine

/-!
The recursive window: through the last entry of the directory the words of the directory and of all
page tables are reached at fixed virtual addresses.
-/

namespace AwaOS

theorem pure_eq {α : Type} {s : Machine} (a : α) : (pure a : KernelM α) s = .ok a s := by
  rfl

namespace Machine

/--
Entry `i` of the directory.
-/
def dir (s : Machine) (i : Nat) : Word :=
  s.mem s.cr3 i

/--
Entry `j` of the page table that entry `i` of the directory refers to.
-/
def table (s : Machine) (i j : Nat) : Word :=
  s.mem (frameOf (s.dir i)) j

/--
Entry 1023 of the directory refers to the directory itself.
-/
structure SelfMapped (s : Machine) : Prop where
  present : isCached (s.dir 1023) = true
  self : frameOf (s.dir 1023) = s.cr3

/--
Besides, the entries of the directory that are not zero refer to distinct frames.
-/
structure Recursive (s : Machine) : Prop extends s.SelfMapped where
  distinct : ∀ i j, i < 1024 → j < 1024 → s.dir i ≠ 0 → s.dir j ≠ 0 →
    frameOf (s.dir i) = frameOf (s.dir j) → i = j

end Machine

theorem toNat_l1EntryAddr (i : Nat) (hi : i < 1024)
    : (entryAddr l1BaseVaddr i).toNat = 0xFFFFF000 + 4 * i := by
  simp only [entryAddr, l1BaseVaddr, BitVec.toNat_add, BitVec.toNat_ofNat, BitVec.ofNat_eq_ofNat]
  omega

theorem toNat_l2Vaddr (i : Nat) (hi : i < 1024) : (l2Vaddr i).toNat = 0xFFC00000 + 4096 * i := by
  have hshift : i <<< 12 = 4096 * i := by
    rw [Nat.shiftLeft_eq]
    omega
  have hlow : (BitVec.ofNat 32 (i <<< 12)).toNat = i <<< 12 := by
    rw [BitVec.toNat_ofNat, Nat.mod_eq_of_lt (by omega)]
  have hsum : i <<< 12 < 2 ^ 22 := by
    rw [hshift]
    omega
  -- the base has no bit below bit 22, and the offset has no other
  have hor := Nat.shiftLeft_add_eq_or_of_lt hsum 1023
  have hbase : l2BaseVaddr.toNat = 1023 <<< 22 := by decide
  have hhigh : 1023 <<< 22 = 0xFFC00000 := by decide
  unfold l2Vaddr
  rw [BitVec.toNat_or, hbase, hlow, ← hor, hshift, hhigh]

theorem l2Vaddr_ne_zero (i : Nat) (hi : i < 1024) : l2Vaddr i ≠ 0 := by
  intro h
  have := toNat_l2Vaddr i hi
  simp [h] at this
  omega

theorem toNat_l2EntryAddr (i j : Nat) (hi : i < 1024) (hj : j < 1024)
    : (entryAddr (l2Vaddr i) j).toNat = 0xFFC00000 + 4096 * i + 4 * j := by
  simp only [entryAddr, BitVec.toNat_add, BitVec.toNat_ofNat, toNat_l2Vaddr i hi]
  omega

theorem isCached_zero : isCached 0 = false := by
  rfl

theorem ne_zero_of_isCached {entry : Word} (h : isCached entry = true) : entry ≠ 0 := by
  intro hzero
  rw [hzero, isCached_zero] at h
  contradiction

namespace Machine

theorem Recursive.ne_cr3 {s : Machine} (h : s.Recursive) (i : Nat) (hi : i < 1023) (hne : s.dir i ≠ 0)
    : frameOf (s.dir i) ≠ s.cr3 := by
  intro heq
  rw [← h.self] at heq
  have := h.distinct i 1023 (by omega) (by decide) hne (ne_zero_of_isCached h.present) heq
  omega

theorem SelfMapped.translate_l1 {s : Machine} (h : s.SelfMapped) (i : Nat) (hi : i < 1024)
    : s.translate (entryAddr l1BaseVaddr i) = some (s.cr3, i) := by
  have haddr := toNat_l1EntryAddr i hi
  have hl1 : l1Index (entryAddr l1BaseVaddr i) = 1023 := by
    rw [l1Index_eq, haddr]
    omega
  have hl2 : l2Index (entryAddr l1BaseVaddr i) = 1023 := by
    rw [l2Index_eq, haddr]
    omega
  have hoffset : (pgOffset (entryAddr l1BaseVaddr i)).toNat / 4 = i := by
    rw [toNat_pgOffset, haddr]
    omega
  have hpresent := h.present
  have hself := h.self
  unfold dir at *
  simp only [translate, hl1, hl2, hoffset, hpresent, hself, ↓reduceIte]

theorem SelfMapped.translate_l2 {s : Machine} (h : s.SelfMapped) (i j : Nat) (hi : i < 1024) (hj : j < 1024)
    : s.translate (entryAddr (l2Vaddr i) j)
        =
      if isCached (s.dir i) then some (frameOf (s.dir i), j) else none := by
  have haddr := toNat_l2EntryAddr i j hi hj
  have hl1 : l1Index (entryAddr (l2Vaddr i) j) = 1023 := by
    rw [l1Index_eq, haddr]
    omega
  have hl2 : l2Index (entryAddr (l2Vaddr i) j) = i := by
    rw [l2Index_eq, haddr]
    omega
  have hoffset : (pgOffset (entryAddr (l2Vaddr i) j)).toNat / 4 = j := by
    rw [toNat_pgOffset, haddr]
    omega
  have hpresent := h.present
  have hself := h.self
  unfold dir at *
  simp only [translate, hl1, hl2, hoffset, hpresent, hself, ↓reduceIte]

variable {s : Machine}

theorem SelfMapped.load_l1 (h : s.SelfMapped) (i : Nat) (hi : i < 1024)
    : load (entryAddr l1BaseVaddr i) s = .ok (s.dir i) s := by
  simp only [load, h.translate_l1 i hi]
  rfl

theorem SelfMapped.store_l1 (h : s.SelfMapped) (i : Nat) (hi : i < 1024) (w : Word)
    : store (entryAddr l1BaseVaddr i) w s = .ok () (s.setWord s.cr3 i w) := by
  simp only [store, h.translate_l1 i hi]

theorem SelfMapped.load_l2 (h : s.SelfMapped) (i j : Nat) (hi : i < 1024) (hj : j < 1024)
    (hpresent : isCached (s.dir i) = true)
    : load (entryAddr (l2Vaddr i) j) s = .ok (s.table i j) s := by
  simp only [load, h.translate_l2 i j hi hj, hpresent, ↓reduceIte]
  rfl

theorem SelfMapped.load_l2_fault (h : s.SelfMapped) (i j : Nat) (hi : i < 1024) (hj : j < 1024)
    (habsent : isCached (s.dir i) = false)
    : load (entryAddr (l2Vaddr i) j) s = .error ⟨entryAddr (l2Vaddr i) j⟩ s := by
  simp only [load, h.translate_l2 i j hi hj, habsent, Bool.false_eq_true, ↓reduceIte]

theorem SelfMapped.store_l2 (h : s.SelfMapped) (i j : Nat) (hi : i < 1024) (hj : j < 1024) (w : Word)
    (hpresent : isCached (s.dir i) = true)
    : store (entryAddr (l2Vaddr i) j) w s = .ok () (s.setWord (frameOf (s.dir i)) j w) := by
  simp only [store, h.translate_l2 i j hi hj, hpresent, ↓reduceIte]

theorem SelfMapped.store_l2_fault (h : s.SelfMapped) (i j : Nat) (hi : i < 1024) (hj : j < 1024) (w : Word)
    (habsent : isCached (s.dir i) = false)
    : store (entryAddr (l2Vaddr i) j) w s = .error ⟨entryAddr (l2Vaddr i) j⟩ s := by
  simp only [store, h.translate_l2 i j hi hj, habsent, Bool.false_eq_true, ↓reduceIte]

/--
Words `start`, ..., `start + count - 1` of a frame become zero.
-/
def zeroWords (s : Machine) (frame start count : Nat) : Machine :=
  { s with
    mem := Function.update s.mem frame
      fun k => if start ≤ k ∧ k < start + count then 0 else s.mem frame k }

theorem zeroWords_succ (s : Machine) (frame start count : Nat)
    : (s.setWord frame start 0).zeroWords frame (start + 1) count = s.zeroWords frame start (count + 1) := by
  unfold zeroWords setWord
  simp only [Function.update_self, Function.update_idem]
  congr 2
  funext k
  by_cases hk : k = start
  . have h1 : start ≤ k ∧ k < start + (count + 1) := by omega
    have h2 : ¬(start + 1 ≤ k ∧ k < start + 1 + count) := by omega
    rw [if_pos h1, if_neg h2, hk, Function.update_self]
  . have hiff : (start + 1 ≤ k ∧ k < start + 1 + count) ↔ (start ≤ k ∧ k < start + (count + 1)) := by omega
    simp only [hiff, Function.update_of_ne hk]

theorem zeroWords_zero (s : Machine) (frame start : Nat) : s.zeroWords frame start 0 = s := by
  have hnone : ∀ k, ¬(start ≤ k ∧ k < start + 0) := by
    intro k
    omega
  unfold zeroWords
  simp only [hnone, ↓reduceIte, Function.update_eq_self]

theorem entryAddr_succ (pt : Word) (j : Nat) : entryAddr pt j + 4 = entryAddr pt (j + 1) := by
  have : BitVec.ofNat 32 (4 * (j + 1)) = BitVec.ofNat 32 (4 * j) + 4#32 := by
    rw [Nat.mul_add, BitVec.ofNat_add]
  simp only [entryAddr, this, BitVec.add_assoc, BitVec.ofNat_eq_ofNat]

theorem dir_setWord_of_ne (frame j : Nat) (w : Word) (hframe : frame ≠ s.cr3) (i : Nat)
    : (s.setWord frame j w).dir i = s.dir i := by
  unfold dir setWord
  dsimp
  rw [Function.update_of_ne (Ne.symm hframe)]

theorem SelfMapped.setWord_of_ne (h : s.SelfMapped) (frame j : Nat) (w : Word) (hframe : frame ≠ s.cr3)
    : (s.setWord frame j w).SelfMapped where
  present := by
    rw [dir_setWord_of_ne frame j w hframe]
    exact h.present
  self := by
    rw [dir_setWord_of_ne frame j w hframe]
    exact h.self

/--
Clearing a page table through the window, from word `j` on.
-/
theorem SelfMapped.memsetZero (h : s.SelfMapped) (i j count : Nat) (hi : i < 1024)
    (hpresent : isCached (s.dir i) = true) (hframe : frameOf (s.dir i) ≠ s.cr3) (hcount : j + count ≤ 1024)
    : AwaOS.memsetZero (entryAddr (l2Vaddr i) j) count s
        =
      .ok () (s.zeroWords (frameOf (s.dir i)) j count) := by
  induction count generalizing s j with
  | zero =>
    rw [zeroWords_zero]
    rfl
  | succ count ih =>
    have hdir := dir_setWord_of_ne (frameOf (s.dir i)) j 0 hframe i
    unfold AwaOS.memsetZero
    rw [bind_ok _ (h.store_l2 i j hi (by omega) 0 hpresent), entryAddr_succ]
    rw [ih (h.setWord_of_ne _ j 0 hframe)]
    . rw [hdir, zeroWords_succ]
    . rw [hdir]
      exact hpresent
    . rw [hdir]
      exact hframe
    . omega

theorem entryAddr_zero (pt : Word) : entryAddr pt 0 = pt := by
  simp only [entryAddr, Nat.mul_zero, BitVec.add_zero]

/--
`memset((void*)L2_VADDR(i), 0, PG_SIZE)`
-/
theorem SelfMapped.memsetZero_table (h : s.SelfMapped) (i : Nat) (hi : i < 1024)
    (hpresent : isCached (s.dir i) = true) (hframe : frameOf (s.dir i) ≠ s.cr3)
    : AwaOS.memsetZero (l2Vaddr i) pgMaxEntries s = .ok () (s.zeroWords (frameOf (s.dir i)) 0 1024) := by
  have hzero := h.memsetZero i 0 1024 hi hpresent hframe (by decide)
  rw [entryAddr_zero] at hzero
  exact hzero

theorem SelfMapped.memsetZero_table_fault (h : s.SelfMapped) (i : Nat) (hi : i < 1024)
    (habsent : isCached (s.dir i) = false)
    : AwaOS.memsetZero (l2Vaddr i) pgMaxEntries s = .error ⟨l2Vaddr i⟩ s := by
  have hfault := h.store_l2_fault i 0 hi (by decide) 0 habsent
  rw [entryAddr_zero] at hfault
  exact bind_error _ hfault

end Machine

end AwaOS
