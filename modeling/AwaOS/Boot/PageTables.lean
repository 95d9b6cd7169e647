import AwaOS.Boot.InitPage
import AwaOS.Vmm.Lemmas.MapInternal

/-!
What `_hhk_init` leaves in the directory and in the page tables, word by word, and how these translate addresses.
-/

namespace AwaOS

namespace initPage

/--
Entry `k` of the directory, or of the page tables behind it.
-/
def entryAt (m : LoggedMem) (ptd : Word) (k : Nat) : Word :=
  m.load32 (ptd + BitVec.ofNat 32 (4 * k))

section Entries

variable {sym : LinkerSymbols} {ptd w : Word} {m : LoggedMem} {k : Nat}

theorem setPte_eq (ptd : Word) (ptIndex pteIndex : Nat) (pte : Word) (m : LoggedMem)
    : setPte ptd ptIndex pteIndex pte m
        =
      m.store32 (ptd + BitVec.ofNat 32 (4 * ((ptIndex + 1) * 1024 + pteIndex))) pte := by
  unfold setPte ptAddr
  rw [BitVec.add_assoc, ← BitVec.ofNat_add, ← Nat.mul_add]

theorem entryAt_setPde {i : Nat} (hi : i < 1024) (hk : k < 6144)
    : entryAt (setPde ptd i w m) ptd k = if k = i then w else entryAt m ptd k := by
  unfold entryAt setPde
  by_cases hki : k = i
  . rw [if_pos hki, hki]
    apply LoggedMem.load32_store32_self
  . rw [if_neg hki]
    apply LoggedMem.load32_store32_of_apart
    . omega
    . omega
    . omega

theorem entryAt_mapLow (hk : k < 6144)
    : entryAt (mapLow ptd m) ptd k
        =
      if 1024 ≤ k ∧ k < 1024 + 256 then newL2Entry pgPremRw (BitVec.ofNat 32 ((k - 1024) <<< pgSizeBits))
      else entryAt m ptd k := by
  unfold mapLow
  simp only [setPte_eq]
  exact m.load32_fold_store32 ptd 1024 (fun i => newL2Entry pgPremRw (BitVec.ofNat 32 (i <<< pgSizeBits)))
    (by decide) (by omega)

theorem entryAt_mapHhk (hhhk : sym.hhkPageCount ≤ 768) (hk : k < 6144)
    : entryAt (mapHhk sym ptd m) ptd k
        =
      if 1280 ≤ k ∧ k < 1280 + sym.hhkPageCount then
        newL2Entry pgPremRw (0x100000 + BitVec.ofNat 32 ((k - 1280) <<< pgSizeBits))
      else entryAt m ptd k := by
  have hindex : ∀ i, (pgTableIdentity + 1) * 1024 + (256 + i) = 1280 + i := by
    intro i
    unfold pgTableIdentity
    omega
  unfold mapHhk
  simp only [setPte_eq, hindex]
  exact m.load32_fold_store32 ptd 1280
    (fun i => newL2Entry pgPremRw (0x100000 + BitVec.ofNat 32 (i <<< pgSizeBits)))
    (by omega) (by omega)

theorem entryAt_registerTables {kernelPdeIndex : Nat} (hpde : kernelPdeIndex ≤ 1019) (hk : k < 6144)
    : entryAt (registerTables ptd kernelPdeIndex m) ptd k
        =
      if kernelPdeIndex ≤ k ∧ k < kernelPdeIndex + 3 then
        newL1Entry pgPremRw (ptAddr ptd (pgTableKernel + (k - kernelPdeIndex)))
      else entryAt m ptd k :=
  m.load32_fold_store32 ptd kernelPdeIndex (fun i => newL1Entry pgPremRw (ptAddr ptd (pgTableKernel + i)))
    (show 4 * (kernelPdeIndex + 3) ≤ 2 ^ 32 by omega) (by omega)

theorem entryAt_mapKernel {kernelPteIndex kernelPgCounts : Nat} {kernelPm : Word} (hpte : kernelPteIndex < 1024)
    (hcount : kernelPgCounts ≤ 3072) (hk : k < 6144)
    : entryAt (mapKernel ptd kernelPteIndex kernelPgCounts kernelPm m) ptd k
        =
      if 2048 + kernelPteIndex ≤ k ∧ k < 2048 + kernelPteIndex + kernelPgCounts then
        newL2Entry pgPremRw (kernelPm + BitVec.ofNat 32 ((k - (2048 + kernelPteIndex)) <<< pgSizeBits))
      else entryAt m ptd k := by
  have hindex : ∀ i, (pgTableKernel + 1) * 1024 + (kernelPteIndex + i) = 2048 + kernelPteIndex + i := by
    intro i
    unfold pgTableKernel
    omega
  unfold mapKernel
  simp only [setPte_eq, hindex]
  exact m.load32_fold_store32 ptd (2048 + kernelPteIndex)
    (fun i => newL2Entry pgPremRw (kernelPm + BitVec.ofNat 32 (i <<< pgSizeBits))) (by omega) (by omega)

theorem kpgSize_le : kpgSize ≤ 2 ^ 32 := by
  unfold kpgSize
  omega

theorem entryAt_zeroed (m : LoggedMem) (ptd : Word) {size : Nat} (hsize : size ≤ 2 ^ 32) (hk : 4 * k + 4 ≤ size)
    : entryAt (Nat.fold size (fun i _ m => m.store8 (ptd + BitVec.ofNat 32 i) 0) m) ptd k = 0 := by
  have hzero : ∀ b, offsetFrom (ptd + BitVec.ofNat 32 (4 * k)) b < 4 →
      (Nat.fold size (fun i _ m => m.store8 (ptd + BitVec.ofNat 32 i) 0) m).byte b = 0 := by
    intro b hb
    rw [offsetFrom_add_lt_iff ptd b (by omega)] at hb
    rw [m.byte_fold_store8 ptd (fun _ => 0) hsize, if_pos (by omega)]
  unfold entryAt
  rw [@LoggedMem.load32_congr ⟨fun _ => 0, []⟩ _ (ptd + BitVec.ofNat 32 (4 * k)) hzero]
  change 0#8 ++ 0#8 ++ 0#8 ++ 0#8 = 0#32
  decide

end Entries

section Inside

variable {sym : LinkerSymbols} {ptd w : Word} {m : LoggedMem}

theorem inside_setPde (h : m.Inside ptd kpgSize) {i : Nat} (hi : i < 1024)
    : (setPde ptd i w m).Inside ptd kpgSize := by
  apply h.store32
  . unfold kpgSize
    omega
  . exact kpgSize_le

theorem inside_setPte (h : m.Inside ptd kpgSize) {ptIndex pteIndex : Nat}
    (hin : (ptIndex + 1) * 1024 + pteIndex < 6144)
    : (setPte ptd ptIndex pteIndex w m).Inside ptd kpgSize := by
  rw [setPte_eq]
  apply h.store32
  . unfold kpgSize
    omega
  . exact kpgSize_le

/--
No more than 768 pages of `hhk_init`, and 3072 of the kernel from any entry on, fit in the five page tables.
-/
theorem inside_hhkInit (hhhk : sym.hhkPageCount ≤ 768) (hpde : l1Index sym.kernelStart ≤ 1019)
    (h : m.Inside ptd kpgSize) {m' : LoggedMem} (hresult : hhkInit sym ptd kpgSize m = some m')
    : m'.Inside ptd kpgSize := by
  have hpte := l2Index_lt sym.kernelStart
  unfold hhkInit initPage at hresult
  dsimp only at hresult
  split at hresult
  . contradiction
  . next hcount =>
    unfold pgTableStack pgTableKernel pgMaxEntries at hcount
    obtain rfl := Option.some.inj hresult
    apply inside_setPde
    . apply LoggedMem.Inside.fold
      . apply LoggedMem.Inside.fold
        . apply LoggedMem.Inside.fold
          . apply LoggedMem.Inside.fold
            . apply inside_setPde
              . apply LoggedMem.Inside.fold h
                intro i hi m hm
                exact hm.store8 0 hi kpgSize_le
              . decide
            . intro i hi m hm
              apply inside_setPte hm
              unfold pgTableIdentity
              omega
          . intro i hi m hm
            apply inside_setPte hm
            unfold pgTableIdentity
            omega
        . intro i hi m hm
          apply inside_setPde hm
          unfold pgTableStack pgTableKernel at hi
          omega
      . intro i hi m hm
        apply inside_setPte hm
        unfold pgTableKernel
        omega
    . decide

end Inside

/--
The directory and the page tables when `_init_page` has returned.
-/
structure Built (sym : LinkerSymbols) (ptd : Word) (m : LoggedMem) : Prop where
  identityPde : entryAt m ptd 0 = newL1Entry pgPresent (ptAddr ptd pgTableIdentity)
  kernelPde : ∀ i, i < 3 →
    entryAt m ptd (l1Index sym.kernelStart + i) = newL1Entry pgPremRw (ptAddr ptd (pgTableKernel + i))
  selfPde : entryAt m ptd 1023 = newL1Entry tSelfRefPerm ptd
  otherPde : ∀ i, i < 1023 → i ≠ 0 → ¬(l1Index sym.kernelStart ≤ i ∧ i < l1Index sym.kernelStart + 3) →
    entryAt m ptd i = 0
  identityPte : ∀ j, j < 1024 →
    entryAt m ptd (1024 + j)
      = if j < 256 + sym.hhkPageCount then newL2Entry pgPremRw (BitVec.ofNat 32 (j <<< pgSizeBits)) else 0
  kernelPte : ∀ j, j < 4096 →
    entryAt m ptd (2048 + j)
      =
    if l2Index sym.kernelStart ≤ j ∧ j < l2Index sym.kernelStart + sym.kernelPageCount then
      newL2Entry pgPremRw (v2p sym.kernelStart + BitVec.ofNat 32 ((j - l2Index sym.kernelStart) <<< pgSizeBits))
    else 0
  inside : m.Inside ptd kpgSize

section Built

variable {sym : LinkerSymbols} {ptd : Word} {m m' : LoggedMem}

theorem kernelPageCount_le (hresult : hhkInit sym ptd kpgSize m = some m') : sym.kernelPageCount ≤ 3072 := by
  unfold hhkInit initPage at hresult
  dsimp only at hresult
  split at hresult
  . contradiction
  . next hcount =>
    unfold pgTableStack pgTableKernel pgMaxEntries at hcount
    omega

theorem hhkInit_returns (hcount : sym.kernelPageCount ≤ 3072) (ptd : Word) (m : LoggedMem)
    : ∃ m', hhkInit sym ptd kpgSize m = some m' := by
  unfold hhkInit initPage
  dsimp only
  rw [if_neg (by unfold pgTableStack pgTableKernel pgMaxEntries; omega)]
  exact ⟨_, rfl⟩

theorem entryAt_hhkInit (hhhk : sym.hhkPageCount ≤ 768) (hpde : l1Index sym.kernelStart ≤ 1019)
    (hresult : hhkInit sym ptd kpgSize m = some m') {k : Nat} (hk : k < 6144)
    : entryAt m' ptd k
        =
      if k = 1023 then newL1Entry tSelfRefPerm ptd
      else if 2048 + l2Index sym.kernelStart ≤ k ∧ k < 2048 + l2Index sym.kernelStart + sym.kernelPageCount then
        newL2Entry pgPremRw
          (v2p sym.kernelStart + BitVec.ofNat 32 ((k - (2048 + l2Index sym.kernelStart)) <<< pgSizeBits))
      else if l1Index sym.kernelStart ≤ k ∧ k < l1Index sym.kernelStart + 3 then
        newL1Entry pgPremRw (ptAddr ptd (pgTableKernel + (k - l1Index sym.kernelStart)))
      else if 1280 ≤ k ∧ k < 1280 + sym.hhkPageCount then
        newL2Entry pgPremRw (0x100000 + BitVec.ofNat 32 ((k - 1280) <<< pgSizeBits))
      else if 1024 ≤ k ∧ k < 1024 + 256 then newL2Entry pgPremRw (BitVec.ofNat 32 ((k - 1024) <<< pgSizeBits))
      else if k = 0 then newL1Entry pgPresent (ptd + BitVec.ofNat 32 (4 * pgMaxEntries))
      else 0 := by
  have hcount := kernelPageCount_le hresult
  have hpte := l2Index_lt sym.kernelStart
  have hsize : 4 * k + 4 ≤ kpgSize := by
    unfold kpgSize
    omega
  unfold hhkInit initPage at hresult
  dsimp only at hresult
  rw [if_neg (by unfold pgTableStack pgTableKernel pgMaxEntries; omega)] at hresult
  obtain rfl := Option.some.inj hresult
  unfold pgMaxEntries
  rw [entryAt_setPde (by decide) hk, entryAt_mapKernel hpte hcount hk, entryAt_registerTables hpde hk,
    entryAt_mapHhk hhhk hk, entryAt_mapLow hk, entryAt_setPde (by decide) hk,
      entryAt_zeroed m ptd kpgSize_le hsize]

theorem built_hhkInit (hhhk : sym.hhkPageCount ≤ 768) (hhigh : 768 ≤ l1Index sym.kernelStart)
    (hpde : l1Index sym.kernelStart ≤ 1019) (h : m.Inside ptd kpgSize)
    (hresult : hhkInit sym ptd kpgSize m = some m')
    : Built sym ptd m' := by
  have hcount := kernelPageCount_le hresult
  have hpte := l2Index_lt sym.kernelStart
  have hentry := fun k hk => @entryAt_hhkInit sym ptd m m' hhhk hpde hresult k hk
  constructor
  . rw [hentry 0 (by decide), if_neg (by decide), if_neg (by omega), if_neg (by omega), if_neg (by omega),
      if_neg (by omega), if_pos rfl]
    rfl
  . intro i hi
    rw [hentry _ (by omega), if_neg (by omega), if_neg (by omega), if_pos (by omega), Nat.add_sub_cancel_left]
  . rw [hentry 1023 (by decide), if_pos rfl]
  . intro i hi hne hother
    rw [hentry i (by omega), if_neg (by omega), if_neg (by omega), if_neg hother, if_neg (by omega),
      if_neg (by omega), if_neg hne]
  . intro j hj
    rw [hentry _ (by omega), if_neg (by omega), if_neg (by omega), if_neg (by omega)]
    by_cases hhhkPage : 256 ≤ j ∧ j < 256 + sym.hhkPageCount
    . have haddr :
          0x100000 + BitVec.ofNat 32 ((1024 + j - 1280) <<< pgSizeBits) = BitVec.ofNat 32 (j <<< pgSizeBits) := by
        apply BitVec.eq_of_toNat_eq
        unfold pgSizeBits
        rw [Nat.shiftLeft_eq, Nat.shiftLeft_eq, BitVec.toNat_add, BitVec.toNat_ofNat, BitVec.toNat_ofNat]
        change (0x100000 + _) % 2 ^ 32 = _
        omega
      rw [if_pos (by omega), haddr, if_pos hhhkPage.2]
    . rw [if_neg (by omega)]
      by_cases hlow : j < 256
      . rw [if_pos (by omega), Nat.add_sub_cancel_left, if_pos (by omega)]
      . rw [if_neg (by omega), if_neg (by omega), if_neg (by omega)]
  . intro j hj
    rw [hentry _ (by omega), if_neg (by omega)]
    by_cases hin : l2Index sym.kernelStart ≤ j ∧ j < l2Index sym.kernelStart + sym.kernelPageCount
    . rw [if_pos (by omega), if_pos hin, Nat.add_sub_add_left]
    . rw [if_neg (by omega), if_neg hin, if_neg (by omega), if_neg (by omega), if_neg (by omega),
        if_neg (by omega)]
  . exact inside_hhkInit hhhk hpde h hresult

end Built

end initPage

end AwaOS
