import AwaOS.Boot.PageTables

/-!
The mapping with which paging is turned on. The pages of the kernel are counted from its own first entry, but
the check of their number is not.
-/

namespace AwaOS

open Machine

/--
The machine that `boot.S` starts by loading the directory into `CR3`. The allocator is not touched yet.
-/
def Machine.ofMemory (m : LoggedMem) (ptd : Word) (pmm : Pmm) : Machine where
  mem frame index := m.load32 (BitVec.ofNat 32 (4096 * frame + 4 * index))
  cr3 := frameOf ptd
  pmm := pmm
  nullReturned := false

namespace LinkerSymbols

/--
The pages of the first MiB, and those of `hhk_init`, which follow.
-/
def InIdentity (sym : LinkerSymbols) (va : Word) : Prop :=
  va.toNat < 0x100000 ∨ va.toNat / 4096 * 4096 < sym.initHhkEnd.toNat

/--
The pages of the kernel.
-/
def InKernel (sym : LinkerSymbols) (va : Word) : Prop :=
  sym.kernelStart.toNat ≤ va.toNat ∧ va.toNat / 4096 * 4096 < sym.kernelEnd.toNat

end LinkerSymbols

/--
What `_init_page` is for.
-/
structure MapsKernel (sym : LinkerSymbols) (ptd : Word) (m : LoggedMem) (pmm : Pmm) : Prop where
  identity : ∀ va, sym.InIdentity va →
    (ofMemory m ptd pmm).translate va = some (frameOf va, (pgOffset va).toNat / 4)
  kernel : ∀ va, sym.InKernel va →
    (ofMemory m ptd pmm).translate va = some (frameOf (v2p va), (pgOffset va).toNat / 4)
  other : ∀ va : Word, va.toNat < 0xFFC00000 → ¬sym.InIdentity va → ¬sym.InKernel va →
    (ofMemory m ptd pmm).translate va = none
  self : (ofMemory m ptd pmm).SelfMapped
  inside : m.Inside ptd kpgSize

theorem toNat_higherHlfBase : higherHlfBase.toNat = 0xC0000000 := by
  rfl

section Translate

variable {m : LoggedMem} {ptd p flags va : Word} {pmm : Pmm}

theorem mem_ofMemory (hp : pgOffset p = 0) (index : Nat)
    : (ofMemory m ptd pmm).mem (frameOf p) index = m.load32 (p + BitVec.ofNat 32 (4 * index)) := by
  have haddr : BitVec.ofNat 32 (4096 * frameOf p + 4 * index) = p + BitVec.ofNat 32 (4 * index) := by
    have haligned := toNat_of_aligned hp
    unfold frameOf
    apply BitVec.eq_of_toNat_eq
    rw [BitVec.toNat_add, BitVec.toNat_ofNat, BitVec.toNat_ofNat, BitVec.toNat_ushiftRight,
      Nat.shiftRight_eq_div_pow]
    omega
  unfold ofMemory
  dsimp only
  rw [haddr]

theorem pgOffset_ptAddr (hptd : pgOffset ptd = 0) (ptIndex : Nat) : pgOffset (ptAddr ptd ptIndex) = 0 := by
  have haligned := toNat_of_aligned hptd
  apply BitVec.eq_of_toNat_eq
  unfold ptAddr
  rw [toNat_pgOffset, BitVec.toNat_add, BitVec.toNat_ofNat]
  change _ = 0
  omega

theorem translate_of_pde (hptd : pgOffset ptd = 0) {ptIndex : Nat}
    (hpde : initPage.entryAt m ptd (l1Index va) = newL1Entry flags (ptAddr ptd ptIndex))
    (hflags : isCached flags = true)
    : (ofMemory m ptd pmm).translate va
        =
      if isCached (initPage.entryAt m ptd ((ptIndex + 1) * 1024 + l2Index va)) then
        some (frameOf (initPage.entryAt m ptd ((ptIndex + 1) * 1024 + l2Index va)), (pgOffset va).toNat / 4)
      else none := by
  have hdir : (ofMemory m ptd pmm).mem (ofMemory m ptd pmm).cr3 (l1Index va)
      = newL1Entry flags (ptAddr ptd ptIndex) :=
    (mem_ofMemory hptd _).trans hpde
  have htable : (ofMemory m ptd pmm).mem (frameOf (newL1Entry flags (ptAddr ptd ptIndex))) (l2Index va)
      = initPage.entryAt m ptd ((ptIndex + 1) * 1024 + l2Index va) := by
    have hframe : frameOf (newL1Entry flags (ptAddr ptd ptIndex)) = frameOf (ptAddr ptd ptIndex) :=
      frameOf_newL2Entry _ _
    rw [hframe, mem_ofMemory (pgOffset_ptAddr hptd ptIndex)]
    unfold ptAddr initPage.entryAt
    rw [BitVec.add_assoc, ← BitVec.ofNat_add, ← Nat.mul_add]
  unfold Machine.translate
  rw [hdir]
  dsimp only
  rw [newL1Entry_eq, isCached_newL2Entry, if_pos hflags, ← newL1Entry_eq, htable]

theorem translate_of_empty (hptd : pgOffset ptd = 0) (hpde : initPage.entryAt m ptd (l1Index va) = 0)
    : (ofMemory m ptd pmm).translate va = none := by
  have hdir : (ofMemory m ptd pmm).mem (ofMemory m ptd pmm).cr3 (l1Index va) = 0 :=
    (mem_ofMemory hptd _).trans hpde
  unfold Machine.translate
  rw [hdir]
  dsimp only
  rw [isCached_zero, if_neg (by decide)]

end Translate

section Built

variable {sym : LinkerSymbols} {ptd va : Word} {m : LoggedMem} {pmm : Pmm}

theorem initPage.Built.translate_low (h : initPage.Built sym ptd m) (hptd : pgOffset ptd = 0)
    (hl1 : l1Index va = 0)
    : (ofMemory m ptd pmm).translate va
        =
      if va.toNat / 4096 < 256 + sym.hhkPageCount then
        some (frameOf va, (pgOffset va).toNat / 4)
      else none := by
  have hpde := h.identityPde
  rw [← hl1] at hpde
  have hindex : l2Index va = va.toNat / 4096 := by
    rw [l1Index_eq] at hl1
    rw [l2Index_eq]
    omega
  have hentry := h.identityPte (l2Index va) (l2Index_lt va)
  rw [translate_of_pde hptd hpde (by decide)]
  unfold initPage.entryAt pgTableIdentity at *
  rw [Nat.zero_add, Nat.one_mul, hentry, hindex]
  by_cases hin : va.toNat / 4096 < 256 + sym.hhkPageCount
  . have hframe :
        frameOf (newL2Entry pgPremRw (BitVec.ofNat 32 ((va.toNat / 4096) <<< pgSizeBits))) = frameOf va := by
      have := va.isLt
      rw [frameOf_newL2Entry]
      unfold frameOf pgSizeBits
      rw [BitVec.toNat_ushiftRight, BitVec.toNat_ushiftRight, BitVec.toNat_ofNat, Nat.shiftLeft_eq,
        Nat.shiftRight_eq_div_pow, Nat.shiftRight_eq_div_pow]
      omega
    rw [if_pos hin, if_pos hin, isCached_newL2Entry, if_pos (by decide), hframe]
  . rw [if_neg hin, if_neg hin, isCached_zero, if_neg (by decide)]

/--
The pages of the kernel are backed in order, from the frame of its first page on.
-/
theorem frameOf_kernelPage {start : Word} (hstart : pgOffset start = 0) (hhigh : higherHlfBase.toNat ≤ start.toNat)
    {k : Nat} (hpage : start.toNat / 4096 + k = va.toNat / 4096) {flags : Word}
    : frameOf (newL2Entry flags (v2p start + BitVec.ofNat 32 (k <<< pgSizeBits))) = frameOf (v2p va) := by
  have haligned := toNat_of_aligned hstart
  have hlt := va.isLt
  have hlt' := start.isLt
  rw [frameOf_newL2Entry]
  unfold frameOf pgSizeBits v2p
  rw [BitVec.toNat_ushiftRight, BitVec.toNat_ushiftRight, BitVec.toNat_add, BitVec.toNat_sub,
    BitVec.toNat_sub, BitVec.toNat_ofNat, Nat.shiftLeft_eq, Nat.shiftRight_eq_div_pow,
    Nat.shiftRight_eq_div_pow]
  rw [toNat_higherHlfBase] at hhigh ⊢
  omega

theorem initPage.Built.translate_high (h : initPage.Built sym ptd m) (hptd : pgOffset ptd = 0)
    (hstart : pgOffset sym.kernelStart = 0) (hhigh : higherHlfBase.toNat ≤ sym.kernelStart.toNat)
    (hl1 : l1Index sym.kernelStart ≤ l1Index va ∧ l1Index va < l1Index sym.kernelStart + 3)
    : (ofMemory m ptd pmm).translate va
        =
      if sym.kernelStart.toNat / 4096 ≤ va.toNat / 4096
          ∧ va.toNat / 4096 < sym.kernelStart.toNat / 4096 + sym.kernelPageCount then
        some (frameOf (v2p va), (pgOffset va).toNat / 4)
      else none := by
  have hpde := h.kernelPde (l1Index va - l1Index sym.kernelStart) (by omega)
  rw [Nat.add_sub_cancel' hl1.1] at hpde
  -- the entry for `va`, counted from the first page table of the kernel
  obtain ⟨j, hj⟩ : ∃ j, j = (l1Index va - l1Index sym.kernelStart) * 1024 + l2Index va := ⟨_, rfl⟩
  have hl2 := l2Index_lt va
  have hindex :
      (pgTableKernel + (l1Index va - l1Index sym.kernelStart) + 1) * 1024 + l2Index va = 2048 + j := by
    unfold pgTableKernel
    omega
  have hentry := h.kernelPte j (by omega)
  have hva := index_div va
  have hks := index_div sym.kernelStart
  have hcond : l2Index sym.kernelStart ≤ j ∧ j < l2Index sym.kernelStart + sym.kernelPageCount
      ↔ sym.kernelStart.toNat / 4096 ≤ va.toNat / 4096
        ∧ va.toNat / 4096 < sym.kernelStart.toNat / 4096 + sym.kernelPageCount := by
    omega
  rw [translate_of_pde hptd hpde (by decide), hindex, hentry]
  by_cases hin : l2Index sym.kernelStart ≤ j ∧ j < l2Index sym.kernelStart + sym.kernelPageCount
  . have hframe : frameOf (newL2Entry pgPremRw
        (v2p sym.kernelStart + BitVec.ofNat 32 ((j - l2Index sym.kernelStart) <<< pgSizeBits))) = frameOf (v2p va) := by
      apply frameOf_kernelPage hstart hhigh
      omega
    rw [if_pos hin, if_pos (hcond.mp hin), isCached_newL2Entry, if_pos (by decide), hframe]
  . rw [if_neg hin, if_neg (mt hcond.mpr hin), isCached_zero, if_neg (by decide)]

end Built

section Regions

variable {sym : LinkerSymbols} {va : Word}

theorem inIdentity_iff (hhhk : sym.hhkPageCount ≤ 768)
    : sym.InIdentity va ↔ va.toNat / 4096 < 256 + sym.hhkPageCount := by
  have hend := sym.initHhkEnd.isLt
  unfold LinkerSymbols.InIdentity
  unfold LinkerSymbols.hhkPageCount at *
  rw [BitVec.toNat_ushiftRight, Nat.shiftRight_eq_div_pow, BitVec.toNat_sub, BitVec.toNat_add,
    BitVec.toNat_sub] at *
  change ((2 ^ 32 - 1) + ((2 ^ 32 - 0x100000 + sym.initHhkEnd.toNat) % 2 ^ 32 + 0x1000) % 2 ^ 32) % 2 ^ 32
    / 2 ^ 12 ≤ _ at hhhk
  change _ ↔ _ < 256 +
    ((2 ^ 32 - 1) + ((2 ^ 32 - 0x100000 + sym.initHhkEnd.toNat) % 2 ^ 32 + 0x1000) % 2 ^ 32) % 2 ^ 32 / 2 ^ 12
  omega

theorem inKernel_iff (hstart : pgOffset sym.kernelStart = 0)
    (hhigh : higherHlfBase.toNat ≤ sym.kernelStart.toNat) (hend : sym.kernelStart.toNat < sym.kernelEnd.toNat)
    : sym.InKernel va
        ↔
      sym.kernelStart.toNat / 4096 ≤ va.toNat / 4096
        ∧ va.toNat / 4096 < sym.kernelStart.toNat / 4096 + sym.kernelPageCount := by
  have haligned := toNat_of_aligned hstart
  have hlt := sym.kernelEnd.isLt
  rw [toNat_higherHlfBase] at hhigh
  unfold LinkerSymbols.InKernel LinkerSymbols.kernelPageCount
  rw [BitVec.toNat_ushiftRight, Nat.shiftRight_eq_div_pow, BitVec.toNat_sub, BitVec.toNat_add, BitVec.toNat_sub]
  change _ ↔ _ ∧ _ < _ +
    ((2 ^ 32 - 1) + ((2 ^ 32 - sym.kernelStart.toNat + sym.kernelEnd.toNat) % 2 ^ 32 + 0x1000) % 2 ^ 32)
      % 2 ^ 32 / 2 ^ 12
  omega

end Regions

section MapsKernel

variable {sym : LinkerSymbols} {ptd : Word} {m : LoggedMem} {pmm : Pmm}

theorem initPage.Built.selfMapped (h : initPage.Built sym ptd m) (hptd : pgOffset ptd = 0)
    : (ofMemory m ptd pmm).SelfMapped := by
  have hdir : (ofMemory m ptd pmm).dir 1023 = newL1Entry tSelfRefPerm ptd :=
    (mem_ofMemory hptd _).trans h.selfPde
  constructor
  . rw [hdir, newL1Entry_eq, isCached_newL2Entry]
    decide
  . rw [hdir]
    exact frameOf_newL2Entry _ _

theorem initPage.Built.mapsKernel (h : initPage.Built sym ptd m) (hptd : pgOffset ptd = 0)
    (hstart : pgOffset sym.kernelStart = 0) (hhigh : higherHlfBase.toNat ≤ sym.kernelStart.toNat)
    (hend : sym.kernelStart.toNat < sym.kernelEnd.toNat) (hhhk : sym.hhkPageCount ≤ 768)
    (hfits : l2Index sym.kernelStart + sym.kernelPageCount ≤ 3072)
    : MapsKernel sym ptd m pmm := by
  have hbase := toNat_higherHlfBase
  have hks := index_div sym.kernelStart
  have hin := fun va => @inKernel_iff sym va hstart hhigh hend
  have hid := fun va => @inIdentity_iff sym va hhhk
  constructor
  . intro va hva
    rw [hid] at hva
    have hl1 : l1Index va = 0 := by
      rw [l1Index_eq]
      omega
    rw [h.translate_low hptd hl1, if_pos hva]
  . intro va hva
    rw [hin] at hva
    have hindex := index_div va
    rw [h.translate_high hptd hstart hhigh (by omega), if_pos hva]
  . intro va hva hnot hnot'
    rw [hid] at hnot
    rw [hin] at hnot'
    by_cases hzero : l1Index va = 0
    . rw [h.translate_low hptd hzero, if_neg hnot]
    . by_cases hhere : l1Index sym.kernelStart ≤ l1Index va ∧ l1Index va < l1Index sym.kernelStart + 3
      . rw [h.translate_high hptd hstart hhigh hhere, if_neg hnot']
      . apply translate_of_empty hptd
        apply h.otherPde
        . rw [l1Index_eq]
          omega
        . exact hzero
        . exact hhere
  . exact h.selfMapped hptd
  . exact h.inside

/--
The first page for which there is no page table.
-/
theorem initPage.Built.not_mapsKernel (h : initPage.Built sym ptd m) (hptd : pgOffset ptd = 0)
    (hstart : pgOffset sym.kernelStart = 0) (hhigh : higherHlfBase.toNat ≤ sym.kernelStart.toNat)
    (hl1 : l1Index sym.kernelStart ≤ 1019) (hend : sym.kernelStart.toNat < sym.kernelEnd.toNat)
    (hfull : 3072 < l2Index sym.kernelStart + sym.kernelPageCount)
    : ¬MapsKernel sym ptd m pmm := by
  intro hmaps
  have hbase := toNat_higherHlfBase
  have hks := index_div sym.kernelStart
  obtain ⟨va, hva⟩ : ∃ va : Word, va.toNat = (l1Index sym.kernelStart + 3) * 4194304 := by
    refine ⟨BitVec.ofNat 32 ((l1Index sym.kernelStart + 3) * 4194304), ?_⟩
    rw [BitVec.toNat_ofNat]
    omega
  have hl2 := l2Index_lt sym.kernelStart
  have hmapped := hmaps.kernel va ((inKernel_iff hstart hhigh hend).mpr (by omega))
  have hindex : l1Index va = l1Index sym.kernelStart + 3 := by
    rw [l1Index_eq, hva]
    omega
  rw [translate_of_empty hptd] at hmapped
  . contradiction
  . apply h.otherPde
    . omega
    . omega
    . omega

end MapsKernel

/--
`_init_page` maps the whole kernel if and only if its last page still is in the last of its page tables. The check
only compares the number of pages with the number of entries, wherever the first page is.
-/
theorem hhkInit_mapsKernel_iff {sym : LinkerSymbols} {ptd : Word} (hptd : pgOffset ptd = 0)
    (hstart : pgOffset sym.kernelStart = 0) (hhigh : higherHlfBase.toNat ≤ sym.kernelStart.toNat)
    (hl1 : l1Index sym.kernelStart ≤ 1019) (hend : sym.kernelStart.toNat < sym.kernelEnd.toNat)
    (hhhk : sym.hhkPageCount ≤ 768) (byte : Word → BitVec 8) (pmm : Pmm) {m : LoggedMem}
    (hresult : hhkInit sym ptd kpgSize ⟨byte, []⟩ = some m)
    : MapsKernel sym ptd m pmm ↔ l2Index sym.kernelStart + sym.kernelPageCount ≤ 3072 := by
  have hpde : 768 ≤ l1Index sym.kernelStart := by
    rw [toNat_higherHlfBase] at hhigh
    rw [l1Index_eq]
    omega
  have hbuilt := initPage.built_hhkInit hhhk hpde hl1 (LoggedMem.inside_unwritten byte ptd kpgSize) hresult
  constructor
  . intro hmaps
    by_contra hfull
    exact hbuilt.not_mapsKernel hptd hstart hhigh hl1 hend (by omega) hmaps
  . exact hbuilt.mapsKernel hptd hstart hhigh hend hhhk

theorem hhkInit_mapsKernel_small
    : ∃ m, hhkInit ⟨0xC0107000, 0xC0124000, 0x107000⟩ 0x11E000 kpgSize ⟨fun _ => 0xFF, []⟩ = some m
        ∧ MapsKernel ⟨0xC0107000, 0xC0124000, 0x107000⟩ 0x11E000 m (pmmInit (fun _ => 0) 0x8000000) := by
  obtain ⟨m, hresult⟩ :=
    initPage.hhkInit_returns
      (show LinkerSymbols.kernelPageCount ⟨0xC0107000, 0xC0124000, 0x107000⟩ ≤ 3072 by decide)
    0x11E000 ⟨fun _ => 0xFF, []⟩
  exact ⟨m, hresult, (hhkInit_mapsKernel_iff (by decide) (by decide) (by decide) (by decide) (by decide) (by decide) _ _
    hresult).mpr (by decide)⟩

/--
A kernel of 3072 pages that starts at the usual place passes the check, but its last 263 pages are not mapped.
-/
theorem hhkInit_misses_last_pages
    : ¬∀ (sym : LinkerSymbols) (ptd : Word) (byte : Word → BitVec 8) (pmm : Pmm) (m : LoggedMem),
        pgOffset ptd = 0 → pgOffset sym.kernelStart = 0 →
        higherHlfBase.toNat ≤ sym.kernelStart.toNat → l1Index sym.kernelStart ≤ 1019 →
        sym.kernelStart.toNat < sym.kernelEnd.toNat → sym.hhkPageCount ≤ 768 →
        hhkInit sym ptd kpgSize ⟨byte, []⟩ = some m → MapsKernel sym ptd m pmm := by
  intro hall
  obtain ⟨m, hresult⟩ :=
    initPage.hhkInit_returns
      (show LinkerSymbols.kernelPageCount ⟨0xC0107000, 0xC0D07000, 0x107000⟩ ≤ 3072 by decide)
    0x11E000 ⟨fun _ => 0xFF, []⟩
  have hmaps := hall _ _ _ (pmmInit (fun _ => 0) 0x8000000) m (by decide) (by decide) (by decide) (by decide)
    (by decide) (by decide) hresult
  rw [hhkInit_mapsKernel_iff (by decide) (by decide) (by decide) (by decide) (by decide) (by decide) _ _
    hresult] at hmaps
  exact absurd hmaps (by decide)

end AwaOS
