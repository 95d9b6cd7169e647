import AwaOS.Boot.KernelMapping
import AwaOS.Vmm.Sharing

/-!
The machine that `boot.S` turns paging on for: which entries the directory and the page tables have, and
which frames are referred to more than once.
-/

namespace AwaOS

open Machine

namespace LinkerSymbols

/--
How `linker.ld` places the sections: `hhk_init` from 1 MiB on, then the kernel, the directory and the page
tables of `.kpg` in front of `__kernel_end`. The kernel fits into its page tables, `hhk_init` into the first one.
-/
structure Linked (sym : LinkerSymbols) (ptd : Word) : Prop where
  start_aligned : pgOffset sym.kernelStart = 0
  end_aligned : pgOffset sym.kernelEnd = 0
  ptd_aligned : pgOffset ptd = 0
  hhk_ge : 0x100000 ≤ sym.initHhkEnd.toNat
  hhk_le : sym.initHhkEnd.toNat + higherHlfBase.toNat ≤ sym.kernelStart.toNat
  hhk_fits : sym.hhkPageCount ≤ 768
  ptd_ge : (v2p sym.kernelStart).toNat ≤ ptd.toNat
  ptd_le : ptd.toNat + kpgSize ≤ (v2p sym.kernelEnd).toNat
  end_ge : higherHlfBase.toNat ≤ sym.kernelEnd.toNat
  pde_le : l1Index sym.kernelStart ≤ 1019
  fits : l2Index sym.kernelStart + sym.kernelPageCount ≤ 3072

/--
The frames of `.kpg`, which are mapped with the kernel, and the frame of the VGA buffer.
-/
def Shared (ptd : Word) (frame : Nat) : Prop :=
  (ptd.toNat / 4096 ≤ frame ∧ frame < ptd.toNat / 4096 + 6) ∨ frame = 0xB8

variable {sym : LinkerSymbols} {ptd : Word}

/--
The places in units of pages.
-/
structure Pages (sym : LinkerSymbols) (ptd : Word) : Prop where
  pde_ge : 768 ≤ l1Index sym.kernelStart
  start_eq : (v2p sym.kernelStart).toNat / 4096 + 0xC0000 = sym.kernelStart.toNat / 4096
  end_eq : (v2p sym.kernelEnd).toNat / 4096 = (v2p sym.kernelStart).toNat / 4096 + sym.kernelPageCount
  end_vpn : sym.kernelEnd.toNat / 4096 = sym.kernelStart.toNat / 4096 + sym.kernelPageCount
  hhk_le : 256 + sym.hhkPageCount ≤ (v2p sym.kernelStart).toNat / 4096
  ptd_ge : (v2p sym.kernelStart).toNat / 4096 ≤ ptd.toNat / 4096
  ptd_le : ptd.toNat / 4096 + 6 ≤ (v2p sym.kernelEnd).toNat / 4096
  ptd_lt : ptd.toNat + 24576 ≤ 2 ^ 30

theorem toNat_v2p {va : Word} (hhigh : higherHlfBase.toNat ≤ va.toNat)
    : (v2p va).toNat = va.toNat - 0xC0000000 := by
  unfold v2p
  rw [BitVec.toNat_sub_of_le (BitVec.le_def.mpr hhigh)]
  rfl

theorem Linked.pages (h : sym.Linked ptd) : sym.Pages ptd := by
  obtain ⟨hstart, hend, hptd, hge, hle, _, hptdGe, hptdLe, hendGe, _, _⟩ := h
  have hstart' := toNat_of_aligned hstart
  have hend' := toNat_of_aligned hend
  have hptd' := toNat_of_aligned hptd
  have hlt := sym.kernelEnd.isLt
  have hv2pEnd := toNat_v2p hendGe
  rw [toNat_higherHlfBase] at hle hendGe
  have hhigh : higherHlfBase.toNat ≤ sym.kernelStart.toNat := by
    rw [toNat_higherHlfBase]
    omega
  have hv2pStart := toNat_v2p hhigh
  unfold kpgSize at hptdLe
  have hcount : sym.kernelPageCount = sym.kernelEnd.toNat / 4096 - sym.kernelStart.toNat / 4096 := by
    unfold kernelPageCount
    rw [BitVec.toNat_ushiftRight, Nat.shiftRight_eq_div_pow, BitVec.toNat_sub, BitVec.toNat_add, BitVec.toNat_sub]
    change ((2 ^ 32 - 1) + ((2 ^ 32 - sym.kernelStart.toNat + sym.kernelEnd.toNat) % 2 ^ 32 + 0x1000) % 2 ^ 32)
      % 2 ^ 32 / 2 ^ 12 = _
    omega
  have hhhk : sym.hhkPageCount = (sym.initHhkEnd.toNat - 0x100000 + 4095) / 4096 := by
    unfold hhkPageCount
    rw [BitVec.toNat_ushiftRight, Nat.shiftRight_eq_div_pow, BitVec.toNat_sub, BitVec.toNat_add, BitVec.toNat_sub]
    change ((2 ^ 32 - 1) + ((2 ^ 32 - 0x100000 + sym.initHhkEnd.toNat) % 2 ^ 32 + 0x1000) % 2 ^ 32)
      % 2 ^ 32 / 2 ^ 12 = _
    omega
  constructor
  . rw [l1Index_eq]
    omega
  . omega
  . omega
  . omega
  . omega
  . omega
  . omega
  . omega

/--
No page table is shared with another one, and `.kpg` and the VGA buffer lie below the end of the kernel.
-/
theorem Pages.shared_lt (h : sym.Pages ptd) {frame : Nat} (hshared : Shared ptd frame)
    : frame < (v2p sym.kernelEnd).toNat / 4096 := by
  have hhhk := h.hhk_le
  have hend := h.end_eq
  have hptd := h.ptd_le
  unfold Shared at hshared
  omega

end LinkerSymbols

open LinkerSymbols

section Entries

variable {sym : LinkerSymbols} {ptd : Word} {m : LoggedMem} {pmm : Pmm}

theorem dir_ofMemory (hptd : pgOffset ptd = 0) (i : Nat)
    : (ofMemory m ptd pmm).dir i = initPage.entryAt m ptd i :=
  mem_ofMemory hptd i

theorem frame_ptAddr (h : sym.Pages ptd) (hptd : pgOffset ptd = 0) {n : Nat} (hn : n < 5)
    : (ptAddr ptd n >>> 12).toNat = ptd.toNat / 4096 + 1 + n := by
  have haligned := toNat_of_aligned hptd
  have hlt := h.ptd_lt
  unfold ptAddr
  rw [BitVec.toNat_ushiftRight, Nat.shiftRight_eq_div_pow, BitVec.toNat_add, BitVec.toNat_ofNat]
  omega

/--
The entries of the directory that are in use, each with the frame of `.kpg` that it refers to.
-/
theorem initPage.Built.dir_cases (h : initPage.Built sym ptd m) (hpages : sym.Pages ptd) (hptd : pgOffset ptd = 0)
    {i : Nat} (hi : i < 1024) (hne : (ofMemory m ptd pmm).dir i ≠ 0)
    : isCached ((ofMemory m ptd pmm).dir i) = true
        ∧ ((i = 0 ∧ frameOf ((ofMemory m ptd pmm).dir i) = ptd.toNat / 4096 + 1)
          ∨ (l1Index sym.kernelStart ≤ i ∧ i < l1Index sym.kernelStart + 3
              ∧ frameOf ((ofMemory m ptd pmm).dir i) = ptd.toNat / 4096 + 2 + (i - l1Index sym.kernelStart))
          ∨ (i = 1023 ∧ frameOf ((ofMemory m ptd pmm).dir i) = ptd.toNat / 4096)) := by
  rw [dir_ofMemory hptd] at hne ⊢
  by_cases hfirst : i = 0
  . rw [hfirst, h.identityPde, frameOf_newL1Entry, newL1Entry_eq, isCached_newL2Entry,
      frame_ptAddr hpages hptd (by decide)]
    exact ⟨by decide, Or.inl ⟨rfl, rfl⟩⟩
  . by_cases hlast : i = 1023
    . rw [hlast, h.selfPde, frameOf_newL1Entry, newL1Entry_eq, isCached_newL2Entry, BitVec.toNat_ushiftRight,
        Nat.shiftRight_eq_div_pow]
      exact ⟨by decide, Or.inr (Or.inr ⟨rfl, rfl⟩)⟩
    . by_cases hkernel : l1Index sym.kernelStart ≤ i ∧ i < l1Index sym.kernelStart + 3
      . have hpde := h.kernelPde (i - l1Index sym.kernelStart) (by omega)
        rw [Nat.add_sub_cancel' hkernel.1] at hpde
        rw [hpde, frameOf_newL1Entry, newL1Entry_eq, isCached_newL2Entry,
          frame_ptAddr hpages hptd (by unfold pgTableKernel; omega)]
        refine ⟨by decide, Or.inr (Or.inl ⟨hkernel.1, hkernel.2, ?_⟩)⟩
        unfold pgTableKernel
        omega
      . exact absurd (h.otherPde i (by omega) hfirst hkernel) hne

/--
An entry of one of the tables in `.kpg`.
-/
theorem entry_of_pde (hptd : pgOffset ptd = 0) {v n : Nat} {flags : Word} (hflags : isCached flags = true)
    (hpde : initPage.entryAt m ptd (v / 1024) = newL1Entry flags (ptAddr ptd n))
    : (ofMemory m ptd pmm).entry v = initPage.entryAt m ptd ((n + 1) * 1024 + v % 1024) := by
  have hdir : (ofMemory m ptd pmm).dir (v / 1024) = newL1Entry flags (ptAddr ptd n) :=
    (dir_ofMemory hptd _).trans hpde
  have hne : newL1Entry flags (ptAddr ptd n) ≠ 0 := by
    apply ne_zero_of_isCached
    rw [newL1Entry_eq, isCached_newL2Entry, hflags]
  have hframe : frameOf (newL1Entry flags (ptAddr ptd n)) = frameOf (ptAddr ptd n) := frameOf_newL2Entry _ _
  unfold entry pte
  rw [hdir, if_neg hne]
  unfold Machine.table
  rw [hdir, hframe, mem_ofMemory (pgOffset_ptAddr hptd n)]
  unfold ptAddr initPage.entryAt
  rw [BitVec.add_assoc, ← BitVec.ofNat_add, ← Nat.mul_add]

/--
The page table entry of every page below the window.
-/
theorem initPage.Built.entry_eq (h : initPage.Built sym ptd m) (hlink : sym.Linked ptd) {v : Nat} (hv : v < vpnEnd)
    : (ofMemory m ptd pmm).entry v
        =
      if v < 256 + sym.hhkPageCount then newL2Entry pgPremRw (BitVec.ofNat 32 (v <<< pgSizeBits))
      else if sym.kernelStart.toNat / 4096 ≤ v ∧ v < sym.kernelStart.toNat / 4096 + sym.kernelPageCount then
        newL2Entry pgPremRw
          (v2p sym.kernelStart + BitVec.ofNat 32 ((v - sym.kernelStart.toNat / 4096) <<< pgSizeBits))
      else 0 := by
  have hpages := hlink.pages
  have hptd := hlink.ptd_aligned
  have hpdeGe := hpages.pde_ge
  have hks := index_div sym.kernelStart
  have hl2 := l2Index_lt sym.kernelStart
  have hhhk := hlink.hhk_fits
  have hfits := hlink.fits
  unfold vpnEnd at hv
  by_cases hlow : v / 1024 = 0
  . have hpde : initPage.entryAt m ptd (v / 1024) = newL1Entry pgPresent (ptAddr ptd pgTableIdentity) := by
      rw [hlow]
      exact h.identityPde
    rw [entry_of_pde hptd (by decide) hpde]
    have hidentity := h.identityPte (v % 1024) (by omega)
    have hmod : v % 1024 = v := by omega
    unfold pgTableIdentity
    rw [hmod] at hidentity ⊢
    rw [Nat.zero_add, Nat.one_mul, hidentity]
    split
    . rfl
    . rw [if_neg]
      omega
  . have hhigh : ¬v < 256 + sym.hhkPageCount := by omega
    rw [if_neg hhigh]
    by_cases hkernel : l1Index sym.kernelStart ≤ v / 1024 ∧ v / 1024 < l1Index sym.kernelStart + 3
    . have hpde := h.kernelPde (v / 1024 - l1Index sym.kernelStart) (by omega)
      rw [Nat.add_sub_cancel' hkernel.1] at hpde
      rw [entry_of_pde hptd (by decide) hpde]
      have hkernelPte := h.kernelPte ((v / 1024 - l1Index sym.kernelStart) * 1024 + v % 1024) (by omega)
      have hindex : (pgTableKernel + (v / 1024 - l1Index sym.kernelStart) + 1) * 1024 + v % 1024
          = 2048 + ((v / 1024 - l1Index sym.kernelStart) * 1024 + v % 1024) := by
        unfold pgTableKernel
        omega
      rw [hindex, hkernelPte]
      have hoffset : (v / 1024 - l1Index sym.kernelStart) * 1024 + v % 1024 - l2Index sym.kernelStart
          = v - sym.kernelStart.toNat / 4096 := by
        omega
      rw [hoffset]
      apply if_congr _ rfl rfl
      omega
    . have hzero := h.otherPde (v / 1024) (by omega) hlow hkernel
      have hout : ¬(sym.kernelStart.toNat / 4096 ≤ v
          ∧ v < sym.kernelStart.toNat / 4096 + sym.kernelPageCount) := by
        omega
      unfold entry pte
      rw [if_pos ((dir_ofMemory hptd _).trans hzero), if_neg hout]

/--
The pages of `hhk_init` and below are mapped to themselves, those of the kernel 3 GiB lower.
-/
theorem initPage.Built.frame_entry (h : initPage.Built sym ptd m) (hlink : sym.Linked ptd) {v : Nat}
    (hv : v < vpnEnd)
    (hne : (ofMemory m ptd pmm).entry v ≠ 0)
    : (v < 256 + sym.hhkPageCount ∧ frameOf ((ofMemory m ptd pmm).entry v) = v)
        ∨
      (sym.kernelStart.toNat / 4096 ≤ v ∧ v < sym.kernelStart.toNat / 4096 + sym.kernelPageCount
        ∧ frameOf ((ofMemory m ptd pmm).entry v) + 0xC0000 = v) := by
  have hpages := hlink.pages
  have hstart := toNat_of_aligned hlink.start_aligned
  have hstartEq := hpages.start_eq
  have hhhk := hlink.hhk_fits
  unfold vpnEnd at hv
  rw [h.entry_eq hlink hv] at hne ⊢
  unfold pgSizeBits at *
  by_cases hlow : v < 256 + sym.hhkPageCount
  . left
    rw [if_pos hlow, frameOf_newL2Entry, BitVec.toNat_ushiftRight, BitVec.toNat_ofNat, Nat.shiftLeft_eq,
      Nat.shiftRight_eq_div_pow]
    exact ⟨hlow, by omega⟩
  . right
    rw [if_neg hlow] at hne ⊢
    by_cases hkernel : sym.kernelStart.toNat / 4096 ≤ v ∧ v < sym.kernelStart.toNat / 4096 + sym.kernelPageCount
    . have hlt := (v2p sym.kernelStart).isLt
      rw [if_pos hkernel, frameOf_newL2Entry, BitVec.toNat_ushiftRight, BitVec.toNat_add, BitVec.toNat_ofNat,
        Nat.shiftLeft_eq, Nat.shiftRight_eq_div_pow]
      refine ⟨hkernel.1, hkernel.2, ?_⟩
      omega
    . rw [if_neg hkernel] at hne
      exact absurd rfl hne

theorem initPage.Built.recursive (h : initPage.Built sym ptd m) (hlink : sym.Linked ptd)
    : (ofMemory m ptd pmm).Recursive where
  toSelfMapped := h.selfMapped hlink.ptd_aligned
  distinct := by
    intro i j hi hj hine hjne heq
    have hpde := hlink.pde_le
    have hpdeGe := hlink.pages.pde_ge
    have hicases := (h.dir_cases hlink.pages hlink.ptd_aligned hi hine).2
    have hjcases := (h.dir_cases hlink.pages hlink.ptd_aligned hj hjne).2
    omega

/--
The frame of a slot is shared, or the slot is an entry of a page table and the frame tells which one.
-/
theorem initPage.Built.refs_cases (h : initPage.Built sym ptd m) (hlink : sym.Linked ptd) {slot : Slot} {r : Nat}
    (hslot : (ofMemory m ptd pmm).refs slot = some r)
    : r < (v2p sym.kernelEnd).toNat / 4096
        ∧ (Shared ptd r
          ∨ slot = if r < 256 + sym.hhkPageCount then .table (r / 1024) (r % 1024)
            else .table ((r + 0xC0000) / 1024) ((r + 0xC0000) % 1024)) := by
  have hpages := hlink.pages
  have hstartEq := hpages.start_eq
  have hendEq := hpages.end_eq
  have hhhk := hpages.hhk_le
  have hptdLe := hpages.ptd_le
  cases slot with
  | dir i =>
    obtain ⟨hi, hne, hframe⟩ := refs_dir_eq_some.mp hslot
    have hcases := (h.dir_cases hpages hlink.ptd_aligned hi hne).2
    have hshared : Shared ptd r := by
      left
      omega
    exact ⟨hpages.shared_lt hshared, Or.inl hshared⟩
  | table i j =>
    obtain ⟨hi, hj, hpresent, hcached, hframe⟩ := refs_table_eq_some.mp hslot
    have hentry : (ofMemory m ptd pmm).entry (i * 1024 + j) = (ofMemory m ptd pmm).table i j := by
      rw [entry_index hj]
      unfold pte
      rw [if_neg (ne_zero_of_isCached hpresent)]
    have hne : (ofMemory m ptd pmm).entry (i * 1024 + j) ≠ 0 := by
      rw [hentry]
      exact ne_zero_of_isCached hcached
    have hcases := h.frame_entry hlink (by unfold vpnEnd; omega) hne
    rw [hentry, hframe] at hcases
    refine ⟨by omega, Or.inr ?_⟩
    by_cases hlow : r < 256 + sym.hhkPageCount
    . rw [if_pos hlow, show r / 1024 = i by omega, show r % 1024 = j by omega]
    . rw [if_neg hlow, show (r + 0xC0000) / 1024 = i by omega, show (r + 0xC0000) % 1024 = j by omega]

/--
If everything up to the end of the kernel is marked as occupied, then only `.kpg` is referred to more than once.
-/
theorem initPage.Built.ownedBut (h : initPage.Built sym ptd m) (hlink : sym.Linked ptd)
    (hoccupied : ∀ frame, frame < (v2p sym.kernelEnd).toNat / 4096 → pmm.occupied frame = true)
    : (ofMemory m ptd pmm).OwnedBut (Shared ptd) := by
  apply ownedBut_of_owns (h.recursive hlink)
  . intro i hi
    by_cases hzero : (ofMemory m ptd pmm).dir i = 0
    . exact Or.inl hzero
    . exact Or.inr (h.dir_cases hlink.pages hlink.ptd_aligned (by omega) hzero).1
  . constructor
    . intro frame hshared
      exact hoccupied frame (hlink.pages.shared_lt hshared)
    . intro slot slot' frame hshared hslot hslot'
      have hfirst := (h.refs_cases hlink hslot).2.resolve_left hshared
      have hsecond := (h.refs_cases hlink hslot').2.resolve_left hshared
      rw [hfirst, hsecond]
    . intro slot frame hslot
      exact hoccupied frame (h.refs_cases hlink hslot).1

end Entries

end AwaOS
