import AwaOS.Heap.Lemmas.Mapped

/-!
The heap grows when there are enough frames and its pages share a page table.
-/

namespace AwaOS

open Machine

/--
`pmm_alloc_page` never failed, and its next `n` calls succeed.
-/
structure Supplied (s : Machine) (n : Nat) : Prop where
  nullReturned_eq : s.nullReturned = false
  supplies : s.pmm.Supplies n

theorem Supplied.draw {s s' : Machine} {n k : Nat} (h : Supplied s (n + k)) (hdraws : Draws s n true s')
    : Supplied s' k where
  nullReturned_eq := by
    rw [hdraws.nullReturned_eq (h.supplies.mono (by omega)), h.nullReturned_eq]
  supplies := hdraws.supplies rfl k h.supplies

section Grow

variable {k : Kernel} {size n : Nat}

/--
The new pages of a heap that stays within its first page table.
-/
theorem HeapMapped.draws (h : HeapMapped k.vm k.heap) (hstart : k.heap.start.toNat ≤ k.heap.brk.toNat)
    (hroom : k.heap.brk.toNat + size < kStackStart.toNat)
    (htable : (k.heap.brk.toNat + size) / 4194304 = k.heap.start.toNat / 4194304)
    : ∃ made vm,
        lxbrk.mapPages k.heap.brk (pgAlign (k.heap.brk + BitVec.ofNat 32 size) - pgAlign k.heap.brk) k
          = .ok made { k with vm := vm }
        ∧ MapRange k.vm (k.heap.brk.toNat / 4096 + 1)
          ((k.heap.brk.toNat + size) / 4096 - k.heap.brk.toNat / 4096) made vm
        ∧ Draws k.vm ((k.heap.brk.toNat + size) / 4096 - k.heap.brk.toNat / 4096) made vm := by
  obtain ⟨made, vm, hmap, hrange, hdraws⟩ := mapPages_mapRange h.wellFormed hroom
  refine ⟨made, vm, hmap, hrange, hdraws ?_⟩
  intro i hi
  rw [toNat_kStackStart] at hroom
  refine ⟨k.heap.start.toNat / 4096, by unfold vpnEnd; omega, by omega, ?_⟩
  rw [h.mapped_iff _ (Nat.le_refl _) (by rw [toNat_kStackStart]; omega)]
  omega

theorem HeapMapped.supplied (h : HeapMapped k.vm k.heap) (hstart : k.heap.start.toNat ≤ k.heap.brk.toNat)
    (hroom : k.heap.brk.toNat + size < kStackStart.toNat)
    (htable : (k.heap.brk.toNat + size) / 4194304 = k.heap.start.toNat / 4194304)
    (haligned : k.heap.brk.toNat % 4096 < 4092)
    (hsupply : Supplied k.vm ((k.heap.brk.toNat + size) / 4096 - k.heap.brk.toNat / 4096 + n))
    : ∃ vm,
        lxbrk.mapPages k.heap.brk (pgAlign (k.heap.brk + BitVec.ofNat 32 size) - pgAlign k.heap.brk) k
          = .ok true { k with vm := vm }
        ∧ Supplied vm n := by
  obtain ⟨made, vm, hmap, hrange, hdraws⟩ := h.draws hstart hroom htable
  cases made with
  | true => exact ⟨vm, hmap, hsupply.draw hdraws⟩
  | false =>
    cases hrange.refused rfl with
    | inl hnull =>
      rw [hdraws.nullReturned_eq (hsupply.supplies.mono (by omega)), hsupply.nullReturned_eq] at hnull
      contradiction
    | inr htaken =>
      obtain ⟨v, hge, hlt, hmapped⟩ := htaken
      rw [toNat_kStackStart] at hroom
      rw [h.mapped_iff v (by omega) (by rw [toNat_kStackStart]; omega)] at hmapped
      omega

end Grow

/--
`kalloc_init` with frames for two pages and a page table.
-/
theorem kallocInit_supplied {start : Word} {k₀ : Kernel} {n : Nat} (haligned : start.toNat % 4096 = 0)
    (hne : start ≠ 0) (hroom : start.toNat + 0x2000 ≤ kStackStart.toNat)
    (htable : (start.toNat + 0x1000) / 4194304 = start.toNat / 4194304) (hwf : k₀.vm.WellFormed)
    (hfree : ∀ v, start.toNat / 4096 < v → v * 4096 < kStackStart.toNat → ¬k₀.vm.Mapped v)
    (habsent : k₀.vm.dir (l1Index start) = 0)
    (hvaddr : vAddr (l1Index start) (l2Index start) (pgOffset start) ≠ 0)
    (hsupply : Supplied k₀.vm (2 + (1 + n)))
    : ∃ k, kallocInit start k₀ = .ok true k ∧ Supplied k.vm n := by
  have hstart := toNat_start_wsize haligned
  rw [toNat_kStackStart] at hroom
  obtain ⟨vm, hpage, hrange, hflag, hsupplies⟩ := vmmAllocPage_supplied hwf
    (show isCached pgPremRw = true by decide) (show pgPremRw.toNat ≤ 128 by decide) hne
    (by rw [l1Index_eq]; omega) habsent hsupply.nullReturned_eq hsupply.supplies hvaddr
  have hmapped := @emptyKernel_mapped start k₀.vm vm k₀.mem haligned hfree hrange
  have hempty := emptyKernel_ok vm k₀.mem haligned
  have hbrk : (emptyKernel vm k₀.mem start).heap.brk.toNat = start.toNat + 4 := hstart
  have hcount : (start.toNat + 4 + (4096 + 4)) / 4096 - (start.toNat + 4) / 4096 = 1 := by omega
  have hgrow := @HeapMapped.supplied (emptyKernel vm k₀.mem start) (4096 + 4) n hmapped
  rw [hbrk, toNat_kStackStart, hcount] at hgrow
  obtain ⟨vm', hmap, hsupply'⟩ := hgrow (Nat.le_add_right _ _) (by omega)
    (by change _ = start.toNat / 4194304; omega) (by omega) ⟨hflag, hsupplies⟩
  have hroom' : ¬kStackStart.toNat ≤ start.toNat + 4 + 4100 := by
    rw [toNat_kStackStart]
    omega
  have hcases := lxGrowHeap_cases hempty 4096 (by decide) (by decide) (by decide)
  generalize hresult : lxGrowHeap (BitVec.ofNat 32 4096) (emptyKernel vm k₀.mem start) = r at hcases
  cases hcases with
  | null vm'' hlxbrk =>
    cases hlxbrk.null_cases hempty.brk_ne_zero with
    | inl hlimit =>
      rw [hbrk] at hlimit
      exact absurd hlimit.1 hroom'
    | inr hrefused => cases hmap.symm.trans hrefused.2
  | fault e vm'' hlxbrk => cases hmap.symm.trans hlxbrk.fault_cases.2
  | grown vm'' ptr m' heap' hlxbrk grown =>
    obtain ⟨_, hmap'⟩ := hlxbrk.moved_cases hempty.brk_ne_zero
    obtain ⟨_, hk⟩ := EStateM.Result.ok.inj (hmap.symm.trans hmap')
    have hvm : vm' = vm'' := congrArg Kernel.vm hk
    subst hvm
    exact ⟨_, kallocInit_eq_true_iff.mpr ⟨_, vm, ptr, hpage, hvaddr, hresult, grown.ptr_ne_zero⟩, hsupply'⟩

/--
A request that no free chunk is large enough for, with frames for the new pages.
-/
theorem lxmalloc_grown {k : Kernel} {cs : List Chunk} {size : Word} {n : Nat} (hok : HeapOk k.mem k.heap cs)
    (h : HeapMapped k.vm k.heap) (hne : size ≠ 0) (hsize : size.toNat ≤ 2 ^ 31)
    (hfull : ∀ c ∈ cs, c.allocated = false → c.size < chunkBytes size)
    (hroom : k.heap.brk.toNat + (chunkBytes size + 4) < kStackStart.toNat)
    (htable : (k.heap.brk.toNat + (chunkBytes size + 4)) / 4194304 = k.heap.start.toNat / 4194304)
    (haligned : k.heap.brk.toNat % 4096 < 4092)
    (hsupply : Supplied k.vm ((k.heap.brk.toNat + (chunkBytes size + 4)) / 4096 - k.heap.brk.toNat / 4096 + n))
    : ∃ ptr vm m' heap', lxmalloc size k = .ok ptr { vm := vm, mem := m', heap := heap' }
        ∧ heap'.brk.toNat = k.heap.brk.toNat + chunkBytes size
        ∧ Nonempty (Placed k.mem k.heap cs (chunkBytes size) ptr m' heap')
        ∧ Supplied vm n := by
  have hend := hok.tiles.brk_eq
  obtain ⟨vm, hmap, hsupply'⟩ := h.supplied (by omega) hroom htable haligned hsupply
  have hcases := lxmalloc_mappedCases hok h size hsize
  generalize lxmalloc size k = r at hcases
  cases hcases with
  | empty hzero => exact absurd hzero hne
  | limit hlimit =>
    rw [h.maxAddr_eq] at hlimit
    omega
  | refused _ _ vm' hmap' => cases hmap.symm.trans hmap'
  | fit c hc hfree hle => exact absurd (hfull c hc hfree) (by omega)
  | grown _ vm' hmap' ptr m' heap' hmoved placed =>
    obtain ⟨_, hk⟩ := EStateM.Result.ok.inj (hmap.symm.trans hmap')
    have hvm : vm = vm' := congrArg Kernel.vm hk
    subst hvm
    exact ⟨ptr, vm, m', heap', rfl, hmoved, ⟨placed⟩, hsupply'⟩

end AwaOS
