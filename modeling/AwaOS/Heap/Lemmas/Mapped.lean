import AwaOS.Heap.Lemmas.Init
import AwaOS.Vmm.AllocPages

/-!
Which pages of the heap are mapped.
-/

namespace AwaOS

open Machine

theorem toNat_pgAlign_sub {a b : Word} (hle : a.toNat ≤ b.toNat)
    : (pgAlign b - pgAlign a).toNat = (b.toNat / 4096 - a.toNat / 4096) * 4096 := by
  have ha := toNat_pgAlign a
  have hb := toNat_pgAlign b
  have hlt := b.isLt
  rw [BitVec.toNat_sub_of_le]
  . omega
  . rw [BitVec.le_def]
    omega

theorem toNat_kStackStart : kStackStart.toNat = 0xFFBF0000 := by
  decide

theorem lt_of_lt_kStackStart {n : Nat} (hroom : n < kStackStart.toNat) : n < 2 ^ 32 :=
  Nat.lt_trans hroom kStackStart.isLt

/--
The pages that `lxbrk` asks for: those after the page of `brk`, up to the page of the new one.
-/
theorem mapPages_call {k : Kernel} {size : Nat} (hlt : k.heap.brk.toNat + size < 2 ^ 32)
    : ((k.heap.brk.toNat + size) / 4096 - k.heap.brk.toNat / 4096 = 0
          ∧ lxbrk.mapPages k.heap.brk
            (pgAlign (k.heap.brk + BitVec.ofNat 32 size) - pgAlign k.heap.brk) k = .ok true k)
        ∨
      ∃ va sz : Word, va.toNat / 4096 = k.heap.brk.toNat / 4096 + 1
        ∧ sz.toNat / 4096 = (k.heap.brk.toNat + size) / 4096 - k.heap.brk.toNat / 4096
        ∧ lxbrk.mapPages k.heap.brk (pgAlign (k.heap.brk + BitVec.ofNat 32 size) - pgAlign k.heap.brk) k
            = callVmm (vmmAllocPages va sz pgPremRw) k := by
  have hnext : (k.heap.brk + BitVec.ofNat 32 size).toNat = k.heap.brk.toNat + size := by
    rw [BitVec.toNat_add, BitVec.toNat_ofNat]
    omega
  have hdiff := toNat_pgAlign_sub (show k.heap.brk.toNat ≤ (k.heap.brk + BitVec.ofNat 32 size).toNat by omega)
  rw [hnext] at hdiff
  generalize pgAlign (k.heap.brk + BitVec.ofNat 32 size) - pgAlign k.heap.brk = diff at hdiff
  unfold lxbrk.mapPages
  by_cases hzero : diff = 0
  . left
    rw [if_neg (not_not.mpr hzero)]
    refine ⟨?_, rfl⟩
    rw [hzero] at hdiff
    have hnat : 0 = ((k.heap.brk.toNat + size) / 4096 - k.heap.brk.toNat / 4096) * 4096 := hdiff
    omega
  . right
    rw [if_pos hzero]
    refine ⟨_, _, ?_, ?_, rfl⟩
    . have hbrk := toNat_pgAlign k.heap.brk
      have hcross : diff.toNat ≠ 0 := fun hnat => hzero (BitVec.eq_of_toNat_eq hnat)
      rw [hdiff] at hcross
      rw [BitVec.toNat_add]
      change ((pgAlign k.heap.brk).toNat + 4096) % 2 ^ 32 / 4096 = _
      omega
    . rw [hdiff, Nat.mul_div_cancel _ (by decide)]

theorem mapPages_mapRange {k : Kernel} (h : k.vm.WellFormed) {size : Nat}
    (hroom : k.heap.brk.toNat + size < kStackStart.toNat)
    : ∃ made vm,
        lxbrk.mapPages k.heap.brk (pgAlign (k.heap.brk + BitVec.ofNat 32 size) - pgAlign k.heap.brk) k
          = .ok made { k with vm := vm }
        ∧ MapRange k.vm (k.heap.brk.toNat / 4096 + 1)
          ((k.heap.brk.toNat + size) / 4096 - k.heap.brk.toNat / 4096) made vm
        ∧ ((∀ n, n < (k.heap.brk.toNat + size) / 4096 - k.heap.brk.toNat / 4096 →
              TableUsed k.vm (k.heap.brk.toNat / 4096 + 1 + n)) →
            Draws k.vm ((k.heap.brk.toNat + size) / 4096 - k.heap.brk.toNat / 4096) made vm) := by
  cases mapPages_call (lt_of_lt_kStackStart hroom) with
  | inl hnone =>
    obtain ⟨hcount, hcall⟩ := hnone
    rw [hcall, hcount]
    refine ⟨true, k.vm, rfl, mapRange_refl h _, fun _ => ⟨fun _ => rfl, fun _ n hsupply => ?_⟩⟩
    rwa [Nat.zero_add] at hsupply
  | inr hsome =>
    obtain ⟨va, sz, hbase, hcount, hcall⟩ := hsome
    rw [toNat_kStackStart] at hroom
    obtain ⟨made, vm, hresult, hrange, hdraws⟩ := vmmAllocPages_mapRange h va sz pgPremRw
      (by rw [hbase, hcount]; unfold vpnEnd; omega) (by decide) (by decide)
    rw [hbase, hcount] at hrange hdraws
    rw [hcall]
    exact ⟨made, vm, callVmm_ok hresult, hrange, hdraws⟩

/--
From the first page on, the pages that are mapped are those up to the end of the epilogue.
-/
structure HeapMapped (s : Machine) (heap : HeapContext) : Prop where
  wellFormed : s.WellFormed
  maxAddr_eq : heap.maxAddr = kStackStart
  mapped_iff : ∀ v, heap.start.toNat / 4096 ≤ v → v * 4096 < kStackStart.toNat →
    (s.Mapped v ↔ v ≤ (heap.brk.toNat + 4) / 4096)

section Mapped

variable {k : Kernel} {vm : Machine} {size : Nat}

theorem HeapMapped.moved (h : HeapMapped k.vm k.heap)
    (hroom : k.heap.brk.toNat + (size + 4) < k.heap.maxAddr.toNat)
    (hmap : lxbrk.mapPages k.heap.brk
        (pgAlign (k.heap.brk + BitVec.ofNat 32 (size + 4)) - pgAlign k.heap.brk) k
      = .ok true { k with vm := vm })
    {heap' : HeapContext} (hstart : heap'.start = k.heap.start) (hmax : heap'.maxAddr = k.heap.maxAddr)
    (hbrk : heap'.brk.toNat = k.heap.brk.toNat + size)
    : HeapMapped vm heap' := by
  rw [h.maxAddr_eq] at hroom
  obtain ⟨made, vm', hmap', hrange, _⟩ := mapPages_mapRange h.wellFormed hroom
  rw [hmap] at hmap'
  injection hmap' with hmade hk
  injection hk with hvm
  subst hmade hvm
  rw [toNat_kStackStart] at hroom
  constructor
  . exact hrange.wellFormed
  . rw [hmax, h.maxAddr_eq]
  . intro v hge hlt
    have hold := h.mapped_iff v (by rw [← hstart]; exact hge) hlt
    rw [toNat_kStackStart] at hlt
    rw [hrange.mapped_iff v (by unfold vpnEnd; omega), hold, hbrk]
    constructor
    . rintro (hle | hin)
      . omega
      . omega
    . intro hle
      by_cases hv : v ≤ k.heap.brk.toNat / 4096
      . exact Or.inl (by omega)
      . exact Or.inr ⟨rfl, by omega, by omega⟩

theorem HeapMapped.refused (h : HeapMapped k.vm k.heap) (hroom : k.heap.brk.toNat + size < k.heap.maxAddr.toNat)
    (hmap : lxbrk.mapPages k.heap.brk (pgAlign (k.heap.brk + BitVec.ofNat 32 size) - pgAlign k.heap.brk) k
      = .ok false { k with vm := vm })
    : HeapMapped vm k.heap := by
  rw [h.maxAddr_eq] at hroom
  obtain ⟨made, vm', hmap', hrange, _⟩ := mapPages_mapRange h.wellFormed hroom
  rw [hmap] at hmap'
  injection hmap' with hmade hk
  injection hk with hvm
  subst hmade hvm
  constructor
  . exact hrange.wellFormed
  . exact h.maxAddr_eq
  . intro v hge hlt
    rw [← h.mapped_iff v hge hlt]
    rw [toNat_kStackStart] at hlt
    rw [hrange.mapped_iff v (by unfold vpnEnd; omega)]
    simp

end Mapped

/--
What `lxmalloc` does to a heap that is mapped. The memory manager does not fault.
-/
inductive MappedMalloc (k : Kernel) (cs : List Chunk) (size : Word)
    : EStateM.Result HeapFault Kernel Word → Prop
  | empty (hzero : size = 0) : MappedMalloc k cs size (.ok 0 k)
  | limit (hlimit : k.heap.maxAddr.toNat ≤ k.heap.brk.toNat + chunkBytes size + 4) : MappedMalloc k cs size
    (.ok 0 k)
  | refused (hfull : ∀ c ∈ cs, c.allocated = false → c.size < chunkBytes size)
      (hroom : k.heap.brk.toNat + (chunkBytes size + 4) < k.heap.maxAddr.toNat) (vm : Machine)
      (hmap : lxbrk.mapPages k.heap.brk
          (pgAlign (k.heap.brk + BitVec.ofNat 32 (chunkBytes size + 4)) - pgAlign k.heap.brk) k
        = .ok false { k with vm := vm })
      : MappedMalloc k cs size (.ok 0 { k with vm := vm })
  | fit (c : Chunk) (hc : c ∈ cs) (hfree : c.allocated = false) (hle : chunkBytes size ≤ c.size) (ptr : Word)
      (m' : ByteMem) (placed : Placed k.mem k.heap cs (chunkBytes size) ptr m' k.heap)
      : MappedMalloc k cs size (.ok ptr { k with mem := m' })
  | grown (hroom : k.heap.brk.toNat + (chunkBytes size + 4) < k.heap.maxAddr.toNat) (vm : Machine)
      (hmap : lxbrk.mapPages k.heap.brk
          (pgAlign (k.heap.brk + BitVec.ofNat 32 (chunkBytes size + 4)) - pgAlign k.heap.brk) k
        = .ok true { k with vm := vm })
      (ptr : Word) (m' : ByteMem) (heap' : HeapContext)
      (hmoved : heap'.brk.toNat = k.heap.brk.toNat + chunkBytes size)
      (placed : Placed k.mem k.heap cs (chunkBytes size) ptr m' heap')
      : MappedMalloc k cs size (.ok ptr { vm := vm, mem := m', heap := heap' })

theorem lxmalloc_mappedCases {k : Kernel} {cs : List Chunk} (hok : HeapOk k.mem k.heap cs)
    (h : HeapMapped k.vm k.heap) (size : Word) (hsize : size.toNat ≤ 2 ^ 31)
    : MappedMalloc k cs size (lxmalloc size k) := by
  have hbytes : chunkBytes size + 4 < 2 ^ 32 := by
    unfold chunkBytes
    omega
  have htoNat : (BitVec.ofNat 32 (chunkBytes size + 4)).toNat = chunkBytes size + 4 := by
    rw [BitVec.toNat_ofNat, Nat.mod_eq_of_lt hbytes]
  have hcases := lxmalloc_cases hok size (by omega)
  generalize lxmalloc size k = r at hcases ⊢
  cases hcases with
  | empty hzero => exact .empty hzero
  | null hne hfull vm hbrk =>
    cases hbrk.null_cases hok.brk_ne_zero with
    | inl hlimit =>
      obtain ⟨hlimit, rfl⟩ := hlimit
      exact .limit (by omega)
    | inr hrefused =>
      obtain ⟨hroom, hmap⟩ := hrefused
      rw [htoNat] at hroom
      exact .refused hfull hroom vm hmap
  | fault hne hfull e vm hbrk =>
    obtain ⟨hroom, hmap⟩ := hbrk.fault_cases
    rw [htoNat, h.maxAddr_eq] at hroom
    obtain ⟨made, vm', hmap', _⟩ := mapPages_mapRange h.wellFormed hroom
    cases hmap.symm.trans hmap'
  | fit hne c hc hfree hle ptr m' placed => exact .fit c hc hfree hle ptr m' placed
  | grown hne hfull vm hbrk ptr m' heap' hmoved placed =>
    obtain ⟨hroom, hmap⟩ := hbrk.moved_cases hok.brk_ne_zero
    rw [htoNat] at hroom
    exact .grown hroom vm hmap ptr m' heap' hmoved placed

theorem lxmalloc_mapped {k : Kernel} {cs : List Chunk} (hok : HeapOk k.mem k.heap cs)
    (h : HeapMapped k.vm k.heap) (size : Word) (hsize : size.toNat ≤ 2 ^ 31)
    : HeapMapped (finalState (lxmalloc size k)).vm (finalState (lxmalloc size k)).heap := by
  have hcases := lxmalloc_mappedCases hok h size hsize
  generalize lxmalloc size k = r at hcases ⊢
  cases hcases with
  | empty hzero => exact h
  | limit hlimit => exact h
  | refused hfull hroom vm hmap => exact h.refused hroom hmap
  | fit c hc hfree hle ptr m' placed => exact h
  | grown hroom vm hmap ptr m' heap' hmoved placed =>
    exact h.moved hroom hmap placed.start_eq placed.maxAddr_eq hmoved

section Init

variable {start : Word} {k₀ k : Kernel}

theorem toNat_start_wsize (haligned : start.toNat % 4096 = 0) : (start + wsize).toNat = start.toNat + 4 := by
  have hlt := start.isLt
  unfold wsize
  rw [BitVec.toNat_add]
  change (start.toNat + 4) % 2 ^ 32 = _
  omega

/--
What the heap does before `kalloc_init` is over: only its first page is mapped.
-/
theorem emptyKernel_mapped {vm vm' : Machine} {m : ByteMem} (haligned : start.toNat % 4096 = 0)
    (hfree : ∀ v, start.toNat / 4096 < v → v * 4096 < kStackStart.toNat → ¬vm.Mapped v)
    (hrange : MapRange vm (start.toNat / 4096) 1 true vm')
    : HeapMapped (emptyKernel vm' m start).vm (emptyKernel vm' m start).heap where
  wellFormed := hrange.wellFormed
  maxAddr_eq := rfl
  mapped_iff := by
    intro v hge hlt
    have hbrk : (emptyKernel vm' m start).heap.brk.toNat = start.toNat + 4 := toNat_start_wsize haligned
    have hold := hfree v
    change start.toNat / 4096 ≤ v at hge
    rw [hbrk]
    rw [toNat_kStackStart] at hlt hold
    rw [show (emptyKernel vm' m start).vm = vm' from rfl, hrange.mapped_iff v (by unfold vpnEnd; omega)]
    constructor
    . rintro (hmapped | hin)
      . by_contra hgt
        exact hold (by omega) hlt hmapped
      . omega
    . intro hle
      exact Or.inr ⟨rfl, hge, by omega⟩

/--
`kalloc_init` maps the page at the start of the heap and the one after it.
-/
theorem kallocInit_mapped (haligned : start.toNat % 4096 = 0) (hwf : k₀.vm.WellFormed)
    (hfree : ∀ v, start.toNat / 4096 < v → v * 4096 < kStackStart.toNat → ¬k₀.vm.Mapped v)
    (h : kallocInit start k₀ = .ok true k)
    : HeapMapped k.vm k.heap := by
  obtain ⟨page, vm, ptr, hpage, hne, hbrk, ⟨grown⟩⟩ := kallocInit_grown haligned h
  have hstart := toNat_start_wsize haligned
  have hempty := emptyKernel_ok vm k₀.mem haligned
  obtain ⟨hroom, hmap⟩ := Lxbrk.moved_cases hempty.brk_ne_zero hbrk
  have hroom' : start.toNat + 4 + (4096 + 4) < kStackStart.toNat := by
    rw [← hstart]
    exact hroom
  rw [toNat_kStackStart] at hroom'
  obtain ⟨v, hv, hrange⟩ := vmmAllocPage_mapRange hwf (by decide) (by decide) (by unfold vpnEnd; omega)
    (hfree _ (by omega) (by rw [toNat_kStackStart]; omega)) hpage hne
  have hfirst : v = start.toNat / 4096 := by
    -- if the first page was mapped already, then `vmm_alloc_page` takes the next one, and the heap cannot grow
    refine hv.resolve_right ?_
    rintro rfl
    obtain ⟨made, vm', hmap', hgrowth, _⟩ :=
      @mapPages_mapRange (emptyKernel vm k₀.mem start) hrange.wellFormed (4096 + 4)
      (by rw [toNat_kStackStart]; change (start + wsize).toNat + _ < _; omega)
    obtain ⟨hmade, _⟩ := EStateM.Result.ok.inj (hmap.symm.trans hmap')
    subst hmade
    have hbrk : (emptyKernel vm k₀.mem start).heap.brk.toNat = start.toNat + 4 := hstart
    rw [hbrk] at hgrowth
    refine hgrowth.fresh rfl (start.toNat / 4096 + 1) (by omega) (by omega) ?_
    exact (hrange.mapped_iff _ (by unfold vpnEnd; omega)).mpr (Or.inr ⟨rfl, by omega, by omega⟩)
  subst hfirst
  have hmapped := @emptyKernel_mapped start k₀.vm vm k₀.mem haligned hfree hrange
  exact hmapped.moved hroom hmap grown.start_eq grown.maxAddr_eq grown.brk_eq

end Init

end AwaOS
