import AwaOS.Heap.Lemmas.Malloc

/-!
What `kalloc_init` does.
-/

namespace AwaOS

theorem callVmm_ok {α : Type} {x : KernelM α} {k : Kernel} {a : α} {vm : Machine} (h : x k.vm = .ok a vm)
    : callVmm x k = .ok a { k with vm := vm } := by
  simp only [callVmm, h]

theorem callVmm_error {α : Type} {x : KernelM α} {k : Kernel} {e : PageFault} {vm : Machine}
    (h : x k.vm = .error e vm)
    : callVmm x k = .error (.pageFault e) { k with vm := vm } := by
  simp only [callVmm, h]

/--
The heap before `kalloc_init` grows it: the prologue and the epilogue.
-/
def emptyHeap (m : ByteMem) (start : Word) : ByteMem :=
  sw (sw m start (pack 4 mAllocated)) (start + wsize) (pack 0 mAllocated)

theorem emptyHeap_ok (m : ByteMem) {start : Word} (haligned : start.toNat % 4 = 0)
    (hlt : start.toNat + 4 < 2 ^ 32)
    : HeapOk (emptyHeap m start) ⟨start, start + wsize, kStackStart⟩ [] := by
  have hbrk : (start + wsize).toNat = start.toNat + 4 := by
    unfold wsize
    rw [BitVec.toNat_add]
    change (start.toNat + 4) % 2 ^ 32 = _
    omega
  have hprologue : pack 4 mAllocated = header 4 true false := by decide
  have hepilogue : pack 0 mAllocated = header 0 true false := by decide
  unfold emptyHeap sw
  rw [hbrk, hprologue, hepilogue]
  constructor
  . exact haligned
  . dsimp only
    rw [ByteMem.read32_write32_of_apart _ _ _ (by omega), ByteMem.read32_write32_self]
  . dsimp only
    rw [hbrk]
    exact ⟨false, ⟨rfl, rfl⟩, ByteMem.read32_write32_self _ _⟩

/--
`kalloc_init` maps the first page and then grows the empty heap.
-/
theorem kallocInit_eq_true_iff {start : Word} {k₀ k : Kernel}
    : kallocInit start k₀ = .ok true k
        ↔
      ∃ page vm ptr, vmmAllocPage start pgPremRw k₀.vm = .ok page vm
        ∧ page ≠ 0
        ∧ lxGrowHeap heapInitSize
            { vm := vm, mem := emptyHeap k₀.mem start, heap := ⟨start, start + wsize, kStackStart⟩ }
            = .ok ptr k
        ∧ ptr ≠ 0 := by
  have hstart : kallocInit start k₀
      = (callVmm (vmmAllocPage start pgPremRw) >>= fun page =>
          if !(decide (page ≠ 0)) then
            pure false
          else do
            let k ← get
            setMem (emptyHeap k.mem k.heap.start)
            setBrk (k.heap.brk + wsize)
            return (← lxGrowHeap heapInitSize) ≠ 0) { k₀ with heap := ⟨start, start, kStackStart⟩ } := by
    simp only [kallocInit, dmmInit, bind_assoc]
    rfl
  have hgrow : ∀ vm : Machine, (do
      let k ← get
      setMem (emptyHeap k.mem k.heap.start)
      setBrk (k.heap.brk + wsize)
      return decide ((← lxGrowHeap heapInitSize) ≠ 0) : HeapM Bool)
        { vm := vm, mem := k₀.mem, heap := ⟨start, start, kStackStart⟩ }
      = (lxGrowHeap heapInitSize >>= fun ptr => pure (decide (ptr ≠ 0)))
        { vm := vm, mem := emptyHeap k₀.mem start, heap := ⟨start, start + wsize, kStackStart⟩ } := by
    intro vm
    rw [bind_get, setMem, bind_modify, setBrk, bind_modify]
  rw [hstart]
  cases hpage : vmmAllocPage start pgPremRw k₀.vm with
  | error e vm =>
    have hcall : callVmm (vmmAllocPage start pgPremRw) { k₀ with heap := ⟨start, start, kStackStart⟩ }
        = .error (.pageFault e) { vm := vm, mem := k₀.mem, heap := ⟨start, start, kStackStart⟩ } :=
      callVmm_error hpage
    rw [bind_error _ hcall]
    constructor
    . intro h
      injection h
    . rintro ⟨_, _, _, h, _⟩
      injection h
  | ok page vm =>
    have hcall : callVmm (vmmAllocPage start pgPremRw) { k₀ with heap := ⟨start, start, kStackStart⟩ }
        = .ok page { vm := vm, mem := k₀.mem, heap := ⟨start, start, kStackStart⟩ } :=
      callVmm_ok hpage
    rw [bind_ok _ hcall]
    by_cases hzero : page = 0
    . rw [hzero, decide_eq_false (not_not.mpr rfl), if_pos (by decide)]
      constructor
      . intro h
        injection h with hfalse
        contradiction
      . rintro ⟨_, _, _, h, hne, _⟩
        injection h with hpage'
        exact absurd hpage'.symm hne
    . rw [decide_eq_true hzero, if_neg (by decide), hgrow]
      cases hend : lxGrowHeap heapInitSize
          { vm := vm, mem := emptyHeap k₀.mem start, heap := ⟨start, start + wsize, kStackStart⟩ } with
      | error e k' =>
        rw [bind_error _ hend]
        constructor
        . intro h
          injection h
        . rintro ⟨_, _, _, h, _, hgrown, _⟩
          obtain ⟨_, rfl⟩ := EStateM.Result.ok.inj h
          cases hend.symm.trans hgrown
      | ok ptr k' =>
        rw [bind_ok _ hend]
        constructor
        . intro h
          injection h with hptr hk
          subst hk
          exact ⟨page, vm, ptr, rfl, hzero, hend, of_decide_eq_true hptr⟩
        . rintro ⟨_, _, ptr', h, _, hgrown, hptr⟩
          obtain ⟨_, rfl⟩ := EStateM.Result.ok.inj h
          obtain ⟨rfl, rfl⟩ := EStateM.Result.ok.inj (hend.symm.trans hgrown)
          rw [decide_eq_true hptr]
          rfl

/--
The kernel in which `kalloc_init` grows the heap.
-/
def emptyKernel (vm : Machine) (m : ByteMem) (start : Word) : Kernel where
  vm := vm
  mem := emptyHeap m start
  heap := ⟨start, start + wsize, kStackStart⟩

theorem emptyKernel_ok (vm : Machine) (m : ByteMem) {start : Word} (haligned : start.toNat % 4096 = 0)
    : HeapOk (emptyKernel vm m start).mem (emptyKernel vm m start).heap [] := by
  have hlt := start.isLt
  exact emptyHeap_ok m (by omega) (by omega)

/--
A successful `kalloc_init` leaves a heap with one free chunk.
-/
theorem kallocInit_grown {start : Word} {k₀ k : Kernel} (haligned : start.toNat % 4096 = 0)
    (h : kallocInit start k₀ = .ok true k)
    : ∃ page vm ptr, vmmAllocPage start pgPremRw k₀.vm = .ok page vm
        ∧ page ≠ 0
        ∧ Lxbrk (emptyKernel vm k₀.mem start) (BitVec.ofNat 32 (4096 + 4))
            (.ok (start + wsize)
              {
                vm := k.vm
                mem := emptyHeap k₀.mem start
                heap := ⟨start, start + wsize + BitVec.ofNat 32 (4096 + 4), kStackStart⟩
              })
        ∧ Nonempty (Grown (emptyHeap k₀.mem start) (emptyKernel vm k₀.mem start).heap [] 4096 ptr k.mem k.heap) := by
  obtain ⟨page, vm, ptr, hpage, hne, hgrown, hptr⟩ := kallocInit_eq_true_iff.mp h
  have hcases := lxGrowHeap_cases (emptyKernel_ok vm k₀.mem haligned) 4096 (by decide) (by decide) (by decide)
  have hresult : lxGrowHeap (BitVec.ofNat 32 4096) (emptyKernel vm k₀.mem start) = .ok ptr k := hgrown
  rw [hresult] at hcases
  cases hcases with
  | null => exact absurd rfl hptr
  | grown vm' _ m' heap' hbrk grown => exact ⟨page, vm, ptr, hpage, hne, hbrk, ⟨grown⟩⟩

end AwaOS
