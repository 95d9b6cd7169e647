import AwaOS.Heap.Lemmas.Supply
import AwaOS.Heap.Walk
import AwaOS.Vmm.AllocFailure

/-!
Runs of the heap: the layout is well formed in every state, and the blocks of the clients are apart and
only change when their owner writes to them.
-/

namespace AwaOS

/--
A run from `kalloc_init` on, with the blocks that are live. `kernelHeapStart` is page aligned in the
linker script. The product of `lxcalloc` wraps as it does there.
-/
inductive HeapRun (kernelHeapStart : Word) (k₀ : Kernel) : Kernel → List Block → Prop
  | init {k : Kernel} (hresult : kallocInit kernelHeapStart k₀ = .ok true k) : HeapRun kernelHeapStart k₀ k []
  | malloc {k k' : Kernel} {live : List Block} (hrun : HeapRun kernelHeapStart k₀ k live) (size ptr : Word)
      (hsize : size.toNat < 2 ^ 31) (hresult : lxmalloc size k = .ok ptr k')
      : HeapRun kernelHeapStart k₀ k' (allot size.toNat live (.ok ptr k'))
  | calloc {k k' : Kernel} {live : List Block} (hrun : HeapRun kernelHeapStart k₀ k live) (n elem ptr : Word)
      (hsize : (n * elem).toNat ≤ 2 ^ 31) (hresult : lxcalloc n elem k = .ok ptr k')
      : HeapRun kernelHeapStart k₀ k' (allot (n * elem).toNat live (.ok ptr k'))
  | free {k k' : Kernel} {live : List Block} (hrun : HeapRun kernelHeapStart k₀ k live) (b : Block)
      (hb : b ∈ live) (hresult : lxfree b.ptr k = .ok () k')
      : HeapRun kernelHeapStart k₀ k' (live.erase b)
  | write {k : Kernel} {live : List Block} (hrun : HeapRun kernelHeapStart k₀ k live) (b : Block)
      (hb : b ∈ live) (m' : ByteMem) (hsame : ByteMem.SameOutside k.mem m' b.ptr.toNat (b.ptr.toNat + b.size))
      : HeapRun kernelHeapStart k₀ { k with mem := m' } live

variable {start : Word} {k₀ k : Kernel} {live : List Block}

theorem HeapRun.inv (haligned : start.toNat % 4096 = 0) (hrun : HeapRun start k₀ k live)
    : HeapInv k live ∧ k.heap.start = start := by
  induction hrun with
  | init hresult =>
    obtain ⟨page, vm, ptr, _, _, _, ⟨grown⟩⟩ := kallocInit_grown haligned hresult
    exact ⟨⟨_, grown.ok, ⟨by simp, List.Pairwise.nil⟩⟩, grown.start_eq⟩
  | malloc hrun size ptr hsize hresult ih =>
    have hpreserves := lxmalloc_preserves ih.1 size (by omega)
    rw [hresult] at hpreserves
    exact ⟨hpreserves.inv, hpreserves.start_eq.trans ih.2⟩
  | calloc hrun n elem ptr hsize hresult ih =>
    have hpreserves := lxcalloc_preserves ih.1 n elem hsize
    rw [hresult] at hpreserves
    exact ⟨hpreserves.inv, hpreserves.start_eq.trans ih.2⟩
  | free hrun b hb hresult ih =>
    have hpreserves := lxfree_preserves ih.1 hb
    rw [hresult] at hpreserves
    exact ⟨hpreserves.inv, hpreserves.start_eq.trans ih.2⟩
  | write hrun b hb m' hsame ih => exact ⟨ih.1.write hb hsame, ih.2⟩

/--
What `kalloc_init` brings about, `lxmalloc` keeps and the memory does not matter for holds in every state of a run.
-/
theorem HeapRun.of_lxmalloc {P : Kernel → Prop} (haligned : start.toNat % 4096 = 0)
    (hinit : ∀ k, kallocInit start k₀ = .ok true k → P k)
    (hmalloc : ∀ k cs (size : Word), HeapOk k.mem k.heap cs → size.toNat ≤ 2 ^ 31 → P k →
      P (finalState (lxmalloc size k)))
    (hmem : ∀ k m', P k → P { k with mem := m' }) (hrun : HeapRun start k₀ k live)
    : P k := by
  induction hrun with
  | init hresult => exact hinit _ hresult
  | malloc hrun size ptr hsize hresult ih =>
    obtain ⟨⟨cs, hok, _⟩, _⟩ := hrun.inv haligned
    have hfinal := hmalloc _ cs size hok (by omega) ih
    rw [hresult] at hfinal
    exact hfinal
  | calloc hrun n elem ptr hsize hresult ih =>
    obtain ⟨⟨cs, hok, _⟩, _⟩ := hrun.inv haligned
    have hfinal := lxcalloc_final ih (hmalloc _ cs (n * elem) hok hsize ih) hmem
    rw [hresult] at hfinal
    exact hfinal
  | free hrun b hb hresult ih =>
    have hfinal := lxfree_final ih hmem b.ptr
    rw [hresult] at hfinal
    exact hfinal
  | write hrun b hb m' hsame ih => exact hmem _ m' ih

section Boot

open Machine

def bootKernel : Kernel where
  vm := bootMachine
  mem _ := 0
  heap := ⟨0, 0, 0⟩

theorem not_mapped_bootMachine (v : Nat) (hv : v < vpnEnd) : ¬bootMachine.Mapped v :=
  @not_mapped_of_directory bootMachine rfl rfl v hv

theorem supplied_bootMachine : Supplied bootMachine 6 where
  nullReturned_eq := rfl
  supplies := supplies_bootMachine

/--
`kalloc_init` on a machine whose memory holds nothing but a directory.
-/
theorem kallocInit_of_directory {start : Word} {k₀ : Kernel} {n : Nat} (hmem : k₀.vm.mem = directoryOnly.mem)
    (hcr3 : k₀.vm.cr3 = directoryOnly.cr3) (hwf : k₀.vm.WellFormed) (hsupply : Supplied k₀.vm (2 + (1 + n)))
    (haligned : start.toNat % 4096 = 0) (hne : start ≠ 0) (hroom : start.toNat + 0x2000 ≤ kStackStart.toNat)
    (htable : (start.toNat + 0x1000) / 4194304 = start.toNat / 4194304)
    (hvaddr : vAddr (l1Index start) (l2Index start) (pgOffset start) ≠ 0)
    : ∃ k, kallocInit start k₀ = .ok true k ∧ Supplied k.vm n := by
  apply kallocInit_supplied haligned hne hroom htable hwf
  . intro v _ hlt
    rw [toNat_kStackStart] at hlt
    exact not_mapped_of_directory hmem hcr3 (by unfold vpnEnd; omega)
  . rw [toNat_kStackStart] at hroom
    rw [dir_of_directory hmem hcr3, l1Index_eq, if_neg (by omega)]
  . exact hvaddr
  . exact hsupply

theorem kallocInit_bootKernel : ∃ k, kallocInit 0x400000 bootKernel = .ok true k ∧ Supplied k.vm 3 := by
  apply @kallocInit_of_directory 0x400000 bootKernel 3 rfl rfl wellFormed_bootMachine supplied_bootMachine
  . decide
  . decide
  . decide
  . decide
  . decide

/--
The first request after `kalloc_init` takes the whole free chunk.
-/
theorem bootRun
    : ∃ k ptr cs addr, HeapRun 0x400000 bootKernel k [⟨ptr, 4092⟩]
        ∧ Supplied k.vm 3
        ∧ k.heap.brk.toNat = 0x401004
        ∧ HeapOk k.mem k.heap cs
        ∧ heapBlocks k.heap cs = [(addr, 4096)] := by
  obtain ⟨k, hinit, hsupply⟩ := kallocInit_bootKernel
  obtain ⟨page, vm, ptr₀, _, _, _, ⟨grown⟩⟩ := kallocInit_grown (by decide) hinit
  have hle := grown.le
  have hempty : heapBlocks k.heap (grown.pre ++ [grown.chunk]) = [] := by
    rw [heapBlocks_congr grown.start_eq, grown.blocks_eq]
    rfl
  obtain ⟨ptr, m', hresult, ⟨placed⟩⟩ := lxmalloc_fit grown.ok (show (4092 : Word) ≠ 0 by decide) (by decide)
    (List.mem_append_right _ (List.mem_singleton_self _)) grown.free hle
  have hold := placed.old
  rw [hempty] at hold
  obtain ⟨hbefore, hafter⟩ := List.append_eq_nil_iff.mp hold.symm
  have hnew := placed.new
  rw [hbefore, hafter] at hnew
  have hrun := (HeapRun.init hinit).malloc 4092 ptr (by decide) hresult
  rw [allot_block _ _ _ placed.ptr_ne_zero] at hrun
  exact ⟨_, ptr, placed.chunks, placed.addr, hrun, hsupply, grown.brk_eq, placed.ok, hnew⟩

end Boot

/--
In every state of a run the heap is well formed.
-/
theorem heap_wellFormed (haligned : start.toNat % 4096 = 0) (hrun : HeapRun start k₀ k live)
    : ∃ ps, WellFormedHeap k.mem k.heap ps := by
  obtain ⟨⟨cs, hok, _⟩, _⟩ := hrun.inv haligned
  obtain ⟨ps, hps, _⟩ := hok.wellFormed
  exact ⟨ps, hps⟩

theorem heap_wellFormed_bootRun
    : ∃ k live ps, HeapRun 0x400000 bootKernel k live ∧ live ≠ [] ∧ WellFormedHeap k.mem k.heap ps := by
  obtain ⟨k, ptr, _, _, hrun, _⟩ := bootRun
  obtain ⟨ps, hps⟩ := heap_wellFormed (by decide) hrun
  exact ⟨k, _, ps, hrun, by simp, hps⟩

/--
In every state of a run the live blocks are aligned, inside the heap and apart from each other, and no
call of the allocator changes their contents, except for the block that it frees.
-/
theorem live_blocks_kept (haligned : start.toNat % 4096 = 0) (hrun : HeapRun start k₀ k live)
    : (∀ b ∈ live, b.ptr.toNat % 4 = 0 ∧ start.toNat + 8 ≤ b.ptr.toNat ∧ b.ptr.toNat + b.size ≤ k.heap.brk.toNat)
        ∧ live.Pairwise Block.Apart
        ∧ ∀ b ∈ live,
            (∀ size : Word, size.toNat < 2 ^ 31 →
              ByteMem.SameOn k.mem (finalState (lxmalloc size k)).mem b.ptr.toNat (b.ptr.toNat + b.size))
            ∧ (∀ n elem : Word, n.toNat * elem.toNat ≤ 2 ^ 31 →
                ByteMem.SameOn k.mem (finalState (lxcalloc n elem k)).mem b.ptr.toNat (b.ptr.toNat + b.size))
            ∧ ∀ c ∈ live, c ≠ b →
                ByteMem.SameOn k.mem (finalState (lxfree c.ptr k)).mem b.ptr.toNat (b.ptr.toNat + b.size) := by
  obtain ⟨hinv, hstart⟩ := hrun.inv haligned
  refine ⟨?_, hinv.apart, ?_⟩
  . intro b hb
    obtain ⟨cs, hok, hlive⟩ := hinv
    obtain ⟨addr, bytes, hmem, hptr, hsize⟩ := hlive.chunk hok hb
    obtain ⟨hlo, h4, hhi, _⟩ := hok.block_bounds hmem
    rw [← hstart]
    omega
  . intro b hb
    refine ⟨?_, ?_, ?_⟩
    . intro size hsize
      have hpreserves := lxmalloc_preserves hinv size (by omega)
      exact hpreserves.keeps b hb (mem_allot hb)
    . intro n elem hsize
      have hproduct : (n * elem).toNat = n.toNat * elem.toNat := by
        rw [BitVec.toNat_mul, Nat.mod_eq_of_lt (by omega)]
      have hpreserves := lxcalloc_preserves hinv n elem (by omega)
      exact hpreserves.keeps b hb (mem_allot hb)
    . intro c hc hne
      have hpreserves := lxfree_preserves hinv hc
      exact hpreserves.keeps b hb ((List.mem_erase_of_ne hne.symm).mpr hb)

theorem live_blocks_kept_bootRun
    : ∃ k b, HeapRun 0x400000 bootKernel k [b]
        ∧ b.size = 4092
        ∧ 0x400008 ≤ b.ptr.toNat
        ∧ ByteMem.SameOn k.mem (finalState (lxmalloc 100 k)).mem b.ptr.toNat (b.ptr.toNat + b.size) := by
  obtain ⟨k, ptr, _, _, hrun, _⟩ := bootRun
  obtain ⟨hinside, _, hkept⟩ := live_blocks_kept (by decide) hrun
  have hmem := List.mem_singleton_self (⟨ptr, 4092⟩ : Block)
  exact ⟨k, _, hrun, rfl, (hinside _ hmem).2.1, (hkept _ hmem).1 100 (by decide)⟩

end AwaOS
