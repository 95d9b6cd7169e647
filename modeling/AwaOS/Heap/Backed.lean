import AwaOS.Heap.Growth
import AwaOS.Heap.Lemmas.Backed

/-!
In every run the heap is backed by pages that are present, and the allocator stays on them.
-/

namespace AwaOS

open ByteMem (Confined)

/--
`op` returns. From the start of the heap to the end of the epilogue that it leaves are the only bytes that it
writes, and the only ones that decide what it does.
-/
def StaysInHeap {α : Type} (start : Word) (op : HeapM α) (k : Kernel) : Prop :=
  ∃ (a : α) (k' : Kernel) (f : ByteMem → ByteMem), Confined start.toNat (k'.heap.brk.toNat + 4) f
    ∧ ∀ m, ByteMem.SameOn k.mem m start.toNat (k'.heap.brk.toNat + 4) →
        op { k with mem := m } = .ok a { k' with mem := f m }

section Memory

variable {k k' : Kernel} {currentBrk diff size p : Word}

/--
The memory manager does not see the heap.
-/
theorem mapPages_setMem (m : ByteMem) {mapped : Bool} {vm : Machine}
    (h : lxbrk.mapPages currentBrk diff k = .ok mapped { k with vm := vm })
    : lxbrk.mapPages currentBrk diff { k with mem := m } = .ok mapped { k with vm := vm, mem := m } := by
  unfold lxbrk.mapPages at h ⊢
  split at h
  . next hne =>
    rw [if_pos hne]
    unfold callVmm at h ⊢
    dsimp only
    cases hresult : vmmAllocPages (pgAlign currentBrk + 0x1000) diff pgPremRw k.vm with
    | error e vm' =>
      rw [hresult] at h
      nomatch h
    | ok made vm' =>
      rw [hresult] at h
      obtain ⟨rfl, hk⟩ := EStateM.Result.ok.inj h
      have hvm : vm' = vm := congrArg Kernel.vm hk
      rw [hvm]
  . next hzero =>
    rw [if_neg hzero]
    obtain ⟨rfl, hk⟩ := EStateM.Result.ok.inj h
    have hvm : k.vm = vm := congrArg Kernel.vm hk
    rw [← hvm]
    rfl

theorem lxbrk_setMem (m : ByteMem) (h : lxbrk size k = .ok p k')
    : lxbrk size { k with mem := m } = .ok p { k' with mem := m } := by
  unfold lxbrk at h ⊢
  rw [bind_get] at h ⊢
  dsimp only at h ⊢
  split at h
  . next hzero =>
    obtain ⟨rfl, rfl⟩ := EStateM.Result.ok.inj h
    rw [if_pos hzero]
    rfl
  . next hne =>
    rw [if_neg hne]
    split at h
    . next hlimit =>
      obtain ⟨rfl, rfl⟩ := EStateM.Result.ok.inj h
      rw [if_pos hlimit]
      rfl
    . next hroom =>
      rw [if_neg hroom]
      cases mapPages_vm k k.heap.brk (pgAlign (k.heap.brk + roundup size boundary) - pgAlign k.heap.brk) with
      | inl hok =>
        obtain ⟨mapped, vm, hmap⟩ := hok
        rw [bind_ok _ hmap] at h
        rw [bind_ok _ (mapPages_setMem m hmap)]
        cases mapped with
        | true =>
          obtain ⟨rfl, rfl⟩ := EStateM.Result.ok.inj h
          rfl
        | false =>
          obtain ⟨rfl, rfl⟩ := EStateM.Result.ok.inj h
          rfl
      | inr herror =>
        obtain ⟨e, vm, hmap⟩ := herror
        rw [bind_error _ hmap] at h
        nomatch h

end Memory

section Operations

variable {k : Kernel} {cs : List Chunk} {size : Word}

/--
An operation that does not write to the heap.
-/
theorem staysInHeap_of_untouched {α : Type} {op : HeapM α} (a : α) (vm : Machine)
    (h : ∀ m, ByteMem.SameOn k.mem m k.heap.start.toNat (k.heap.brk.toNat + 4) →
      op { k with mem := m } = .ok a { k with vm := vm, mem := m })
    : StaysInHeap k.heap.start op k :=
  ⟨a, { k with vm := vm }, id, ByteMem.confined_id _ _, h⟩

/--
The kernel after the heap has grown by `size` bytes.
-/
def grownKernel (k : Kernel) (size : Nat) (vm : Machine) : Kernel :=
  { k with vm := vm, heap := { k.heap with brk := BitVec.ofNat 32 (k.heap.brk.toNat + size) } }

/--
`lx_grow_heap`, if there is room for `size` bytes and the epilogue.
-/
theorem lxGrowHeap_confined (hok : HeapOk k.mem k.heap cs) {size : Nat} {vm : Machine} (hsize : 4 ≤ size)
    (h4 : size % 4 = 0) (hroom : k.heap.brk.toNat + size + 4 < k.heap.maxAddr.toNat)
    (hbrk : lxbrk (BitVec.ofNat 32 (size + 4)) k
      = .ok k.heap.brk
        { k with vm := vm, heap := { k.heap with brk := k.heap.brk + BitVec.ofNat 32 (size + 4) } })
    : ∃ x f, Confined k.heap.start.toNat (k.heap.brk.toNat + size + 4) f
        ∧ (∀ m, ByteMem.SameOn k.mem m k.heap.start.toNat (k.heap.brk.toNat + size + 4) →
            lxGrowHeap (BitVec.ofNat 32 size) { k with mem := m } = .ok x
              { grownKernel k size vm with mem := f m })
        ∧ Nonempty (Grown k.mem k.heap cs size x (f k.mem) (grownKernel k size vm).heap) := by
  have haligned := hok.aligned
  have hend := hok.tiles.brk_eq
  have hmax := k.heap.maxAddr.isLt
  obtain ⟨x, f, hf, hadd⟩ := addChunk_confined (show (k.heap.start.toNat + 4) % 4 = 0 by omega) hok.tiles
    (show k.heap.brk.toNat + size < 2 ^ 32 by omega) hsize h4 (show k.heap.start.toNat ≤ _ by omega)
    (Nat.le_refl _)
  have hgrown := addChunk_grown hok size hsize h4 hroom
  rw [ofNat_toNat_word] at hadd
  rw [hadd k.mem (.refl _ _ _)] at hgrown
  refine ⟨x, f, hf, ?_, hgrown⟩
  intro m hsame
  have hgrow := @lxGrowHeap_moved { k with mem := m } vm (by dsimp only; omega) size h4 (by omega)
    (lxbrk_setMem m hbrk)
  dsimp only at hgrow
  rw [hadd m hsame] at hgrow
  exact hgrow

/--
`place_chunk` on the free chunk after `pre`.
-/
theorem HeapOk.placeChunk_confined {m : ByteMem} {heap : HeapContext} {pre post : List Chunk} {c : Chunk}
    (hok : HeapOk m heap (pre ++ c :: post)) (hfree : c.allocated = false) {bytes : Nat} (hpos : 0 < bytes)
    (h4 : bytes % 4 = 0) (hle : bytes ≤ c.size)
    : ∃ f, Confined heap.start.toNat (heap.brk.toNat + 4) f
        ∧ ∀ m', ByteMem.SameOn m m' heap.start.toNat (heap.brk.toNat + 4) →
          placeChunk m' (BitVec.ofNat 32 (heap.start.toNat + 4 + total pre))
            (BitVec.ofNat 32 bytes) = f m' := by
  have haligned := hok.aligned
  exact AwaOS.placeChunk_confined (by omega) heap.brk.isLt hok.tiles hfree hpos h4 hle (by omega)
    (Nat.le_refl _)

/--
The walk over the chunks is the same on all memories that agree on the heap.
-/
theorem HeapOk.firstFit_congr {m m' : ByteMem} {heap : HeapContext} (hok : HeapOk m heap cs) (need : Word)
    (hsame : ByteMem.SameOn m m' heap.start.toNat (heap.brk.toNat + 4))
    : firstFit m' heap.brk need (2 ^ 32) heap.start = firstFit m heap.brk need (2 ^ 32) heap.start := by
  have hcongr := AwaOS.firstFit_congr need (2 ^ 32) hok.walk heap.brk.isLt hsame
  rwa [ofNat_toNat_word, ofNat_toNat_word] at hcongr

section Malloc

variable (hok : HeapOk k.mem k.heap cs) (hne : size ≠ 0) (hsize : size.toNat + 12 ≤ 2 ^ 32)

include hok hne hsize

/--
`NULL` from `lxbrk` is passed on.
-/
theorem lxmalloc_null_staysInHeap {vm : Machine}
    (hresult : firstFit k.mem k.heap.brk (BitVec.ofNat 32 (chunkBytes size)) (2 ^ 32) k.heap.start = some none)
    (hbrk : lxbrk (BitVec.ofNat 32 (chunkBytes size + 4)) k = .ok 0 { k with vm := vm })
    : StaysInHeap k.heap.start (lxmalloc size) k := by
  apply staysInHeap_of_untouched 0 vm
  intro m hsame
  have hsum : BitVec.ofNat 32 (chunkBytes size) + wsize = BitVec.ofNat 32 (chunkBytes size + 4) :=
    (BitVec.ofNat_add ..).symm
  have hgrow : lxGrowHeap (BitVec.ofNat 32 (chunkBytes size)) { k with mem := m }
      = .ok 0 { k with vm := vm, mem := m } := by
    unfold lxGrowHeap
    rw [hsum, bind_ok _ (lxbrk_setMem m hbrk), if_pos rfl]
    rfl
  rw [lxmalloc_eq hne (roundup_wsize size (by omega))]
  dsimp only
  rw [hok.firstFit_congr _ hsame, hresult]
  dsimp only
  rw [bind_ok _ hgrow, if_neg (not_not.mpr rfl)]
  rfl

theorem lxmalloc_fit_staysInHeap {pre post : List Chunk} {c : Chunk} (hcs : cs = pre ++ c :: post)
    (hfree : c.allocated = false) (hle : chunkBytes size ≤ c.size)
    (hresult : firstFit k.mem k.heap.brk (BitVec.ofNat 32 (chunkBytes size)) (2 ^ 32) k.heap.start
      = some (some (BitVec.ofNat 32 (k.heap.start.toNat + 4 + total pre))))
    : StaysInHeap k.heap.start (lxmalloc size) k := by
  subst hcs
  have hbytes : chunkBytes size % 4 = 0 ∧ 0 < chunkBytes size := by
    unfold chunkBytes
    omega
  obtain ⟨f, hf, hplace⟩ := hok.placeChunk_confined hfree hbytes.2 hbytes.1 hle
  refine ⟨bptr (BitVec.ofNat 32 (k.heap.start.toNat + 4 + total pre)), k, f, hf, ?_⟩
  intro m hsame
  rw [lxmalloc_eq hne (roundup_wsize size (by omega))]
  dsimp only
  rw [hok.firstFit_congr _ hsame, hresult, ← hplace m hsame]
  rfl

theorem lxmalloc_grown_staysInHeap {vm : Machine}
    (hresult : firstFit k.mem k.heap.brk (BitVec.ofNat 32 (chunkBytes size)) (2 ^ 32) k.heap.start = some none)
    (hroom : k.heap.brk.toNat + chunkBytes size + 4 < k.heap.maxAddr.toNat)
    (hbrk : lxbrk (BitVec.ofNat 32 (chunkBytes size + 4)) k = .ok k.heap.brk
      { k with vm := vm, heap := { k.heap with brk := k.heap.brk + BitVec.ofNat 32 (chunkBytes size + 4) } })
    : StaysInHeap k.heap.start (lxmalloc size) k := by
  have hbytes : chunkBytes size % 4 = 0 ∧ 4 ≤ chunkBytes size := by
    unfold chunkBytes
    omega
  have hmax := k.heap.maxAddr.isLt
  have hnew : (grownKernel k (chunkBytes size) vm).heap.brk.toNat = k.heap.brk.toNat + chunkBytes size := by
    unfold grownKernel
    dsimp only
    rw [BitVec.toNat_ofNat, Nat.mod_eq_of_lt (by omega)]
  obtain ⟨x, f, hf, hgrow, ⟨grown⟩⟩ := lxGrowHeap_confined hok hbytes.2 hbytes.1 hroom hbrk
  obtain ⟨g, hg, hplace⟩ := grown.ok.placeChunk_confined grown.free (by omega) hbytes.1 grown.le
  have hptr := grown.ptr_eq
  rw [grown.start_eq, ← hptr, hnew] at hplace
  rw [grown.start_eq, hnew] at hg
  refine ⟨bptr x, grownKernel k (chunkBytes size) vm, fun m => g (f m), ?_, ?_⟩
  . rw [hnew]
    exact hg.comp hf
  . intro m hsame
    rw [hnew] at hsame
    rw [lxmalloc_eq hne (roundup_wsize size (by omega))]
    dsimp only
    rw [hok.firstFit_congr _ (hsame.mono (Nat.le_refl _) (by omega)), hresult]
    dsimp only
    rw [bind_ok _ (hgrow m hsame), if_pos grown.ptr_ne_zero, ← hplace _ (hf.reads _ _ hsame)]
    rfl

end Malloc

theorem lxmalloc_staysInHeap (hok : HeapOk k.mem k.heap cs) (h : Backed k) (hsize : size.toNat + 12 ≤ 2 ^ 32)
    : StaysInHeap k.heap.start (lxmalloc size) k := by
  by_cases hzero : size = 0
  . apply staysInHeap_of_untouched 0 k.vm
    intro m _
    unfold lxmalloc lxMallocInternal
    rw [if_pos hzero]
    rfl
  . have hlt : chunkBytes size + 4 < 2 ^ 32 ∧ chunkBytes size % 4 = 0 := by
      unfold chunkBytes
      omega
    have htoNat : (BitVec.ofNat 32 (chunkBytes size + 4)).toNat = chunkBytes size + 4 := by
      rw [BitVec.toNat_ofNat, Nat.mod_eq_of_lt hlt.1]
    have hfit := hok.firstFit_cases (BitVec.ofNat 32 (chunkBytes size))
    rw [BitVec.toNat_ofNat, Nat.mod_eq_of_lt (by omega)] at hfit
    cases hfit with
    | inl hfound =>
      obtain ⟨pre, c, post, hsplit, hfree, hle, _, hresult⟩ := hfound
      exact lxmalloc_fit_staysInHeap hok hzero hsize hsplit hfree hle hresult
    | inr hnone =>
      have hcases := lxbrk_cases k (BitVec.ofNat 32 (chunkBytes size + 4)) (by omega) (by omega)
      generalize hbrk : lxbrk (BitVec.ofNat 32 (chunkBytes size + 4)) k = r at hcases
      cases hcases with
      | limit hlimit => exact lxmalloc_null_staysInHeap hok hzero hsize hnone.2 hbrk
      | refused hroom vm hmap => exact lxmalloc_null_staysInHeap hok hzero hsize hnone.2 hbrk
      | fault hroom e vm hmap =>
        rw [htoNat, h.maxAddr_eq] at hroom
        obtain ⟨made, vm', hmap', _⟩ := mapPages_cached h.wellFormed hroom
        nomatch hmap.symm.trans hmap'
      | moved hroom vm hmap =>
        rw [htoNat] at hroom
        exact lxmalloc_grown_staysInHeap hok hzero hsize hnone.2 (by omega) hbrk

theorem lxfree_staysInHeap {live : List Block} (hok : HeapOk k.mem k.heap cs) (hlive : Live k.heap cs live)
    {b : Block} (hb : b ∈ live)
    : StaysInHeap k.heap.start (lxfree b.ptr) k := by
  have haligned := hok.aligned
  have hne : b.ptr ≠ 0 := by
    intro hzero
    obtain ⟨addr, bytes, hmem, hptr, _⟩ := hlive.chunk hok hb
    rw [hzero] at hptr
    have hnat : 0 = addr + 4 := hptr
    omega
  obtain ⟨addr, bytes, hmem, hptr, _⟩ := hlive.held b hb
  obtain ⟨pre, post, rfl, rfl⟩ := exists_chunk_of_mem_blocks hmem
  obtain ⟨f, hf, hfree⟩ := freeChunk_confined (show (k.heap.start.toNat + 4) % 4 = 0 by omega) k.heap.brk.isLt
    hok.tiles rfl (show k.heap.start.toNat ≤ _ by omega) (Nat.le_refl (k.heap.brk.toNat + 4))
  refine ⟨(), k, f, hf, ?_⟩
  intro m hsame
  rw [lxfree_eq hne]
  dsimp only
  rw [hptr, hfree m hsame]

/--
`lx_grow_heap` does not return `NULL` if `lxbrk` does not.
-/
theorem lxbrk_of_lxGrowHeap {size : Nat} (hsize : 4 ≤ size) (h4 : size % 4 = 0) (hlt : size + 4 < 2 ^ 32)
    {ptr : Word} {k' : Kernel} (h : lxGrowHeap (BitVec.ofNat 32 size) k = .ok ptr k') (hptr : ptr ≠ 0)
    : k.heap.brk.toNat + size + 4 < k.heap.maxAddr.toNat
        ∧ ∃ vm, lxbrk (BitVec.ofNat 32 (size + 4)) k = .ok k.heap.brk
            { k with vm := vm, heap := { k.heap with brk := k.heap.brk + BitVec.ofNat 32 (size + 4) } } := by
  have htoNat : (BitVec.ofNat 32 (size + 4)).toNat = size + 4 := by
    rw [BitVec.toNat_ofNat, Nat.mod_eq_of_lt hlt]
  have hsum : BitVec.ofNat 32 size + wsize = BitVec.ofNat 32 (size + 4) := (BitVec.ofNat_add ..).symm
  have hcases := lxbrk_cases k (BitVec.ofNat 32 (size + 4)) (by omega) (by omega)
  unfold lxGrowHeap at h
  rw [hsum] at h
  generalize hbrk : lxbrk (BitVec.ofNat 32 (size + 4)) k = r at hcases
  cases hcases with
  | limit hlimit =>
    rw [bind_ok _ hbrk, if_pos rfl] at h
    exact absurd (EStateM.Result.ok.inj h).1.symm hptr
  | refused hroom vm hmap =>
    rw [bind_ok _ hbrk, if_pos rfl] at h
    exact absurd (EStateM.Result.ok.inj h).1.symm hptr
  | fault hroom e vm hmap =>
    rw [bind_error _ hbrk] at h
    nomatch h
  | moved hroom vm hmap => exact ⟨by omega, vm, rfl⟩

theorem confined_emptyHeap {start : Word} {hi : Nat} (haligned : start.toNat % 4096 = 0)
    (hhi : start.toNat + 8 ≤ hi)
    : Confined start.toNat hi (fun m => emptyHeap m start) := by
  have hstart := toNat_start_wsize haligned
  exact (ByteMem.confined_write32 _ (by omega) (by omega)).comp
    (ByteMem.confined_write32 _ (Nat.le_refl _) (by omega))

theorem kallocInit_staysInHeap {start : Word} {k₀ k : Kernel} (haligned : start.toNat % 4096 = 0)
    (h : kallocInit start k₀ = .ok true k)
    : StaysInHeap start (kallocInit start) k₀ := by
  obtain ⟨page, vm, ptr, hpage, hne, hgrown, hptr⟩ := kallocInit_eq_true_iff.mp h
  have hok := emptyKernel_ok vm k₀.mem haligned
  have hbrk : (emptyKernel vm k₀.mem start).heap.brk.toNat = start.toNat + 4 := toNat_start_wsize haligned
  have hmax := (emptyKernel vm k₀.mem start).heap.maxAddr.isLt
  obtain ⟨hroom, vm', hmoved⟩ := @lxbrk_of_lxGrowHeap (emptyKernel vm k₀.mem start) 4096 (by decide) (by decide)
    (by decide) ptr k hgrown hptr
  obtain ⟨x, f, hf, hgrow, ⟨grown⟩⟩ := lxGrowHeap_confined hok (by decide) (by decide) hroom hmoved
  have hnew := grown.brk_eq
  have hempty : Confined start.toNat _ (fun m => emptyHeap m start) :=
    confined_emptyHeap haligned
      (show start.toNat + 8 ≤ (emptyKernel vm k₀.mem start).heap.brk.toNat + 4096 + 4 by omega)
  refine ⟨true, grownKernel (emptyKernel vm k₀.mem start) 4096 vm', fun m => f (emptyHeap m start), ?_, ?_⟩
  . rw [hnew]
    exact hf.comp hempty
  . intro m hsame
    rw [hnew] at hsame
    exact kallocInit_eq_true_iff.mpr ⟨page, vm, x, hpage, hne, hgrow _ (hempty.reads _ _ hsame),
      grown.ptr_ne_zero⟩

end Operations

open Machine

/--
The heap lies on pages that are present, below the stack.
-/
structure HeapBacked (start : Word) (k : Kernel) : Prop where
  pages : ∀ v, (pgAlign start).toNat / 4096 ≤ v → v ≤ (k.heap.brk.toNat + 3) / 4096 → k.vm.Present v
  translated : ∀ va : Word, start.toNat ≤ va.toNat → va.toNat < k.heap.brk.toNat + 4 →
    (k.vm.translate va).isSome = true ∧ va.toNat < kStackStart.toNat
  brk_aligned : k.heap.brk.toNat % 4 = 0
  start_lt : start.toNat < k.heap.brk.toNat
  lt_maxAddr : k.heap.brk.toNat + 4 < k.heap.maxAddr.toNat
  maxAddr_eq : k.heap.maxAddr = kStackStart

variable {start : Word} {k₀ k : Kernel} {live : List Block}

theorem HeapRun.backed (haligned : start.toNat % 4096 = 0) (hwf : k₀.vm.WellFormed)
    (hfree : ¬k₀.vm.Mapped (start.toNat / 4096)) (hrun : HeapRun start k₀ k live)
    : Backed k := by
  refine HeapRun.of_lxmalloc haligned ?_ ?_ (fun _ _ h => ⟨h.wellFormed, h.maxAddr_eq, h.room, h.cached⟩) hrun
  . intro k hresult
    exact kallocInit_backed haligned hwf hfree hresult
  . intro k cs size hok hsize h
    exact lxmalloc_backed hok h size (by omega)

theorem HeapRun.heapBacked (haligned : start.toNat % 4096 = 0) (hwf : k₀.vm.WellFormed)
    (hfree : ¬k₀.vm.Mapped (start.toNat / 4096)) (hrun : HeapRun start k₀ k live)
    : HeapBacked start k := by
  have h := hrun.backed haligned hwf hfree
  obtain ⟨⟨cs, hok, _⟩, hstart⟩ := hrun.inv haligned
  have hend := hok.tiles.brk_eq
  have hbrk4 := hok.brk_aligned
  have hroom := h.room
  have hpage := toNat_pgAlign start
  have hpresent : ∀ v, start.toNat / 4096 ≤ v → v ≤ k.heap.brk.toNat / 4096 → k.vm.Present v := by
    intro v hge hle
    rw [toNat_kStackStart] at hroom
    apply h.wellFormed.present_of_cached
    . unfold vpnEnd
      omega
    . exact h.cached v (by rw [hstart]; exact hge) hle
  constructor
  . intro v hge hle
    exact hpresent v (by omega) (by omega)
  . intro va hge hlt
    rw [isSome_translate_iff]
    exact ⟨hpresent _ (by omega) (by omega), by omega⟩
  . exact hbrk4
  . rw [hstart] at hend
    omega
  . rw [h.maxAddr_eq]
    exact hroom
  . exact h.maxAddr_eq

/--
In every state of a run the heap is backed by present pages below the stack, and `kalloc_init`, `lxmalloc` and
`lxfree` stay on them.
-/
theorem heap_backed (haligned : start.toNat % 4096 = 0) (hwf : k₀.vm.WellFormed)
    (hfree : ¬k₀.vm.Mapped (start.toNat / 4096)) (hrun : HeapRun start k₀ k live)
    : HeapBacked start k
        ∧ StaysInHeap start (kallocInit start) k₀
        ∧ (∀ size : Word, size.toNat < 2 ^ 31 → StaysInHeap start (lxmalloc size) k)
        ∧ ∀ b ∈ live, StaysInHeap start (lxfree b.ptr) k := by
  have h := hrun.backed haligned hwf hfree
  obtain ⟨⟨cs, hok, hlive⟩, hstart⟩ := hrun.inv haligned
  have hinit : ∃ k₁, kallocInit start k₀ = .ok true k₁ := by
    clear h hok hlive hstart
    induction hrun with
    | init hresult => exact ⟨_, hresult⟩
    | malloc _ _ _ _ _ ih => exact ih
    | calloc _ _ _ _ _ _ ih => exact ih
    | free _ _ _ _ ih => exact ih
    | write _ _ _ _ _ ih => exact ih
  obtain ⟨k₁, hresult⟩ := hinit
  rw [← hstart]
  refine ⟨?_, ?_, ?_, ?_⟩
  . rw [hstart]
    exact hrun.heapBacked haligned hwf hfree
  . rw [hstart]
    exact kallocInit_staysInHeap haligned hresult
  . intro size hsize
    exact lxmalloc_staysInHeap hok h (by omega)
  . intro b hb
    exact lxfree_staysInHeap hok hlive hb

theorem heap_backed_bootRun
    : ∃ k live, HeapRun 0x400000 bootKernel k live ∧ live ≠ [] ∧ HeapBacked 0x400000 k := by
  obtain ⟨k, ptr, _, _, hrun, _⟩ := bootRun
  have hfree : ¬bootKernel.vm.Mapped ((0x400000 : Word).toNat / 4096) :=
    not_mapped_bootMachine _ (by decide)
  exact ⟨k, _, hrun, by simp, (heap_backed (by decide) wellFormed_bootMachine hfree hrun).1⟩

end AwaOS
