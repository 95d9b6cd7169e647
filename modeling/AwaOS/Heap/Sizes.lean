import AwaOS.Heap.Break

/-!
Which sizes `lxmalloc` serves. The size of the chunk wraps for the last seven sizes, and that of the growth for
the four sizes before them.
-/

namespace AwaOS

open Machine

/--
Either `NULL` with the heap as it was, or the payload of an allocated chunk that is large enough in a well formed
heap.
-/
def HonoursSize (k : Kernel) (size : Word) : Prop :=
  ∃ ptr k', lxmalloc size k = .ok ptr k'
    ∧ ((ptr = 0 ∧ k'.mem = k.mem ∧ k'.heap.brk = k.heap.brk)
      ∨ ∃ cs addr bytes, HeapOk k'.mem k'.heap cs ∧ (addr, bytes) ∈ heapBlocks k'.heap cs
          ∧ ptr = BitVec.ofNat 32 (addr + 4) ∧ size.toNat + 4 ≤ bytes)

/--
The break cannot move by `bytes`, which are less than a page.
-/
def CannotGrow (k : Kernel) (bytes : Nat) : Prop :=
  k.heap.maxAddr.toNat ≤ k.heap.brk.toNat + bytes
    ∨ (k.heap.brk.toNat / 4096 < (k.heap.brk.toNat + bytes) / 4096
      ∧ k.vm.Unmappable (k.heap.brk.toNat / 4096 + 1))

/--
The size of the chunk, as `lx_malloc_internal` computes it.
-/
def need (size : Word) : Nat :=
  (size.toNat + 7) % 2 ^ 32 / 4 * 4

theorem roundup_need (size : Word) : roundup (size + wsize) boundary = BitVec.ofNat 32 (need size) := by
  have hmask : ~~~(boundary - 1) = Align.highMask 32 2 := by decide
  have hsum : size + wsize + boundary - 1 = size + 7#32 := by
    unfold wsize boundary
    rw [BitVec.sub_eq_add_neg, BitVec.add_assoc, BitVec.add_assoc]
    rfl
  apply BitVec.eq_of_toNat_eq
  unfold roundup need
  rw [hmask, hsum, Align.toNat_and_highMask, BitVec.toNat_add, BitVec.toNat_ofNat, BitVec.toNat_ofNat]
  omega

section Page

variable {k : Kernel}

theorem mapPages_page (hwf : k.vm.WellFormed) {bytes : Nat} (hbytes : bytes ≤ 4096)
    (hroom : k.heap.brk.toNat + bytes < kStackStart.toNat)
    : ∃ made vm,
        lxbrk.mapPages k.heap.brk (pgAlign (k.heap.brk + BitVec.ofNat 32 bytes) - pgAlign k.heap.brk) k
          = .ok made { k with vm := vm }
        ∧ (made = false ↔ k.heap.brk.toNat / 4096 < (k.heap.brk.toNat + bytes) / 4096
            ∧ k.vm.Unmappable (k.heap.brk.toNat / 4096 + 1)) := by
  rw [toNat_kStackStart] at hroom
  obtain ⟨made, vm, hmap, hiff, _⟩ :=
    mapPages_iff hwf (show k.heap.brk.toNat + bytes < _ by unfold vpnEnd; omega)
  refine ⟨made, vm, hmap, ?_⟩
  rw [← Bool.not_eq_true, hiff]
  by_cases hcross : k.heap.brk.toNat / 4096 < (k.heap.brk.toNat + bytes) / 4096
  . have hone : (k.heap.brk.toNat + bytes) / 4096 - k.heap.brk.toNat / 4096 = 1 := by omega
    rw [hone, canMap_one_iff, not_not]
    exact ⟨fun hstuck => ⟨hcross, hstuck⟩, fun h => h.2⟩
  . have hnone : (k.heap.brk.toNat + bytes) / 4096 - k.heap.brk.toNat / 4096 = 0 := by omega
    rw [hnone]
    exact ⟨fun hcannot => absurd (canMap_zero _ _) hcannot, fun h => absurd h.1 hcross⟩

end Page

section Sizes

variable {k : Kernel} {cs : List Chunk} {size : Word}

theorem need_of_small (hsize : size.toNat + 8 ≤ 2 ^ 32) : need size = chunkBytes size := by
  unfold need chunkBytes
  omega

/--
The payload of a chunk is never large enough for the last eleven sizes.
-/
theorem HeapOk.block_lt {m : ByteMem} {heap : HeapContext} (h : HeapOk m heap cs) {addr bytes : Nat}
    (hmem : (addr, bytes) ∈ heapBlocks heap cs)
    : bytes + 8 ≤ 2 ^ 32 := by
  obtain ⟨hlo, h4, hhi, _⟩ := h.block_bounds hmem
  have hbrk4 := h.brk_aligned
  have hbrk := heap.brk.isLt
  omega

/--
For these sizes only `NULL` is right.
-/
theorem HonoursSize.null (h : HonoursSize k size) (hsize : 2 ^ 32 < size.toNat + 12)
    : ∃ k', lxmalloc size k = .ok 0 k' ∧ k'.heap.brk = k.heap.brk := by
  obtain ⟨ptr, k', hresult, hnull | ⟨cs, addr, bytes, hok, hmem, _, hle⟩⟩ := h
  . obtain ⟨rfl, _, hbrk⟩ := hnull
    exact ⟨k', hresult, hbrk⟩
  . have hlt := hok.block_lt hmem
    omega

theorem honoursSize_of_small (hok : HeapOk k.mem k.heap cs) (hwf : k.vm.WellFormed)
    (hmax : k.heap.maxAddr = kStackStart) (hsize : size.toNat + 12 ≤ 2 ^ 32)
    : HonoursSize k size := by
  have hlt : chunkBytes size + 4 < 2 ^ 32 := by
    unfold chunkBytes
    omega
  have hbytes : size.toNat + 4 ≤ chunkBytes size := by
    unfold chunkBytes
    omega
  have hcases := lxmalloc_cases hok size hsize
  generalize hresult : lxmalloc size k = r at hcases
  cases hcases with
  | empty hzero => exact ⟨0, k, hresult, Or.inl ⟨rfl, rfl, rfl⟩⟩
  | null hne hfull vm hbrk => exact ⟨0, _, hresult, Or.inl ⟨rfl, rfl, rfl⟩⟩
  | fault hne hfull e vm hbrk =>
    obtain ⟨hroom, hmap⟩ := hbrk.fault_cases
    rw [BitVec.toNat_ofNat, Nat.mod_eq_of_lt hlt, hmax] at hroom
    obtain ⟨made, vm', hmap', _⟩ := mapPages_cached hwf hroom
    nomatch hmap.symm.trans hmap'
  | fit hne c hc hfree hle ptr m' placed =>
    refine ⟨ptr, _, hresult,
      Or.inr ⟨placed.chunks, placed.addr, chunkBytes size, placed.ok, ?_, placed.ptr_eq, hbytes⟩⟩
    dsimp only
    rw [placed.new]
    simp
  | grown hne hfull vm hbrk ptr m' heap' hmoved placed =>
    refine ⟨ptr, _, hresult,
      Or.inr ⟨placed.chunks, placed.addr, chunkBytes size, placed.ok, ?_, placed.ptr_eq, hbytes⟩⟩
    dsimp only
    rw [heapBlocks_congr placed.start_eq, placed.new]
    simp

/--
A growth of `2 ^ 32 - 4` bytes and four bytes for the epilogue is a growth of zero bytes, which always succeeds.
-/
theorem lxGrowHeap_wrapped {n : Word} (hzero : n + wsize = 0) (hround : roundup n boundary = n)
    (hbrk : k.heap.brk ≠ 0)
    : lxGrowHeap n k
        =
      .ok (lxGrowHeap.addChunk k.mem k.heap.brk n).1
        {
          vm := k.vm
          mem := (lxGrowHeap.addChunk k.mem k.heap.brk n).2
          heap := { k.heap with brk := k.heap.brk - wsize }
        } := by
  unfold lxGrowHeap
  rw [hzero, bind_ok _ (lxbrk_zero k), if_neg hbrk, bind_get, setBrk, bind_modify, bind_get, hround]
  dsimp only
  generalize lxGrowHeap.addChunk k.mem k.heap.brk n = added
  cases added with
  | mk chunk m => rfl

theorem lxmalloc_moves_brk (hok : HeapOk k.mem k.heap cs) (hle : size.toNat + 8 ≤ 2 ^ 32)
    (hgt : 2 ^ 32 < size.toNat + 12) {ptr : Word} {k' : Kernel} (hresult : lxmalloc size k = .ok ptr k')
    : k'.heap.brk = k.heap.brk - wsize := by
  have hne : size ≠ 0 := by
    intro hzero
    rw [hzero] at hgt
    contradiction
  have hround : roundup (size + wsize) boundary = 0xFFFFFFFC := by
    have hneed : need size = 0xFFFFFFFC := by
      unfold need
      omega
    rw [roundup_need, hneed]
    rfl
  have hend := hok.tiles.brk_eq
  have hbrk := k.heap.brk.isLt
  rw [lxmalloc_eq hne hround] at hresult
  cases hok.firstFit_cases 0xFFFFFFFC with
  | inl hfound =>
    obtain ⟨pre, c, post, rfl, _, hlarge, _⟩ := hfound
    have htoNat : (0xFFFFFFFC : Word).toNat = 0xFFFFFFFC := by decide
    rw [total_append, total] at hend
    rw [htoNat] at hlarge
    omega
  | inr hnone =>
    rw [hnone.2] at hresult
    dsimp only at hresult
    rw [bind_ok _ (lxGrowHeap_wrapped (by decide) (by decide) hok.brk_ne_zero)] at hresult
    split at hresult
    . obtain ⟨_, rfl⟩ := EStateM.Result.ok.inj hresult
      rfl
    . obtain ⟨_, rfl⟩ := EStateM.Result.ok.inj hresult
      rfl

theorem need_of_wrapped (hgt : 2 ^ 32 < size.toNat + 8) : need size = 0 ∨ need size = 4 := by
  have hsize := size.isLt
  unfold need
  omega

theorem ofNat_ne_zero {a : Nat} (hpos : 0 < a) (hlt : a < 2 ^ 32) : BitVec.ofNat 32 a ≠ 0 := by
  intro hzero
  have hnat := congrArg BitVec.toNat hzero
  rw [BitVec.toNat_ofNat, Nat.mod_eq_of_lt hlt] at hnat
  have : a = 0 := hnat
  omega

theorem sub_wsize_ne (w : Word) : w - wsize ≠ w := by
  intro hsame
  have hnat := congrArg BitVec.toNat hsame
  have hwsize : wsize.toNat = 4 := by decide
  rw [BitVec.toNat_sub, hwsize] at hnat
  omega

theorem bptr_ofNat (a : Nat) : bptr (BitVec.ofNat 32 a) = BitVec.ofNat 32 (a + 4) :=
  (BitVec.ofNat_add ..).symm

theorem ne_zero_of_wrapped (hgt : 2 ^ 32 < size.toNat + 8) : size ≠ 0 := by
  intro hzero
  rw [hzero] at hgt
  contradiction

/--
Every free chunk is large enough for a size that has wrapped.
-/
theorem lxmalloc_of_free (hok : HeapOk k.mem k.heap cs) (hgt : 2 ^ 32 < size.toNat + 8) {c : Chunk}
    (hc : c ∈ cs) (hfree : c.allocated = false)
    : ∃ ptr k', lxmalloc size k = .ok ptr k' ∧ ptr ≠ 0 := by
  have hsmall := need_of_wrapped hgt
  have hend := hok.tiles.brk_eq
  have hbrk := k.heap.brk.isLt
  have htoNat : (BitVec.ofNat 32 (need size)).toNat = need size := by
    rw [BitVec.toNat_ofNat, Nat.mod_eq_of_lt (by omega)]
  have hfit := hok.firstFit_cases (BitVec.ofNat 32 (need size))
  rw [htoNat] at hfit
  rw [lxmalloc_eq (ne_zero_of_wrapped hgt) (roundup_need size)]
  cases hfit with
  | inl hfound =>
    obtain ⟨pre, d, post, rfl, _, _, _, hresult⟩ := hfound
    obtain ⟨a, q, hpre, hrest⟩ := tiles_append.mp hok.tiles
    have hsize := (tiles_cons.mp hrest).1.le_size
    rw [total_append, total] at hend
    rw [hresult]
    refine ⟨_, _, rfl, ?_⟩
    rw [bptr_ofNat]
    exact ofNat_ne_zero (by omega) (by omega)
  | inr hnone =>
    have hlt := hnone.1 c hc hfree
    obtain ⟨pre, post, rfl⟩ := List.append_of_mem hc
    obtain ⟨a, q, hpre, hrest⟩ := tiles_append.mp hok.tiles
    have hsize := (tiles_cons.mp hrest).1.le_size
    omega

theorem Seg.prevFree_of_allocated {m : ByteMem} {a b : Nat} {q q' : Bool} (h : Seg m a q cs b q')
    (hq : q = false) (hall : ∀ c ∈ cs, c.allocated = true)
    : q' = false := by
  induction cs generalizing a q with
  | nil =>
    obtain ⟨_, rfl⟩ := h
    exact hq
  | cons c cs ih =>
    apply ih h.2
    . rw [hall c List.mem_cons_self]
      rfl
    . intro d hd
      exact hall d (List.mem_cons_of_mem c hd)

/--
A new chunk of no bytes: its header is that of the epilogue, and its footer is the word before.
-/
theorem addChunk_empty {m : ByteMem} {a : Nat} (ha : 4 ≤ a) (hlt : a < 2 ^ 32)
    (hword : m.read32 a = header 0 true false)
    : (lxGrowHeap.addChunk m (BitVec.ofNat 32 a) 0).1 = BitVec.ofNat 32 a := by
  have hmarker : pack 0 (chunkPF (header 0 true false)) = 0 := by decide
  have hepilogue : pack 0 (mAllocated ||| mPrevFree) = 3 := by decide
  have hsize : chunkS 0 = 0 := by decide
  have hchunk : chunkS 3 = 0 := by decide
  have hadd : BitVec.ofNat 32 a + 0 = BitVec.ofNat 32 a := BitVec.add_zero _
  have hfooter : fptr (BitVec.ofNat 32 a) 0 = BitVec.ofNat 32 (a - 4) := by
    unfold fptr
    rw [hadd, sub_wsize ha]
  have hnext : nextChk ((m.write32 a 0).write32 (a - 4) 0) (BitVec.ofNat 32 a) = BitVec.ofNat 32 a := by
    unfold nextChk
    rw [lw_ofNat hlt, ByteMem.read32_write32_of_apart _ _ _ (by omega), ByteMem.read32_write32_self, hsize,
      hadd]
  have hprev : (((m.write32 a 0).write32 (a - 4) 0).write32 a 3).read32 (a - 4) = 0 := by
    rw [ByteMem.read32_write32_of_apart _ _ _ (by omega), ByteMem.read32_write32_self]
  unfold lxGrowHeap.addChunk
  dsimp only
  rw [lw_ofNat hlt, hword, hmarker, sw_ofNat hlt, hfooter, sw_ofNat (by omega), hnext, hepilogue, sw_ofNat hlt]
  unfold coalesce
  dsimp only
  rw [lw_ofNat hlt, ByteMem.read32_write32_self, hchunk, hadd, lw_ofNat hlt, ByteMem.read32_write32_self,
    if_pos (by decide), sub_wsize ha, lw_ofNat (by omega), hprev, hsize]
  exact BitVec.sub_zero _

/--
The new chunk does not wrap around to address zero.
-/
theorem addChunk_small (hok : HeapOk k.mem k.heap cs) (hall : ∀ c ∈ cs, c.allocated = true) {n : Nat}
    (hn : n = 0 ∨ n = 4) (hroom : k.heap.brk.toNat + n + 4 < k.heap.maxAddr.toNat)
    : ∃ a, 0 < a ∧ a + 4 < 2 ^ 32
        ∧ (lxGrowHeap.addChunk k.mem k.heap.brk (BitVec.ofNat 32 n)).1 = BitVec.ofNat 32 a := by
  have hend := hok.tiles.brk_eq
  have hmax := k.heap.maxAddr.isLt
  cases hn with
  | inl hzero =>
    subst hzero
    obtain ⟨q, hseg, hword⟩ := hok.tiles
    have hq := hseg.prevFree_of_allocated rfl hall
    subst hq
    have hempty := addChunk_empty (show 4 ≤ k.heap.brk.toNat by omega) k.heap.brk.isLt hword
    rw [ofNat_toNat_word] at hempty
    refine ⟨k.heap.brk.toNat, by omega, by omega, ?_⟩
    rw [ofNat_toNat_word]
    exact hempty
  | inr hfour =>
    subst hfour
    obtain ⟨grown⟩ := addChunk_grown hok 4 (by decide) (by decide) hroom
    have hend' := grown.ok.tiles.brk_eq
    have hbrk := grown.brk_eq
    have hle := grown.le
    rw [total_append, total, total] at hend'
    rw [hbrk] at hend'
    refine ⟨k.heap.start.toNat + 4 + total grown.pre, by omega, ?_, grown.ptr_eq⟩
    dsimp only at hend'
    omega

/--
Without a free chunk, a size that has wrapped makes the heap grow by no chunk, or by a chunk of one word.
-/
theorem lxmalloc_of_allocated (hok : HeapOk k.mem k.heap cs) (hwf : k.vm.WellFormed)
    (hmax : k.heap.maxAddr = kStackStart) (hgt : 2 ^ 32 < size.toNat + 8) (hall : ∀ c ∈ cs, c.allocated = true)
    : ∃ ptr k', lxmalloc size k = .ok ptr k'
        ∧ (CannotGrow k (need size + 4) → ptr = 0 ∧ ∃ vm, k' = { k with vm := vm })
        ∧ (ptr = 0 → CannotGrow k (need size + 4)) := by
  have hsmall := need_of_wrapped hgt
  have hend := hok.tiles.brk_eq
  have hbrk := k.heap.brk.isLt
  have htoNat : (BitVec.ofNat 32 (need size + 4)).toNat = need size + 4 := by
    rw [BitVec.toNat_ofNat, Nat.mod_eq_of_lt (by omega)]
  have hfit := hok.firstFit_cases (BitVec.ofNat 32 (need size))
  rw [lxmalloc_eq (ne_zero_of_wrapped hgt) (roundup_need size)]
  cases hfit with
  | inl hfound =>
    obtain ⟨pre, c, post, rfl, hfree, _⟩ := hfound
    rw [hall c (by simp)] at hfree
    contradiction
  | inr hnone =>
    rw [hnone.2]
    dsimp only
    have hcases := lxbrk_cases k (BitVec.ofNat 32 (need size + 4)) (by omega) (by omega)
    generalize hresult : lxbrk (BitVec.ofNat 32 (need size + 4)) k = r at hcases
    cases hcases with
    | limit hlimit =>
      rw [bind_ok _ (lxGrowHeap_null hresult), if_neg (not_not.mpr rfl)]
      rw [htoNat] at hlimit
      exact ⟨0, k, rfl, fun _ => ⟨rfl, k.vm, rfl⟩, fun _ => Or.inl hlimit⟩
    | refused hroom vm hmap =>
      rw [htoNat, hmax] at hroom
      obtain ⟨made, vm', hmap', hstuck⟩ := mapPages_page hwf (by omega) hroom
      obtain ⟨hmade, _⟩ := EStateM.Result.ok.inj (hmap.symm.trans hmap')
      rw [bind_ok _ (lxGrowHeap_null hresult), if_neg (not_not.mpr rfl)]
      exact ⟨0, _, rfl, fun _ => ⟨rfl, vm, rfl⟩, fun _ => Or.inr (hstuck.mp hmade.symm)⟩
    | fault hroom e vm hmap =>
      rw [htoNat, hmax] at hroom
      obtain ⟨made, vm', hmap', _⟩ := mapPages_page hwf (by omega) hroom
      nomatch hmap.symm.trans hmap'
    | moved hroom vm hmap =>
      rw [htoNat] at hroom
      have hgrow := lxGrowHeap_moved (show 4 ≤ k.heap.brk.toNat by omega) (show need size % 4 = 0 by omega)
        (by omega) hresult
      obtain ⟨a, hpos, hlt, hchunk⟩ := addChunk_small hok hall hsmall (by omega)
      rw [hchunk] at hgrow
      rw [bind_ok _ hgrow, if_pos (ofNat_ne_zero hpos (by omega)), bptr_ofNat]
      refine ⟨_, _, rfl, ?_, fun hzero => absurd hzero (ofNat_ne_zero (by omega) hlt)⟩
      rintro (hlimit | hstuck)
      . omega
      . rw [hmax] at hroom
        obtain ⟨made, vm', hmap', hiff⟩ := mapPages_page hwf (show need size + 4 ≤ 4096 by omega) hroom
        obtain ⟨hmade, _⟩ := EStateM.Result.ok.inj (hmap.symm.trans hmap')
        have hfalse := hiff.mpr hstuck
        rw [← hmade] at hfalse
        contradiction

/--
`lxmalloc` honours a size if and only if it is at most `2 ^ 32 - 12`, or it is one of the last seven and there is
neither a free chunk nor a way to grow.
-/
theorem lxmalloc_honoursSize_iff (hok : HeapOk k.mem k.heap cs) (hwf : k.vm.WellFormed)
    (hmax : k.heap.maxAddr = kStackStart) (size : Word)
    : HonoursSize k size
        ↔
      size.toNat + 12 ≤ 2 ^ 32
        ∨ (2 ^ 32 < size.toNat + 8 ∧ (∀ c ∈ cs, c.allocated = true) ∧ CannotGrow k (need size + 4)) := by
  constructor
  . intro h
    by_cases hsmall : size.toNat + 12 ≤ 2 ^ 32
    . exact Or.inl hsmall
    . obtain ⟨k', hnull, hbrk⟩ := h.null (by omega)
      by_cases hgt : 2 ^ 32 < size.toNat + 8
      . have hall : ∀ c ∈ cs, c.allocated = true := by
          intro c hc
          by_contra hfree
          rw [Bool.not_eq_true] at hfree
          obtain ⟨ptr, k₁, hresult, hne⟩ := lxmalloc_of_free hok hgt hc hfree
          obtain ⟨hptr, _⟩ := EStateM.Result.ok.inj (hresult.symm.trans hnull)
          exact hne hptr
        obtain ⟨ptr, k₁, hresult, _, hstuck⟩ := lxmalloc_of_allocated hok hwf hmax hgt hall
        obtain ⟨hptr, _⟩ := EStateM.Result.ok.inj (hresult.symm.trans hnull)
        exact Or.inr ⟨hgt, hall, hstuck hptr⟩
      . have hmoved := lxmalloc_moves_brk hok (by omega) (by omega) hnull
        rw [hbrk] at hmoved
        exact absurd hmoved.symm (sub_wsize_ne _)
  . rintro (hsmall | ⟨hgt, hall, hstuck⟩)
    . exact honoursSize_of_small hok hwf hmax hsmall
    . obtain ⟨ptr, k', hresult, hnull, _⟩ := lxmalloc_of_allocated hok hwf hmax hgt hall
      obtain ⟨hzero, vm, rfl⟩ := hnull hstuck
      exact ⟨ptr, _, hresult, Or.inl ⟨hzero, rfl, rfl⟩⟩

/--
The heap that `kalloc_init` leaves has a free chunk.
-/
theorem kallocInit_bootKernel_free
    : ∃ (k : Kernel) (cs : List Chunk) (c : Chunk), HeapOk k.mem k.heap cs ∧ k.vm.WellFormed
        ∧ k.heap.maxAddr = kStackStart ∧ c ∈ cs
        ∧ c.allocated = false := by
  obtain ⟨k, hinit, _⟩ := kallocInit_bootKernel
  obtain ⟨_, _, _, _, _, _, ⟨grown⟩⟩ := kallocInit_grown (by decide) hinit
  have hbacked := kallocInit_backed (by decide) wellFormed_bootMachine
    (not_mapped_bootMachine _ (by decide)) hinit
  exact ⟨k, _, grown.chunk, grown.ok, hbacked.wellFormed, hbacked.maxAddr_eq, by simp, grown.free⟩

theorem lxmalloc_honoursSize_bootKernel
    : ∃ (k : Kernel) (cs : List Chunk), HeapOk k.mem k.heap cs ∧ HonoursSize k 0xFFFFFFF4 := by
  obtain ⟨k, cs, _, hok, hwf, hmax, _⟩ := kallocInit_bootKernel_free
  exact ⟨k, cs, hok, (lxmalloc_honoursSize_iff hok hwf hmax 0xFFFFFFF4).mpr (Or.inl (by decide))⟩

/--
After `kalloc_init` a request for `2 ^ 32 - 1` bytes gets a chunk with a size that has wrapped, and one for
`2 ^ 32 - 8` bytes moves the break back.
-/
theorem lxmalloc_wraps
    : ∃ (k : Kernel) (cs : List Chunk), HeapOk k.mem k.heap cs
        ∧ k.vm.WellFormed
        ∧ k.heap.maxAddr = kStackStart
        ∧ ¬HonoursSize k 0xFFFFFFFF
        ∧ ¬HonoursSize k 0xFFFFFFF8 := by
  obtain ⟨k, cs, c, hok, hwf, hmax, hc, hfree⟩ := kallocInit_bootKernel_free
  refine ⟨k, cs, hok, hwf, hmax, ?_, ?_⟩
  . intro h
    obtain ⟨k', hnull, _⟩ := h.null (by decide)
    obtain ⟨ptr, k₁, hresult, hne⟩ := @lxmalloc_of_free k cs 0xFFFFFFFF hok (by decide) c hc hfree
    obtain ⟨hptr, _⟩ := EStateM.Result.ok.inj (hresult.symm.trans hnull)
    exact hne hptr
  . intro h
    obtain ⟨k', hnull, hbrk⟩ := h.null (by decide)
    have hmoved := lxmalloc_moves_brk hok (by decide) (by decide) hnull
    rw [hbrk] at hmoved
    exact sub_wsize_ne _ hmoved.symm

end Sizes

end AwaOS
