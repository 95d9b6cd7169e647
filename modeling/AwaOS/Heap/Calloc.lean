import AwaOS.Heap.Growth
import AwaOS.Heap.Sizes

/-!
Which products `lxcalloc` gets right. Its test for overflow only compares the wrapped product with the factors.
-/

namespace AwaOS

open Machine

/--
No free chunk is large enough for a request, and the break cannot move by the chunk and the epilogue. The last part
is false where these wrap.
-/
def CannotServe (k : Kernel) (cs : List Chunk) (size : Word) : Prop :=
  (∀ c ∈ cs, c.allocated = false → c.size < need size)
    ∧ need size + 4 < 2 ^ 32
    ∧ Refuses k (BitVec.ofNat 32 (need size + 4))

section Serve

variable {k : Kernel} {cs : List Chunk} {size : Word}

theorem rounded_need (hlt : need size + 4 < 2 ^ 32)
    : rounded (BitVec.ofNat 32 (need size + 4)) = need size + 4 := by
  apply rounded_words
  . unfold need
    omega
  . exact hlt

/--
A growth of less than a page.
-/
theorem cannotGrow_iff (hsmall : need size + 4 ≤ 4096)
    : CannotGrow k (need size + 4) ↔ Refuses k (BitVec.ofNat 32 (need size + 4)) := by
  unfold CannotGrow Refuses
  rw [rounded_need (by omega)]
  apply or_congr Iff.rfl
  by_cases hcross : k.heap.brk.toNat / 4096 < (k.heap.brk.toNat + (need size + 4)) / 4096
  . have hone : (k.heap.brk.toNat + (need size + 4)) / 4096 - k.heap.brk.toNat / 4096 = 1 := by omega
    rw [hone, canMap_one_iff, not_not]
    exact ⟨fun h => h.2, fun hstuck => ⟨hcross, hstuck⟩⟩
  . have hnone : (k.heap.brk.toNat + (need size + 4)) / 4096 - k.heap.brk.toNat / 4096 = 0 := by omega
    rw [hnone]
    exact ⟨fun h => absurd h.1 hcross, fun hcannot => absurd (canMap_zero _ _) hcannot⟩

theorem cannotServe_of_wrapped (hok : HeapOk k.mem k.heap cs) (hgt : 2 ^ 32 < size.toNat + 8)
    : CannotServe k cs size ↔ (∀ c ∈ cs, c.allocated = true) ∧ CannotGrow k (need size + 4) := by
  have hsmall := need_of_wrapped hgt
  have hfull : (∀ c ∈ cs, c.allocated = false → c.size < need size) ↔ ∀ c ∈ cs, c.allocated = true := by
    constructor
    . intro h c hc
      by_contra hfree
      rw [Bool.not_eq_true] at hfree
      have hlt := h c hc hfree
      obtain ⟨pre, post, rfl⟩ := List.append_of_mem hc
      obtain ⟨a, q, _, hrest⟩ := tiles_append.mp hok.tiles
      have hsize := (tiles_cons.mp hrest).1.le_size
      omega
    . intro h c hc hfree
      rw [h c hc] at hfree
      contradiction
  have hlt : need size + 4 < 2 ^ 32 := by omega
  unfold CannotServe
  rw [hfull, ← cannotGrow_iff (by omega), and_iff_right hlt]

theorem lxmalloc_null_of_wrapped (hok : HeapOk k.mem k.heap cs) (hwf : k.vm.WellFormed)
    (hmax : k.heap.maxAddr = kStackStart) (hgt : 2 ^ 32 < size.toNat + 8)
    : ∃ ptr k', lxmalloc size k = .ok ptr k' ∧ (ptr = 0 ↔ CannotServe k cs size) := by
  rw [cannotServe_of_wrapped hok hgt]
  by_cases hall : ∀ c ∈ cs, c.allocated = true
  . obtain ⟨ptr, k', hresult, hnull, hstuck⟩ := lxmalloc_of_allocated hok hwf hmax hgt hall
    exact ⟨ptr, k', hresult, fun hzero => ⟨hall, hstuck hzero⟩, fun h => (hnull h.2).1⟩
  . obtain ⟨c, hc, hfree⟩ : ∃ c ∈ cs, c.allocated = false := by simpa using hall
    obtain ⟨ptr, k', hresult, hne⟩ := lxmalloc_of_free hok hgt hc hfree
    exact ⟨ptr, k', hresult, fun hzero => absurd hzero hne, fun h => absurd h.1 hall⟩

theorem lxmalloc_null_of_small (hok : HeapOk k.mem k.heap cs) (hwf : k.vm.WellFormed)
    (hmax : k.heap.maxAddr = kStackStart) (hne : size ≠ 0) (hsize : size.toNat + 12 ≤ 2 ^ 32)
    : ∃ ptr k', lxmalloc size k = .ok ptr k' ∧ (ptr = 0 ↔ CannotServe k cs size) := by
  have hneed := need_of_small (show size.toNat + 8 ≤ 2 ^ 32 by omega)
  have hlt : chunkBytes size + 4 < 2 ^ 32 := by
    unfold chunkBytes
    omega
  have htoNat : (BitVec.ofNat 32 (chunkBytes size + 4)).toNat = chunkBytes size + 4 := by
    rw [BitVec.toNat_ofNat, Nat.mod_eq_of_lt hlt]
  have hrounded := rounded_need (show need size + 4 < 2 ^ 32 by omega)
  have hpages := @mapPages_iff k (chunkBytes size + 4) hwf
  have hend : kStackStart.toNat ≤ vpnEnd * 4096 := by decide
  have hcases := lxmalloc_cases hok size hsize
  unfold CannotServe Refuses
  rw [hrounded, hneed, hmax]
  generalize lxmalloc size k = r at hcases
  cases hcases with
  | empty hzero => exact absurd hzero hne
  | null _ hfull vm hbrk =>
    refine ⟨0, _, rfl, fun _ => ⟨hfull, hlt, ?_⟩, fun _ => rfl⟩
    cases hbrk.null_cases hok.brk_ne_zero with
    | inl hlimit =>
      rw [htoNat, hmax] at hlimit
      exact Or.inl hlimit.1
    | inr hrefused =>
      obtain ⟨hroom, hmap⟩ := hrefused
      rw [htoNat, hmax] at hroom
      obtain ⟨made, vm', hmap', hiff, _⟩ := hpages (Nat.lt_of_lt_of_le hroom hend)
      obtain ⟨hmade, _⟩ := EStateM.Result.ok.inj (hmap.symm.trans hmap')
      subst hmade
      exact Or.inr ((not_iff_not.mpr hiff).mp Bool.false_ne_true)
  | fault _ hfull e vm hbrk =>
    obtain ⟨hroom, hmap⟩ := hbrk.fault_cases
    rw [htoNat, hmax] at hroom
    obtain ⟨made, vm', hmap', _⟩ := hpages (Nat.lt_of_lt_of_le hroom hend)
    nomatch hmap.symm.trans hmap'
  | fit _ c hc hfree hle ptr m' placed =>
    refine ⟨ptr, _, rfl, fun hzero => absurd hzero placed.ptr_ne_zero, fun h => ?_⟩
    have hshort := h.1 c hc hfree
    omega
  | grown _ hfull vm hbrk ptr m' heap' hmoved placed =>
    refine ⟨ptr, _, rfl, fun hzero => absurd hzero placed.ptr_ne_zero, fun h => ?_⟩
    obtain ⟨hroom, hmap⟩ := hbrk.moved_cases hok.brk_ne_zero
    rw [htoNat, hmax] at hroom
    obtain ⟨made, vm', hmap', hiff, _⟩ := hpages (Nat.lt_of_lt_of_le hroom hend)
    obtain ⟨hmade, _⟩ := EStateM.Result.ok.inj (hmap.symm.trans hmap')
    subst hmade
    cases h.2.2 with
    | inl hlimit => omega
    | inr hcannot => exact absurd (hiff.mp rfl) hcannot

/--
A new chunk of `2 ^ 32 - 4` bytes overwrites the two words before it, and is not merged with anything.
-/
theorem addChunk_wrapped {m : ByteMem} {a n : Nat} {prevFree : Bool} (ha : 4 ≤ a) (hlt : a < 2 ^ 32)
    (h4 : a % 4 = 0) (hn : n + 4 = 2 ^ 32) (hword : m.read32 a = header 0 true prevFree)
    : (lxGrowHeap.addChunk m (BitVec.ofNat 32 a) (BitVec.ofNat 32 n)).1 = BitVec.ofNat 32 a := by
  have hback : BitVec.ofNat 32 a + BitVec.ofNat 32 n = BitVec.ofNat 32 (a - 4) := by
    apply BitVec.eq_of_toNat_eq
    rw [BitVec.toNat_add, BitVec.toNat_ofNat, BitVec.toNat_ofNat, BitVec.toNat_ofNat]
    omega
  -- the footer is two words before the header, at the end of the address space if there is no such word
  obtain ⟨f, hfooter, hlow, hf⟩ : ∃ f, fptr (BitVec.ofNat 32 a) (BitVec.ofNat 32 n) = BitVec.ofNat 32 f
      ∧ (f + 8 ≤ a ∨ a + 4 ≤ f) ∧ f < 2 ^ 32 := by
    refine ⟨(fptr (BitVec.ofNat 32 a) (BitVec.ofNat 32 n)).toNat, (ofNat_toNat_word _).symm, ?_, BitVec.isLt _⟩
    have hwsize : wsize.toNat = 4 := by decide
    unfold fptr
    rw [hback, BitVec.toNat_sub, BitVec.toNat_ofNat, hwsize]
    omega
  have hsize : chunkS (header n false prevFree) = BitVec.ofNat 32 n := chunkS_header _ _ _ (by omega) (by omega)
  have hpack : pack (BitVec.ofNat 32 n) (chunkPF (header 0 true prevFree)) = header n false prevFree := by
    rw [chunkPF_header]
    cases prevFree with
    | true => rfl
    | false => rfl
  have hepilogue : pack 0 (mAllocated ||| mPrevFree) = header 0 true true := by decide
  have hsub : BitVec.ofNat 32 a - chunkS (header 0 true true) = BitVec.ofNat 32 a := by
    rw [chunkS_header 0 _ _ (by decide) (by decide)]
    exact BitVec.sub_zero _
  unfold lxGrowHeap.addChunk nextChk
  dsimp only
  rw [lw_ofNat hlt, hword, hpack, sw_ofNat hlt, hfooter, sw_ofNat (by omega), lw_ofNat hlt,
    ByteMem.read32_write32_of_apart _ _ _ (by omega), ByteMem.read32_write32_self, hsize, hback,
      sw_ofNat (by omega),
    hepilogue]
  unfold coalesce
  dsimp only
  rw [lw_ofNat hlt, ByteMem.read32_write32_of_apart _ _ _ (by omega),
    ByteMem.read32_write32_of_apart _ _ _ (by omega),
    ByteMem.read32_write32_self, hsize, hback, lw_ofNat (by omega), ByteMem.read32_write32_self,
      sub_wsize (by omega),
    lw_ofNat (by omega), ByteMem.read32_write32_self, hsub]
  split
  . rfl
  . rw [if_neg (fun hand => chunkA_ne_zero hand.1), if_neg (fun hand => chunkA_ne_zero hand.1)]

/--
These sizes make the heap grow by `2 ^ 32 - 4` bytes, which moves the break back by a word.
-/
theorem lxmalloc_of_middle (hok : HeapOk k.mem k.heap cs) (hle : size.toNat + 8 ≤ 2 ^ 32)
    (hgt : 2 ^ 32 < size.toNat + 12)
    : ∃ k', lxmalloc size k = .ok (bptr k.heap.brk) k' := by
  have hne : size ≠ 0 := by
    intro hzero
    rw [hzero] at hgt
    contradiction
  have hneed : need size = 0xFFFFFFFC := by
    unfold need
    omega
  have hround : roundup (size + wsize) boundary = 0xFFFFFFFC := by
    rw [roundup_need, hneed]
    rfl
  have hend := hok.tiles.brk_eq
  have haligned := hok.brk_aligned
  have hbrk := k.heap.brk.isLt
  have hwrapped : (lxGrowHeap.addChunk k.mem k.heap.brk 0xFFFFFFFC).1 = k.heap.brk := by
    obtain ⟨prevFree, _, hword⟩ := hok.tiles
    have hstart := hok.aligned
    have hadd := @addChunk_wrapped k.mem k.heap.brk.toNat (need size) prevFree (by omega) hbrk haligned
      (by omega) hword
    rw [ofNat_toNat_word, hneed] at hadd
    exact hadd
  rw [lxmalloc_eq hne hround]
  cases hok.firstFit_cases 0xFFFFFFFC with
  | inl hfound =>
    obtain ⟨pre, c, post, rfl, _, hlarge, _⟩ := hfound
    have htoNat : (0xFFFFFFFC : Word).toNat = 0xFFFFFFFC := by decide
    rw [total_append, total] at hend
    rw [htoNat] at hlarge
    omega
  | inr hnone =>
    rw [hnone.2]
    dsimp only
    rw [bind_ok _ (lxGrowHeap_wrapped (by decide) (by decide) hok.brk_ne_zero), hwrapped,
      if_pos hok.brk_ne_zero]
    exact ⟨_, rfl⟩

/--
When `lxmalloc` returns `NULL`.
-/
theorem lxmalloc_null_iff (hok : HeapOk k.mem k.heap cs) (hwf : k.vm.WellFormed)
    (hmax : k.heap.maxAddr = kStackStart) (hroom : k.heap.brk.toNat < k.heap.maxAddr.toNat) (hne : size ≠ 0)
    : ∃ ptr k', lxmalloc size k = .ok ptr k' ∧ (ptr = 0 ↔ CannotServe k cs size) := by
  by_cases hsmall : size.toNat + 12 ≤ 2 ^ 32
  . exact lxmalloc_null_of_small hok hwf hmax hne hsmall
  . by_cases hgt : 2 ^ 32 < size.toNat + 8
    . exact lxmalloc_null_of_wrapped hok hwf hmax hgt
    . obtain ⟨k', hresult⟩ := lxmalloc_of_middle hok (show size.toNat + 8 ≤ 2 ^ 32 by omega) (by omega)
      refine ⟨_, k', hresult, fun hzero => ?_, fun h => ?_⟩
      . rw [hmax, toNat_kStackStart] at hroom
        rw [← ofNat_toNat_word k.heap.brk, bptr_ofNat] at hzero
        exact absurd hzero (ofNat_ne_zero (by omega) (by omega))
      . have hlt := h.2.1
        unfold need at hlt
        omega

end Serve

theorem memset_at (m : ByteMem) {a n i : Nat} (value : BitVec 8) (ha : a + n ≤ 2 ^ 32) (hi : i < n)
    : memset m (BitVec.ofNat 32 a) value n (a + i) = value := by
  induction n with
  | zero => contradiction
  | succ n ih =>
    unfold memset
    rw [← BitVec.ofNat_add, BitVec.toNat_ofNat, Nat.mod_eq_of_lt (by omega)]
    by_cases hlast : i = n
    . rw [hlast, Function.update_self]
    . rw [Function.update_of_ne (by omega)]
      exact ih (by omega) (by omega)

/--
Either `NULL`, or the payload of an allocated chunk in a well formed heap that has room for the product of the two
numbers, and that starts with as many zero bytes.
-/
def NeverUnderAllocates (k : Kernel) (n elem : Word) : Prop :=
  ∃ ptr k', lxcalloc n elem k = .ok ptr k'
    ∧ (ptr = 0
      ∨ ∃ cs addr bytes, HeapOk k'.mem k'.heap cs ∧ (addr, bytes) ∈ heapBlocks k'.heap cs
          ∧ ptr.toNat = addr + 4 ∧ n.toNat * elem.toNat + 4 ≤ bytes
          ∧ ∀ i, i < n.toNat * elem.toNat → k'.mem (ptr.toNat + i) = 0)

/--
The test for overflow finds that the wrapped product is smaller than a factor.
-/
def Rejects (n elem : Word) : Prop :=
  n.toNat * elem.toNat % 2 ^ 32 < elem.toNat ∨ n.toNat * elem.toNat % 2 ^ 32 < n.toNat

section Calloc

variable {k k' : Kernel} {cs : List Chunk} {n elem ptr : Word}

theorem rejects_iff : (n * elem < elem ∨ n * elem < n) ↔ Rejects n elem := by
  unfold Rejects
  rw [BitVec.lt_def, BitVec.lt_def, BitVec.toNat_mul]

theorem lxcalloc_of_rejects (h : Rejects n elem) : lxcalloc n elem k = .ok 0 k := by
  unfold lxcalloc
  rw [if_pos (rejects_iff.mpr h)]
  rfl

theorem lxcalloc_of_lxmalloc (h : ¬Rejects n elem) (hresult : lxmalloc (n * elem) k = .ok ptr k')
    : lxcalloc n elem k
        =
      if ptr = 0 then
        .ok 0 k'
      else
        .ok ptr { k' with mem := memset k'.mem ptr 0 (n * elem).toNat } := by
  unfold lxcalloc
  rw [if_neg (fun hover => h (rejects_iff.mp hover)), bind_ok _ hresult]
  split
  . rfl
  . rfl

/--
A product that neither wraps nor is too large for `lxmalloc`.
-/
theorem neverUnderAllocates_of_small (hok : HeapOk k.mem k.heap cs) (hwf : k.vm.WellFormed)
    (hmax : k.heap.maxAddr = kStackStart) (hpass : ¬Rejects n elem)
    (hsmall : n.toNat * elem.toNat + 12 ≤ 2 ^ 32)
    : NeverUnderAllocates k n elem := by
  have hproduct : (n * elem).toNat = n.toNat * elem.toNat := by
    rw [BitVec.toNat_mul, Nat.mod_eq_of_lt (by omega)]
  obtain ⟨ptr, k', hresult, hcases⟩ :=
    honoursSize_of_small hok hwf hmax (show (n * elem).toNat + 12 ≤ 2 ^ 32 by omega)
  have hcalloc := lxcalloc_of_lxmalloc hpass hresult
  by_cases hzero : ptr = 0
  . rw [if_pos hzero] at hcalloc
    exact ⟨0, k', hcalloc, Or.inl rfl⟩
  . rw [if_neg hzero] at hcalloc
    refine ⟨ptr, _, hcalloc, Or.inr ?_⟩
    cases hcases with
    | inl hnull => exact absurd hnull.1 hzero
    | inr hblock =>
      obtain ⟨cs', addr, bytes, hok', hmem, rfl, hle⟩ := hblock
      obtain ⟨_, _, hhi, _⟩ := hok'.block_bounds hmem
      have hbrk := k'.heap.brk.isLt
      have haddr : (BitVec.ofNat 32 (addr + 4)).toNat = addr + 4 := by
        rw [BitVec.toNat_ofNat, Nat.mod_eq_of_lt (by omega)]
      have hsame := memset_of_outside k'.mem (addr + 4) (n * elem).toNat 0 (by omega)
      refine ⟨cs', addr, bytes, hok'.writePayload hmem (hsame.mono (Nat.le_refl _) (by omega)), hmem,
        haddr, by omega, ?_⟩
      intro i hi
      dsimp only
      rw [haddr]
      exact memset_at _ _ (by omega) (by omega)

/--
A block is never large enough for a product beyond `2 ^ 32 - 12`.
-/
theorem NeverUnderAllocates.null (h : NeverUnderAllocates k n elem)
    (hlarge : 2 ^ 32 < n.toNat * elem.toNat + 12)
    : ∃ k', lxcalloc n elem k = .ok 0 k' := by
  obtain ⟨ptr, k', hresult, rfl | ⟨cs, addr, bytes, hok, hmem, _, hle, _⟩⟩ := h
  . exact ⟨k', hresult⟩
  . have hlt := hok.block_lt hmem
    omega

/--
`lxcalloc` never under-allocates if and only if its test rejects the factors, or their product is at most
`2 ^ 32 - 12`, or there is nothing to serve the wrapped product with.
-/
theorem lxcalloc_neverUnderAllocates_iff (hok : HeapOk k.mem k.heap cs) (hwf : k.vm.WellFormed)
    (hmax : k.heap.maxAddr = kStackStart) (hroom : k.heap.brk.toNat < k.heap.maxAddr.toNat) (n elem : Word)
    : NeverUnderAllocates k n elem
        ↔
      Rejects n elem ∨ n.toNat * elem.toNat + 12 ≤ 2 ^ 32 ∨ CannotServe k cs (n * elem) := by
  by_cases hpass : Rejects n elem
  . exact ⟨fun _ => Or.inl hpass, fun _ => ⟨0, k, lxcalloc_of_rejects hpass, Or.inl rfl⟩⟩
  . by_cases hsmall : n.toNat * elem.toNat + 12 ≤ 2 ^ 32
    . exact ⟨fun _ => Or.inr (Or.inl hsmall), fun _ => neverUnderAllocates_of_small hok hwf hmax hpass hsmall⟩
    . have hne : n * elem ≠ 0 := by
        intro hzero
        have hnat : n.toNat * elem.toNat % 2 ^ 32 = 0 := by
          rw [← BitVec.toNat_mul, hzero]
          rfl
        unfold Rejects at hpass
        have hn : n.toNat = 0 := by omega
        rw [hn, Nat.zero_mul] at hsmall
        omega
      obtain ⟨ptr, k', hresult, hnull⟩ := lxmalloc_null_iff hok hwf hmax hroom hne
      have hcalloc := lxcalloc_of_lxmalloc hpass hresult
      by_cases hzero : ptr = 0
      . rw [if_pos hzero] at hcalloc
        exact ⟨fun _ => Or.inr (Or.inr (hnull.mp hzero)), fun _ => ⟨0, k', hcalloc, Or.inl rfl⟩⟩
      . rw [if_neg hzero] at hcalloc
        constructor
        . intro h
          obtain ⟨k₁, hfailed⟩ := h.null (by omega)
          obtain ⟨hptr, _⟩ := EStateM.Result.ok.inj (hcalloc.symm.trans hfailed)
          exact absurd hptr hzero
        . rintro (hreject | hfits | hcannot)
          . exact absurd hreject hpass
          . exact absurd hfits hsmall
          . exact absurd (hnull.mpr hcannot) hzero

/--
As `bootMachine`, but frames 2 to 511 are free.
-/
def roomyMachine : Machine :=
  {
    directoryOnly with
    pmm := {
      pmBitmap := fun group => if group = 0 then 0xC0#8 else 0x00#8
      maxPg := 512
      pgLookupPtr := Pmm.lookupStart
      maxPg_lt := by decide
      pgLookupPtr_pos := Pmm.lookupStart_pos
    }
  }

def roomyKernel : Kernel where
  vm := roomyMachine
  mem _ := 0
  heap := ⟨0, 0, 0⟩

theorem wellFormed_roomyMachine : roomyMachine.WellFormed :=
  wellFormed_of_directory rfl rfl (by decide)

theorem supplied_roomyMachine : Supplied roomyMachine 62 where
  nullReturned_eq := rfl
  supplies := by
    refine @Pmm.supplies_of_free roomyMachine.pmm 1 62 (by decide) (by decide) ?_
    intro ppn hge _
    have hgroup : ppn / 8 ≠ 0 := by omega
    change (if ppn / 8 = 0 then 0xC0#8 else 0x00#8).getMsbD (ppn % 8) = false
    rw [if_neg hgroup]
    exact BitVec.getMsbD_zero

theorem roomyKernel_free (v : Nat) (_ : (0x400000 : Word).toNat / 4096 < v) (hlt : v * 4096 < kStackStart.toNat)
    : ¬roomyKernel.vm.Mapped v := by
  rw [toNat_kStackStart] at hlt
  exact @not_mapped_of_directory roomyMachine rfl rfl v (by unfold vpnEnd; omega)

theorem kallocInit_roomyKernel : ∃ k, kallocInit 0x400000 roomyKernel = .ok true k ∧ Supplied k.vm 59 := by
  apply @kallocInit_of_directory 0x400000 roomyKernel 59 rfl rfl wellFormed_roomyMachine supplied_roomyMachine
  . decide
  . decide
  . decide
  . decide
  . decide

/--
A request of 32 pages right after `kalloc_init`, which no free chunk is large enough for.
-/
theorem lxmalloc_roomyKernel
    : ∃ (k : Kernel) (cs : List Chunk), HeapOk k.mem k.heap cs ∧ k.vm.WellFormed ∧ k.heap.maxAddr = kStackStart
        ∧ k.heap.brk.toNat = 0x401004 ∧ ∃ ptr k', lxmalloc 0x20001 k = .ok ptr k' ∧ ptr ≠ 0 := by
  obtain ⟨k, hinit, hsupply⟩ := kallocInit_roomyKernel
  obtain ⟨_, _, _, _, _, _, ⟨grown⟩⟩ := kallocInit_grown (by decide) hinit
  have hmapped := (HeapRun.init hinit).mapped (by decide) wellFormed_roomyMachine roomyKernel_free
  have hbrk : k.heap.brk.toNat = 0x401004 := grown.brk_eq
  have hstart : k.heap.start.toNat = 0x400000 := congrArg BitVec.toNat grown.start_eq
  have hend := grown.ok.tiles.brk_eq
  have hbytes : chunkBytes 0x20001 = 0x20008 := by decide
  have hfull : ∀ c ∈ grown.pre ++ [grown.chunk], c.allocated = false → c.size < chunkBytes 0x20001 := by
    intro c hc hfree
    have hle := free_add_blocks_le hc hfree 0
    omega
  have hgrow := @lxmalloc_grown k _ 0x20001 27 grown.ok hmapped (by decide) (by decide) hfull
  rw [hbrk, hstart, toNat_kStackStart, hbytes] at hgrow
  obtain ⟨ptr, vm, m', heap', hresult, _, ⟨placed⟩, _⟩ := hgrow (by omega) (by omega) (by omega) hsupply
  exact ⟨k, _, grown.ok, hmapped.wellFormed, hmapped.maxAddr_eq, hbrk, ptr, _, hresult, placed.ptr_ne_zero⟩

theorem lxcalloc_neverUnderAllocates_roomyKernel
    : ∃ (k : Kernel) (cs : List Chunk), HeapOk k.mem k.heap cs ∧ NeverUnderAllocates k 100 1000 := by
  obtain ⟨k, cs, hok, hwf, hmax, hbrk, _⟩ := lxmalloc_roomyKernel
  have hroom : k.heap.brk.toNat < k.heap.maxAddr.toNat := by
    rw [hbrk, hmax]
    decide
  exact ⟨k, cs, hok, (lxcalloc_neverUnderAllocates_iff hok hwf hmax hroom 100 1000).mpr (Or.inr (Or.inl (by decide)))⟩

/--
With both factors `0x10001`, the wrapped product is `0x20001`, which passes the test.
-/
theorem lxcalloc_underAllocates
    : ∃ (k : Kernel) (cs : List Chunk), HeapOk k.mem k.heap cs
        ∧ k.vm.WellFormed
        ∧ k.heap.maxAddr = kStackStart
        ∧ k.heap.brk.toNat < k.heap.maxAddr.toNat
        ∧ ¬NeverUnderAllocates k 0x10001 0x10001 := by
  obtain ⟨k, cs, hok, hwf, hmax, hbrk, ptr, k', hresult, hne⟩ := lxmalloc_roomyKernel
  have hpass : ¬Rejects 0x10001 0x10001 := by
    unfold Rejects
    decide
  have hcalloc := lxcalloc_of_lxmalloc hpass (show lxmalloc (0x10001 * 0x10001) k = .ok ptr k' from hresult)
  rw [if_neg hne] at hcalloc
  refine ⟨k, cs, hok, hwf, hmax, ?_, ?_⟩
  . rw [hbrk, hmax]
    decide
  . intro h
    obtain ⟨k₁, hfailed⟩ := h.null (by decide)
    obtain ⟨hptr, _⟩ := EStateM.Result.ok.inj (hcalloc.symm.trans hfailed)
    exact hne hptr

end Calloc

end AwaOS
