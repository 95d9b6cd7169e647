import AwaOS.Heap.Calloc

/-!
The layout that `lxmalloc` leaves: the first free chunk that is large enough is split, and without one the end of the
heap is.
-/

namespace AwaOS

open Machine

/--
Some free chunk is large enough for a request.
-/
def Fits (cs : List Chunk) (size : Word) : Prop :=
  ∃ c ∈ cs, c.allocated = false ∧ chunkBytes size ≤ c.size

/--
`lxmalloc` returns the payload of the free chunk with the lowest address that is large enough. This chunk is split,
and besides it only the memory of the heap changes.
-/
def ServesFirstFit (k : Kernel) (cs : List Chunk) (size : Word) : Prop :=
  ∃ pre c post ptr m', cs = pre ++ c :: post
    ∧ c.allocated = false
    ∧ chunkBytes size ≤ c.size
    ∧ (∀ d ∈ pre, d.allocated = false → d.size < chunkBytes size)
    ∧ lxmalloc size k = .ok ptr { k with mem := m' }
    ∧ ptr.toNat = k.heap.start.toNat + 4 + total pre + 4
    ∧ HeapOk m' k.heap (pre ++ (carve c (chunkBytes size) ++ post))

/--
`lxmalloc` moves the break by the size of the chunk, and splits the chunk that this makes together with the free
chunk at the end of the heap, if there is one.
-/
def CarvesTail (k : Kernel) (cs : List Chunk) (size : Word) : Prop :=
  ∃ pre tail ptr vm m' brk', cs = pre ++ tail
    ∧ (∀ d ∈ tail, d.allocated = false)
    ∧ (∀ d, pre.getLast? = some d → d.allocated = true)
    ∧ lxmalloc size k = .ok ptr { vm := vm, mem := m', heap := { k.heap with brk := brk' } }
    ∧ brk'.toNat = k.heap.brk.toNat + chunkBytes size
    ∧ ptr.toNat = k.heap.start.toNat + 4 + total pre + 4
    ∧ HeapOk m' { k.heap with brk := brk' }
      (pre ++ carve ⟨total tail + chunkBytes size, false⟩ (chunkBytes size))

/--
None of the pages by which the heap has to grow for a request is mapped, and there are frames for all of them and for
their page tables.
-/
def HasPages (k : Kernel) (size : Word) : Prop :=
  k.vm.CanMap (k.heap.brk.toNat / 4096 + 1)
    ((k.heap.brk.toNat + (chunkBytes size + 4)) / 4096 - k.heap.brk.toNat / 4096)

/--
The epilogue ends a page, and `lxbrk` would ask for the page behind it, which is mapped already.
-/
def AsksAgain (k : Kernel) : Prop :=
  k.heap.brk.toNat % 4096 = 4092 ∧ k.vm.Mapped (k.heap.brk.toNat / 4096 + 1)

/--
`lxmalloc` returns `NULL`, and the memory and the break of the heap stay as they are.
-/
def OutOfMemory (k : Kernel) (size : Word) : Prop :=
  ∃ vm, lxmalloc size k = .ok 0 { k with vm := vm }

section Layout

variable {m : ByteMem} {heap : HeapContext} {cs pre post : List Chunk} {c : Chunk}

theorem placeChunk_heapOk (h : HeapOk m heap (pre ++ c :: post)) (hfree : c.allocated = false) {bytes : Nat}
    (hpos : 0 < bytes) (h4 : bytes % 4 = 0) (hle : bytes ≤ c.size)
    : HeapOk (placeChunk m (BitVec.ofNat 32 (heap.start.toNat + 4 + total pre)) (BitVec.ofNat 32 bytes)) heap
        (pre ++ (carve c bytes ++ post)) := by
  have haligned := h.aligned
  have hbrk := heap.brk.isLt
  obtain ⟨htiles, _, hbelow⟩ := placeChunk_tiles (by omega) (by omega) h.tiles hfree hpos h4 hle
  constructor
  . exact h.aligned
  . rw [← h.prologue]
    exact ByteMem.read32_congr _ (hbelow.mono (Nat.zero_le _) (Nat.le_refl _))
  . exact htiles

/--
The payload of a chunk does not wrap.
-/
theorem HeapOk.toNat_payload (h : HeapOk m heap (pre ++ c :: post))
    : (bptr (BitVec.ofNat 32 (heap.start.toNat + 4 + total pre))).toNat
        =
      heap.start.toNat + 4 + total pre + 4 := by
  have hend := h.tiles.brk_eq
  have hbrk := heap.brk.isLt
  obtain ⟨a, q, _, hrest⟩ := tiles_append.mp h.tiles
  have hsize := (tiles_cons.mp hrest).1.le_size
  have hlast := h.brk_aligned
  have haligned := h.aligned
  rw [total_append, total] at hend
  rw [bptr_ofNat, BitVec.toNat_ofNat]
  omega

/--
The chunk before a free chunk is allocated.
-/
theorem Seg.last_allocated {m : ByteMem} {a b : Nat} {q q' : Bool} {cs : List Chunk} (h : Seg m a q cs b q')
    (hq' : q' = false) {d : Chunk} (hlast : cs.getLast? = some d)
    : d.allocated = true := by
  obtain ⟨ys, rfl⟩ := List.getLast?_eq_some_iff.mp hlast
  obtain ⟨x, p, _, hd⟩ := seg_append.mp h
  obtain ⟨_, hq⟩ := hd.2
  rw [hq', Bool.not_eq_false'] at hq
  exact hq

theorem HeapOk.before_free (h : HeapOk m heap (pre ++ c :: post)) (hfree : c.allocated = false) (d : Chunk)
    (hlast : pre.getLast? = some d)
    : d.allocated = true := by
  obtain ⟨a, q, hpre, hrest⟩ := tiles_append.mp h.tiles
  exact hpre.last_allocated ((tiles_cons.mp hrest).1.separate hfree) hlast

end Layout

section Lxmalloc

variable {k : Kernel} {cs : List Chunk} {size : Word}

theorem chunkBytes_bounds (hne : size ≠ 0) (hsize : size.toNat < 2 ^ 31)
    : 8 ≤ chunkBytes size ∧ chunkBytes size % 4 = 0 ∧ chunkBytes size + 4 < 2 ^ 32 := by
  have hpos : size.toNat ≠ 0 := fun hnat => hne (BitVec.eq_of_toNat_eq hnat)
  unfold chunkBytes
  omega

theorem lxmalloc_servesFirstFit (hok : HeapOk k.mem k.heap cs) (hne : size ≠ 0) (hsize : size.toNat < 2 ^ 31)
    (hfits : Fits cs size)
    : ServesFirstFit k cs size := by
  obtain ⟨hlo, h4, hhi⟩ := chunkBytes_bounds hne hsize
  have htoNat : (BitVec.ofNat 32 (chunkBytes size)).toNat = chunkBytes size := by
    rw [BitVec.toNat_ofNat, Nat.mod_eq_of_lt (by omega)]
  have hcases := hok.firstFit_cases (BitVec.ofNat 32 (chunkBytes size))
  rw [htoNat] at hcases
  cases hcases with
  | inl hfound =>
    obtain ⟨pre, c, post, rfl, hfree, hle, hbefore, hresult⟩ := hfound
    have hplaced := placeChunk_heapOk hok hfree (show 0 < chunkBytes size by omega) h4 hle
    refine ⟨pre, c, post, _, _, rfl, hfree, hle, hbefore, ?_, hok.toNat_payload, hplaced⟩
    rw [lxmalloc_eq hne (roundup_wsize size (by omega)), hresult]
    rfl
  | inr hnone =>
    obtain ⟨c, hc, hfree, hle⟩ := hfits
    have hshort := hnone.1 c hc hfree
    omega

/--
What `lxmalloc` does if it finds no chunk.
-/
theorem lxmalloc_of_none {bytes : Nat} {ptr : Word} {k' : Kernel} (hne : size ≠ 0)
    (hround : roundup (size + wsize) boundary = BitVec.ofNat 32 bytes)
    (hnone : firstFit k.mem k.heap.brk (BitVec.ofNat 32 bytes) (2 ^ 32) k.heap.start = some none)
    (hgrow : lxGrowHeap (BitVec.ofNat 32 bytes) k = .ok ptr k')
    : lxmalloc size k
        =
      if ptr ≠ 0 then
        .ok (bptr ptr) { k' with mem := placeChunk k'.mem ptr (BitVec.ofNat 32 bytes) }
      else
        .ok 0 k' := by
  rw [lxmalloc_eq hne hround, hnone]
  dsimp only
  rw [bind_ok _ hgrow]
  split
  . rfl
  . rfl

/--
`lxbrk` moves the break by whole words, or refuses to.
-/
theorem lxbrk_words {bytes : Nat} (hwf : k.vm.WellFormed) (hmax : k.heap.maxAddr.toNat ≤ vpnEnd * 4096)
    (hpos : 0 < bytes) (h4 : bytes % 4 = 0) (hlt : bytes < 2 ^ 32)
    : (Refuses k (BitVec.ofNat 32 bytes) ∧ ∃ vm, lxbrk (BitVec.ofNat 32 bytes) k = .ok 0 { k with vm := vm })
        ∨
      (¬Refuses k (BitVec.ofNat 32 bytes) ∧ k.heap.brk.toNat + bytes < k.heap.maxAddr.toNat
        ∧ ∃ vm, lxbrk (BitVec.ofNat 32 bytes) k
            = .ok k.heap.brk
              { k with vm := vm, heap := { k.heap with brk := k.heap.brk + BitVec.ofNat 32 bytes } }) := by
  have htoNat : (BitVec.ofNat 32 bytes).toNat = bytes := by
    rw [BitVec.toNat_ofNat, Nat.mod_eq_of_lt hlt]
  have hne : BitVec.ofNat 32 bytes ≠ 0 := ofNat_ne_zero hpos hlt
  have hrounded := rounded_words h4 hlt
  have hwords : (BitVec.ofNat 32 bytes).toNat + 3 < 2 ^ 32 := by omega
  by_cases hlimit : k.heap.maxAddr.toNat ≤ k.heap.brk.toNat + rounded (BitVec.ofNat 32 bytes)
  . exact Or.inl ⟨Or.inl hlimit, k.vm, lxbrk_of_limit hne hwords hlimit⟩
  . obtain ⟨made, vm, hresult, hiff, _⟩ := lxbrk_rounded hwf hmax hne hwords (by omega)
    cases made with
    | false => exact Or.inl ⟨Or.inr ((not_iff_not.mpr hiff).mp Bool.false_ne_true), vm, hresult⟩
    | true =>
      refine Or.inr ⟨?_, by omega, vm, hresult⟩
      rintro (hover | hcannot)
      . exact hlimit hover
      . exact hcannot (hiff.mp rfl)

/--
A request that no free chunk is large enough for.
-/
theorem lxmalloc_carvesTail (hok : HeapOk k.mem k.heap cs) (hwf : k.vm.WellFormed)
    (hmax : k.heap.maxAddr = kStackStart) (hne : size ≠ 0) (hsize : size.toNat < 2 ^ 31) (hfull : ¬Fits cs size)
    : (Refuses k (BitVec.ofNat 32 (chunkBytes size + 4)) ∧ ∃ vm, lxmalloc size k = .ok 0 { k with vm := vm })
        ∨
      (¬Refuses k (BitVec.ofNat 32 (chunkBytes size + 4)) ∧ CarvesTail k cs size) := by
  obtain ⟨hlo, h4, hhi⟩ := chunkBytes_bounds hne hsize
  have hround := roundup_wsize size (by omega)
  have hend : kStackStart.toNat ≤ vpnEnd * 4096 := by decide
  have hlast := hok.tiles.brk_eq
  have htoNat : (BitVec.ofNat 32 (chunkBytes size)).toNat = chunkBytes size := by
    rw [BitVec.toNat_ofNat, Nat.mod_eq_of_lt (by omega)]
  have hcases := hok.firstFit_cases (BitVec.ofNat 32 (chunkBytes size))
  rw [htoNat] at hcases
  cases hcases with
  | inl hfound =>
    obtain ⟨pre, c, post, rfl, hfree, hle, _⟩ := hfound
    exact absurd ⟨c, by simp, hfree, hle⟩ hfull
  | inr hnone =>
    cases lxbrk_words hwf (by rw [hmax]; exact hend) (show 0 < chunkBytes size + 4 by omega) (by omega) hhi with
    | inl hrefused =>
      obtain ⟨hrefuses, vm, hbrk⟩ := hrefused
      refine Or.inl ⟨hrefuses, vm, ?_⟩
      rw [lxmalloc_of_none hne hround hnone.2 (lxGrowHeap_null hbrk), if_neg (not_not.mpr rfl)]
    | inr hmoved =>
      obtain ⟨hmoves, hroom, vm, hbrk⟩ := hmoved
      have hlimit := k.heap.maxAddr.isLt
      refine Or.inr ⟨hmoves, ?_⟩
      have hgrow := lxGrowHeap_moved (show 4 ≤ k.heap.brk.toNat by omega) h4 hhi hbrk
      obtain ⟨pre, tail, hcs, hfree, hptr, hgrown, _⟩ :=
        addChunk_layout hok (chunkBytes size) (by omega) h4 (by omega)
      rw [hptr] at hgrow
      have hbelow : total pre ≤ total cs := by
        rw [hcs, total_append]
        omega
      have hptrne : BitVec.ofNat 32 (k.heap.start.toNat + 4 + total pre) ≠ 0 :=
        ofNat_ne_zero (by omega) (by omega)
      have hresult := lxmalloc_of_none hne hround hnone.2 hgrow
      rw [if_pos hptrne] at hresult
      have hplaced := placeChunk_heapOk hgrown rfl (show 0 < chunkBytes size by omega) h4 (Nat.le_add_left _ _)
      rw [List.append_nil] at hplaced
      have hbrk' :
          (BitVec.ofNat 32 (k.heap.brk.toNat + chunkBytes size)).toNat = k.heap.brk.toNat + chunkBytes size := by
        rw [BitVec.toNat_ofNat, Nat.mod_eq_of_lt (by omega)]
      exact ⟨pre, tail, _, vm, _, _, hcs, hfree, hgrown.before_free rfl, hresult, hbrk',
        hgrown.toNat_payload, hplaced⟩

/--
`lxbrk` refuses to move the break by a chunk and its epilogue for lack of room or of pages.
-/
theorem refuses_iff (h4 : chunkBytes size % 4 = 0) (hlt : chunkBytes size + 4 < 2 ^ 32)
    : Refuses k (BitVec.ofNat 32 (chunkBytes size + 4)) ↔ AtLimit k size ∨ ¬HasPages k size := by
  unfold Refuses AtLimit HasPages
  rw [rounded_words (by omega) hlt, Nat.add_assoc]

/--
If some free chunk is large enough, then the first one is split, and nothing else changes. Otherwise the end of the
heap is split after it has grown, or `NULL` is returned for lack of room or of pages. Nothing is said of a heap that
`lxbrk` would map a page of again.
-/
theorem lxmalloc_firstFit (hok : HeapOk k.mem k.heap cs) (hwf : k.vm.WellFormed)
    (hmax : k.heap.maxAddr = kStackStart) (hne : size ≠ 0) (hsize : size.toNat < 2 ^ 31)
    : (Fits cs size → ServesFirstFit k cs size)
        ∧ (¬Fits cs size →
            (AtLimit k size → OutOfMemory k size)
              ∧
            (¬AtLimit k size → ¬AsksAgain k →
              (HasPages k size → CarvesTail k cs size) ∧ (¬HasPages k size → OutOfMemory k size))) := by
  refine ⟨lxmalloc_servesFirstFit hok hne hsize, fun hfull => ?_⟩
  obtain ⟨_, h4, hhi⟩ := chunkBytes_bounds hne hsize
  have hiff := @refuses_iff k size h4 hhi
  cases lxmalloc_carvesTail hok hwf hmax hne hsize hfull with
  | inl hrefused =>
    obtain ⟨hrefuses, hnull⟩ := hrefused
    refine ⟨fun _ => hnull, fun hroom _ => ⟨fun hpages => ?_, fun _ => hnull⟩⟩
    exact absurd hpages ((hiff.mp hrefuses).resolve_left hroom)
  | inr hmoved =>
    obtain ⟨hmoves, hcarves⟩ := hmoved
    have hroom : ¬AtLimit k size := fun hlimit => hmoves (hiff.mpr (Or.inl hlimit))
    have hpages : ¬¬HasPages k size := fun hnone => hmoves (hiff.mpr (Or.inr hnone))
    exact ⟨fun hlimit => absurd hlimit hroom, fun _ _ => ⟨fun _ => hcarves, fun hnone => absurd hnone hpages⟩⟩

/--
The heap after `kalloc_init`: a request for 100 bytes is served from the chunk that is there, and for one of 5000
bytes the heap grows.
-/
theorem lxmalloc_firstFit_bootKernel
    : ∃ (k : Kernel) (cs : List Chunk), HeapOk k.mem k.heap cs
        ∧ Fits cs 100 ∧ ServesFirstFit k cs 100
        ∧ ¬Fits cs 5000 ∧ CarvesTail k cs 5000 := by
  obtain ⟨k, hinit, hsupply⟩ := kallocInit_bootKernel
  obtain ⟨_, _, _, _, _, _, ⟨grown⟩⟩ := kallocInit_grown (by decide) hinit
  have hmapped := kallocInit_mapped (by decide) wellFormed_bootMachine bootRun_free hinit
  have hbrk : k.heap.brk.toNat = 0x401004 := grown.brk_eq
  have hstart : k.heap.start.toNat = 0x400000 := congrArg BitVec.toNat grown.start_eq
  have hend := grown.ok.tiles.brk_eq
  have hle := grown.le
  have hfits : Fits (grown.pre ++ [grown.chunk]) 100 := by
    have hbytes : chunkBytes 100 = 104 := by decide
    exact ⟨grown.chunk, by simp, grown.free, by omega⟩
  have hbytes : chunkBytes 5000 = 5004 := by decide
  have hfull : ¬Fits (grown.pre ++ [grown.chunk]) 5000 := by
    rintro ⟨c, hc, hfree, hle⟩
    have hsize := free_add_blocks_le hc hfree 0
    omega
  have hroom : ¬AtLimit k 5000 := by
    unfold AtLimit
    rw [hmapped.maxAddr_eq, hbrk]
    decide
  have hagain : ¬AsksAgain k := by
    rintro ⟨hlast, _⟩
    omega
  have hpages : HasPages k 5000 := by
    unfold HasPages
    rw [hbrk, hbytes]
    constructor
    . intro m hm
      have hfresh := hmapped.mapped_iff (0x401004 / 4096 + 1 + m) (by omega) (by rw [toNat_kStackStart]; omega)
      by_contra hentry
      have hlow := hfresh.mp hentry
      omega
    . refine hsupply.supplies.mono ?_
      change 0 + _ ≤ 3
      split
      . omega
      . omega
  have hserves := fun size => @lxmalloc_firstFit k _ size grown.ok hmapped.wellFormed hmapped.maxAddr_eq
  exact ⟨k, _, grown.ok, hfits, (hserves 100 (by decide) (by decide)).1 hfits, hfull,
    (((hserves 5000 (by decide) (by decide)).2 hfull).2 hroom hagain).1 hpages⟩

theorem kallocInit_highHeap : ∃ k, kallocInit 0xC0000000 bootKernel = .ok true k ∧ Supplied k.vm 3 := by
  apply @kallocInit_of_directory 0xC0000000 bootKernel 3 rfl rfl wellFormed_bootMachine supplied_bootMachine
  . decide
  . decide
  . decide
  . decide
  . decide

/--
On a heap at `0xC0000000` a request for `2 ^ 31 - 1` bytes gets `NULL`, and the heap does not grow.
-/
theorem lxmalloc_firstFit_full
    : ∃ (k : Kernel) (cs : List Chunk), HeapOk k.mem k.heap cs
        ∧ k.vm.WellFormed
        ∧ k.heap.maxAddr = kStackStart
        ∧ ¬Fits cs 0x7FFFFFFF
        ∧ lxmalloc 0x7FFFFFFF k = .ok 0 k
        ∧ ¬CarvesTail k cs 0x7FFFFFFF := by
  obtain ⟨k, hinit, _⟩ := kallocInit_highHeap
  obtain ⟨_, _, _, _, _, _, ⟨grown⟩⟩ := kallocInit_grown (by decide) hinit
  have hbacked := kallocInit_backed (by decide) wellFormed_bootMachine
    (not_mapped_bootMachine _ (by decide)) hinit
  have hbrk : k.heap.brk.toNat = 0xC0001004 := grown.brk_eq
  have hstart : k.heap.start.toNat = 0xC0000000 := congrArg BitVec.toNat grown.start_eq
  have hlimit : k.heap.maxAddr.toNat = 0xFFBF0000 := by
    rw [hbacked.maxAddr_eq]
    rfl
  have hend := grown.ok.tiles.brk_eq
  have hbytes : chunkBytes 0x7FFFFFFF = 0x80000004 := by decide
  have hfull : ¬Fits (grown.pre ++ [grown.chunk]) 0x7FFFFFFF := by
    rintro ⟨c, hc, hfree, hle⟩
    have hsize := free_add_blocks_le hc hfree 0
    omega
  have hround := roundup_wsize 0x7FFFFFFF (by decide)
  have hnone :
      firstFit k.mem k.heap.brk (BitVec.ofNat 32 (chunkBytes 0x7FFFFFFF)) (2 ^ 32) k.heap.start = some none := by
    cases grown.ok.firstFit_cases (BitVec.ofNat 32 (chunkBytes 0x7FFFFFFF)) with
    | inl hfound =>
      obtain ⟨pre, c, post, hsplit, hfree, hle, _⟩ := hfound
      rw [BitVec.toNat_ofNat, Nat.mod_eq_of_lt (by rw [hbytes]; decide)] at hle
      refine absurd ⟨c, ?_, hfree, hle⟩ hfull
      rw [hsplit]
      simp
    | inr hnone => exact hnone.2
  have hover : lxbrk (BitVec.ofNat 32 (chunkBytes 0x7FFFFFFF + 4)) k = .ok 0 k := by
    apply lxbrk_of_limit
    . decide
    . decide
    . rw [hlimit, hbrk]
      decide
  have hresult := lxmalloc_of_none (by decide) hround hnone (lxGrowHeap_null hover)
  rw [if_neg (not_not.mpr rfl)] at hresult
  refine ⟨k, _, grown.ok, hbacked.wellFormed, hbacked.maxAddr_eq, hfull, hresult, ?_⟩
  rintro ⟨pre, tail, ptr, vm, m', brk', _, _, _, hcarved, hmoved, _⟩
  obtain ⟨_, hk⟩ := EStateM.Result.ok.inj (hresult.symm.trans hcarved)
  have hsame : k.heap.brk = brk' := congrArg (fun k : Kernel => k.heap.brk) hk
  rw [← hsame, hbytes] at hmoved
  omega

end Lxmalloc

end AwaOS
