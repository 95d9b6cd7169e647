import AwaOS.Heap.Run

/-!
When the heap can grow. `lxbrk` takes the pages up to `PG_ALIGN(brk)` for mapped, but `lx_grow_heap` has
moved `brk` back by the size of the epilogue. If the epilogue ends a page, then one page more is mapped,
and `vmm_alloc_pages` runs into it.
-/

namespace AwaOS

open Machine

variable {start : Word} {k₀ k : Kernel} {live : List Block}

/--
In every state of a run the pages of the heap are mapped, and no page after them.
-/
theorem HeapRun.mapped (haligned : start.toNat % 4096 = 0) (hwf : k₀.vm.WellFormed)
    (hfree : ∀ v, start.toNat / 4096 < v → v * 4096 < kStackStart.toNat → ¬k₀.vm.Mapped v)
    (hrun : HeapRun start k₀ k live)
    : HeapMapped k.vm k.heap := by
  refine HeapRun.of_lxmalloc (P := fun k => HeapMapped k.vm k.heap) haligned ?_ ?_ (fun _ _ h => h) hrun
  . intro k hresult
    exact kallocInit_mapped haligned hwf hfree hresult
  . intro k cs size hok hsize h
    exact lxmalloc_mapped hok h size hsize

/--
The new break for a request and its epilogue would reach the stack.
-/
def AtLimit (k : Kernel) (size : Word) : Prop :=
  k.heap.maxAddr.toNat ≤ k.heap.brk.toNat + chunkBytes size + 4

/--
The walk over the heap visits a free chunk that is large enough for a request.
-/
def HasFit (k : Kernel) (size : Word) : Prop :=
  ∃ ps, Walk k.mem k.heap.brk k.heap.start ps
    ∧ ∃ p ∈ ps, chunkA (lw k.mem p) = 0 ∧ chunkBytes size ≤ (chunkS (lw k.mem p)).toNat

theorem hasFit_iff {cs : List Chunk} (hok : HeapOk k.mem k.heap cs) (size : Word)
    : HasFit k size ↔ ∃ c ∈ cs, c.allocated = false ∧ chunkBytes size ≤ c.size := by
  obtain ⟨ps, hps, hfits⟩ := hok.wellFormed
  rw [← hfits]
  constructor
  . rintro ⟨qs, hwalk, hfit⟩
    rw [hwalk.unique hps.walk] at hfit
    exact hfit
  . intro hfit
    exact ⟨_, hps.walk, hfit⟩

theorem HeapOk.brk_aligned {m : ByteMem} {heap : HeapContext} {cs : List Chunk} (h : HeapOk m heap cs)
    : heap.brk.toNat % 4 = 0 := by
  have hend := h.tiles.brk_eq
  have haligned := h.aligned
  have htotal := h.tiles.aligned
  omega

/--
The page of the next growth is mapped already.
-/
theorem lxmalloc_stuck {cs : List Chunk} (hok : HeapOk k.mem k.heap cs) (h : HeapMapped k.vm k.heap)
    {size : Word} (hne : size ≠ 0) (hsize : size.toNat ≤ 2 ^ 31)
    (hfull : ¬∃ c ∈ cs, c.allocated = false ∧ chunkBytes size ≤ c.size) (hroom : ¬AtLimit k size)
    (hbrk : k.heap.brk.toNat % 4096 = 4092)
    : ∃ vm, lxmalloc size k = .ok 0 { k with vm := vm }
        ∧ lxbrk.mapPages k.heap.brk
            (pgAlign (k.heap.brk + BitVec.ofNat 32 (chunkBytes size + 4)) - pgAlign k.heap.brk) k
          = .ok false { k with vm := vm } := by
  have hend := hok.tiles.brk_eq
  have hcases := lxmalloc_mappedCases hok h size hsize
  generalize lxmalloc size k = r at hcases
  cases hcases with
  | empty hzero => exact absurd hzero hne
  | limit hlimit => exact absurd hlimit hroom
  | refused _ _ vm hmap => exact ⟨vm, rfl, hmap⟩
  | fit c hc hfree hle => exact absurd ⟨c, hc, hfree, hle⟩ hfull
  | grown hlimit vm hmap =>
    rw [h.maxAddr_eq] at hlimit
    obtain ⟨made, vm', hmap', hrange, _⟩ := mapPages_mapRange h.wellFormed hlimit
    obtain ⟨hmade, _⟩ := EStateM.Result.ok.inj (hmap.symm.trans hmap')
    subst hmade
    rw [toNat_kStackStart] at hlimit
    have hmapped : k.vm.Mapped (k.heap.brk.toNat / 4096 + 1) := by
      rw [h.mapped_iff _ (by omega) (by rw [toNat_kStackStart]; omega)]
      omega
    exact absurd hmapped (hrange.fresh rfl _ (by omega) (by omega))

/--
`lxmalloc` returns, and it returns `NULL` only if there is no room.
-/
def Grows (k : Kernel) (size : Word) : Prop :=
  ∃ ptr k', lxmalloc size k = .ok ptr k' ∧ (ptr = 0 → AtLimit k size)

/--
In every run, if all frames that were asked for were there, the next request fails only for lack of room
if and only if `brk` does not end one word before a page, or some free chunk is large enough, or there is
no room.
-/
theorem lxmalloc_grows_iff (haligned : start.toNat % 4096 = 0) (hwf : k₀.vm.WellFormed)
    (hfree : ∀ v, start.toNat / 4096 < v → v * 4096 < kStackStart.toNat → ¬k₀.vm.Mapped v)
    (hrun : HeapRun start k₀ k live) {size : Word} (hne : size ≠ 0) (hsize : size.toNat < 2 ^ 31)
    (hsupply : (finalState (lxmalloc size k)).vm.nullReturned = false)
    : Grows k size ↔ k.heap.brk.toNat % 4096 ≠ 4092 ∨ HasFit k size ∨ AtLimit k size := by
  obtain ⟨⟨cs, hok, _⟩, _⟩ := hrun.inv haligned
  have h := hrun.mapped haligned hwf hfree
  have haligned4 := hok.brk_aligned
  have hend := hok.tiles.brk_eq
  rw [hasFit_iff hok]
  constructor
  . rintro ⟨ptr, k', hresult, hnull⟩
    by_contra hstuck
    obtain ⟨hbrk, hfull, hlimit⟩ := by simpa only [not_or, not_not] using hstuck
    obtain ⟨vm, hstopped, _⟩ := lxmalloc_stuck hok h hne (by omega) hfull hlimit hbrk
    obtain ⟨hzero, _⟩ := EStateM.Result.ok.inj (hresult.symm.trans hstopped)
    exact hlimit (hnull hzero)
  . intro hcond
    have hcases := lxmalloc_mappedCases hok h size (by omega)
    unfold Grows
    generalize lxmalloc size k = r at hcases hsupply
    cases hcases with
    | empty hzero => exact absurd hzero hne
    | limit hlimit => exact ⟨0, k, rfl, fun _ => hlimit⟩
    | refused hfull hroom vm hmap =>
      refine ⟨0, _, rfl, fun _ => ?_⟩
      rw [h.maxAddr_eq] at hroom
      obtain ⟨made, vm', hmap', hrange, _⟩ := mapPages_mapRange h.wellFormed hroom
      obtain ⟨hmade, hk⟩ := EStateM.Result.ok.inj (hmap.symm.trans hmap')
      have hvm : vm = vm' := congrArg Kernel.vm hk
      subst hmade hvm
      cases hrange.refused rfl with
      | inl hflag =>
        have hclear : vm.nullReturned = false := hsupply
        rw [hclear] at hflag
        contradiction
      | inr htaken =>
        obtain ⟨v, hge, hlt, hmapped⟩ := htaken
        rw [toNat_kStackStart] at hroom
        rw [h.mapped_iff v (by omega) (by rw [toNat_kStackStart]; omega)] at hmapped
        -- the page after that of `brk` is mapped only if the epilogue is in it
        have hbrk : k.heap.brk.toNat % 4096 = 4092 := by omega
        have hfull' : ¬∃ c ∈ cs, c.allocated = false ∧ chunkBytes size ≤ c.size := by
          rintro ⟨c, hc, hcfree, hle⟩
          have := hfull c hc hcfree
          omega
        exact (hcond.resolve_left (not_not.mpr hbrk)).resolve_left hfull'
    | fit c hc hcfree hle ptr m' placed => exact ⟨ptr, _, rfl, fun hzero => absurd hzero placed.ptr_ne_zero⟩
    | grown hroom vm hmap ptr m' heap' hmoved placed =>
      exact ⟨ptr, _, rfl, fun hzero => absurd hzero placed.ptr_ne_zero⟩

theorem bootRun_free (v : Nat) (_ : (0x400000 : Word).toNat / 4096 < v) (hlt : v * 4096 < kStackStart.toNat)
    : ¬bootKernel.vm.Mapped v := by
  rw [toNat_kStackStart] at hlt
  exact not_mapped_bootMachine v (by unfold vpnEnd; omega)

/--
If the allocated chunks fill the heap, then no chunk is free.
-/
theorem HeapOk.not_free_of_sum {m : ByteMem} {heap : HeapContext} {cs : List Chunk} (hok : HeapOk m heap cs)
    (hsum : heap.start.toNat + 4 + ((heapBlocks heap cs).map Prod.snd).sum = heap.brk.toNat)
    : ∀ c ∈ cs, c.allocated ≠ false := by
  intro c hc hfree
  have hend := hok.tiles.brk_eq
  have hle := free_add_blocks_le hc hfree (heap.start.toNat + 4)
  obtain ⟨pre, post, rfl⟩ := List.append_of_mem hc
  obtain ⟨a, q, _, hrest⟩ := tiles_append.mp hok.tiles
  have hpos := (tiles_cons.mp hrest).1.pos
  unfold heapBlocks at hsum
  omega

theorem Placed.sum_blocks {m m' : ByteMem} {heap heap' : HeapContext} {cs : List Chunk} {bytes : Nat}
    {ptr : Word} (placed : Placed m heap cs bytes ptr m' heap')
    : ((heapBlocks heap' placed.chunks).map Prod.snd).sum
        =
      ((heapBlocks heap cs).map Prod.snd).sum + bytes := by
  rw [heapBlocks_congr placed.start_eq, placed.new, placed.old]
  simp only [List.map_append, List.map_cons, List.sum_append, List.sum_cons]
  omega

/--
A request after `bootRun` makes the heap grow.
-/
theorem bootRun_grown (size : Word) (hne : size ≠ 0) (hsize : size.toNat ≤ 4084)
    : ∃ k live ptr k', HeapRun 0x400000 bootKernel k live
        ∧ lxmalloc size k = .ok ptr k'
        ∧ k.heap.brk.toNat = 0x401004
        ∧ Supplied k'.vm 2
        ∧ k'.heap.brk.toNat = 0x401004 + chunkBytes size
        ∧ ∃ cs, HeapOk k'.mem k'.heap cs ∧ ∀ c ∈ cs, c.allocated ≠ false := by
  obtain ⟨k, ptr, cs, addr, hrun, hsupply, hbrk, hok, hblocks⟩ := bootRun
  have hmapped := hrun.mapped (by decide) wellFormed_bootMachine bootRun_free
  have hstart : k.heap.start.toNat = 0x400000 := congrArg BitVec.toNat (hrun.inv (by decide)).2
  have hbytes : 0 < chunkBytes size ∧ chunkBytes size ≤ 4088 := by
    unfold chunkBytes
    omega
  have hfull := hok.not_free_of_sum (by rw [hblocks, hbrk, hstart]; rfl)
  have hgrow := @lxmalloc_grown k cs size 2 hok hmapped hne (by omega)
    (fun c hc hfree => absurd hfree (hfull c hc))
  rw [hbrk, hstart, toNat_kStackStart] at hgrow
  obtain ⟨ptr', vm, m', heap', hresult, hmoved, ⟨placed⟩, hsupply'⟩ := hgrow (by omega) (by omega) (by omega)
    ⟨hsupply.nullReturned_eq, hsupply.supplies.mono (by omega)⟩
  refine ⟨k, _, ptr', _, hrun, hresult, hbrk, hsupply', hmoved, placed.chunks, placed.ok, ?_⟩
  apply placed.ok.not_free_of_sum
  rw [placed.sum_blocks, hblocks, hmoved, placed.start_eq, hstart]
  simp only [List.map_cons, List.map_nil, List.sum_cons, List.sum_nil]
  omega

theorem lxmalloc_grows_bootRun : ∃ k live, HeapRun 0x400000 bootKernel k live ∧ Grows k 1 := by
  obtain ⟨k, live, ptr, k', hrun, hresult, hbrk, hsupply, _⟩ := bootRun_grown 1 (by decide) (by decide)
  have hflag : (finalState (lxmalloc 1 k)).vm.nullReturned = false := by
    rw [hresult]
    exact hsupply.nullReturned_eq
  have hcond : k.heap.brk.toNat % 4096 ≠ 4092 := by
    rw [hbrk]
    decide
  exact ⟨k, live, hrun,
    (lxmalloc_grows_iff (by decide) wellFormed_bootMachine bootRun_free hrun (by decide) (by decide) hflag).mpr
      (Or.inl hcond)⟩

/--
After requests of 4092 and 4084 bytes the next one fails, with frames and addresses to spare.
-/
theorem lxmalloc_fails_after_two_requests
    : bootKernel.vm.WellFormed
        ∧ (∀ v, (0x400000 : Word).toNat / 4096 < v → v * 4096 < kStackStart.toNat → ¬bootKernel.vm.Mapped v)
        ∧ ∃ k live k', HeapRun 0x400000 bootKernel k live
          ∧ lxmalloc 1 k = .ok 0 k'
          ∧ k'.vm.nullReturned = false
          ∧ ¬AtLimit k 1 := by
  refine ⟨wellFormed_bootMachine, bootRun_free, ?_⟩
  obtain ⟨k, live, ptr, k', hrun, hresult, hbrk, hsupply, hbrk', cs, hok, hfull⟩ :=
    bootRun_grown 4084 (by decide) (by decide)
  have hrun' := hrun.malloc 4084 ptr (by decide) hresult
  have hmapped := hrun'.mapped (by decide) wellFormed_bootMachine bootRun_free
  have hstart : k'.heap.start.toNat = 0x400000 := congrArg BitVec.toNat (hrun'.inv (by decide)).2
  have hend : k'.heap.brk.toNat = 0x401FFC := hbrk'
  have hroom : ¬AtLimit k' 1 := by
    unfold AtLimit
    rw [hmapped.maxAddr_eq, hend]
    decide
  obtain ⟨vm, hnull, hmap⟩ := lxmalloc_stuck hok hmapped (show (1 : Word) ≠ 0 by decide) (by decide)
    (fun ⟨c, hc, hfree, _⟩ => hfull c hc hfree) hroom (by rw [hend])
  have hdraws := @HeapMapped.draws k' (chunkBytes 1 + 4) hmapped
  rw [hend, hstart] at hdraws
  obtain ⟨made, vm', hmap', _, hdraws⟩ := hdraws (by decide) (by decide) (by decide)
  obtain ⟨_, hk⟩ := EStateM.Result.ok.inj (hmap.symm.trans hmap')
  have hvm : vm = vm' := congrArg Kernel.vm hk
  subst hvm
  refine ⟨k', _, _, hrun', hnull, ?_, hroom⟩
  exact (hdraws.nullReturned_eq (hsupply.supplies.mono (by decide))).trans hsupply.nullReturned_eq

end AwaOS
