import AwaOS.Heap.Lemmas.Grow

/-!
What `lxmalloc`, `lxcalloc` and `lxfree` do.
-/

namespace AwaOS

section FirstFit

variable {m : ByteMem} {brk size : Nat}

/--
The first free chunk that is large enough.
-/
theorem firstFit_tiles {a fuel : Nat} {prevFree : Bool} {cs : List Chunk} (htiles : Tiles m a prevFree cs brk)
    (hbrk : brk < 2 ^ 32) (hsize : size < 2 ^ 32) (hfuel : cs.length < fuel)
    : (∃ pre c post, cs = pre ++ c :: post ∧ c.allocated = false ∧ size ≤ c.size
        ∧ (∀ d ∈ pre, d.allocated = false → d.size < size)
        ∧ firstFit m (BitVec.ofNat 32 brk) (BitVec.ofNat 32 size) fuel (BitVec.ofNat 32 a)
            = some (some (BitVec.ofNat 32 (a + total pre))))
        ∨
      ((∀ c ∈ cs, c.allocated = false → c.size < size)
        ∧ firstFit m (BitVec.ofNat 32 brk) (BitVec.ofNat 32 size) fuel (BitVec.ofNat 32 a) = some none) := by
  induction cs generalizing a prevFree fuel with
  | nil =>
    right
    obtain ⟨fuel, rfl⟩ : ∃ n, fuel = n + 1 := ⟨fuel - 1, by omega⟩
    obtain ⟨_, ⟨rfl, _⟩, _⟩ := htiles
    refine ⟨by simp, ?_⟩
    unfold firstFit
    rw [if_neg (BitVec.lt_irrefl _)]
  | cons c cs ih =>
    obtain ⟨fuel, rfl⟩ : ∃ n, fuel = n + 1 := ⟨fuel - 1, by omega⟩
    have hend := htiles.brk_eq
    obtain ⟨hc, hcs⟩ := tiles_cons.mp htiles
    have hpos := hc.pos
    rw [total] at hend
    have hlt : BitVec.ofNat 32 a < BitVec.ofNat 32 brk := by
      rw [BitVec.lt_def, BitVec.toNat_ofNat, BitVec.toNat_ofNat, Nat.mod_eq_of_lt (by omega),
        Nat.mod_eq_of_lt hbrk]
      omega
    have hle : BitVec.ofNat 32 c.size ≥ BitVec.ofNat 32 size ↔ size ≤ c.size := by
      rw [ge_iff_le, BitVec.le_def, BitVec.toNat_ofNat, BitVec.toNat_ofNat, Nat.mod_eq_of_lt hsize,
        Nat.mod_eq_of_lt (by omega)]
    have hne : BitVec.ofNat 32 c.size ≠ 0 := by
      intro hzero
      have hnat := congrArg BitVec.toNat hzero
      rw [BitVec.toNat_ofNat, Nat.mod_eq_of_lt (by omega)] at hnat
      have : c.size = 0 := hnat
      omega
    unfold firstFit
    rw [if_pos hlt]
    dsimp only
    rw [lw_ofNat (by omega), hc.word, chunkS_header c.size _ _ (by omega) hc.aligned,
      if_neg (fun hand => hne hand.1)]
    by_cases hfits : c.allocated = false ∧ size ≤ c.size
    . left
      refine ⟨[], c, cs, rfl, hfits.1, hfits.2, by simp, ?_⟩
      rw [hfits.1, if_pos ⟨hle.mpr hfits.2, chunkA_eq_zero⟩]
      rfl
    . have hskip : ¬(BitVec.ofNat 32 c.size ≥ BitVec.ofNat 32 size
          ∧ chunkA (header c.size c.allocated prevFree) = 0) := by
        rintro ⟨hge, hfree⟩
        apply hfits
        refine ⟨?_, hle.mp hge⟩
        cases hallocated : c.allocated with
        | false => rfl
        | true =>
          rw [hallocated] at hfree
          exact absurd hfree chunkA_ne_zero
      have hshort : c.allocated = false → c.size < size := by
        intro hfree
        by_contra hge
        exact hfits ⟨hfree, by omega⟩
      rw [if_neg hskip, ← BitVec.ofNat_add]
      have hrest := ih hcs (show cs.length < fuel by simp only [List.length_cons] at hfuel; omega)
      cases hrest with
      | inl hfound =>
        obtain ⟨pre, d, post, rfl, hfree, hd, hbefore, hresult⟩ := hfound
        left
        refine ⟨c :: pre, d, post, rfl, hfree, hd, List.forall_mem_cons.mpr ⟨hshort, hbefore⟩, ?_⟩
        rw [hresult, total, Nat.add_assoc]
      | inr hnone => exact Or.inr ⟨List.forall_mem_cons.mpr ⟨hshort, hnone.1⟩, hnone.2⟩

end FirstFit

/--
The bytes of the chunk for a request.
-/
def chunkBytes (size : Word) : Nat :=
  (size.toNat + 7) / 4 * 4

/--
A new block for a request, between the other blocks of the heap.
-/
structure Placed (m : ByteMem) (heap : HeapContext) (cs : List Chunk) (bytes : Nat) (ptr : Word) (m' : ByteMem)
    (heap' : HeapContext) where
  addr : Nat
  chunks : List Chunk
  before : List (Nat × Nat)
  after : List (Nat × Nat)
  ptr_eq : ptr = BitVec.ofNat 32 (addr + 4)
  start_eq : heap'.start = heap.start
  maxAddr_eq : heap'.maxAddr = heap.maxAddr
  brk_le : heap.brk.toNat ≤ heap'.brk.toNat
  ok : HeapOk m' heap' chunks
  old : heapBlocks heap cs = before ++ after
  new : heapBlocks heap chunks = before ++ (addr, bytes) :: after
  keeps : Keeps (heapBlocks heap cs) m m'

theorem placeChunk_placed {m : ByteMem} {heap : HeapContext} {pre post : List Chunk} {c : Chunk}
    (h : HeapOk m heap (pre ++ c :: post)) (hfree : c.allocated = false) (bytes : Nat) (hpos : 0 < bytes)
    (h4 : bytes % 4 = 0) (hle : bytes ≤ c.size)
    : Nonempty (Placed m heap (pre ++ c :: post) bytes
        (bptr (BitVec.ofNat 32 (heap.start.toNat + 4 + total pre)))
        (placeChunk m (BitVec.ofNat 32 (heap.start.toNat + 4 + total pre)) (BitVec.ofNat 32 bytes)) heap) := by
  have haligned := h.aligned
  have hbrk := heap.brk.isLt
  have hold : heapBlocks heap (pre ++ c :: post)
      = blocks (heap.start.toNat + 4) pre ++ blocks (heap.start.toNat + 4 + total pre + c.size) post := by
    unfold heapBlocks
    rw [blocks_append]
    simp only [blocks, hfree, Bool.false_eq_true, ↓reduceIte]
  obtain ⟨htiles, hkeeps, hbelow⟩ := placeChunk_tiles (by omega) (by omega) h.tiles hfree hpos h4 hle
  exact ⟨{
    addr := heap.start.toNat + 4 + total pre
    chunks := pre ++ (carve c bytes ++ post)
    before := blocks (heap.start.toNat + 4) pre
    after := blocks (heap.start.toNat + 4 + total pre + c.size) post
    ptr_eq := (BitVec.ofNat_add ..).symm
    start_eq := rfl
    maxAddr_eq := rfl
    brk_le := Nat.le_refl _
    ok := {
      aligned := h.aligned
      prologue := by
        rw [← h.prologue]
        exact ByteMem.read32_congr _ (hbelow.mono (Nat.zero_le _) (Nat.le_refl _))
      tiles := htiles
    }
    old := hold
    new := by
      unfold heapBlocks
      rw [blocks_append, blocks_carve _ hle]
    keeps := by
      rw [hold]
      exact hkeeps
  }⟩

theorem heapBlocks_congr {heap heap' : HeapContext} (hstart : heap'.start = heap.start) (cs : List Chunk)
    : heapBlocks heap' cs = heapBlocks heap cs := by
  unfold heapBlocks
  rw [hstart]

theorem Grown.ptr_ne_zero {m m' : ByteMem} {heap heap' : HeapContext} {cs : List Chunk} {bytes : Nat}
    {ptr : Word} (h : Grown m heap cs bytes ptr m' heap')
    : ptr ≠ 0 := by
  have hend := h.ok.tiles.brk_eq
  have hbrk := heap'.brk.isLt
  have hptr := congrArg BitVec.toNat h.ptr_eq
  rw [total_append, h.start_eq] at hend
  rw [BitVec.toNat_ofNat, Nat.mod_eq_of_lt (by omega)] at hptr
  intro hzero
  have hnat : ptr.toNat = 0 := congrArg BitVec.toNat hzero
  omega

/--
A new block in a part that was added to the heap.
-/
theorem Grown.placed {m m' : ByteMem} {heap heap' : HeapContext} {cs : List Chunk} {bytes : Nat} {ptr : Word}
    (h : Grown m heap cs bytes ptr m' heap') (hpos : 0 < bytes) (h4 : bytes % 4 = 0)
    : Nonempty (Placed m heap cs bytes (bptr ptr) (placeChunk m' ptr (BitVec.ofNat 32 bytes)) heap') := by
  obtain ⟨placed⟩ := placeChunk_placed h.ok h.free bytes hpos h4 h.le
  have hptr : BitVec.ofNat 32 (heap'.start.toNat + 4 + total h.pre) = ptr := by
    rw [h.start_eq]
    exact h.ptr_eq.symm
  have hblocks : heapBlocks heap' (h.pre ++ [h.chunk]) = heapBlocks heap cs := by
    rw [heapBlocks_congr h.start_eq, h.blocks_eq]
  have hbrk := h.brk_eq
  rw [hptr] at placed
  exact ⟨{
    addr := placed.addr
    chunks := placed.chunks
    before := placed.before
    after := placed.after
    ptr_eq := placed.ptr_eq
    start_eq := h.start_eq
    maxAddr_eq := h.maxAddr_eq
    brk_le := by omega
    ok := placed.ok
    old := by
      rw [← hblocks]
      exact placed.old
    new := by
      rw [← heapBlocks_congr h.start_eq]
      exact placed.new
    keeps := by
      have hkeeps := placed.keeps
      rw [hblocks] at hkeeps
      exact h.keeps.trans hkeeps
  }⟩

/--
The ways in which `lxmalloc` ends.
-/
inductive Lxmalloc (k : Kernel) (cs : List Chunk) (size : Word) : EStateM.Result HeapFault Kernel Word → Prop
  | empty (hzero : size = 0) : Lxmalloc k cs size (.ok 0 k)
  | null (hne : size ≠ 0) (hfull : ∀ c ∈ cs, c.allocated = false → c.size < chunkBytes size) (vm : Machine)
      (hbrk : Lxbrk k (BitVec.ofNat 32 (chunkBytes size + 4)) (.ok 0 { k with vm := vm }))
      : Lxmalloc k cs size (.ok 0 { k with vm := vm })
  | fault (hne : size ≠ 0) (hfull : ∀ c ∈ cs, c.allocated = false → c.size < chunkBytes size) (e : HeapFault)
      (vm : Machine) (hbrk : Lxbrk k (BitVec.ofNat 32 (chunkBytes size + 4)) (.error e { k with vm := vm }))
      : Lxmalloc k cs size (.error e { k with vm := vm })
  | fit (hne : size ≠ 0) (c : Chunk) (hc : c ∈ cs) (hfree : c.allocated = false)
    (hle : chunkBytes size ≤ c.size)
      (ptr : Word) (m' : ByteMem) (placed : Placed k.mem k.heap cs (chunkBytes size) ptr m' k.heap)
      : Lxmalloc k cs size (.ok ptr { k with mem := m' })
  | grown (hne : size ≠ 0) (hfull : ∀ c ∈ cs, c.allocated = false → c.size < chunkBytes size) (vm : Machine)
      (hbrk : Lxbrk k (BitVec.ofNat 32 (chunkBytes size + 4)) (.ok k.heap.brk
        { k with vm := vm, heap := { k.heap with brk := k.heap.brk + BitVec.ofNat 32 (chunkBytes size + 4) } }))
      (ptr : Word) (m' : ByteMem) (heap' : HeapContext)
      (hmoved : heap'.brk.toNat = k.heap.brk.toNat + chunkBytes size)
      (placed : Placed k.mem k.heap cs (chunkBytes size) ptr m' heap')
      : Lxmalloc k cs size (.ok ptr { vm := vm, mem := m', heap := heap' })

theorem length_le_total {m : ByteMem} {a brk : Nat} {prevFree : Bool} {cs : List Chunk}
    (htiles : Tiles m a prevFree cs brk)
    : cs.length ≤ total cs := by
  induction cs generalizing a prevFree with
  | nil => exact Nat.zero_le _
  | cons c cs ih =>
    obtain ⟨hc, hcs⟩ := tiles_cons.mp htiles
    have := ih hcs
    have := hc.pos
    simp only [List.length_cons, total]
    omega

theorem HeapOk.walk {m : ByteMem} {heap : HeapContext} {cs : List Chunk} (h : HeapOk m heap cs)
    : Tiles m heap.start.toNat false (⟨4, true⟩ :: cs) heap.brk.toNat :=
  tiles_cons.mpr ⟨chunkAt_allocated (by decide) (by decide) h.prologue, h.tiles⟩

/--
What `lxmalloc` does after the size was rounded.
-/
theorem lxmalloc_eq {k : Kernel} {size : Word} (hne : size ≠ 0) {need : Word}
    (hneed : roundup (size + wsize) boundary = need)
    : lxmalloc size k
        =
      (match firstFit k.mem k.heap.brk need (2 ^ 32) k.heap.start with
      | none => throw .endlessWalk
      | some (some ptr) => do
        setMem (placeChunk k.mem ptr need)
        return bptr ptr
      | some none => do
        let ptr ← lxGrowHeap need
        if ptr ≠ 0 then
          setMem (placeChunk (← get).mem ptr need)
          return bptr ptr
        else
          return 0 : HeapM Word) k := by
  unfold lxmalloc lxMallocInternal
  rw [if_neg hne, bind_get]
  subst hneed
  rfl

/--
The walk over the chunks ends, at the first free chunk that is large enough if there is one.
-/
theorem HeapOk.firstFit_cases {m : ByteMem} {heap : HeapContext} {cs : List Chunk} (h : HeapOk m heap cs)
    (need : Word)
    : (∃ pre c post, cs = pre ++ c :: post ∧ c.allocated = false ∧ need.toNat ≤ c.size
        ∧ (∀ d ∈ pre, d.allocated = false → d.size < need.toNat)
        ∧ firstFit m heap.brk need (2 ^ 32) heap.start
            = some (some (BitVec.ofNat 32 (heap.start.toNat + 4 + total pre))))
        ∨
      ((∀ c ∈ cs, c.allocated = false → c.size < need.toNat)
        ∧ firstFit m heap.brk need (2 ^ 32) heap.start = some none) := by
  have hfuel : (⟨4, true⟩ :: cs : List Chunk).length < 2 ^ 32 := by
    have hlength := length_le_total h.walk
    have hend := h.walk.brk_eq
    have hbrk := heap.brk.isLt
    omega
  have hfit := firstFit_tiles h.walk heap.brk.isLt need.isLt hfuel
  rw [ofNat_toNat_word, ofNat_toNat_word, ofNat_toNat_word] at hfit
  cases hfit with
  | inl hfound =>
    obtain ⟨pre, c, post, hsplit, hfree, hle, hbefore, hresult⟩ := hfound
    cases pre with
    | nil =>
      -- the prologue is not free
      injection hsplit with hhead _
      subst hhead
      contradiction
    | cons d pre =>
      injection hsplit with hhead htail
      subst hhead htail
      rw [total, ← Nat.add_assoc] at hresult
      exact Or.inl ⟨pre, c, post, rfl, hfree, hle, fun d hd => hbefore d (List.mem_cons_of_mem _ hd), hresult⟩
  | inr hnone => exact Or.inr ⟨fun c hc => hnone.1 c (List.mem_cons_of_mem _ hc), hnone.2⟩

/--
The size of the chunk does not wrap.
-/
theorem roundup_wsize (size : Word) (hsize : size.toNat + 8 ≤ 2 ^ 32)
    : roundup (size + wsize) boundary = BitVec.ofNat 32 (chunkBytes size) := by
  have hsum : (size + wsize).toNat = size.toNat + 4 := by
    unfold wsize
    rw [BitVec.toNat_add]
    change (size.toNat + 4) % 2 ^ 32 = _
    omega
  have hbytes : chunkBytes size < 2 ^ 32 := by
    unfold chunkBytes
    omega
  apply BitVec.eq_of_toNat_eq
  rw [toNat_roundup _ (by omega), hsum, BitVec.toNat_ofNat, Nat.mod_eq_of_lt hbytes]
  rfl

theorem lxmalloc_cases {k : Kernel} {cs : List Chunk} (h : HeapOk k.mem k.heap cs) (size : Word)
    (hsize : size.toNat + 12 ≤ 2 ^ 32)
    : Lxmalloc k cs size (lxmalloc size k) := by
  by_cases hzero : size = 0
  . unfold lxmalloc lxMallocInternal
    rw [if_pos hzero]
    exact .empty hzero
  . have hbytes4 : chunkBytes size % 4 = 0 := by
      unfold chunkBytes
      omega
    have hbytes : 4 ≤ chunkBytes size ∧ chunkBytes size + 4 < 2 ^ 32 := by
      unfold chunkBytes
      omega
    have htoNat : (BitVec.ofNat 32 (chunkBytes size)).toNat = chunkBytes size := by
      rw [BitVec.toNat_ofNat, Nat.mod_eq_of_lt (by omega)]
    have hfit := h.firstFit_cases (BitVec.ofNat 32 (chunkBytes size))
    rw [htoNat] at hfit
    rw [lxmalloc_eq hzero (roundup_wsize size (by omega))]
    cases hfit with
    | inl hfound =>
      obtain ⟨pre, c, post, rfl, hfree, hle, _, hresult⟩ := hfound
      obtain ⟨placed⟩ := placeChunk_placed h hfree (chunkBytes size) (by omega) hbytes4 hle
      rw [hresult]
      exact .fit hzero c (by simp) hfree hle _ _ placed
    | inr hnone =>
      obtain ⟨hfull, hresult⟩ := hnone
      rw [hresult]
      dsimp only
      have hgrow := lxGrowHeap_cases h (chunkBytes size) hbytes.1 hbytes4 hbytes.2
      generalize hend : lxGrowHeap (BitVec.ofNat 32 (chunkBytes size)) k = r at hgrow
      cases hgrow with
      | null vm hbrk =>
        rw [bind_ok _ hend, if_neg (not_not.mpr rfl)]
        exact .null hzero hfull vm hbrk
      | fault e vm hbrk =>
        rw [bind_error _ hend]
        exact .fault hzero hfull e vm hbrk
      | grown vm ptr m' heap' hbrk hgrown =>
        obtain ⟨placed⟩ := hgrown.placed (by omega) hbytes4
        rw [bind_ok _ hend, if_pos hgrown.ptr_ne_zero]
        exact .grown hzero hfull vm hbrk _ _ _ hgrown.brk_eq placed

/--
A request that some free chunk is large enough for.
-/
theorem lxmalloc_fit {k : Kernel} {cs : List Chunk} (h : HeapOk k.mem k.heap cs) {size : Word} (hne : size ≠ 0)
    (hsize : size.toNat ≤ 2 ^ 31) {c : Chunk} (hc : c ∈ cs) (hfree : c.allocated = false)
    (hle : chunkBytes size ≤ c.size)
    : ∃ ptr m', lxmalloc size k = .ok ptr { k with mem := m' }
        ∧ Nonempty (Placed k.mem k.heap cs (chunkBytes size) ptr m' k.heap) := by
  have hcases := lxmalloc_cases h size (by omega)
  generalize lxmalloc size k = r at hcases
  cases hcases with
  | empty hzero => exact absurd hzero hne
  | null _ hfull => exact absurd (hfull c hc hfree) (by omega)
  | fault _ hfull => exact absurd (hfull c hc hfree) (by omega)
  | fit _ _ _ _ _ ptr m' placed => exact ⟨ptr, m', rfl, ⟨placed⟩⟩
  | grown _ hfull => exact absurd (hfull c hc hfree) (by omega)

theorem memset_of_outside (m : ByteMem) (a n : Nat) (value : BitVec 8) (ha : a + n ≤ 2 ^ 32)
    : ByteMem.SameOutside m (memset m (BitVec.ofNat 32 a) value n) a (a + n) := by
  induction n with
  | zero => exact .refl m _ _
  | succ n ih =>
    intro b hb
    unfold memset
    rw [← BitVec.ofNat_add, BitVec.toNat_ofNat, Nat.mod_eq_of_lt (by omega), Function.update_of_ne (by omega)]
    exact ih (by omega) b (by omega)

/--
Writing to the payload of a block does not change the layout.
-/
theorem HeapOk.writePayload {m m' : ByteMem} {heap : HeapContext} {cs : List Chunk} (h : HeapOk m heap cs)
    {addr bytes : Nat} (hmem : (addr, bytes) ∈ heapBlocks heap cs)
    (hsame : ByteMem.SameOutside m m' (addr + 4) (addr + bytes))
    : HeapOk m' heap cs where
  aligned := h.aligned
  prologue := by
    have := (blocks_bounds hmem).1
    rw [← h.prologue]
    exact ByteMem.read32_congr _ ((hsame.below 0).mono (Nat.zero_le _) (by omega))
  tiles := by
    obtain ⟨pre, post, rfl, rfl⟩ := exists_chunk_of_mem_blocks hmem
    obtain ⟨a, q, hpre, hrest⟩ := tiles_append.mp h.tiles
    obtain ⟨hc, hpost⟩ := tiles_cons.mp hrest
    have ha := hpre.eq_total
    subst ha
    refine tiles_append.mpr ⟨_, q, hpre.frame ((hsame.below _).mono (Nat.le_refl _) (by omega)), ?_⟩
    refine tiles_cons.mpr ⟨chunkAt_allocated hc.pos hc.aligned ?_, hpost.frame (hsame.above _)⟩
    rw [ByteMem.read32_congr _ ((hsame.below 0).mono (Nat.zero_le _) (Nat.le_refl _))]
    exact hc.word

end AwaOS
