import AwaOS.Heap.FirstFit

/-!
The layout of the heap is canonical: it is determined by the allocated chunks, whatever was freed in between.
-/

namespace AwaOS

/--
No chunk is empty, and no two free chunks are next to each other. `prevFree` tells whether the chunk before is free.
-/
def Spaced (prevFree : Bool) : List Chunk → Prop
  | [] => True
  | c :: cs => 0 < c.size ∧ (c.allocated = false → prevFree = false) ∧ Spaced (!c.allocated) cs

section Spaced

variable {m : ByteMem} {a b : Nat} {prevFree prevFree' : Bool} {cs cs' : List Chunk}

theorem Tiles.spaced (h : Tiles m a prevFree cs b) : Spaced prevFree cs := by
  induction cs generalizing a prevFree with
  | nil => trivial
  | cons c cs ih =>
    obtain ⟨hc, hcs⟩ := tiles_cons.mp h
    exact ⟨hc.pos, hc.separate, ih hcs⟩

/--
After a free chunk, the first allocated chunk comes right away.
-/
theorem Spaced.blocks_of_free (h : Spaced true cs)
    : cs = [] ∨ ∃ size cs', cs = ⟨size, true⟩ :: cs' ∧ blocks a cs = (a, size) :: blocks (a + size) cs' := by
  cases cs with
  | nil => exact Or.inl rfl
  | cons c cs =>
    right
    have hallocated : c.allocated = true := by
      by_contra hfree
      rw [Bool.not_eq_true] at hfree
      exact absurd (h.2.1 hfree) (by decide)
    refine ⟨c.size, cs, ?_, ?_⟩
    . rw [← hallocated]
    . rw [blocks, if_pos hallocated]

theorem Spaced.eq_nil (h : Spaced prevFree cs) (htotal : total cs = 0) : cs = [] := by
  cases cs with
  | nil => rfl
  | cons c cs =>
    have hpos := h.1
    rw [total] at htotal
    omega

/--
Two free chunks at the same address end where the next block starts, or where the heap ends.
-/
theorem size_eq_of_free {size size' : Nat} (h : Spaced true cs) (h' : Spaced true cs')
    (htotal : size + total cs = size' + total cs') (hblocks : blocks (a + size) cs = blocks (a + size') cs')
    : size = size' := by
  cases h.blocks_of_free (a := a + size) with
  | inl hnil =>
    cases h'.blocks_of_free (a := a + size') with
    | inl hnil' =>
      rw [hnil, hnil'] at htotal
      exact htotal
    | inr hcons' =>
      obtain ⟨_, _, _, hstart'⟩ := hcons'
      rw [hnil, hstart'] at hblocks
      contradiction
  | inr hcons =>
    obtain ⟨_, _, _, hstart⟩ := hcons
    cases h'.blocks_of_free (a := a + size') with
    | inl hnil' =>
      rw [hnil', hstart] at hblocks
      contradiction
    | inr hcons' =>
      obtain ⟨_, _, _, hstart'⟩ := hcons'
      rw [hstart, hstart'] at hblocks
      injection hblocks with hhead _
      injection hhead with haddr _
      omega

/--
The first block is not at the address of a free chunk.
-/
theorem blocks_ne_of_free {size n : Nat} {bs : List (Nat × Nat)} (hpos : 0 < size)
    : blocks (a + size) cs ≠ (a, n) :: bs := by
  intro heq
  have hmem : (a, n) ∈ blocks (a + size) cs := by
    rw [heq]
    exact List.mem_cons_self
  have hbounds := blocks_bounds hmem
  omega

/--
The layout is determined by its length and its blocks.
-/
theorem Spaced.unique (h : Spaced prevFree cs) (h' : Spaced prevFree' cs') (htotal : total cs = total cs')
    (hblocks : blocks a cs = blocks a cs')
    : cs = cs' := by
  induction cs generalizing a prevFree prevFree' cs' with
  | nil => exact (h'.eq_nil htotal.symm).symm
  | cons c cs ih =>
    cases cs' with
    | nil =>
      have hpos := h.1
      rw [total, total] at htotal
      omega
    | cons c' cs' =>
      obtain ⟨hpos, _, hcs⟩ := h
      obtain ⟨hpos', _, hcs'⟩ := h'
      obtain ⟨size, allocated⟩ := c
      obtain ⟨size', allocated'⟩ := c'
      simp only [total, blocks] at htotal hblocks hpos hpos' hcs hcs'
      cases allocated with
      | true =>
        cases allocated' with
        | true =>
          injection hblocks with hhead htail
          injection hhead with _ hsize
          subst hsize
          rw [ih hcs hcs' (by omega) htail]
        | false => exact absurd hblocks.symm (blocks_ne_of_free hpos')
      | false =>
        cases allocated' with
        | true => exact absurd hblocks (blocks_ne_of_free hpos)
        | false =>
          have hsize := size_eq_of_free hcs hcs' htotal hblocks
          subst hsize
          rw [ih hcs hcs' (by omega) hblocks]

/--
Without blocks there is one free chunk, or none.
-/
theorem Spaced.eq_singleton (h : Spaced prevFree cs) (hblocks : blocks a cs = []) (hne : total cs ≠ 0)
    : cs = [⟨total cs, false⟩] := by
  cases cs with
  | nil => exact absurd rfl hne
  | cons c cs =>
    obtain ⟨size, allocated⟩ := c
    cases allocated with
    | true => contradiction
    | false =>
      cases h.2.2.blocks_of_free (a := a + size) with
      | inl hnil =>
        rw [hnil]
        rfl
      | inr hcons =>
        obtain ⟨_, _, _, hstart⟩ := hcons
        simp only [blocks, Bool.false_eq_true, ↓reduceIte, hstart] at hblocks
        contradiction

end Spaced

theorem HeapOk.unique {m m' : ByteMem} {heap : HeapContext} {cs cs' : List Chunk} (h : HeapOk m heap cs)
    (h' : HeapOk m' heap cs') (hblocks : heapBlocks heap cs = heapBlocks heap cs')
    : cs = cs' := by
  have hend := h.tiles.brk_eq
  have hend' := h'.tiles.brk_eq
  exact h.tiles.spaced.unique h'.tiles.spaced (by omega) hblocks

/--
What the header of a chunk says.
-/
def chunkTags (m : ByteMem) (p : Word) : Word × Word × Word × Word :=
  (p, chunkS (lw m p), chunkA (lw m p), chunkPF (lw m p))

/--
The walks over both memories visit the same chunks, and these have the same tags, up to the epilogue.
-/
def SameLayout (heap : HeapContext) (m m' : ByteMem) : Prop :=
  ∃ ps, Walk m heap.brk heap.start ps
    ∧ Walk m' heap.brk heap.start ps
    ∧ (ps ++ [heap.brk]).map (chunkTags m) = (ps ++ [heap.brk]).map (chunkTags m')

section SameLayout

variable {m m' : ByteMem} {a brk : Nat} {prevFree : Bool} {heap : HeapContext} {cs : List Chunk}

theorem Tiles.sameHeaders (h : Tiles m a prevFree cs brk) (h' : Tiles m' a prevFree cs brk)
    (hbrk : brk < 2 ^ 32)
    : ∃ ps, Walk m (BitVec.ofNat 32 brk) (BitVec.ofNat 32 a) ps
        ∧ Walk m' (BitVec.ofNat 32 brk) (BitVec.ofNat 32 a) ps
        ∧ ∀ p ∈ ps ++ [BitVec.ofNat 32 brk], lw m p = lw m' p := by
  have hhead : a < 2 ^ 32 → lw m (BitVec.ofNat 32 a) = lw m' (BitVec.ofNat 32 a) := by
    intro ha
    rw [lw_ofNat ha, lw_ofNat ha, h.headWord, h'.headWord]
  induction cs generalizing a prevFree with
  | nil =>
    obtain ⟨_, ⟨rfl, _⟩, _⟩ := h
    refine ⟨[], .done, .done, ?_⟩
    intro p hp
    rw [List.mem_singleton.mp hp]
    exact hhead hbrk
  | cons c cs ih =>
    have hend := h.brk_eq
    obtain ⟨hc, hcs⟩ := tiles_cons.mp h
    obtain ⟨hc', hcs'⟩ := tiles_cons.mp h'
    rw [total] at hend
    have hnext : a + c.size < 2 ^ 32 →
        lw m (BitVec.ofNat 32 (a + c.size)) = lw m' (BitVec.ofNat 32 (a + c.size)) := by
      intro ha
      rw [lw_ofNat ha, lw_ofNat ha, hcs.headWord, hcs'.headWord]
    obtain ⟨ps, hwalk, hwalk', hsame⟩ := ih hcs hcs' hnext
    refine ⟨_, hc.walk (by omega) hbrk hwalk, hc'.walk (by omega) hbrk hwalk', ?_⟩
    rw [List.cons_append]
    exact List.forall_mem_cons.mpr ⟨hhead (by omega), hsame⟩

theorem HeapOk.sameLayout (h : HeapOk m heap cs) (h' : HeapOk m' heap cs) : SameLayout heap m m' := by
  obtain ⟨ps, hwalk, hwalk', hsame⟩ := h.walk.sameHeaders h'.walk heap.brk.isLt
  rw [ofNat_toNat_word, ofNat_toNat_word] at hwalk hwalk'
  rw [ofNat_toNat_word] at hsame
  refine ⟨ps, hwalk, hwalk', ?_⟩
  apply List.map_congr_left
  intro p hp
  unfold chunkTags
  rw [hsame p hp]

end SameLayout

/--
The pointers to the allocated chunks, as `lxmalloc` returns them.
-/
def payloads (heap : HeapContext) (cs : List Chunk) : List Word :=
  (heapBlocks heap cs).map fun b => BitVec.ofNat 32 (b.1 + 4)

/--
One call of `lxfree` after the other.
-/
def freeAll : List Word → HeapM Unit
  | [] => pure ()
  | ptr :: ptrs => do
    lxfree ptr
    freeAll ptrs

section Free

variable {k : Kernel} {cs : List Chunk}

theorem payload_ne_zero {addr bytes : Nat} (hok : HeapOk k.mem k.heap cs)
    (hmem : (addr, bytes) ∈ heapBlocks k.heap cs)
    : BitVec.ofNat 32 (addr + 4) ≠ 0 := by
  obtain ⟨_, _, hhi, hlo⟩ := hok.block_bounds hmem
  have hbrk := k.heap.brk.isLt
  have hlast := hok.brk_aligned
  obtain ⟨_, haddr, _⟩ := hok.block_bounds hmem
  exact ofNat_ne_zero (by omega) (by omega)

/--
`lxfree` takes one block away.
-/
theorem lxfree_blocks (hok : HeapOk k.mem k.heap cs) {ptr : Word} (hptr : ptr ∈ payloads k.heap cs)
    : ∃ m' cs', lxfree ptr k = .ok () { k with mem := m' }
        ∧ HeapOk m' k.heap cs'
        ∧ heapBlocks k.heap cs' = (heapBlocks k.heap cs).filter (fun b => BitVec.ofNat 32 (b.1 + 4) ≠ ptr) := by
  obtain ⟨⟨addr, bytes⟩, hmem, rfl⟩ := List.mem_map.mp hptr
  have hne := payload_ne_zero hok hmem
  have hbounds := fun (b : Nat × Nat) (hb : b ∈ heapBlocks k.heap cs) => hok.block_bounds hb
  have hbrk := k.heap.brk.isLt
  obtain ⟨pre, post, rfl, haddr⟩ := exists_chunk_of_mem_blocks hmem
  obtain ⟨cs', hok', hblocks, _⟩ := freeChunk_heapOk hok
  rw [← haddr] at hok' hblocks
  refine ⟨_, cs', lxfree_eq hne k, hok', ?_⟩
  have hself := hbounds _ hmem
  -- the payloads do not wrap, so other blocks have other payloads
  have hother : ∀ b ∈ heapBlocks k.heap (pre ++ ⟨bytes, true⟩ :: post), b.1 ≠ addr →
      BitVec.ofNat 32 (b.1 + 4) ≠ BitVec.ofNat 32 (addr + 4) := by
    intro b hb hbne hsame
    have hb' := hbounds b hb
    have hlast := hok.brk_aligned
    have hnat := congrArg BitVec.toNat hsame
    rw [BitVec.toNat_ofNat, BitVec.toNat_ofNat] at hnat
    omega
  have hsplit : heapBlocks k.heap (pre ++ ⟨bytes, true⟩ :: post)
      = blocks (k.heap.start.toNat + 4) pre ++ (addr, bytes) :: blocks (addr + bytes) post := by
    unfold heapBlocks
    rw [blocks_append, ← haddr]
    rfl
  rw [hsplit] at hother
  rw [hblocks, hsplit, List.filter_append, List.filter_cons_of_neg (by simp)]
  congr 1
  . symm
    apply List.filter_eq_self.mpr
    intro b hb
    have hle := (blocks_bounds hb).2
    have hpos := hbounds b (by rw [hsplit]; exact List.mem_append_left _ hb)
    exact decide_eq_true (hother b (List.mem_append_left _ hb) (by omega))
  . symm
    apply List.filter_eq_self.mpr
    intro b hb
    have hge := (blocks_bounds hb).1
    exact decide_eq_true (hother b (List.mem_append_right _ (List.mem_cons_of_mem _ hb)) (by omega))

/--
The blocks that are left after some were freed do not depend on the order.
-/
theorem freeAll_blocks (hok : HeapOk k.mem k.heap cs) {ptrs : List Word} (hnodup : ptrs.Nodup)
    (hptrs : ∀ p ∈ ptrs, p ∈ payloads k.heap cs)
    : ∃ m' cs', freeAll ptrs k = .ok () { k with mem := m' }
        ∧ HeapOk m' k.heap cs'
        ∧ heapBlocks k.heap cs' = (heapBlocks k.heap cs).filter
          (fun b => BitVec.ofNat 32 (b.1 + 4) ∉ ptrs) := by
  induction ptrs generalizing k cs with
  | nil =>
    refine ⟨k.mem, cs, rfl, hok, ?_⟩
    symm
    apply List.filter_eq_self.mpr
    simp
  | cons ptr ptrs ih =>
    obtain ⟨hnot, hnodup'⟩ := List.nodup_cons.mp hnodup
    obtain ⟨hptr, hrest⟩ := List.forall_mem_cons.mp hptrs
    obtain ⟨m₁, cs₁, hfree, hok₁, hblocks₁⟩ := lxfree_blocks hok hptr
    have hrest₁ : ∀ p ∈ ptrs, p ∈ payloads k.heap cs₁ := by
      intro p hp
      obtain ⟨b, hb, hpayload⟩ := List.mem_map.mp (hrest p hp)
      refine List.mem_map.mpr ⟨b, ?_, hpayload⟩
      rw [hblocks₁]
      refine List.mem_filter.mpr ⟨hb, decide_eq_true ?_⟩
      rintro rfl
      rw [hpayload] at hnot
      exact hnot hp
    obtain ⟨m', cs', hfrees, hok', hblocks'⟩ := @ih { k with mem := m₁ } cs₁ hok₁ hnodup' hrest₁
    refine ⟨m', cs', ?_, hok', ?_⟩
    . unfold freeAll
      rw [bind_ok _ hfree]
      exact hfrees
    . rw [hblocks', hblocks₁, List.filter_filter]
      apply List.filter_congr
      intro b _
      simp [Bool.and_comm]

theorem freeAll_perm (hok : HeapOk k.mem k.heap cs) {ptrs ptrs' : List Word} (hnodup : ptrs.Nodup)
    (hptrs : ∀ p ∈ ptrs, p ∈ payloads k.heap cs) (hperm : ptrs.Perm ptrs')
    : ∃ m₁ m₂, freeAll ptrs k = .ok () { k with mem := m₁ }
        ∧ freeAll ptrs' k = .ok () { k with mem := m₂ }
        ∧ SameLayout k.heap m₁ m₂ := by
  have hptrs' : ∀ p ∈ ptrs', p ∈ payloads k.heap cs := fun p hp => hptrs p (hperm.mem_iff.mpr hp)
  obtain ⟨m₁, cs₁, hfrees₁, hok₁, hblocks₁⟩ := freeAll_blocks hok hnodup hptrs
  obtain ⟨m₂, cs₂, hfrees₂, hok₂, hblocks₂⟩ := freeAll_blocks hok (hperm.nodup_iff.mp hnodup) hptrs'
  have hsame : heapBlocks k.heap cs₁ = heapBlocks k.heap cs₂ := by
    rw [hblocks₁, hblocks₂]
    apply List.filter_congr
    intro b _
    simp only [hperm.mem_iff]
  have hcs := hok₁.unique hok₂ hsame
  subst hcs
  exact ⟨m₁, m₂, hfrees₁, hfrees₂, hok₁.sameLayout hok₂⟩

theorem freeAll_all (hok : HeapOk k.mem k.heap cs) {ptrs : List Word} (hnodup : ptrs.Nodup)
    (hptrs : ∀ p, p ∈ ptrs ↔ p ∈ payloads k.heap cs) (hchunk : k.heap.start.toNat + 4 < k.heap.brk.toNat)
    : ∃ m', freeAll ptrs k = .ok () { k with mem := m' } ∧ HeapOk m' k.heap [⟨total cs, false⟩] := by
  obtain ⟨m', cs', hfrees, hok', hblocks⟩ := freeAll_blocks hok hnodup (fun p hp => (hptrs p).mp hp)
  have hnone : heapBlocks k.heap cs' = [] := by
    rw [hblocks]
    apply List.filter_eq_nil_iff.mpr
    intro b hb
    have hmem := (hptrs _).mpr (List.mem_map.mpr ⟨b, hb, rfl⟩)
    simp [hmem]
  have hend := hok.tiles.brk_eq
  have hend' := hok'.tiles.brk_eq
  have htotal : total cs' = total cs := by omega
  have hsingle := hok'.tiles.spaced.eq_singleton hnone (by omega)
  rw [htotal] at hsingle
  rw [hsingle] at hok'
  exact ⟨m', hfrees, hok'⟩

end Free

/--
`lxmalloc` finds no free chunk that is large enough, and still returns a block.
-/
def GrowsHeap (k : Kernel) (size : Word) : Prop :=
  firstFit k.mem k.heap.brk (roundup (size + wsize) boundary) (2 ^ 32) k.heap.start = some none
    ∧ ∃ ptr k', lxmalloc size k = .ok ptr k' ∧ ptr ≠ 0

section RoundTrip

variable {m : ByteMem} {k : Kernel} {heap : HeapContext} {cs pre post : List Chunk} {c : Chunk} {size : Word}

/--
Freeing the first part of a chunk that was split, or all of it.
-/
theorem blocks_of_carved (hfree : c.allocated = false) {bytes : Nat} (hle : bytes ≤ c.size) {rest : List Chunk}
    (hrest : carve c bytes ++ post = ⟨bytes, true⟩ :: rest) (a : Nat)
    : blocks a pre ++ blocks (a + total pre + bytes) rest = blocks a (pre ++ c :: post) := by
  have hcarve : blocks (a + total pre) (carve c bytes ++ post)
      = (a + total pre, bytes) :: blocks (a + total pre + c.size) post :=
    blocks_carve (a + total pre) hle
  rw [hrest] at hcarve
  simp only [blocks, ↓reduceIte] at hcarve
  injection hcarve with _ htail
  rw [blocks_append, htail]
  simp only [blocks, hfree, Bool.false_eq_true, ↓reduceIte]

/--
A size that has wrapped to zero: the chunk that is found stays free.
-/
theorem placeChunk_zero (h : HeapOk m heap (pre ++ c :: post)) (hfree : c.allocated = false)
    : HeapOk (placeChunk m (BitVec.ofNat 32 (heap.start.toNat + 4 + total pre)) 0) heap (pre ++ c :: post) := by
  have hend := h.tiles.brk_eq
  have hbrk := heap.brk.isLt
  have haligned := h.aligned
  rw [total_append, total] at hend
  obtain ⟨a, q, hpre, hrest⟩ := tiles_append.mp h.tiles
  obtain ⟨hc, hpost⟩ := tiles_cons.mp hrest
  have hq := hc.separate hfree
  have hword := hc.word
  have hpos := hc.pos
  have hc4 := hc.aligned
  have hpre4 := hpre.aligned
  have ha := hpre.eq_total
  subst hq
  rw [hfree] at hword hpost
  rw [Bool.not_false] at hpost
  obtain ⟨n, hn⟩ := hpost.headAllocated.headWord true
  rw [← hpost.headWord] at hn
  rw [← ha]
  have hsplit : placeChunk m (BitVec.ofNat 32 a) (BitVec.ofNat 32 0)
      = writeFree (m.write32 a (header 0 true false)) (a + 0) (c.size - 0) :=
    placeChunk_split (by omega) (by omega) rfl hc4 hpos hword hn
  rw [Nat.add_zero, Nat.sub_zero] at hsplit
  have hfirst : ByteMem.SameOutside m (m.write32 a (header 0 true false)) a (a + 4) :=
    ByteMem.sameOutside_write32 m _ (Nat.le_refl a) (Nat.le_refl _)
  have htiles := tiles_writeFree (by omega) hpos hc4 (hpre.frame (hfirst.below _))
    (hpost.frame ((hfirst.above _).mono (by omega) (Nat.le_refl _)))
  have hsame : ByteMem.SameOutside (m.write32 a (header 0 true false))
      (writeFree (m.write32 a (header 0 true false)) a c.size) a (a + c.size) :=
    writeFree_sameOutside (by omega)
  have hchunk : (⟨c.size, false⟩ : Chunk) = c := by rw [← hfree]
  rw [hchunk] at htiles
  change HeapOk (placeChunk m (BitVec.ofNat 32 a) (BitVec.ofNat 32 0)) heap _
  rw [hsplit]
  refine ⟨h.aligned, ?_, htiles⟩
  rw [← h.prologue]
  exact ByteMem.read32_congr _ (((hfirst.below 0).trans (hsame.below 0)).mono (Nat.zero_le _) (by omega))

theorem lxfree_payload (hok : HeapOk k.mem k.heap (pre ++ c :: post))
    : ∃ m' cs', lxfree (bptr (BitVec.ofNat 32 (k.heap.start.toNat + 4 + total pre))) k
        =
      .ok () { k with mem := m' }
        ∧ HeapOk m' k.heap cs'
        ∧ heapBlocks k.heap cs'
            = blocks (k.heap.start.toNat + 4) pre ++ blocks
              (k.heap.start.toNat + 4 + total pre + c.size) post := by
  obtain ⟨cs', hok', hblocks, _⟩ := freeChunk_heapOk hok
  have hne : bptr (BitVec.ofNat 32 (k.heap.start.toNat + 4 + total pre)) ≠ 0 := by
    intro hzero
    have hnat := hok.toNat_payload
    rw [hzero] at hnat
    have : 0 = k.heap.start.toNat + 4 + total pre + 4 := hnat
    omega
  rw [← bptr_ofNat] at hok'
  exact ⟨_, cs', lxfree_eq hne k, hok', hblocks⟩

/--
What is found on the walk and freed again.
-/
theorem lxfree_lxmalloc_found (hok : HeapOk k.mem k.heap (pre ++ c :: post)) (hne : size ≠ 0)
    (hfree : c.allocated = false) (hle : need size ≤ c.size)
    (hfound : firstFit k.mem k.heap.brk (BitVec.ofNat 32 (need size)) (2 ^ 32) k.heap.start
      = some (some (BitVec.ofNat 32 (k.heap.start.toNat + 4 + total pre))))
    : ∃ ptr m₁ m₂, lxmalloc size k = .ok ptr { k with mem := m₁ }
        ∧ lxfree ptr { k with mem := m₁ } = .ok () { k with mem := m₂ }
        ∧ SameLayout k.heap k.mem m₂ := by
  have hresult : lxmalloc size k = .ok (bptr (BitVec.ofNat 32 (k.heap.start.toNat + 4 + total pre)))
      {
        k with
        mem := placeChunk k.mem (BitVec.ofNat 32 (k.heap.start.toNat + 4 + total pre))
          (BitVec.ofNat 32 (need size))
      } := by
    rw [lxmalloc_eq hne (roundup_need size), hfound]
    rfl
  have h4 : need size % 4 = 0 := by
    unfold need
    omega
  by_cases hzero : need size = 0
  . rw [hzero] at hresult
    have hplaced := placeChunk_zero hok hfree
    obtain ⟨m₂, cs', hfreed, hok', hblocks⟩ := @lxfree_payload { k with mem := _ } pre post c hplaced
    have hcs : pre ++ c :: post = cs' := by
      apply hok.unique hok'
      rw [hblocks]
      unfold heapBlocks
      rw [blocks_append]
      simp only [blocks, hfree, Bool.false_eq_true, ↓reduceIte]
    subst hcs
    exact ⟨_, _, m₂, hresult, hfreed, hok.sameLayout hok'⟩
  . obtain ⟨rest, hrest⟩ : ∃ rest, carve c (need size) ++ post = ⟨need size, true⟩ :: rest := ⟨_, rfl⟩
    have hplaced := placeChunk_heapOk hok hfree (show 0 < need size by omega) h4 hle
    rw [hrest] at hplaced
    obtain ⟨m₂, cs', hfreed, hok', hblocks⟩ :=
      @lxfree_payload { k with mem := _ } pre rest ⟨need size, true⟩ hplaced
    have hcs : pre ++ c :: post = cs' := by
      apply hok.unique hok'
      rw [hblocks]
      exact (blocks_of_carved hfree hle hrest _).symm
    subst hcs
    exact ⟨_, _, m₂, hresult, hfreed, hok.sameLayout hok'⟩

/--
`NULL` leaves the memory as it is.
-/
theorem lxmalloc_null_of_not_grows (hok : HeapOk k.mem k.heap cs) (hwf : k.vm.WellFormed)
    (hmax : k.heap.maxAddr = kStackStart) (hroom : k.heap.brk.toNat < k.heap.maxAddr.toNat) (hne : size ≠ 0)
    (hfull : ∀ c ∈ cs, c.allocated = false → c.size < need size)
    (hnull : ∀ ptr k', lxmalloc size k = .ok ptr k' → ptr = 0)
    : ∃ vm, lxmalloc size k = .ok 0 { k with vm := vm } := by
  by_cases hsmall : size.toNat + 12 ≤ 2 ^ 32
  . have hneed := need_of_small (show size.toNat + 8 ≤ 2 ^ 32 by omega)
    obtain ⟨ptr, k', hreturns, _⟩ := lxmalloc_null_of_small hok hwf hmax hne hsmall
    have hcases := lxmalloc_cases hok size hsmall
    generalize lxmalloc size k = r at hcases hnull hreturns
    cases hcases with
    | empty hzero => exact absurd hzero hne
    | null _ _ vm _ => exact ⟨vm, rfl⟩
    | fault _ _ e vm _ => nomatch hreturns
    | fit _ c hc hfree hle ptr m' placed =>
      have hshort := hfull c hc hfree
      omega
    | grown _ _ vm _ ptr m' heap' _ placed => exact absurd (hnull ptr _ rfl) placed.ptr_ne_zero
  . by_cases hgt : 2 ^ 32 < size.toNat + 8
    . obtain ⟨ptr, k', hreturns, hiff⟩ := lxmalloc_null_of_wrapped hok hwf hmax hgt
      have hzero := hnull ptr k' hreturns
      obtain ⟨hall, hstuck⟩ := (cannotServe_of_wrapped hok hgt).mp (hiff.mp hzero)
      obtain ⟨ptr', k₁, hreturns', hunchanged, _⟩ := lxmalloc_of_allocated hok hwf hmax hgt hall
      obtain ⟨rfl, vm, rfl⟩ := hunchanged hstuck
      exact ⟨vm, hreturns'⟩
    . obtain ⟨k', hreturns⟩ := lxmalloc_of_middle hok (show size.toNat + 8 ≤ 2 ^ 32 by omega) (by omega)
      have hzero := hnull _ k' hreturns
      rw [hmax, toNat_kStackStart] at hroom
      rw [← ofNat_toNat_word k.heap.brk, bptr_ofNat] at hzero
      exact absurd hzero (ofNat_ne_zero (by omega) (by omega))

theorem lxfree_lxmalloc (hok : HeapOk k.mem k.heap cs) (hwf : k.vm.WellFormed)
    (hmax : k.heap.maxAddr = kStackStart)
    (hroom : k.heap.brk.toNat < k.heap.maxAddr.toNat) (hnot : ¬GrowsHeap k size)
    : ∃ ptr vm m₁ m₂, lxmalloc size k = .ok ptr { k with vm := vm, mem := m₁ }
        ∧ lxfree ptr { k with vm := vm, mem := m₁ } = .ok () { k with vm := vm, mem := m₂ }
        ∧ SameLayout k.heap k.mem m₂ := by
  by_cases hne : size = 0
  . subst hne
    exact ⟨0, k.vm, k.mem, k.mem, rfl, rfl, hok.sameLayout hok⟩
  . have htoNat : (BitVec.ofNat 32 (need size)).toNat = need size := by
      rw [BitVec.toNat_ofNat]
      unfold need
      omega
    have hcases := hok.firstFit_cases (BitVec.ofNat 32 (need size))
    rw [htoNat] at hcases
    cases hcases with
    | inl hfound =>
      obtain ⟨pre, c, post, rfl, hfree, hle, _, hresult⟩ := hfound
      obtain ⟨ptr, m₁, m₂, hmalloc, hfreed, hsame⟩ := lxfree_lxmalloc_found hok hne hfree hle hresult
      exact ⟨ptr, k.vm, m₁, m₂, hmalloc, hfreed, hsame⟩
    | inr hnone =>
      have hnull : ∀ ptr k', lxmalloc size k = .ok ptr k' → ptr = 0 := by
        intro ptr k' hreturns
        by_contra hptr
        refine hnot ⟨?_, ptr, k', hreturns, hptr⟩
        rw [roundup_need]
        exact hnone.2
      obtain ⟨vm, hreturns⟩ := lxmalloc_null_of_not_grows hok hwf hmax hroom hne hnone.1 hnull
      exact ⟨0, vm, k.mem, k.mem, hreturns, rfl, hok.sameLayout hok⟩

/--
Blocks can be freed in any order, all of them leave one free chunk, and freeing what `lxmalloc` returned leaves the
layout as it was, unless the heap has grown.
-/
theorem layout_canonical (hok : HeapOk k.mem k.heap cs) (hwf : k.vm.WellFormed)
    (hmax : k.heap.maxAddr = kStackStart) (hroom : k.heap.brk.toNat < k.heap.maxAddr.toNat)
    : (∀ ptrs ptrs' : List Word, ptrs.Nodup → (∀ p ∈ ptrs, p ∈ payloads k.heap cs) → ptrs.Perm ptrs' →
          ∃ m₁ m₂, freeAll ptrs k = .ok () { k with mem := m₁ }
            ∧ freeAll ptrs' k = .ok () { k with mem := m₂ }
            ∧ SameLayout k.heap m₁ m₂)
        ∧ (∀ ptrs : List Word, ptrs.Nodup → (∀ p, p ∈ ptrs ↔ p ∈ payloads k.heap cs) →
            k.heap.start.toNat + 4 < k.heap.brk.toNat →
              ∃ m', freeAll ptrs k = .ok () { k with mem := m' } ∧ HeapOk m' k.heap [⟨total cs, false⟩])
        ∧ ∀ size, ¬GrowsHeap k size →
            ∃ ptr vm m₁ m₂, lxmalloc size k = .ok ptr { k with vm := vm, mem := m₁ }
              ∧ lxfree ptr { k with vm := vm, mem := m₁ } = .ok () { k with vm := vm, mem := m₂ }
              ∧ SameLayout k.heap k.mem m₂ :=
  ⟨fun _ _ hnodup hptrs hperm => freeAll_perm hok hnodup hptrs hperm,
    fun _ hnodup hptrs hchunk => freeAll_all hok hnodup hptrs hchunk,
    fun _ hnot => lxfree_lxmalloc hok hwf hmax hroom hnot⟩

theorem layout_canonical_bootKernel
    : ∃ (k : Kernel) (cs : List Chunk) (ptr : Word) (vm : Machine) (m₁ m₂ : ByteMem), HeapOk k.mem k.heap cs
        ∧ ptr ≠ 0
        ∧ lxmalloc 100 k = .ok ptr { k with vm := vm, mem := m₁ }
        ∧ lxfree ptr { k with vm := vm, mem := m₁ } = .ok () { k with vm := vm, mem := m₂ }
        ∧ SameLayout k.heap k.mem m₂ := by
  obtain ⟨k, hinit, _⟩ := kallocInit_bootKernel
  obtain ⟨_, _, _, _, _, _, ⟨grown⟩⟩ := kallocInit_grown (by decide) hinit
  have hbacked := kallocInit_backed (by decide) wellFormed_bootMachine
    (not_mapped_bootMachine _ (by decide)) hinit
  have hroom := hbacked.room
  have hle := grown.le
  have hneed : (BitVec.ofNat 32 (need 100)).toNat = 104 := by decide
  have hbytes : chunkBytes 100 = 104 := by decide
  have hnot : ¬GrowsHeap k 100 := by
    rintro ⟨hnone, _⟩
    rw [roundup_need] at hnone
    cases grown.ok.firstFit_cases (BitVec.ofNat 32 (need 100)) with
    | inl hfound =>
      obtain ⟨_, _, _, _, _, _, _, hresult⟩ := hfound
      nomatch hnone.symm.trans hresult
    | inr hfull =>
      have hshort := hfull.1 grown.chunk (by simp) grown.free
      omega
  obtain ⟨ptr, vm, m₁, m₂, hmalloc, hfreed, hsame⟩ :=
    (layout_canonical grown.ok hbacked.wellFormed hbacked.maxAddr_eq (by rw [hbacked.maxAddr_eq]; omega)).2.2 100 hnot
  obtain ⟨ptr', _, hfits, ⟨placed⟩⟩ :=
    lxmalloc_fit grown.ok (show (100 : Word) ≠ 0 by decide) (by decide) (by simp) grown.free (by omega)
  obtain ⟨hptr, _⟩ := EStateM.Result.ok.inj (hmalloc.symm.trans hfits)
  have hne := placed.ptr_ne_zero
  rw [← hptr] at hne
  exact ⟨k, _, ptr, vm, m₁, m₂, grown.ok, hne, hmalloc, hfreed, hsame⟩

end RoundTrip

/--
`lxmalloc` never moves the break back, for a size that does not wrap.
-/
theorem lxmalloc_brk_le {k : Kernel} {cs : List Chunk} (hok : HeapOk k.mem k.heap cs) (size : Word)
    (hsize : size.toNat + 12 ≤ 2 ^ 32)
    : (finalState (lxmalloc size k)).heap.start = k.heap.start
        ∧ k.heap.brk.toNat ≤ (finalState (lxmalloc size k)).heap.brk.toNat := by
  have hcases := lxmalloc_cases hok size hsize
  generalize lxmalloc size k = r at hcases
  cases hcases with
  | empty hzero => exact ⟨rfl, Nat.le_refl _⟩
  | null hne hfull vm hbrk => exact ⟨rfl, Nat.le_refl _⟩
  | fault hne hfull e vm hbrk => exact ⟨rfl, Nat.le_refl _⟩
  | fit hne c hc hfree hle ptr m' placed => exact ⟨rfl, Nat.le_refl _⟩
  | grown hne hfull vm hbrk ptr m' heap' hmoved placed => exact ⟨placed.start_eq, placed.brk_le⟩

/--
In every state of a run there is at least one chunk between the prologue and the epilogue.
-/
theorem HeapRun.start_lt_brk {start : Word} {k₀ k : Kernel} {live : List Block}
    (haligned : start.toNat % 4096 = 0) (hrun : HeapRun start k₀ k live)
    : k.heap.start.toNat + 4 < k.heap.brk.toNat := by
  refine HeapRun.of_lxmalloc (P := fun k => k.heap.start.toNat + 4 < k.heap.brk.toNat) haligned ?_ ?_
    (fun _ _ h => h) hrun
  . intro k hresult
    obtain ⟨_, _, _, _, _, _, ⟨grown⟩⟩ := kallocInit_grown haligned hresult
    have hend := grown.ok.tiles.brk_eq
    have hle := grown.le
    rw [total_append, total, total] at hend
    omega
  . intro k cs size hok hsize h
    obtain ⟨hstart, hbrk⟩ := lxmalloc_brk_le hok size (by omega)
    rw [hstart]
    omega

end AwaOS
