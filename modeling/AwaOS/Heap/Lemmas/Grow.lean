import AwaOS.Heap.Lemmas.Place
import AwaOS.Lib.StateMonad

/-!
What `lxbrk` and `lx_grow_heap` do.
-/

namespace AwaOS

theorem toNat_roundup (v : Word) (hlt : v.toNat + 3 < 2 ^ 32)
    : (roundup v boundary).toNat = (v.toNat + 3) / 4 * 4 := by
  have hmask : ~~~(boundary - 1) = Align.highMask 32 2 := by decide
  have hsum : v + boundary - 1 = v + 3#32 := by
    unfold boundary
    rw [BitVec.sub_eq_add_neg, BitVec.add_assoc]
    rfl
  unfold roundup
  rw [hmask, hsum, Align.toNat_and_highMask, BitVec.toNat_add, BitVec.toNat_ofNat]
  omega

theorem roundup_of_aligned (v : Word) (hlt : v.toNat + 3 < 2 ^ 32) (h4 : v.toNat % 4 = 0)
    : roundup v boundary = v := by
  apply BitVec.eq_of_toNat_eq
  rw [toNat_roundup v hlt]
  omega

/--
The ways in which `lxbrk` ends.
-/
inductive Lxbrk (k : Kernel) (size : Word) : EStateM.Result HeapFault Kernel Word → Prop
  | limit (hlimit : k.heap.maxAddr.toNat ≤ k.heap.brk.toNat + size.toNat) : Lxbrk k size (.ok 0 k)
  | refused (hroom : k.heap.brk.toNat + size.toNat < k.heap.maxAddr.toNat) (vm : Machine)
      (hmap : lxbrk.mapPages k.heap.brk (pgAlign (k.heap.brk + size) - pgAlign k.heap.brk) k
        = .ok false { k with vm := vm })
      : Lxbrk k size (.ok 0 { k with vm := vm })
  | fault (hroom : k.heap.brk.toNat + size.toNat < k.heap.maxAddr.toNat) (e : HeapFault) (vm : Machine)
      (hmap : lxbrk.mapPages k.heap.brk (pgAlign (k.heap.brk + size) - pgAlign k.heap.brk) k
        = .error e { k with vm := vm })
      : Lxbrk k size (.error e { k with vm := vm })
  | moved (hroom : k.heap.brk.toNat + size.toNat < k.heap.maxAddr.toNat) (vm : Machine)
      (hmap : lxbrk.mapPages k.heap.brk (pgAlign (k.heap.brk + size) - pgAlign k.heap.brk) k
        = .ok true { k with vm := vm })
      : Lxbrk k size (.ok k.heap.brk { k with vm := vm, heap := { k.heap with brk := k.heap.brk + size } })

section Lxbrk

variable {k : Kernel} {size : Word} {vm : Machine}

theorem Lxbrk.null_cases (hne : k.heap.brk ≠ 0) (h : Lxbrk k size (.ok 0 { k with vm := vm }))
    : (k.heap.maxAddr.toNat ≤ k.heap.brk.toNat + size.toNat ∧ vm = k.vm)
        ∨
      (k.heap.brk.toNat + size.toNat < k.heap.maxAddr.toNat
        ∧ lxbrk.mapPages k.heap.brk (pgAlign (k.heap.brk + size) - pgAlign k.heap.brk) k
          = .ok false { k with vm := vm }) := by
  generalize hr : (EStateM.Result.ok 0 { k with vm := vm } : EStateM.Result HeapFault Kernel Word) = r at h
  cases h with
  | limit hlimit =>
    obtain ⟨_, hk⟩ := EStateM.Result.ok.inj hr
    exact Or.inl ⟨hlimit, congrArg Kernel.vm hk⟩
  | refused hroom vm' hmap =>
    obtain ⟨_, hk⟩ := EStateM.Result.ok.inj hr
    have hvm : vm = vm' := congrArg Kernel.vm hk
    subst hvm
    exact Or.inr ⟨hroom, hmap⟩
  | fault hroom e vm' hmap => nomatch hr
  | moved hroom vm' hmap =>
    obtain ⟨hbrk, _⟩ := EStateM.Result.ok.inj hr
    exact absurd hbrk.symm hne

theorem Lxbrk.fault_cases {e : HeapFault} (h : Lxbrk k size (.error e { k with vm := vm }))
    : k.heap.brk.toNat + size.toNat < k.heap.maxAddr.toNat
        ∧ lxbrk.mapPages k.heap.brk (pgAlign (k.heap.brk + size) - pgAlign k.heap.brk) k
          = .error e { k with vm := vm } := by
  generalize hr : (EStateM.Result.error e { k with vm := vm } : EStateM.Result HeapFault Kernel Word) = r at h
  cases h with
  | limit hlimit => nomatch hr
  | refused hroom vm' hmap => nomatch hr
  | fault hroom e' vm' hmap =>
    obtain ⟨rfl, hk⟩ := EStateM.Result.error.inj hr
    have hvm : vm = vm' := congrArg Kernel.vm hk
    subst hvm
    exact ⟨hroom, hmap⟩
  | moved hroom vm' hmap => nomatch hr

theorem Lxbrk.moved_cases (hne : k.heap.brk ≠ 0)
    (h : Lxbrk k size (.ok k.heap.brk { k with vm := vm, heap := { k.heap with brk := k.heap.brk + size } }))
    : k.heap.brk.toNat + size.toNat < k.heap.maxAddr.toNat
        ∧ lxbrk.mapPages k.heap.brk (pgAlign (k.heap.brk + size) - pgAlign k.heap.brk) k
          = .ok true { k with vm := vm } := by
  generalize hr : (EStateM.Result.ok k.heap.brk { k with vm := vm, heap := { k.heap with brk := k.heap.brk + size } }
    : EStateM.Result HeapFault Kernel Word) = r at h
  cases h with
  | limit hlimit => exact absurd (EStateM.Result.ok.inj hr).1 hne
  | refused hroom vm' hmap => exact absurd (EStateM.Result.ok.inj hr).1 hne
  | fault hroom e vm' hmap => nomatch hr
  | moved hroom vm' hmap =>
    obtain ⟨_, hk⟩ := EStateM.Result.ok.inj hr
    have hvm : vm = vm' := congrArg Kernel.vm hk
    subst hvm
    exact ⟨hroom, hmap⟩

end Lxbrk

theorem mapPages_vm (k : Kernel) (currentBrk diff : Word)
    : (∃ mapped vm, lxbrk.mapPages currentBrk diff k = .ok mapped { k with vm := vm })
        ∨
      ∃ e vm, lxbrk.mapPages currentBrk diff k = .error e { k with vm := vm } := by
  unfold lxbrk.mapPages
  split
  . unfold callVmm
    cases vmmAllocPages (pgAlign currentBrk + 0x1000) diff pgPremRw k.vm with
    | ok mapped vm => exact Or.inl ⟨mapped, vm, rfl⟩
    | error e vm => exact Or.inr ⟨_, vm, rfl⟩
  . exact Or.inl ⟨true, k.vm, rfl⟩

theorem lxbrk_cases (k : Kernel) (size : Word) (hpos : 0 < size.toNat) (h4 : size.toNat % 4 = 0)
    : Lxbrk k size (lxbrk size k) := by
  have hsize := size.isLt
  have hbrk := k.heap.brk.isLt
  have hmax := k.heap.maxAddr.isLt
  have hne : size ≠ 0 := by
    intro hzero
    rw [hzero] at hpos
    contradiction
  have hlimit : (k.heap.brk + size ≥ k.heap.maxAddr ∨ k.heap.brk + size < k.heap.brk)
      ↔ k.heap.maxAddr.toNat ≤ k.heap.brk.toNat + size.toNat := by
    rw [ge_iff_le, BitVec.le_def, BitVec.lt_def, BitVec.toNat_add]
    omega
  unfold lxbrk
  rw [bind_get, if_neg hne]
  dsimp only
  rw [roundup_of_aligned size (by omega) h4]
  split
  . next hover => exact .limit (hlimit.mp hover)
  . next hover =>
    rw [hlimit, Nat.not_le] at hover
    cases mapPages_vm k k.heap.brk (pgAlign (k.heap.brk + size) - pgAlign k.heap.brk) with
    | inl hok =>
      obtain ⟨mapped, vm, hmap⟩ := hok
      rw [bind_ok _ hmap]
      cases mapped with
      | true => exact .moved hover vm hmap
      | false => exact .refused hover vm hmap
    | inr herror =>
      obtain ⟨e, vm, hmap⟩ := herror
      rw [bind_error _ hmap]
      exact .fault hover e vm hmap

/--
The heap between `start` and `brk`: the prologue, the chunks and the epilogue.
-/
structure HeapOk (m : ByteMem) (heap : HeapContext) (cs : List Chunk) : Prop where
  aligned : heap.start.toNat % 4 = 0
  prologue : m.read32 heap.start.toNat = header 4 true false
  tiles : Tiles m (heap.start.toNat + 4) false cs heap.brk.toNat

theorem HeapOk.brk_ne_zero {m : ByteMem} {heap : HeapContext} {cs : List Chunk} (h : HeapOk m heap cs)
    : heap.brk ≠ 0 := by
  have hend := h.tiles.brk_eq
  intro hzero
  have hnat : heap.brk.toNat = 0 := congrArg BitVec.toNat hzero
  omega

/--
The allocated chunks of the heap.
-/
def heapBlocks (heap : HeapContext) (cs : List Chunk) : List (Nat × Nat) :=
  blocks (heap.start.toNat + 4) cs

/--
What `lx_grow_heap` does to the layout of the heap.
-/
structure Grown (m : ByteMem) (heap : HeapContext) (cs : List Chunk) (size : Nat) (ptr : Word) (m' : ByteMem)
    (heap' : HeapContext) where
  pre : List Chunk
  chunk : Chunk
  free : chunk.allocated = false
  le : size ≤ chunk.size
  start_eq : heap'.start = heap.start
  maxAddr_eq : heap'.maxAddr = heap.maxAddr
  brk_eq : heap'.brk.toNat = heap.brk.toNat + size
  ptr_eq : ptr = BitVec.ofNat 32 (heap.start.toNat + 4 + total pre)
  ok : HeapOk m' heap' (pre ++ [chunk])
  blocks_eq : heapBlocks heap (pre ++ [chunk]) = heapBlocks heap cs
  keeps : Keeps (heapBlocks heap cs) m m'

theorem addChunk_eq {m : ByteMem} {a size : Nat} {prevFree : Bool} (ha : a + size < 2 ^ 32)
    (haligned : a % 4 = 0) (hsize : 4 ≤ size) (h4 : size % 4 = 0) (hword : m.read32 a = header 0 true prevFree)
    : lxGrowHeap.addChunk m (BitVec.ofNat 32 a) (BitVec.ofNat 32 size)
        =
      coalesce (freed m a size prevFree (header 0 true true)) (BitVec.ofNat 32 a) := by
  have hheader :
      pack (BitVec.ofNat 32 size) (chunkPF (header 0 true prevFree)) = header size false prevFree := by
    rw [chunkPF_header]
    cases prevFree with
    | true => rfl
    | false => rfl
  have hepilogue : pack 0 (mAllocated ||| mPrevFree) = header 0 true true := by decide
  have hstored : ((m.write32 a (header size false prevFree)).write32 (a + size - 4)
      (header size false prevFree)).read32 a = header size false prevFree := by
    have hfreed : (freed m a size prevFree 0).read32 a = header size false prevFree :=
      freed_word haligned hsize h4
    unfold freed at hfreed
    rw [ByteMem.read32_write32_of_apart _ _ _ (by omega)] at hfreed
    exact hfreed
  unfold lxGrowHeap.addChunk freed nextChk
  dsimp only
  rw [lw_ofNat (by omega), hword, hheader, fptr_ofNat hsize, sw_ofNat (by omega), sw_ofNat (by omega),
    lw_ofNat (by omega), hstored, chunkS_header size _ _ (by omega) h4, ← BitVec.ofNat_add, sw_ofNat ha,
      hepilogue]

/--
The new chunk is merged with the free chunks at the end of the heap.
-/
theorem addChunk_layout {m : ByteMem} {heap : HeapContext} {cs : List Chunk} (h : HeapOk m heap cs) (size : Nat)
    (hsize : 4 ≤ size) (h4 : size % 4 = 0) (hroom : heap.brk.toNat + size + 4 < heap.maxAddr.toNat)
    : ∃ pre tail, cs = pre ++ tail
        ∧ (∀ d ∈ tail, d.allocated = false)
        ∧ (lxGrowHeap.addChunk m heap.brk (BitVec.ofNat 32 size)).1 = BitVec.ofNat 32
          (heap.start.toNat + 4 + total pre)
        ∧ HeapOk (lxGrowHeap.addChunk m heap.brk (BitVec.ofNat 32 size)).2
            { heap with brk := BitVec.ofNat 32 (heap.brk.toNat + size) } (pre ++ [⟨total tail + size, false⟩])
        ∧ Keeps (heapBlocks heap cs) m (lxGrowHeap.addChunk m heap.brk (BitVec.ofNat 32 size)).2 := by
  have hmax := heap.maxAddr.isLt
  have haligned := h.aligned
  have htotal := h.tiles.aligned
  have hend := h.tiles.brk_eq
  obtain ⟨q, hseg, hword⟩ := h.tiles
  have hbrk : heap.brk = BitVec.ofNat 32 heap.brk.toNat := (ofNat_toNat_word _).symm
  have heq := addChunk_eq (by omega) (by omega) hsize h4 hword
  rw [← hbrk] at heq
  have hsame : ByteMem.SameOutside m (freed m heap.brk.toNat size q (header 0 true true)) heap.brk.toNat
      (heap.brk.toNat + size + 4) :=
    freed_sameOutside hsize
  have hfollows : Follows (freed m heap.brk.toNat size q (header 0 true true)) (heap.brk.toNat + size)
      (heap.brk.toNat + size) [] :=
    .allocated ⟨true, ⟨rfl, rfl⟩, freed_next⟩
  obtain ⟨merged⟩ := coalesce_merged (by omega) (by omega) (hseg.frame (hsame.below _)) (by omega) h4
    (freed_word (by omega) hsize h4) (fun hq => by rw [freed_footer hsize, hq]) hfollows
  rw [← hbrk, ← heq] at merged
  obtain ⟨hright, hpost⟩ := List.append_eq_nil_iff.mp merged.post_eq.symm
  have htiles := merged.tiles
  have hmoved : (BitVec.ofNat 32 (heap.brk.toNat + size)).toNat = heap.brk.toNat + size := by
    rw [BitVec.toNat_ofNat, Nat.mod_eq_of_lt (by omega)]
  have hkeeps : Keeps (heapBlocks heap cs) m (freed m heap.brk.toNat size q (header 0 true true)) := by
    intro b hb
    have := (blocks_bounds hb).2
    exact (hsame.below _).mono (Nat.le_refl _) (by omega)
  have hkeeps' := merged.keeps hend
  simp only [blocks, List.append_nil] at hkeeps'
  rw [hpost, hright] at htiles
  have hsum : total merged.pre' + total merged.left = total cs := by rw [← total_append, ← merged.pre_eq]
  have haddr := merged.addr_eq
  refine ⟨merged.pre', merged.left, merged.pre_eq, merged.left_free, ?_, ?_, hkeeps.trans hkeeps'⟩
  . rw [merged.result]
    congr 1
    omega
  . constructor
    . exact h.aligned
    . have hbelow := ((hsame.below 0).mono (Nat.le_refl _) (by omega)).trans (merged.below hend)
      rw [← h.prologue]
      exact ByteMem.read32_congr _ (hbelow.mono (Nat.zero_le _) (Nat.le_refl _))
    . dsimp only
      rw [hmoved]
      exact htiles

theorem addChunk_grown {m : ByteMem} {heap : HeapContext} {cs : List Chunk} (h : HeapOk m heap cs) (size : Nat)
    (hsize : 4 ≤ size) (h4 : size % 4 = 0) (hroom : heap.brk.toNat + size + 4 < heap.maxAddr.toNat)
    : Nonempty (Grown m heap cs size (lxGrowHeap.addChunk m heap.brk (BitVec.ofNat 32 size)).1
        (lxGrowHeap.addChunk m heap.brk (BitVec.ofNat 32 size)).2
        { heap with brk := BitVec.ofNat 32 (heap.brk.toNat + size) }) := by
  have hmax := heap.maxAddr.isLt
  obtain ⟨pre, tail, hcs, hfree, hptr, hok, hkeeps⟩ := addChunk_layout h size hsize h4 hroom
  exact ⟨{
    pre := pre
    chunk := ⟨total tail + size, false⟩
    free := rfl
    le := Nat.le_add_left _ _
    start_eq := rfl
    maxAddr_eq := rfl
    brk_eq := by
      dsimp only
      rw [BitVec.toNat_ofNat, Nat.mod_eq_of_lt (by omega)]
    ptr_eq := hptr
    ok := hok
    blocks_eq := by
      unfold heapBlocks
      rw [hcs, blocks_append, blocks_append, blocks_free _ tail hfree]
      rfl
    keeps := hkeeps
  }⟩

/--
The ways in which `lx_grow_heap` ends.
-/
inductive LxGrowHeap (k : Kernel) (cs : List Chunk) (size : Nat) : EStateM.Result HeapFault Kernel Word → Prop
  | null (vm : Machine) (hbrk : Lxbrk k (BitVec.ofNat 32 (size + 4)) (.ok 0 { k with vm := vm }))
      : LxGrowHeap k cs size (.ok 0 { k with vm := vm })
  | fault (e : HeapFault) (vm : Machine)
    (hbrk : Lxbrk k (BitVec.ofNat 32 (size + 4)) (.error e { k with vm := vm }))
      : LxGrowHeap k cs size (.error e { k with vm := vm })
  | grown (vm : Machine) (ptr : Word) (m' : ByteMem) (heap' : HeapContext)
      (hbrk : Lxbrk k (BitVec.ofNat 32 (size + 4)) (.ok k.heap.brk
        { k with vm := vm, heap := { k.heap with brk := k.heap.brk + BitVec.ofNat 32 (size + 4) } }))
      (hgrown : Grown k.mem k.heap cs size ptr m' heap')
      : LxGrowHeap k cs size (.ok ptr { vm := vm, mem := m', heap := heap' })

/--
`lx_grow_heap` passes on the `NULL` of `lxbrk`.
-/
theorem lxGrowHeap_null {k k' : Kernel} {bytes : Nat} (h : lxbrk (BitVec.ofNat 32 (bytes + 4)) k = .ok 0 k')
    : lxGrowHeap (BitVec.ofNat 32 bytes) k = .ok 0 k' := by
  have hsum : BitVec.ofNat 32 bytes + wsize = BitVec.ofNat 32 (bytes + 4) := (BitVec.ofNat_add ..).symm
  unfold lxGrowHeap
  rw [hsum, bind_ok _ h, if_pos rfl]
  rfl

/--
What `lx_grow_heap` does with the bytes that `lxbrk` gave it.
-/
theorem lxGrowHeap_moved {k : Kernel} {vm : Machine} (hbrk : 4 ≤ k.heap.brk.toNat) {size : Nat}
    (h4 : size % 4 = 0) (hlt : size + 4 < 2 ^ 32)
    (hmoved : lxbrk (BitVec.ofNat 32 (size + 4)) k
      = .ok k.heap.brk
        { k with vm := vm, heap := { k.heap with brk := k.heap.brk + BitVec.ofNat 32 (size + 4) } })
    : lxGrowHeap (BitVec.ofNat 32 size) k
        =
      .ok (lxGrowHeap.addChunk k.mem k.heap.brk (BitVec.ofNat 32 size)).1
        {
          vm := vm
          mem := (lxGrowHeap.addChunk k.mem k.heap.brk (BitVec.ofNat 32 size)).2
          heap := { k.heap with brk := BitVec.ofNat 32 (k.heap.brk.toNat + size) }
        } := by
  have hsum : BitVec.ofNat 32 size + wsize = BitVec.ofNat 32 (size + 4) := (BitVec.ofNat_add ..).symm
  have hne : k.heap.brk ≠ 0 := by
    intro hzero
    rw [hzero] at hbrk
    contradiction
  have hsizeNat : (BitVec.ofNat 32 size).toNat = size := by
    rw [BitVec.toNat_ofNat, Nat.mod_eq_of_lt (by omega)]
  have hround : roundup (BitVec.ofNat 32 size) boundary = BitVec.ofNat 32 size := by
    apply roundup_of_aligned
    . omega
    . omega
  have hback : k.heap.brk + BitVec.ofNat 32 (size + 4) - wsize = BitVec.ofNat 32 (k.heap.brk.toNat + size) := by
    have hbrk := ofNat_toNat_word k.heap.brk
    rw [← hbrk, ← BitVec.ofNat_add, sub_wsize (by omega), hbrk]
    rfl
  unfold lxGrowHeap
  rw [hsum, bind_ok _ hmoved, if_neg hne]
  -- what is left of the function neither calls the memory manager nor branches
  show (.ok (lxGrowHeap.addChunk k.mem k.heap.brk (roundup (BitVec.ofNat 32 size) boundary)).1
    {
      vm := vm
      mem := (lxGrowHeap.addChunk k.mem k.heap.brk (roundup (BitVec.ofNat 32 size) boundary)).2
      heap := { k.heap with brk := k.heap.brk + BitVec.ofNat 32 (size + 4) - wsize }
    } : EStateM.Result HeapFault Kernel Word) = _
  rw [hround, hback]

theorem lxGrowHeap_cases {k : Kernel} {cs : List Chunk} (h : HeapOk k.mem k.heap cs) (size : Nat)
    (hsize : 4 ≤ size) (h4 : size % 4 = 0) (hlt : size + 4 < 2 ^ 32)
    : LxGrowHeap k cs size (lxGrowHeap (BitVec.ofNat 32 size) k) := by
  have hend := h.tiles.brk_eq
  have htoNat : (BitVec.ofNat 32 (size + 4)).toNat = size + 4 := by
    rw [BitVec.toNat_ofNat, Nat.mod_eq_of_lt hlt]
  have hsum : BitVec.ofNat 32 size + wsize = BitVec.ofNat 32 (size + 4) := (BitVec.ofNat_add ..).symm
  have hcases := lxbrk_cases k (BitVec.ofNat 32 (size + 4)) (by omega) (by omega)
  generalize hresult : lxbrk (BitVec.ofNat 32 (size + 4)) k = r at hcases
  have hcases' := hcases
  cases hcases with
  | limit hlimit =>
    unfold lxGrowHeap
    rw [hsum, bind_ok _ hresult, if_pos rfl]
    exact .null k.vm hcases'
  | refused hroom vm hmap =>
    unfold lxGrowHeap
    rw [hsum, bind_ok _ hresult, if_pos rfl]
    exact .null vm hcases'
  | fault _ e vm hmap =>
    unfold lxGrowHeap
    rw [hsum, bind_error _ hresult]
    exact .fault e vm hcases'
  | moved hroom vm hmap =>
    rw [htoNat] at hroom
    obtain ⟨grown⟩ := addChunk_grown h size hsize h4 (by omega)
    rw [lxGrowHeap_moved (by omega) h4 hlt hresult]
    exact .grown vm _ _ _ hcases' grown

end AwaOS
