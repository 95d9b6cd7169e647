import AwaOS.Heap.Lemmas.Malloc
import Mathlib.Data.List.Pairwise

/-!
The blocks that clients of the heap hold.
-/

namespace AwaOS

/--
A block that was allocated and not freed yet, with the size that was asked for.
-/
structure Block where
  ptr : Word
  size : Nat
  deriving DecidableEq

def Block.Apart (b c : Block) : Prop :=
  b.ptr.toNat + b.size ≤ c.ptr.toNat ∨ c.ptr.toNat + c.size ≤ b.ptr.toNat

/--
Every block is the payload of an allocated chunk of its own.
-/
structure Live (heap : HeapContext) (cs : List Chunk) (live : List Block) : Prop where
  held : ∀ b ∈ live, ∃ addr bytes, (addr, bytes) ∈ heapBlocks heap cs ∧ b.ptr = BitVec.ofNat 32 (addr + 4)
    ∧ b.size + 4 ≤ bytes
  distinct : live.Pairwise (fun b c => b.ptr ≠ c.ptr)

def HeapInv (k : Kernel) (live : List Block) : Prop :=
  ∃ cs, HeapOk k.mem k.heap cs ∧ Live k.heap cs live

/--
What an operation on the heap leaves as it is.
-/
structure Preserves (k : Kernel) (live : List Block) (k' : Kernel) (live' : List Block) : Prop where
  inv : HeapInv k' live'
  keeps : ∀ b ∈ live, b ∈ live' → ByteMem.SameOn k.mem k'.mem b.ptr.toNat (b.ptr.toNat + b.size)
  start_eq : k'.heap.start = k.heap.start

theorem blocks_apart {a x n y l : Nat} {cs : List Chunk} (hx : (x, n) ∈ blocks a cs) (hy : (y, l) ∈ blocks a cs)
    (hne : x ≠ y)
    : x + n ≤ y ∨ y + l ≤ x := by
  let apart : Nat × Nat → Nat × Nat → Prop := fun b c => b.1 + b.2 ≤ c.1 ∨ c.1 + c.2 ≤ b.1
  have : Std.Symm apart := ⟨fun _ _ h => h.symm⟩
  have hpairs : (blocks a cs).Pairwise apart := (blocks_pairwise a cs).imp Or.inl
  exact hpairs.forall hx hy (fun heq => hne (congrArg Prod.fst heq))

section Live

variable {m m' : ByteMem} {heap heap' : HeapContext} {cs cs' : List Chunk} {live : List Block}

theorem HeapOk.block_bounds (h : HeapOk m heap cs) {addr bytes : Nat}
    (hmem : (addr, bytes) ∈ heapBlocks heap cs)
    : heap.start.toNat + 4 ≤ addr ∧ addr % 4 = 0 ∧ addr + bytes ≤ heap.brk.toNat ∧ 4 ≤ bytes := by
  have hbounds := blocks_bounds hmem
  have hend := h.tiles.brk_eq
  have haligned := h.aligned
  obtain ⟨pre, post, hsplit, haddr⟩ := exists_chunk_of_mem_blocks hmem
  have htiles := h.tiles
  rw [hsplit] at htiles
  obtain ⟨a, q, hpre, hrest⟩ := tiles_append.mp htiles
  have hpre4 := hpre.aligned
  have hsize := (tiles_cons.mp hrest).1.le_size
  dsimp only at hsize
  omega

/--
The chunk of a block, without the modulus of the machine words.
-/
theorem Live.chunk (h : HeapOk m heap cs) (hlive : Live heap cs live) {b : Block} (hb : b ∈ live)
    : ∃ addr bytes, (addr, bytes) ∈ heapBlocks heap cs ∧ b.ptr.toNat = addr + 4 ∧ b.size + 4 ≤ bytes := by
  obtain ⟨addr, bytes, hmem, hptr, hsize⟩ := hlive.held b hb
  obtain ⟨hlo, h4, hhi, hbytes⟩ := h.block_bounds hmem
  have hbrk := heap.brk.isLt
  refine ⟨addr, bytes, hmem, ?_, hsize⟩
  rw [hptr, BitVec.toNat_ofNat, Nat.mod_eq_of_lt (by omega)]

theorem Live.apart (h : HeapOk m heap cs) (hlive : Live heap cs live) : live.Pairwise Block.Apart := by
  refine hlive.distinct.imp_of_mem ?_
  intro b c hb hc hne
  obtain ⟨addr, bytes, hmem, hptr, hsize⟩ := hlive.chunk h hb
  obtain ⟨addr', bytes', hmem', hptr', hsize'⟩ := hlive.chunk h hc
  have haddr : addr ≠ addr' := by
    intro heq
    apply hne
    apply BitVec.eq_of_toNat_eq
    rw [hptr, hptr', heq]
  have := blocks_apart hmem hmem' haddr
  unfold Block.Apart
  omega

theorem Live.keeps {m₁ m₂ : ByteMem} (h : HeapOk m heap cs) (hlive : Live heap cs live) {b : Block}
    (hb : b ∈ live) (hkeeps : Keeps (heapBlocks heap cs) m₁ m₂)
    : ByteMem.SameOn m₁ m₂ b.ptr.toNat (b.ptr.toNat + b.size) := by
  obtain ⟨addr, bytes, hmem, hptr, hsize⟩ := hlive.chunk h hb
  exact (hkeeps _ hmem).mono (by dsimp only; omega) (by dsimp only; omega)

/--
Chunks that stay allocated stay the chunks of their blocks.
-/
theorem Live.mono (hlive : Live heap cs live) (hsub : heapBlocks heap cs ⊆ heapBlocks heap' cs')
    : Live heap' cs' live where
  held := by
    intro b hb
    obtain ⟨addr, bytes, hmem, hptr, hsize⟩ := hlive.held b hb
    exact ⟨addr, bytes, hsub hmem, hptr, hsize⟩
  distinct := hlive.distinct

/--
A new chunk is none of the chunks that were there.
-/
theorem Placed.addr_ne {bytes : Nat} {ptr : Word} (placed : Placed m heap cs bytes ptr m' heap')
    {addr' bytes' : Nat} (hmem : (addr', bytes') ∈ heapBlocks heap cs) (hpos : 0 < bytes) (hpos' : 0 < bytes')
    : addr' ≠ placed.addr := by
  have hpairs := blocks_pairwise (heap.start.toNat + 4) placed.chunks
  have hnew := placed.new
  unfold heapBlocks at hnew
  rw [hnew, List.pairwise_append, List.pairwise_cons] at hpairs
  obtain ⟨_, ⟨hafter, _⟩, hbefore⟩ := hpairs
  rw [placed.old] at hmem
  cases List.mem_append.mp hmem with
  | inl hx =>
    have := hbefore _ hx _ List.mem_cons_self
    dsimp only at this
    omega
  | inr hy =>
    have := hafter _ hy
    dsimp only at this
    omega

/--
A new chunk makes a new block.
-/
theorem Live.cons {bytes size : Nat} {ptr : Word} (h : HeapOk m heap cs) (hlive : Live heap cs live)
    (placed : Placed m heap cs bytes ptr m' heap') (hsize : size + 4 ≤ bytes)
    : Live heap' placed.chunks (⟨ptr, size⟩ :: live) := by
  have hmem : (placed.addr, bytes) ∈ heapBlocks heap' placed.chunks := by
    rw [heapBlocks_congr placed.start_eq, placed.new]
    simp
  have hsub : heapBlocks heap cs ⊆ heapBlocks heap' placed.chunks := by
    rw [heapBlocks_congr placed.start_eq, placed.old, placed.new]
    grind
  have hold := hlive.mono hsub
  obtain ⟨hlo, h4, hhi, hbytes⟩ := placed.ok.block_bounds hmem
  have hbrk := heap'.brk.isLt
  have hptr : ptr.toNat = placed.addr + 4 := by
    have htoNat := congrArg BitVec.toNat placed.ptr_eq
    rwa [BitVec.toNat_ofNat, Nat.mod_eq_of_lt (by omega)] at htoNat
  constructor
  . intro b hb
    cases List.mem_cons.mp hb with
    | inl heq =>
      subst heq
      exact ⟨placed.addr, bytes, hmem, placed.ptr_eq, hsize⟩
    | inr hmem => exact hold.held b hmem
  . refine List.pairwise_cons.mpr ⟨?_, hold.distinct⟩
    intro b hb heq
    obtain ⟨addr', bytes', hmem', hptr', hsize'⟩ := hlive.chunk h hb
    dsimp only at heq
    rw [← heq, hptr] at hptr'
    exact placed.addr_ne hmem' (by omega) (by omega) (by omega)

theorem Live.nodup (hlive : Live heap cs live) : live.Nodup :=
  hlive.distinct.imp (fun hne heq => hne (congrArg Block.ptr heq))

theorem Live.ptr_ne (hlive : Live heap cs live) {b c : Block} (hb : b ∈ live) (hc : c ∈ live) (hne : b ≠ c)
    : b.ptr ≠ c.ptr := by
  have : Std.Symm (fun b c : Block => b.ptr ≠ c.ptr) := ⟨fun _ _ h => h.symm⟩
  exact hlive.distinct.forall hb hc hne

/--
The chunks of the other blocks stay when the chunk of a block is freed.
-/
theorem Live.erase {pre post : List Chunk} {c : Chunk} {b : Block} (hlive : Live heap (pre ++ c :: post) live)
    (hb : b ∈ live) (hptr : b.ptr = BitVec.ofNat 32 (heap.start.toNat + 4 + total pre + 4))
    (hblocks : heapBlocks heap' cs' = blocks (heap.start.toNat + 4) pre
      ++ blocks (heap.start.toNat + 4 + total pre + c.size) post)
    : Live heap' cs' (live.erase b) := by
  constructor
  . intro d hd
    obtain ⟨hne, hmem⟩ := hlive.nodup.mem_erase_iff.mp hd
    obtain ⟨addr, bytes, hchunk, hdptr, hsize⟩ := hlive.held d hmem
    refine ⟨addr, bytes, ?_, hdptr, hsize⟩
    have haddr : addr ≠ heap.start.toNat + 4 + total pre := by
      intro heq
      apply hlive.ptr_ne hmem hb hne
      rw [hdptr, hptr, heq]
    unfold heapBlocks at hchunk
    rw [blocks_append, blocks] at hchunk
    rw [hblocks]
    grind
  . exact hlive.distinct.sublist List.erase_sublist

end Live

theorem HeapInv.apart {k : Kernel} {live : List Block} (h : HeapInv k live) : live.Pairwise Block.Apart := by
  obtain ⟨cs, hok, hlive⟩ := h
  exact hlive.apart hok

theorem HeapInv.le_brk {k : Kernel} {live : List Block} (h : HeapInv k live) {b : Block} (hb : b ∈ live)
    : b.ptr.toNat + b.size ≤ k.heap.brk.toNat := by
  obtain ⟨cs, hok, hlive⟩ := h
  obtain ⟨addr, bytes, hmem, hptr, hsize⟩ := hlive.chunk hok hb
  have := hok.block_bounds hmem
  omega

/--
Clients may write to their blocks.
-/
theorem HeapInv.write {k : Kernel} {live : List Block} (h : HeapInv k live) {b : Block} (hb : b ∈ live)
    {m' : ByteMem} (hsame : ByteMem.SameOutside k.mem m' b.ptr.toNat (b.ptr.toNat + b.size))
    : HeapInv { k with mem := m' } live := by
  obtain ⟨cs, hok, hlive⟩ := h
  obtain ⟨addr, bytes, hmem, hptr, hsize⟩ := hlive.chunk hok hb
  refine ⟨cs, hok.writePayload hmem ?_, hlive⟩
  intro x hx
  exact hsame x (by omega)

/--
The blocks after a request of `size` bytes.
-/
def allot (size : Nat) (live : List Block) : EStateM.Result HeapFault Kernel Word → List Block
  | .ok ptr _ => if ptr = 0 then live else ⟨ptr, size⟩ :: live
  | .error _ _ => live

theorem allot_block (size : Nat) (live : List Block) (k : Kernel) {ptr : Word} (hne : ptr ≠ 0)
    : allot size live (.ok ptr k) = ⟨ptr, size⟩ :: live := by
  unfold allot
  dsimp only
  rw [if_neg hne]

theorem mem_allot {size : Nat} {live : List Block} {r : EStateM.Result HeapFault Kernel Word} {b : Block}
    (hb : b ∈ live)
    : b ∈ allot size live r := by
  unfold allot
  split
  . split
    . exact hb
    . exact List.mem_cons_of_mem _ hb
  . exact hb

theorem Placed.ptr_ne_zero {m m' : ByteMem} {heap heap' : HeapContext} {cs : List Chunk} {bytes : Nat}
    {ptr : Word} (placed : Placed m heap cs bytes ptr m' heap')
    : ptr ≠ 0 := by
  have hmem : (placed.addr, bytes) ∈ heapBlocks heap' placed.chunks := by
    rw [heapBlocks_congr placed.start_eq, placed.new]
    simp
  obtain ⟨hlo, h4, hhi, hbytes⟩ := placed.ok.block_bounds hmem
  have hbrk := heap'.brk.isLt
  have htoNat := congrArg BitVec.toNat placed.ptr_eq
  rw [BitVec.toNat_ofNat, Nat.mod_eq_of_lt (by omega)] at htoNat
  intro hzero
  have hnat : ptr.toNat = 0 := congrArg BitVec.toNat hzero
  omega

section Operations

variable {k : Kernel} {live : List Block}

theorem lxmalloc_preserves (h : HeapInv k live) (size : Word) (hsize : size.toNat ≤ 2 ^ 31)
    : Preserves k live (finalState (lxmalloc size k)) (allot size.toNat live (lxmalloc size k)) := by
  obtain ⟨cs, hok, hlive⟩ := h
  have hbytes : size.toNat + 4 ≤ chunkBytes size := by
    unfold chunkBytes
    omega
  have hsame : ∀ vm : Machine, Preserves k live { k with vm := vm } live := by
    intro vm
    exact {
      inv := ⟨cs, hok, hlive⟩
      keeps := fun _ _ _ _ _ _ => rfl
      start_eq := rfl
    }
  have hcases := lxmalloc_cases hok size (by omega)
  generalize lxmalloc size k = r at hcases
  cases hcases with
  | empty hzero =>
    exact hsame k.vm
  | null _ _ vm _ =>
    exact hsame vm
  | fault _ _ e vm _ => exact hsame vm
  | fit _ c _ _ _ ptr m' placed =>
    rw [allot_block _ _ _ placed.ptr_ne_zero]
    exact {
      inv := ⟨placed.chunks, placed.ok, hlive.cons hok placed hbytes⟩
      keeps := fun b hb _ => hlive.keeps hok hb placed.keeps
      start_eq := rfl
    }
  | grown _ _ vm _ ptr m' heap' _ placed =>
    rw [allot_block _ _ _ placed.ptr_ne_zero]
    exact {
      inv := ⟨placed.chunks, placed.ok, hlive.cons hok placed hbytes⟩
      keeps := fun b hb _ => hlive.keeps hok hb placed.keeps
      start_eq := placed.start_eq
    }

theorem lxcalloc_preserves (h : HeapInv k live) (n elem : Word) (hsize : (n * elem).toNat ≤ 2 ^ 31)
    : Preserves k live (finalState (lxcalloc n elem k)) (allot (n * elem).toNat live (lxcalloc n elem k)) := by
  have hsame : Preserves k live k live := {
    inv := h
    keeps := fun _ _ _ _ _ _ => rfl
    start_eq := rfl
  }
  have hmalloc := lxmalloc_preserves h (n * elem) hsize
  unfold lxcalloc
  split
  . exact hsame
  . cases hresult : lxmalloc (n * elem) k with
    | error e k' =>
      rw [hresult] at hmalloc
      rw [bind_error _ hresult]
      exact hmalloc
    | ok ptr k' =>
      rw [hresult] at hmalloc
      rw [bind_ok _ hresult]
      by_cases hzero : ptr = 0
      . rw [hzero] at hmalloc
        rw [if_pos hzero]
        exact hmalloc
      . rw [if_neg hzero, bind_get, setMem, bind_modify]
        rw [allot_block _ _ _ hzero] at hmalloc
        have hinv : HeapInv k' (⟨ptr, (n * elem).toNat⟩ :: live) := hmalloc.inv
        have hcleared : ByteMem.SameOutside k'.mem (memset k'.mem ptr 0 (n * elem).toNat) ptr.toNat
            (ptr.toNat + (n * elem).toNat) := by
          have hend := hinv.le_brk List.mem_cons_self
          have hbrk := k'.heap.brk.isLt
          dsimp only at hend
          have hset := memset_of_outside k'.mem ptr.toNat (n * elem).toNat 0 (by omega)
          rw [ofNat_toNat_word] at hset
          exact hset
        change Preserves k live { k' with mem := memset k'.mem ptr 0 (n * elem).toNat }
          (allot (n * elem).toNat live (.ok ptr { k' with mem := memset k'.mem ptr 0 (n * elem).toNat }))
        rw [allot_block _ _ _ hzero]
        exact {
          inv := hinv.write List.mem_cons_self hcleared
          keeps := by
            intro b hb _ x hlo hhi
            have hapart := (List.pairwise_cons.mp hinv.apart).1 b hb
            unfold Block.Apart at hapart
            rw [← hmalloc.keeps b hb (List.mem_cons_of_mem _ hb) x hlo hhi]
            exact hcleared x (by dsimp only at hapart; omega)
          start_eq := hmalloc.start_eq
        }

theorem lxfree_eq {ptr : Word} (hne : ptr ≠ 0) (k : Kernel)
    : lxfree ptr k = .ok () { k with mem := freeChunk k.mem ptr } := by
  unfold lxfree
  rw [if_neg hne]
  rfl

/--
A chunk that is freed is no block any more, and the payloads of the other blocks stay as they are.
-/
theorem freeChunk_heapOk {m : ByteMem} {heap : HeapContext} {pre post : List Chunk} {c : Chunk}
    (h : HeapOk m heap (pre ++ c :: post))
    : ∃ cs, HeapOk (freeChunk m (BitVec.ofNat 32 (heap.start.toNat + 4 + total pre + 4))) heap cs
        ∧ heapBlocks heap cs
            = blocks (heap.start.toNat + 4) pre ++ blocks (heap.start.toNat + 4 + total pre + c.size) post
        ∧ Keeps (heapBlocks heap cs) m
          (freeChunk m (BitVec.ofNat 32 (heap.start.toNat + 4 + total pre + 4))) := by
  have haligned := h.aligned
  obtain ⟨cs, htiles, hblocks, hkeeps, hbelow⟩ := freeChunk_tiles (by omega) heap.brk.isLt h.tiles
  rw [← hblocks] at hkeeps
  refine ⟨cs, ⟨h.aligned, ?_, htiles⟩, hblocks, hkeeps⟩
  rw [← h.prologue]
  exact ByteMem.read32_congr _ (hbelow.mono (Nat.zero_le _) (Nat.le_refl _))

theorem lxfree_preserves (h : HeapInv k live) {b : Block} (hb : b ∈ live)
    : Preserves k live (finalState (lxfree b.ptr k)) (live.erase b) := by
  obtain ⟨cs, hok, hlive⟩ := h
  have hne : b.ptr ≠ 0 := by
    intro hzero
    obtain ⟨addr, bytes, hmem, hptr, hsize⟩ := hlive.chunk hok hb
    rw [hzero] at hptr
    have hnat : 0 = addr + 4 := hptr
    omega
  obtain ⟨addr, bytes, hmem, hptr, hsize⟩ := hlive.held b hb
  obtain ⟨pre, post, rfl, rfl⟩ := exists_chunk_of_mem_blocks hmem
  obtain ⟨cs, hok', hblocks, hkeeps⟩ := freeChunk_heapOk hok
  rw [← hptr] at hok' hkeeps
  rw [lxfree_eq hne]
  have hlive' : Live k.heap cs (live.erase b) := hlive.erase hb hptr hblocks
  exact {
    inv := ⟨cs, hok', hlive'⟩
    keeps := fun c _ hc => hlive'.keeps hok' hc hkeeps
    start_eq := rfl
  }

/--
What holds after `lxmalloc` and does not depend on the memory holds after `lxcalloc`.
-/
theorem lxcalloc_final {P : Kernel → Prop} {n elem : Word} (h : P k)
    (hmalloc : P (finalState (lxmalloc (n * elem) k))) (hmem : ∀ k m', P k → P { k with mem := m' })
    : P (finalState (lxcalloc n elem k)) := by
  unfold lxcalloc
  split
  . exact h
  . cases hresult : lxmalloc (n * elem) k with
    | error e k' =>
      rw [hresult] at hmalloc
      rw [bind_error _ hresult]
      exact hmalloc
    | ok ptr k' =>
      rw [hresult] at hmalloc
      rw [bind_ok _ hresult]
      by_cases hzero : ptr = 0
      . rw [if_pos hzero]
        exact hmalloc
      . rw [if_neg hzero]
        exact hmem k' _ hmalloc

theorem lxfree_final {P : Kernel → Prop} (h : P k) (hmem : ∀ k m', P k → P { k with mem := m' }) (ptr : Word)
    : P (finalState (lxfree ptr k)) := by
  by_cases hzero : ptr = 0
  . rw [hzero]
    exact h
  . rw [lxfree_eq hzero]
    exact hmem k _ h

end Operations

end AwaOS
