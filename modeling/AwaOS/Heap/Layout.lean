import AwaOS.Heap.Impl
import AwaOS.Lib.Align
import Mathlib.Algebra.GroupWithZero.Nat

/-!
The layout of the heap: a list of chunks that tile the memory up to the epilogue.
-/

namespace AwaOS

section Header

def flags (allocated prevFree : Bool) : Word :=
  (if prevFree then mPrevFree else mPrevAllocated) ||| (if allocated then mAllocated else mNotAllocated)

/--
A header or footer word.
-/
def header (size : Nat) (allocated prevFree : Bool) : Word :=
  pack (BitVec.ofNat 32 size) (flags allocated prevFree)

variable (size : Nat) (allocated prevFree : Bool)

theorem and_sizeMask_and (s f mask : Word)
    : ((s &&& ~~~0x3#32) ||| f) &&& mask = (s &&& (~~~0x3#32 &&& mask)) ||| (f &&& mask) := by
  rw [BitVec.and_or_distrib_right, BitVec.and_assoc]

theorem chunkPF_header : chunkPF (header size allocated prevFree) = if prevFree then mPrevFree else 0 := by
  have hmask : ~~~0x3#32 &&& mPrevFree = 0#32 := by decide
  have hflags : flags allocated prevFree &&& mPrevFree = if prevFree then mPrevFree else 0 := by
    revert allocated prevFree
    decide
  unfold header chunkPF pack
  rw [and_sizeMask_and, hmask, hflags, BitVec.and_zero, BitVec.zero_or]

theorem chunkA_header : chunkA (header size allocated prevFree) = if allocated then mAllocated else 0 := by
  have hmask : ~~~0x3#32 &&& mAllocated = 0#32 := by decide
  have hflags : flags allocated prevFree &&& mAllocated = if allocated then mAllocated else 0 := by
    revert allocated prevFree
    decide
  unfold header chunkA pack
  rw [and_sizeMask_and, hmask, hflags, BitVec.and_zero, BitVec.zero_or]

theorem chunkS_header (hlt : size < 2 ^ 32) (h4 : size % 4 = 0)
    : chunkS (header size allocated prevFree) = BitVec.ofNat 32 size := by
  have hmask : ~~~0x3#32 &&& ~~~0x3#32 = Align.highMask 32 2 := by decide
  have hflags : flags allocated prevFree &&& ~~~0x3#32 = 0#32 := by
    revert allocated prevFree
    decide
  unfold header chunkS pack
  rw [and_sizeMask_and, hmask, hflags, BitVec.or_zero]
  exact Align.ofNat_and_highMask size 2 hlt h4

theorem header_free : header size allocated prevFree &&& ~~~mAllocated = header size false prevFree := by
  have hmask : ~~~0x3#32 &&& ~~~mAllocated = ~~~0x3#32 := by decide
  have hflags : flags allocated prevFree &&& ~~~mAllocated = flags false prevFree := by
    revert allocated prevFree
    decide
  unfold header pack
  rw [and_sizeMask_and, hmask, hflags]

theorem header_setPrevFree : header size allocated prevFree ||| mPrevFree = header size allocated true := by
  have hflags : flags allocated prevFree ||| mPrevFree = flags allocated true := by
    revert allocated prevFree
    decide
  unfold header pack
  rw [BitVec.or_assoc, hflags]

theorem header_clearPrevFree : header size allocated prevFree &&& ~~~0x2#32 = header size allocated false := by
  have hmask : ~~~0x3#32 &&& ~~~0x2#32 = ~~~0x3#32 := by decide
  have hflags : flags allocated prevFree &&& ~~~0x2#32 = flags allocated false := by
    revert allocated prevFree
    decide
  unfold header pack
  rw [and_sizeMask_and, hmask, hflags]

end Header

structure Chunk where
  size : Nat
  allocated : Bool
  deriving DecidableEq

/--
The bytes of a list of chunks.
-/
def total : List Chunk → Nat
  | [] => 0
  | c :: cs => c.size + total cs

/--
There is a chunk at `a`. A free chunk has a footer, and the chunk before it is not free.
-/
structure ChunkAt (m : ByteMem) (a : Nat) (prevFree : Bool) (c : Chunk) : Prop where
  pos : 0 < c.size
  aligned : c.size % 4 = 0
  word : m.read32 a = header c.size c.allocated prevFree
  footer : c.allocated = false → m.read32 (a + c.size - 4) = header c.size false false
  separate : c.allocated = false → prevFree = false

/--
The chunks tile the memory from `a` to `b`. `prevFree` tells whether the chunk before `a` is free,
`prevFree'` whether the one before `b` is.
-/
def Seg (m : ByteMem) (a : Nat) (prevFree : Bool) : List Chunk → Nat → Bool → Prop
  | [], b, prevFree' => a = b ∧ prevFree = prevFree'
  | c :: cs, b, prevFree' => ChunkAt m a prevFree c ∧ Seg m (a + c.size) (!c.allocated) cs b prevFree'

/--
The chunks tile the memory from `a` up to the epilogue at `brk`.
-/
def Tiles (m : ByteMem) (a : Nat) (prevFree : Bool) (cs : List Chunk) (brk : Nat) : Prop :=
  ∃ prevFree', Seg m a prevFree cs brk prevFree' ∧ m.read32 brk = header 0 true prevFree'

/--
The header at the start of a list of chunks, that of the epilogue if it is empty.
-/
def headWord (cs : List Chunk) (prevFree : Bool) : Word :=
  match cs with
  | [] => header 0 true prevFree
  | c :: _ => header c.size c.allocated prevFree

/--
The first chunk is allocated. The epilogue counts as such.
-/
def HeadAllocated : List Chunk → Prop
  | [] => True
  | c :: _ => c.allocated = true

theorem HeadAllocated.headWord {cs : List Chunk} (h : HeadAllocated cs) (prevFree : Bool)
    : ∃ size, headWord cs prevFree = header size true prevFree := by
  cases cs with
  | nil => exact ⟨0, rfl⟩
  | cons c cs =>
    have hc : c.allocated = true := h
    refine ⟨c.size, ?_⟩
    rw [← hc]
    rfl

theorem headWord_clearPrevFree (cs : List Chunk) (prevFree : Bool)
    : headWord cs prevFree &&& ~~~0x2#32 = headWord cs false := by
  cases cs with
  | nil => exact header_clearPrevFree 0 true prevFree
  | cons c cs => exact header_clearPrevFree c.size c.allocated prevFree

theorem headWord_setPrevFree (cs : List Chunk) (prevFree : Bool)
    : headWord cs prevFree ||| mPrevFree = headWord cs true := by
  cases cs with
  | nil => exact header_setPrevFree 0 true prevFree
  | cons c cs => exact header_setPrevFree c.size c.allocated prevFree

theorem total_append (xs ys : List Chunk) : total (xs ++ ys) = total xs + total ys := by
  induction xs with
  | nil => simp [total]
  | cons c cs ih =>
    simp only [List.cons_append, total, ih]
    omega

section Seg

variable {m m' : ByteMem} {a b : Nat} {prevFree prevFree' : Bool} {cs : List Chunk}

theorem ChunkAt.le_size {c : Chunk} (h : ChunkAt m a prevFree c) : 4 ≤ c.size := by
  have := h.pos
  have := h.aligned
  omega

theorem ChunkAt.frame {c : Chunk} (h : ChunkAt m a prevFree c) (hsame : ByteMem.SameOn m m' a (a + c.size))
    : ChunkAt m' a prevFree c := by
  have hsize := h.le_size
  constructor
  . exact h.pos
  . exact h.aligned
  . rw [← h.word]
    exact ByteMem.read32_congr a (hsame.mono (Nat.le_refl _) (by omega))
  . intro hfree
    rw [← h.footer hfree]
    exact ByteMem.read32_congr _ (hsame.mono (by omega) (by omega))
  . exact h.separate

theorem Seg.eq_total (h : Seg m a prevFree cs b prevFree') : b = a + total cs := by
  induction cs generalizing a prevFree with
  | nil =>
    simp only [total, Nat.add_zero]
    exact h.1.symm
  | cons c cs ih =>
    rw [ih h.2, total]
    omega

theorem Seg.aligned (h : Seg m a prevFree cs b prevFree') : total cs % 4 = 0 := by
  induction cs generalizing a prevFree with
  | nil => rfl
  | cons c cs ih =>
    have := ih h.2
    have := h.1.aligned
    simp only [total]
    omega

theorem Seg.frame (h : Seg m a prevFree cs b prevFree') (hsame : ByteMem.SameOn m m' a b)
    : Seg m' a prevFree cs b prevFree' := by
  induction cs generalizing a prevFree with
  | nil => exact h
  | cons c cs ih =>
    have hb := h.2.eq_total
    exact ⟨h.1.frame (hsame.mono (Nat.le_refl _) (by omega)), ih h.2 (hsame.mono (by omega) (Nat.le_refl _))⟩

theorem seg_append {xs ys : List Chunk}
    : Seg m a prevFree (xs ++ ys) b prevFree'
        ↔
      ∃ c q, Seg m a prevFree xs c q ∧ Seg m c q ys b prevFree' := by
  induction xs generalizing a prevFree with
  | nil =>
    constructor
    . intro h
      exact ⟨a, prevFree, ⟨rfl, rfl⟩, h⟩
    . rintro ⟨c, q, ⟨rfl, rfl⟩, h⟩
      exact h
  | cons x xs ih =>
    simp only [List.cons_append, Seg, ih]
    constructor
    . rintro ⟨hx, c, q, hxs, hys⟩
      exact ⟨c, q, ⟨hx, hxs⟩, hys⟩
    . rintro ⟨c, q, ⟨hx, hxs⟩, hys⟩
      exact ⟨hx, c, q, hxs, hys⟩

/--
If the last chunk of a segment is free, then it has a footer, and the chunk before it is not free.
-/
theorem Seg.last_free (h : Seg m a false cs b true)
    : ∃ cs' c, cs = cs' ++ [c] ∧ c.allocated = false ∧ c.size ≤ b ∧ Seg m a false cs' (b - c.size) false
        ∧ ChunkAt m (b - c.size) false c := by
  cases List.eq_nil_or_concat cs with
  | inl hnil =>
    subst hnil
    exact absurd h.2 (by decide)
  | inr hconcat =>
    obtain ⟨cs', c, hcs⟩ := hconcat
    rw [List.concat_eq_append] at hcs
    subst hcs
    rw [seg_append] at h
    obtain ⟨x, q, hcs', hc, hx, hfree⟩ := h
    have hfree : c.allocated = false := by simpa using hfree
    have hq := hc.separate hfree
    have hbx : b - c.size = x := by omega
    subst hq
    rw [← hbx] at hcs' hc
    exact ⟨cs', c, rfl, hfree, by omega, hcs', hc⟩

theorem Tiles.brk_eq (h : Tiles m a prevFree cs b) : b = a + total cs := by
  obtain ⟨_, hseg, _⟩ := h
  exact hseg.eq_total

theorem Tiles.aligned (h : Tiles m a prevFree cs b) : total cs % 4 = 0 := by
  obtain ⟨_, hseg, _⟩ := h
  exact hseg.aligned

theorem Tiles.frame (h : Tiles m a prevFree cs b) (hsame : ByteMem.SameOn m m' a (b + 4))
    : Tiles m' a prevFree cs b := by
  have hb := h.brk_eq
  obtain ⟨q, hseg, hword⟩ := h
  refine ⟨q, hseg.frame (hsame.mono (Nat.le_refl _) (by omega)), ?_⟩
  rw [← hword]
  exact ByteMem.read32_congr b (hsame.mono (by omega) (Nat.le_refl _))

theorem tiles_append {xs ys : List Chunk}
    : Tiles m a prevFree (xs ++ ys) b ↔ ∃ c q, Seg m a prevFree xs c q ∧ Tiles m c q ys b := by
  unfold Tiles
  constructor
  . rintro ⟨q', hseg, hword⟩
    rw [seg_append] at hseg
    obtain ⟨c, q, hxs, hys⟩ := hseg
    exact ⟨c, q, hxs, q', hys, hword⟩
  . rintro ⟨c, q, hxs, q', hys, hword⟩
    exact ⟨q', seg_append.mpr ⟨c, q, hxs, hys⟩, hword⟩

theorem tiles_cons {c : Chunk}
    : Tiles m a prevFree (c :: cs) b ↔ ChunkAt m a prevFree c ∧ Tiles m (a + c.size) (!c.allocated) cs b := by
  unfold Tiles
  constructor
  . rintro ⟨q, ⟨hc, hcs⟩, hword⟩
    exact ⟨hc, q, hcs, hword⟩
  . rintro ⟨hc, q, hcs, hword⟩
    exact ⟨q, ⟨hc, hcs⟩, hword⟩

theorem Tiles.headWord (h : Tiles m a prevFree cs b) : m.read32 a = headWord cs prevFree := by
  cases cs with
  | nil =>
    obtain ⟨q, ⟨rfl, rfl⟩, hword⟩ := h
    exact hword
  | cons c cs => exact (tiles_cons.mp h).1.word

theorem Tiles.headAllocated (h : Tiles m a true cs b) : HeadAllocated cs := by
  cases cs with
  | nil => trivial
  | cons c cs =>
    have hc := (tiles_cons.mp h).1
    cases hfree : c.allocated with
    | true => exact hfree
    | false => exact absurd (hc.separate hfree) (by decide)

/--
Only the header at the start of a tiling tells whether the chunk before it is free.
-/
theorem Tiles.setPrev (h : Tiles m a prevFree cs b) (hhead : HeadAllocated cs)
    (hsame : ByteMem.SameOn m m' (a + 4) (b + 4)) (hword : m'.read32 a = AwaOS.headWord cs prevFree')
    : Tiles m' a prevFree' cs b := by
  cases cs with
  | nil =>
    obtain ⟨q, ⟨rfl, rfl⟩, _⟩ := h
    exact ⟨prevFree', ⟨rfl, rfl⟩, hword⟩
  | cons c cs =>
    obtain ⟨hc, hcs⟩ := tiles_cons.mp h
    have hsize := hc.le_size
    have hallocated : c.allocated = true := hhead
    refine tiles_cons.mpr ⟨?_, hcs.frame (hsame.mono (by omega) (Nat.le_refl _))⟩
    constructor
    . exact hc.pos
    . exact hc.aligned
    . exact hword
    . intro hfree
      rw [hallocated] at hfree
      contradiction
    . intro hfree
      rw [hallocated] at hfree
      contradiction

end Seg

theorem chunkAt_allocated {m : ByteMem} {a size : Nat} {prevFree : Bool} (hpos : 0 < size) (h4 : size % 4 = 0)
    (hword : m.read32 a = header size true prevFree)
    : ChunkAt m a prevFree ⟨size, true⟩ where
  pos := hpos
  aligned := h4
  word := hword
  footer := by simp
  separate := by simp

/--
The addresses and sizes of the allocated chunks.
-/
def blocks (a : Nat) : List Chunk → List (Nat × Nat)
  | [] => []
  | c :: cs =>
    if c.allocated then
      (a, c.size) :: blocks (a + c.size) cs
    else
      blocks (a + c.size) cs

section Blocks

variable {m m' : ByteMem} {a b : Nat} {prevFree prevFree' : Bool} {cs : List Chunk}

theorem blocks_append (a : Nat) (xs ys : List Chunk)
    : blocks a (xs ++ ys) = blocks a xs ++ blocks (a + total xs) ys := by
  induction xs generalizing a with
  | nil => rfl
  | cons x xs ih =>
    simp only [List.cons_append, blocks, total, ih, Nat.add_assoc]
    split
    . rfl
    . rfl

theorem blocks_free (a : Nat) (cs : List Chunk) (hfree : ∀ c ∈ cs, c.allocated = false) : blocks a cs = [] := by
  induction cs generalizing a with
  | nil => rfl
  | cons c cs ih =>
    simp only [blocks, hfree c List.mem_cons_self, Bool.false_eq_true, ↓reduceIte]
    exact ih _ (fun d hd => hfree d (List.mem_cons_of_mem c hd))

/--
An allocated chunk splits the heap.
-/
theorem exists_chunk_of_mem_blocks {x size : Nat} (h : (x, size) ∈ blocks a cs)
    : ∃ pre post, cs = pre ++ ⟨size, true⟩ :: post ∧ x = a + total pre := by
  induction cs generalizing a with
  | nil => contradiction
  | cons c cs ih =>
    cases hc : c.allocated with
    | false =>
      simp only [blocks, hc, Bool.false_eq_true, ↓reduceIte] at h
      obtain ⟨pre, post, rfl, rfl⟩ := ih h
      refine ⟨c :: pre, post, rfl, ?_⟩
      rw [total, Nat.add_assoc]
    | true =>
      simp only [blocks, hc, ↓reduceIte, List.mem_cons, Prod.mk.injEq] at h
      cases h with
      | inl heq =>
        obtain ⟨rfl, rfl⟩ := heq
        refine ⟨[], cs, ?_, rfl⟩
        rw [List.nil_append, ← hc]
      | inr hmem =>
        obtain ⟨pre, post, rfl, rfl⟩ := ih hmem
        refine ⟨c :: pre, post, rfl, ?_⟩
        rw [total, Nat.add_assoc]

theorem blocks_bounds {x size : Nat} (h : (x, size) ∈ blocks a cs) : a ≤ x ∧ x + size ≤ a + total cs := by
  obtain ⟨pre, post, rfl, rfl⟩ := exists_chunk_of_mem_blocks h
  simp only [total_append, total]
  omega

theorem free_add_blocks_le {c : Chunk} (hc : c ∈ cs) (hfree : c.allocated = false) (a : Nat)
    : c.size + ((blocks a cs).map Prod.snd).sum ≤ total cs := by
  have hle : ∀ (a : Nat) (ds : List Chunk), ((blocks a ds).map Prod.snd).sum ≤ total ds := by
    intro a ds
    induction ds generalizing a with
    | nil => exact Nat.le_refl _
    | cons d ds ih =>
      have := ih (a + d.size)
      simp only [blocks, total]
      split
      . simp only [List.map_cons, List.sum_cons]
        omega
      . omega
  induction cs generalizing a with
  | nil => contradiction
  | cons d cs ih =>
    cases List.mem_cons.mp hc with
    | inl heq =>
      subst heq
      have := hle (a + c.size) cs
      simp only [blocks, total, hfree, Bool.false_eq_true, ↓reduceIte]
      omega
    | inr hmem =>
      have := ih hmem (a + d.size)
      simp only [blocks, total]
      split
      . simp only [List.map_cons, List.sum_cons]
        omega
      . omega

/--
The allocated chunks come one after the other.
-/
theorem blocks_pairwise (a : Nat) (cs : List Chunk)
    : (blocks a cs).Pairwise (fun b b' => b.1 + b.2 ≤ b'.1) := by
  induction cs generalizing a with
  | nil => exact List.Pairwise.nil
  | cons c cs ih =>
    unfold blocks
    split
    . refine List.pairwise_cons.mpr ⟨?_, ih _⟩
      intro b hb
      exact (blocks_bounds hb).1
    . exact ih _

/--
The payloads of these chunks hold the same bytes in both memories.
-/
def Keeps (bs : List (Nat × Nat)) (m m' : ByteMem) : Prop :=
  ∀ b ∈ bs, ByteMem.SameOn m m' (b.1 + 4) (b.1 + b.2)

theorem Keeps.trans {bs : List (Nat × Nat)} {m'' : ByteMem} (h : Keeps bs m m') (h' : Keeps bs m' m'')
    : Keeps bs m m'' :=
  fun b hb x hlo hhi => (h' b hb x hlo hhi).trans (h b hb x hlo hhi)

/--
Writing between two parts of the heap, and to the header after them, keeps the payloads of both parts.
-/
theorem keeps_of_sameOutside {lo hi : Nat} {xs ys : List (Nat × Nat)}
    (hsame : ByteMem.SameOutside m m' lo (hi + 4)) (hxs : ∀ b ∈ xs, b.1 + b.2 ≤ lo) (hys : ∀ b ∈ ys, hi ≤ b.1)
    : Keeps (xs ++ ys) m m' := by
  intro b hb x hlo hhi
  apply hsame
  cases List.mem_append.mp hb with
  | inl hx =>
    have := hxs b hx
    omega
  | inr hy =>
    have := hys b hy
    omega

end Blocks

end AwaOS
