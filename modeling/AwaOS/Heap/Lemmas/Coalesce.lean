import AwaOS.Heap.Layout

/-!
What `coalesce`, `place_chunk` and `lxfree` do to a layout.
-/

namespace AwaOS

section Address

variable {m : ByteMem} {a b : Nat}

theorem ofNat_sub_ofNat (h : b ≤ a) : BitVec.ofNat 32 a - BitVec.ofNat 32 b = BitVec.ofNat 32 (a - b) := by
  have hsum : BitVec.ofNat 32 a = BitVec.ofNat 32 (a - b) + BitVec.ofNat 32 b := by
    rw [← BitVec.ofNat_add, Nat.sub_add_cancel h]
  rw [hsum, BitVec.add_sub_cancel]

theorem ofNat_toNat_word (w : Word) : BitVec.ofNat 32 w.toNat = w := by
  rw [BitVec.ofNat_toNat, BitVec.setWidth_eq]

theorem lw_ofNat (ha : a < 2 ^ 32) : lw m (BitVec.ofNat 32 a) = m.read32 a := by
  unfold lw
  rw [BitVec.toNat_ofNat, Nat.mod_eq_of_lt ha]

theorem sw_ofNat (ha : a < 2 ^ 32) (w : Word) : sw m (BitVec.ofNat 32 a) w = m.write32 a w := by
  unfold sw
  rw [BitVec.toNat_ofNat, Nat.mod_eq_of_lt ha]

theorem sub_wsize (h : 4 ≤ a) : BitVec.ofNat 32 a - wsize = BitVec.ofNat 32 (a - 4) :=
  ofNat_sub_ofNat h

theorem fptr_ofNat (hb : 4 ≤ b)
    : fptr (BitVec.ofNat 32 a) (BitVec.ofNat 32 b) = BitVec.ofNat 32 (a + b - 4) := by
  unfold fptr
  rw [← BitVec.ofNat_add, sub_wsize (by omega)]

end Address

/--
`m'` comes from `m` by writing a header and a footer for a free chunk.
-/
def writeFree (m : ByteMem) (a size : Nat) : ByteMem :=
  (m.write32 a (header size false false)).write32 (a + size - 4) (header size false false)

section WriteFree

variable {m : ByteMem} {a size : Nat}

theorem writeFree_sameOutside (hsize : 4 ≤ size) : ByteMem.SameOutside m (writeFree m a size) a (a + size) :=
  (ByteMem.sameOutside_write32 m _ (Nat.le_refl a) (by omega)).trans
    (ByteMem.sameOutside_write32 _ _ (by omega) (by omega))

theorem chunkAt_writeFree (ha : a % 4 = 0) (hpos : 0 < size) (hsize : size % 4 = 0)
    : ChunkAt (writeFree m a size) a false ⟨size, false⟩ where
  pos := hpos
  aligned := hsize
  word := by
    unfold writeFree
    by_cases heq : a = a + size - 4
    . rw [← heq, ByteMem.read32_write32_self]
    . rw [ByteMem.read32_write32_of_ne _ (by omega) ha heq, ByteMem.read32_write32_self]
  footer := fun _ => ByteMem.read32_write32_self _ _
  separate := fun _ => rfl

end WriteFree

section Coalesce

variable {m : ByteMem} {a size nextSize prevSize : Nat} {nextPrevFree : Bool}

theorem chunkA_ne_zero : chunkA (header nextSize true nextPrevFree) ≠ 0 := by
  rw [chunkA_header]
  decide

theorem chunkA_eq_zero : chunkA (header nextSize false nextPrevFree) = 0 := by
  rw [chunkA_header]
  rfl

theorem chunkPF_ne_zero {allocated : Bool} : chunkPF (header size allocated true) ≠ 0 := by
  rw [chunkPF_header]
  decide

theorem chunkPF_eq_zero {allocated : Bool} : chunkPF (header size allocated false) = 0 := by
  rw [chunkPF_header]
  rfl

theorem pack_free (n : Nat) : pack (BitVec.ofNat 32 n) 0 = header n false false := by
  rfl

/--
Case 4
-/
theorem coalesce_none (ha : a + size < 2 ^ 32) (h4 : size % 4 = 0)
    (hword : m.read32 a = header size false false)
    (hnext : m.read32 (a + size) = header nextSize true nextPrevFree)
    : coalesce m (BitVec.ofNat 32 a) = (BitVec.ofNat 32 a, m) := by
  unfold coalesce
  dsimp only
  rw [lw_ofNat (by omega), hword, chunkS_header size _ _ (by omega) h4, ← BitVec.ofNat_add, lw_ofNat ha, hnext]
  rw [if_neg (fun hand => hand.2 chunkPF_eq_zero), if_neg (fun hand => chunkA_ne_zero hand.1),
    if_neg (fun hand => chunkA_ne_zero hand.1)]

/--
Case 2
-/
theorem coalesce_next (ha : a + size + nextSize < 2 ^ 32) (h4 : size % 4 = 0) (hnext4 : nextSize % 4 = 0)
    (hpos : 0 < size) (hword : m.read32 a = header size false false)
    (hnext : m.read32 (a + size) = header nextSize false nextPrevFree)
    : coalesce m (BitVec.ofNat 32 a) = (BitVec.ofNat 32 a, writeFree m a (size + nextSize)) := by
  unfold coalesce writeFree
  dsimp only
  rw [lw_ofNat (by omega), hword, chunkS_header size _ _ (by omega) h4, ← BitVec.ofNat_add, lw_ofNat (by omega),
    hnext, chunkS_header nextSize _ _ (by omega) hnext4]
  rw [if_neg (fun hand => hand.1 chunkA_eq_zero), if_pos ⟨chunkA_eq_zero, chunkPF_eq_zero⟩, chunkPF_eq_zero,
    ← BitVec.ofNat_add, ← BitVec.ofNat_add, fptr_ofNat (by omega), sw_ofNat (by omega), sw_ofNat (by omega),
    pack_free, Nat.add_comm nextSize]

/--
Case 1
-/
theorem coalesce_prev (ha : a + size < 2 ^ 32) (h4 : size % 4 = 0) (hprev4 : prevSize % 4 = 0)
    (hpos : 0 < size) (hprev : 0 < prevSize) (hle : prevSize ≤ a)
    (hword : m.read32 a = header size false true) (hfooter : m.read32 (a - 4) = header prevSize false false)
    (hnext : m.read32 (a + size) = header nextSize true nextPrevFree)
    : coalesce m (BitVec.ofNat 32 a)
        =
      (BitVec.ofNat 32 (a - prevSize), writeFree m (a - prevSize) (prevSize + size)) := by
  have hend : a - prevSize + (prevSize + size) - 4 = a + size - 4 := by omega
  unfold coalesce writeFree
  dsimp only
  rw [lw_ofNat (by omega), hword, chunkS_header size _ _ (by omega) h4, ← BitVec.ofNat_add, lw_ofNat (by omega),
    hnext, sub_wsize (by omega), lw_ofNat (by omega), hfooter, chunkS_header prevSize _ _ (by omega) hprev4]
  rw [if_pos ⟨chunkA_ne_zero, chunkPF_ne_zero⟩, chunkPF_eq_zero, ← BitVec.ofNat_add, ofNat_sub_ofNat hle,
    fptr_ofNat (by omega), sw_ofNat (by omega), sw_ofNat (by omega), pack_free, hend]

/--
Case 3
-/
theorem coalesce_both (ha : a + size + nextSize < 2 ^ 32) (h4 : size % 4 = 0) (hprev4 : prevSize % 4 = 0)
    (hnext4 : nextSize % 4 = 0) (hpos : 0 < size) (hprev : 0 < prevSize) (hle : prevSize ≤ a)
    (hword : m.read32 a = header size false true) (hfooter : m.read32 (a - 4) = header prevSize false false)
    (hnext : m.read32 (a + size) = header nextSize false nextPrevFree)
    : coalesce m (BitVec.ofNat 32 a)
        =
      (BitVec.ofNat 32 (a - prevSize), writeFree m (a - prevSize) (prevSize + size + nextSize)) := by
  have hend : a - prevSize + (prevSize + size + nextSize) - 4 = a + (size + nextSize) - 4 := by omega
  have hsum : nextSize + prevSize + size = prevSize + size + nextSize := by omega
  unfold coalesce writeFree
  dsimp only
  rw [lw_ofNat (by omega), hword, chunkS_header size _ _ (by omega) h4, ← BitVec.ofNat_add, lw_ofNat (by omega),
    hnext, sub_wsize (by omega), lw_ofNat (by omega), hfooter, chunkS_header prevSize _ _ (by omega) hprev4,
    chunkS_header nextSize _ _ (by omega) hnext4]
  rw [if_neg (fun hand => hand.1 chunkA_eq_zero), if_neg (fun hand => chunkPF_ne_zero hand.2),
    if_pos ⟨chunkA_eq_zero, chunkPF_ne_zero⟩, chunkPF_eq_zero, ← BitVec.ofNat_add, ← BitVec.ofNat_add,
    ← BitVec.ofNat_add, ofNat_sub_ofNat hle, fptr_ofNat (by omega), sw_ofNat (by omega), sw_ofNat (by omega),
    pack_free, hend, hsum]

end Coalesce

/--
What comes after a chunk that was just marked as free: an allocated chunk or the epilogue, or a free chunk
that is to be merged. In both cases the header already says that the chunk before it is free.
-/
inductive Follows (m : ByteMem) (a : Nat) (brk : Nat) : List Chunk → Prop
  | allocated {cs : List Chunk} (htiles : Tiles m a true cs brk) : Follows m a brk cs
  | free {size : Nat} {cs : List Chunk} (hpos : 0 < size) (h4 : size % 4 = 0)
      (hword : m.read32 a = header size false true) (htiles : Tiles m (a + size) true cs brk)
      : Follows m a brk (⟨size, false⟩ :: cs)

/--
A free chunk between two parts of the heap.
-/
theorem tiles_free {m : ByteMem} {s a size brk : Nat} {pre post : List Chunk} (hpre : Seg m s false pre a false)
    (hchunk : ChunkAt m a false ⟨size, false⟩) (hpost : Tiles m (a + size) true post brk)
    : Tiles m s false (pre ++ ⟨size, false⟩ :: post) brk :=
  tiles_append.mpr ⟨a, false, hpre, tiles_cons.mpr ⟨hchunk, hpost⟩⟩

theorem tiles_writeFree {m : ByteMem} {s a size brk : Nat} {pre post : List Chunk} (ha : a % 4 = 0)
    (hpos : 0 < size) (h4 : size % 4 = 0) (hpre : Seg m s false pre a false)
    (hpost : Tiles m (a + size) true post brk)
    : Tiles (writeFree m a size) s false (pre ++ ⟨size, false⟩ :: post) brk := by
  have hsame : ByteMem.SameOutside m (writeFree m a size) a (a + size) := writeFree_sameOutside (by omega)
  exact tiles_free (hpre.frame (hsame.below s)) (chunkAt_writeFree ha hpos h4) (hpost.frame (hsame.above _))

/--
`coalesce` merges the chunk with the free chunks next to it, and writes to no other part of the heap.
-/
structure Merged (m : ByteMem) (s a size brk : Nat) (pre post : List Chunk) (res : Word × ByteMem) where
  addr : Nat
  left : List Chunk
  right : List Chunk
  pre' : List Chunk
  post' : List Chunk
  pre_eq : pre = pre' ++ left
  post_eq : post = right ++ post'
  left_free : ∀ c ∈ left, c.allocated = false
  right_free : ∀ c ∈ right, c.allocated = false
  addr_eq : addr + total left = a
  result : res.1 = BitVec.ofNat 32 addr
  same : ByteMem.SameOutside m res.2 addr (a + size + total right)
  tiles : Tiles res.2 s false (pre' ++ ⟨total left + size + total right, false⟩ :: post') brk

theorem coalesce_merged {m : ByteMem} {s a size brk : Nat} {pre post : List Chunk} {prevFree : Bool}
    (hs : s % 4 = 0) (hbrk : brk < 2 ^ 32) (hpre : Seg m s false pre a prevFree) (hpos : 0 < size)
    (h4 : size % 4 = 0) (hword : m.read32 a = header size false prevFree)
    (hfooter : prevFree = false → m.read32 (a + size - 4) = header size false false)
    (hfollows : Follows m (a + size) brk post)
    : Nonempty (Merged m s a size brk pre post (coalesce m (BitVec.ofNat 32 a))) := by
  have haligned := hpre.aligned
  have ha := hpre.eq_total
  cases hfollows with
  | allocated htiles =>
    have hend := htiles.brk_eq
    obtain ⟨n, hnext⟩ := htiles.headAllocated.headWord true
    rw [← htiles.headWord] at hnext
    cases prevFree with
    | false =>
      rw [coalesce_none (by omega) h4 hword hnext]
      exact ⟨{
        addr := a
        left := []
        right := []
        pre' := pre
        post' := post
        pre_eq := (List.append_nil pre).symm
        post_eq := rfl
        left_free := by simp
        right_free := by simp
        addr_eq := by simp [total]
        result := rfl
        same := .refl m _ _
        tiles := by
          simp only [total, Nat.zero_add, Nat.add_zero]
          exact tiles_free hpre ⟨hpos, h4, hword, fun _ => hfooter rfl, fun _ => rfl⟩ htiles
      }⟩
    | true =>
      obtain ⟨pre', c, rfl, hfree, hle, hpre', hc⟩ := hpre.last_free
      have hc4 := hc.aligned
      have hcpos := hc.pos
      have hcfooter := hc.footer hfree
      rw [show a - c.size + c.size - 4 = a - 4 by omega] at hcfooter
      rw [coalesce_prev (by omega) h4 hc4 hpos hcpos hle hword hcfooter hnext]
      exact ⟨{
        addr := a - c.size
        left := [c]
        right := []
        pre' := pre'
        post' := post
        pre_eq := rfl
        post_eq := rfl
        left_free := by simp [hfree]
        right_free := by simp
        addr_eq := by
          simp only [total]
          omega
        result := rfl
        same := (writeFree_sameOutside (by omega)).mono (Nat.le_refl _) (by simp only [total]; omega)
        tiles := by
          simp only [total, Nat.add_zero]
          apply tiles_writeFree (by omega) (by omega) (by omega) hpre'
          rw [show a - c.size + (c.size + size) = a + size by omega]
          exact htiles
      }⟩
  | @free nextSize post' hnpos hn4 hnext htiles =>
    have hend := htiles.brk_eq
    cases prevFree with
    | false =>
      rw [coalesce_next (by omega) h4 hn4 hpos hword hnext]
      exact ⟨{
        addr := a
        left := []
        right := [⟨nextSize, false⟩]
        pre' := pre
        post' := post'
        pre_eq := (List.append_nil pre).symm
        post_eq := rfl
        left_free := by simp
        right_free := by simp
        addr_eq := by simp [total]
        result := rfl
        same := (writeFree_sameOutside (by omega)).mono (Nat.le_refl _) (by simp only [total]; omega)
        tiles := by
          simp only [total, Nat.zero_add, Nat.add_zero]
          apply tiles_writeFree (by omega) (by omega) (by omega) hpre
          rw [← Nat.add_assoc]
          exact htiles
      }⟩
    | true =>
      obtain ⟨pre', c, rfl, hfree, hle, hpre', hc⟩ := hpre.last_free
      have hc4 := hc.aligned
      have hcpos := hc.pos
      have hcfooter := hc.footer hfree
      rw [show a - c.size + c.size - 4 = a - 4 by omega] at hcfooter
      rw [coalesce_both (by omega) h4 hc4 hn4 hpos hcpos hle hword hcfooter hnext]
      exact ⟨{
        addr := a - c.size
        left := [c]
        right := [⟨nextSize, false⟩]
        pre' := pre'
        post' := post'
        pre_eq := rfl
        post_eq := rfl
        left_free := by simp [hfree]
        right_free := by simp
        addr_eq := by
          simp only [total]
          omega
        result := rfl
        same := (writeFree_sameOutside (by omega)).mono (Nat.le_refl _) (by simp only [total]; omega)
        tiles := by
          simp only [total, Nat.add_zero]
          apply tiles_writeFree (by omega) (by omega) (by omega) hpre'
          rw [show a - c.size + (c.size + size + nextSize) = a + size + nextSize by omega]
          exact htiles
      }⟩

end AwaOS
