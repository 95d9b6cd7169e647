import AwaOS.Heap.Lemmas.Coalesce

/-!
What `place_chunk` and `lxfree` do to a layout.
-/

namespace AwaOS

variable {m : ByteMem} {s size brk : Nat} {pre post : List Chunk} {c : Chunk}

theorem header_allocated (size n : Nat) (prevFree : Bool)
    : pack (BitVec.ofNat 32 size) (chunkPF (header n false prevFree) ||| mAllocated)
        =
      header size true prevFree := by
  rw [chunkPF_header]
  rfl

theorem placeChunk_fit {a : Nat} (ha : a + size < 2 ^ 32) (h4 : size % 4 = 0)
    (hword : m.read32 a = header size false false)
    : placeChunk m (BitVec.ofNat 32 a) (BitVec.ofNat 32 size)
        =
      (m.write32 a (header size true false)).write32 (a + size)
        ((m.write32 a (header size true false)).read32 (a + size) &&& ~~~0x2#32) := by
  have hdiff : BitVec.ofNat 32 size - BitVec.ofNat 32 size = 0 := BitVec.sub_self _
  unfold placeChunk
  dsimp only
  rw [lw_ofNat (by omega), hword, chunkS_header size _ _ (by omega) h4, if_pos hdiff,
    header_allocated, sw_ofNat (by omega), ← BitVec.ofNat_add, lw_ofNat ha, sw_ofNat ha]

theorem placeChunk_split {a chunkSize nextSize : Nat} (ha : a + chunkSize < 2 ^ 32) (haligned : a % 4 = 0)
    (h4 : size % 4 = 0) (hchunk4 : chunkSize % 4 = 0) (hlt : size < chunkSize)
    (hword : m.read32 a = header chunkSize false false)
    (hnext : m.read32 (a + chunkSize) = header nextSize true true)
    : placeChunk m (BitVec.ofNat 32 a) (BitVec.ofNat 32 size)
        =
      writeFree (m.write32 a (header size true false)) (a + size) (chunkSize - size) := by
  have hsub : BitVec.ofNat 32 chunkSize - BitVec.ofNat 32 size = BitVec.ofNat 32 (chunkSize - size) :=
    ofNat_sub_ofNat (by omega)
  have hne : BitVec.ofNat 32 (chunkSize - size) ≠ 0 := by
    intro hzero
    have hnat := congrArg BitVec.toNat hzero
    rw [BitVec.toNat_ofNat, Nat.mod_eq_of_lt (by omega)] at hnat
    have : chunkSize - size = 0 := hnat
    omega
  have hremainder : pack (BitVec.ofNat 32 (chunkSize - size)) (mNotAllocated ||| mPrevAllocated)
      = header (chunkSize - size) false false := by
    rfl
  have hchunk : (writeFree (m.write32 a (header size true false)) (a + size) (chunkSize - size)).read32
    (a + size)
      = header (chunkSize - size) false false :=
    (chunkAt_writeFree (by omega) (by omega) (by omega)).word
  have hend : a + size + (chunkSize - size) = a + chunkSize := by omega
  have hnext' : (writeFree (m.write32 a (header size true false)) (a + size) (chunkSize - size)).read32
      (a + size + (chunkSize - size)) = header nextSize true true := by
    have hsame : ByteMem.SameOutside (m.write32 a (header size true false))
        (writeFree (m.write32 a (header size true false)) (a + size) (chunkSize - size)) (a + size)
        (a + size + (chunkSize - size)) :=
      writeFree_sameOutside (by omega)
    rw [ByteMem.read32_congr _ (hsame.above _), hend, ByteMem.read32_write32_of_apart _ _ _ (by omega), hnext]
  unfold placeChunk
  dsimp only
  rw [lw_ofNat (by omega), hword, chunkS_header chunkSize _ _ (by omega) hchunk4, hsub, if_neg hne,
    header_allocated, sw_ofNat (by omega), ← BitVec.ofNat_add, hremainder, fptr_ofNat (by omega),
      sw_ofNat (by omega),
    sw_ofNat (by omega)]
  have hcoalesce := coalesce_none (by omega) (by omega) hchunk hnext'
  unfold writeFree at hcoalesce ⊢
  rw [hcoalesce]

/--
What becomes of a free chunk when its first `size` bytes are allocated.
-/
def carve (c : Chunk) (size : Nat) : List Chunk :=
  ⟨size, true⟩ ::
    if c.size = size then
      []
    else
      [⟨c.size - size, false⟩]

theorem blocks_carve (a : Nat) (hle : size ≤ c.size)
    : blocks a (carve c size ++ post) = (a, size) :: blocks (a + c.size) post := by
  unfold carve
  split
  . next heq =>
    rw [heq]
    rfl
  . have hend : a + size + (c.size - size) = a + c.size := by omega
    simp only [List.cons_append, List.nil_append, blocks, ↓reduceIte, Bool.false_eq_true, hend]

/--
A chunk becomes allocated, and what remains of it stays free.
-/
theorem placeChunk_tiles (hs : s % 4 = 0) (hbrk : brk < 2 ^ 32)
    (htiles : Tiles m s false (pre ++ c :: post) brk)
    (hfree : c.allocated = false) (hpos : 0 < size) (h4 : size % 4 = 0) (hle : size ≤ c.size)
    : Tiles (placeChunk m (BitVec.ofNat 32 (s + total pre)) (BitVec.ofNat 32 size)) s false
          (pre ++ (carve c size ++ post)) brk
        ∧ Keeps (blocks s pre ++ blocks (s + total pre + c.size) post) m
            (placeChunk m (BitVec.ofNat 32 (s + total pre)) (BitVec.ofNat 32 size))
        ∧ ByteMem.SameOn m (placeChunk m (BitVec.ofNat 32 (s + total pre)) (BitVec.ofNat 32 size)) 0 s := by
  have hbefore : ∀ b ∈ blocks s pre, b.1 + b.2 ≤ s + total pre := fun b hb => (blocks_bounds hb).2
  have hafter : ∀ b ∈ blocks (s + total pre + c.size) post, s + total pre + c.size ≤ b.1 :=
    fun b hb => (blocks_bounds hb).1
  have hend := htiles.brk_eq
  rw [total_append, total] at hend
  obtain ⟨a, q, hpre, hc⟩ := tiles_append.mp htiles
  obtain ⟨hc, hpost⟩ := tiles_cons.mp hc
  have haligned := hpre.aligned
  have ha := hpre.eq_total
  have hc4 := hc.aligned
  have hq := hc.separate hfree
  have hword := hc.word
  subst hq
  rw [← ha] at hbefore hafter ⊢
  rw [hfree] at hword hpost
  rw [Bool.not_false] at hpost
  have hhead := hpost.headWord
  have hallocated := hpost.headAllocated
  by_cases heq : c.size = size
  . rw [heq] at hword hhead hpost hafter ⊢
    rw [placeChunk_fit (by omega) h4 hword, ByteMem.read32_write32_of_apart _ _ _ (by omega), hhead]
    have hsame : ByteMem.SameOutside m ((m.write32 a (header size true false)).write32 (a + size)
        (headWord post true &&& ~~~0x2#32)) a (a + size + 4) :=
      (ByteMem.sameOutside_write32 m _ (Nat.le_refl a) (by omega)).trans
        (ByteMem.sameOutside_write32 _ _ (by omega) (by omega))
    refine ⟨?_, keeps_of_sameOutside hsame hbefore hafter, (hsame.below 0).mono (Nat.le_refl _) (by omega)⟩
    unfold carve
    rw [if_pos heq]
    refine tiles_append.mpr ⟨a, false, hpre.frame (hsame.below s), tiles_cons.mpr ⟨?_, ?_⟩⟩
    . apply chunkAt_allocated hpos h4
      rw [ByteMem.read32_write32_of_apart _ _ _ (by omega), ByteMem.read32_write32_self]
    . apply hpost.setPrev hallocated (hsame.above _)
      rw [ByteMem.read32_write32_self, headWord_clearPrevFree]
      rfl
  . obtain ⟨n, hn⟩ := hallocated.headWord true
    rw [hn] at hhead
    rw [placeChunk_split (by omega) (by omega) h4 hc4 (by omega) hword hhead]
    have hfirst := ByteMem.sameOutside_write32 m (header size true false) (Nat.le_refl a)
      (show a + 4 ≤ a + c.size + 4 by omega)
    have hsecond : ByteMem.SameOutside (m.write32 a (header size true false))
        (writeFree (m.write32 a (header size true false)) (a + size) (c.size - size)) (a + size) (a + c.size) :=
      (writeFree_sameOutside (by omega)).mono (Nat.le_refl _) (by omega)
    have hsame := hfirst.trans
      (hsecond.mono (show a ≤ a + size by omega) (show a + c.size ≤ a + c.size + 4 by omega))
    refine ⟨?_, keeps_of_sameOutside hsame hbefore hafter, (hsame.below 0).mono (Nat.le_refl _) (by omega)⟩
    unfold carve
    rw [if_neg heq]
    refine tiles_append.mpr ⟨a, false, hpre.frame (hsame.below s), ?_⟩
    refine tiles_cons.mpr ⟨?_, tiles_cons.mpr ⟨?_, ?_⟩⟩
    . apply chunkAt_allocated hpos h4
      rw [ByteMem.read32_congr a (hsecond.below a |>.mono (Nat.le_refl _) (by omega)),
        ByteMem.read32_write32_self]
    . exact chunkAt_writeFree (by omega) (by omega) (by omega)
    . have hfirst' := ByteMem.sameOutside_write32 m (header size true false) (Nat.le_refl a)
        (show a + 4 ≤ a + c.size by omega)
      have hend : a + size + (c.size - size) = a + c.size := by omega
      dsimp only
      rw [hend]
      exact (hpost.frame (hfirst'.above _)).frame (hsecond.above _)

theorem Merged.blocks_eq {a : Nat} {res : Word × ByteMem} (h : Merged m s a size brk pre post res)
    (ha : a = s + total pre)
    : blocks s (h.pre' ++ ⟨total h.left + size + total h.right, false⟩ :: h.post')
        =
      blocks s pre ++ blocks (a + size) post := by
  have hpre := blocks_append s h.pre' h.left
  have hpost := blocks_append (a + size) h.right h.post'
  rw [blocks_free _ _ h.left_free, List.append_nil, ← h.pre_eq] at hpre
  rw [blocks_free _ _ h.right_free, List.nil_append, ← h.post_eq] at hpost
  have htotal : total pre = total h.pre' + total h.left := by rw [← total_append, ← h.pre_eq]
  have haddr : s + total h.pre' + (total h.left + size + total h.right) = a + size + total h.right := by omega
  rw [hpre, hpost, blocks_append]
  simp only [blocks, Bool.false_eq_true, ↓reduceIte, haddr]

theorem Merged.keeps {a : Nat} {res : Word × ByteMem} (h : Merged m s a size brk pre post res)
    (ha : a = s + total pre)
    : Keeps (blocks s pre ++ blocks (a + size) post) m res.2 := by
  have htotal : total pre = total h.pre' + total h.left := by rw [← total_append, ← h.pre_eq]
  have haddr := h.addr_eq
  have hsame : ByteMem.SameOutside m res.2 h.addr (a + size + total h.right + 4) :=
    h.same.mono (Nat.le_refl _) (by omega)
  apply keeps_of_sameOutside hsame
  . intro b hb
    rw [h.pre_eq, blocks_append, blocks_free _ _ h.left_free, List.append_nil] at hb
    have := (blocks_bounds hb).2
    omega
  . intro b hb
    rw [h.post_eq, blocks_append, blocks_free _ _ h.right_free, List.nil_append] at hb
    exact (blocks_bounds hb).1

theorem Merged.below {a : Nat} {res : Word × ByteMem} (h : Merged m s a size brk pre post res)
    (ha : a = s + total pre)
    : ByteMem.SameOn m res.2 0 s := by
  have htotal : total pre = total h.pre' + total h.left := by rw [← total_append, ← h.pre_eq]
  have haddr := h.addr_eq
  exact (h.same.below 0).mono (Nat.le_refl _) (by omega)

/--
`m` with a chunk marked as free, and with a header behind it.
-/
def freed (m : ByteMem) (a size : Nat) (prevFree : Bool) (next : Word) : ByteMem :=
  ((m.write32 a (header size false prevFree)).write32 (a + size - 4) (header size false prevFree)).write32
    (a + size) next

section Freed

variable {a : Nat} {prevFree : Bool} {next : Word}

theorem freed_sameOutside (hsize : 4 ≤ size)
    : ByteMem.SameOutside m (freed m a size prevFree next) a (a + size + 4) :=
  ((ByteMem.sameOutside_write32 m _ (Nat.le_refl a) (by omega)).trans
    (ByteMem.sameOutside_write32 _ _ (by omega) (by omega))).trans
      (ByteMem.sameOutside_write32 _ _ (by omega) (by omega))

theorem freed_word (ha : a % 4 = 0) (hsize : 4 ≤ size) (h4 : size % 4 = 0)
    : (freed m a size prevFree next).read32 a = header size false prevFree := by
  unfold freed
  rw [ByteMem.read32_write32_of_ne _ (by omega) ha (by omega)]
  by_cases heq : a = a + size - 4
  . rw [← heq, ByteMem.read32_write32_self]
  . rw [ByteMem.read32_write32_of_ne _ (by omega) ha heq, ByteMem.read32_write32_self]

theorem freed_footer (hsize : 4 ≤ size)
    : (freed m a size prevFree next).read32 (a + size - 4) = header size false prevFree := by
  unfold freed
  rw [ByteMem.read32_write32_of_apart _ _ _ (by omega), ByteMem.read32_write32_self]

theorem freed_next : (freed m a size prevFree next).read32 (a + size) = next :=
  ByteMem.read32_write32_self _ _

end Freed

theorem freeChunk_eq {a : Nat} {allocated prevFree : Bool} (ha : a + size < 2 ^ 32) (hsize : 4 ≤ size)
    (h4 : size % 4 = 0) (hword : m.read32 a = header size allocated prevFree)
    : freeChunk m (BitVec.ofNat 32 (a + 4))
        =
      (coalesce (freed m a size prevFree (m.read32 (a + size) ||| mPrevFree)) (BitVec.ofNat 32 a)).2 := by
  unfold freeChunk freed
  dsimp only
  rw [sub_wsize (by omega), Nat.add_sub_cancel, lw_ofNat (by omega), hword,
    chunkS_header size _ _ (by omega) h4,
    header_free, ← BitVec.ofNat_add, fptr_ofNat hsize, sw_ofNat (by omega), sw_ofNat (by omega),
    sw_ofNat (by omega), lw_ofNat ha, ByteMem.read32_write32_of_apart _ _ _ (by omega),
      ByteMem.read32_write32_of_apart _ _ _ (by omega)]

/--
What comes after a chunk that is marked as free.
-/
theorem follows_freed {a : Nat} {prevFree wasFree : Bool} (hsize : 4 ≤ size)
    (htiles : Tiles m (a + size) wasFree post brk)
    : Follows (freed m a size prevFree (m.read32 (a + size) ||| mPrevFree)) (a + size) brk post := by
  have hsame : ByteMem.SameOutside m (freed m a size prevFree (m.read32 (a + size) ||| mPrevFree)) a
    (a + size + 4) :=
    freed_sameOutside hsize
  have hnext :
      (freed m a size prevFree (m.read32 (a + size) ||| mPrevFree)).read32 (a + size) = headWord post true := by
    rw [freed_next, htiles.headWord, headWord_setPrevFree]
  by_cases hhead : HeadAllocated post
  . exact .allocated (htiles.setPrev hhead (hsame.above _) hnext)
  . cases post with
    | nil => exact absurd trivial hhead
    | cons n post =>
      obtain ⟨hn, hpost⟩ := tiles_cons.mp htiles
      have hfree : n.allocated = false := by
        rw [← Bool.not_eq_true]
        exact hhead
      have hnsize := hn.le_size
      cases n with
      | mk nsize nallocated =>
        dsimp only at hfree hnsize
        subst hfree
        refine .free hn.pos hn.aligned hnext (hpost.frame ((hsame.above _).mono ?_ (Nat.le_refl _)))
        dsimp only
        omega

/--
A chunk becomes free, unless it is already, and is merged with the free chunks next to it.
-/
theorem freeChunk_tiles (hs : s % 4 = 0) (hbrk : brk < 2 ^ 32) (htiles : Tiles m s false (pre ++ c :: post) brk)
    : ∃ cs, Tiles (freeChunk m (BitVec.ofNat 32 (s + total pre + 4))) s false cs brk
        ∧ blocks s cs = blocks s pre ++ blocks (s + total pre + c.size) post
        ∧ Keeps (blocks s pre ++ blocks (s + total pre + c.size) post) m
            (freeChunk m (BitVec.ofNat 32 (s + total pre + 4)))
        ∧ ByteMem.SameOn m (freeChunk m (BitVec.ofNat 32 (s + total pre + 4))) 0 s := by
  have hbefore : ∀ b ∈ blocks s pre, b.1 + b.2 ≤ s + total pre := fun b hb => (blocks_bounds hb).2
  have hafter : ∀ b ∈ blocks (s + total pre + c.size) post, s + total pre + c.size ≤ b.1 :=
    fun b hb => (blocks_bounds hb).1
  have hend := htiles.brk_eq
  rw [total_append, total] at hend
  obtain ⟨a, q, hpre, hc⟩ := tiles_append.mp htiles
  obtain ⟨hc, hpost⟩ := tiles_cons.mp hc
  have haligned := hpre.aligned
  have ha := hpre.eq_total
  have hc4 := hc.aligned
  have hsize := hc.le_size
  have hword := hc.word
  rw [← ha] at hbefore hafter ⊢
  have hsame : ByteMem.SameOutside m (freed m a c.size q (m.read32 (a + c.size) ||| mPrevFree)) a
    (a + c.size + 4) :=
    freed_sameOutside hsize
  obtain ⟨merged⟩ := coalesce_merged hs hbrk (hpre.frame (hsame.below s)) hc.pos hc4
    (freed_word (by omega) hsize hc4) (fun hq => by rw [freed_footer hsize, hq]) (follows_freed hsize hpost)
  rw [freeChunk_eq (by omega) hsize hc4 hword]
  exact ⟨_, merged.tiles, merged.blocks_eq ha,
    (keeps_of_sameOutside hsame hbefore hafter).trans (merged.keeps ha),
    ((hsame.below 0).mono (Nat.le_refl _) (by omega)).trans (merged.below ha)⟩

end AwaOS
