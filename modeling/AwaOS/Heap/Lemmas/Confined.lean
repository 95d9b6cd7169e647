import AwaOS.Heap.Lemmas.Init

/-!
Which bytes the allocator reads and writes: on all memories that agree from `lo` up to `hi` it does the same.
-/

namespace AwaOS

open ByteMem (Confined)

section WriteFree

variable {lo hi a size : Nat}

theorem confined_writeFree (hsize : 4 ≤ size) (hlo : lo ≤ a) (hhi : a + size ≤ hi)
    : Confined lo hi (fun m => writeFree m a size) :=
  (ByteMem.confined_write32 _ (by omega) (by omega)).comp (ByteMem.confined_write32 _ hlo (by omega))

theorem confined_freed (prevFree : Bool) (next : Word) (hsize : 4 ≤ size) (hlo : lo ≤ a)
    (hhi : a + size + 4 ≤ hi)
    : Confined lo hi (fun m => freed m a size prevFree next) :=
  (ByteMem.confined_write32 _ (by omega) (by omega)).comp
    ((ByteMem.confined_write32 _ (by omega) (by omega)).comp (ByteMem.confined_write32 _ hlo (by omega)))

end WriteFree

section Chunk

variable {m : ByteMem} {s a size brk lo hi : Nat} {pre post : List Chunk} {c : Chunk} {prevFree : Bool}

theorem coalesce_confined (hbrk : brk < 2 ^ 32) (hpre : Seg m s false pre a prevFree) (hpos : 0 < size)
    (h4 : size % 4 = 0) (hword : m.read32 a = header size false prevFree)
    (hfollows : Follows m (a + size) brk post) (hlo : lo ≤ s) (hhi : brk + 4 ≤ hi)
    : ∃ x f, Confined lo hi f
        ∧ ∀ m', ByteMem.SameOn m m' lo hi → coalesce m' (BitVec.ofNat 32 a) = (x, f m') := by
  have ha := hpre.eq_total
  cases hfollows with
  | allocated htiles =>
    have hend := htiles.brk_eq
    obtain ⟨n, hnext⟩ := htiles.headAllocated.headWord true
    rw [← htiles.headWord] at hnext
    cases prevFree with
    | false =>
      refine ⟨BitVec.ofNat 32 a, id, ByteMem.confined_id _ _, ?_⟩
      intro m' hsame
      apply coalesce_none (by omega) h4
      . rw [ByteMem.read32_congr a (hsame.mono (by omega) (by omega))]
        exact hword
      . rw [ByteMem.read32_congr (a + size) (hsame.mono (by omega) (by omega))]
        exact hnext
    | true =>
      obtain ⟨pre', c, rfl, hfree, hle, hpre', hc⟩ := hpre.last_free
      have hc4 := hc.aligned
      have hcpos := hc.pos
      have hcfooter := hc.footer hfree
      have hs := hpre'.eq_total
      rw [show a - c.size + c.size - 4 = a - 4 by omega] at hcfooter
      refine ⟨BitVec.ofNat 32 (a - c.size), _, confined_writeFree (by omega) (show lo ≤ a - c.size by omega)
        (show a - c.size + (c.size + size) ≤ hi by omega), ?_⟩
      intro m' hsame
      apply coalesce_prev (by omega) h4 hc4 hpos hcpos hle
      . rw [ByteMem.read32_congr a (hsame.mono (by omega) (by omega))]
        exact hword
      . rw [ByteMem.read32_congr (a - 4) (hsame.mono (by omega) (by omega))]
        exact hcfooter
      . rw [ByteMem.read32_congr (a + size) (hsame.mono (by omega) (by omega))]
        exact hnext
  | @free nextSize post' hnpos hn4 hnext htiles =>
    have hend := htiles.brk_eq
    cases prevFree with
    | false =>
      refine ⟨BitVec.ofNat 32 a, _, confined_writeFree (by omega) (show lo ≤ a by omega)
        (show a + (size + nextSize) ≤ hi by omega), ?_⟩
      intro m' hsame
      apply coalesce_next (by omega) h4 hn4 hpos
      . rw [ByteMem.read32_congr a (hsame.mono (by omega) (by omega))]
        exact hword
      . rw [ByteMem.read32_congr (a + size) (hsame.mono (by omega) (by omega))]
        exact hnext
    | true =>
      obtain ⟨pre', c, rfl, hfree, hle, hpre', hc⟩ := hpre.last_free
      have hc4 := hc.aligned
      have hcpos := hc.pos
      have hcfooter := hc.footer hfree
      have hs := hpre'.eq_total
      rw [show a - c.size + c.size - 4 = a - 4 by omega] at hcfooter
      refine ⟨BitVec.ofNat 32 (a - c.size), _, confined_writeFree (by omega) (show lo ≤ a - c.size by omega)
        (show a - c.size + (c.size + size + nextSize) ≤ hi by omega), ?_⟩
      intro m' hsame
      apply coalesce_both (by omega) h4 hc4 hn4 hpos hcpos hle
      . rw [ByteMem.read32_congr a (hsame.mono (by omega) (by omega))]
        exact hword
      . rw [ByteMem.read32_congr (a - 4) (hsame.mono (by omega) (by omega))]
        exact hcfooter
      . rw [ByteMem.read32_congr (a + size) (hsame.mono (by omega) (by omega))]
        exact hnext

theorem placeChunk_confined (hs : s % 4 = 0) (hbrk : brk < 2 ^ 32)
    (htiles : Tiles m s false (pre ++ c :: post) brk)
    (hfree : c.allocated = false) (hpos : 0 < size) (h4 : size % 4 = 0) (hle : size ≤ c.size) (hlo : lo ≤ s)
    (hhi : brk + 4 ≤ hi)
    : ∃ f, Confined lo hi f
        ∧ ∀ m', ByteMem.SameOn m m' lo hi →
          placeChunk m' (BitVec.ofNat 32 (s + total pre)) (BitVec.ofNat 32 size) = f m' := by
  have hend := htiles.brk_eq
  rw [total_append, total] at hend
  obtain ⟨a, q, hpre, hc⟩ := tiles_append.mp htiles
  obtain ⟨hc, hpost⟩ := tiles_cons.mp hc
  have haligned := hpre.aligned
  have ha := hpre.eq_total
  have hc4 := hc.aligned
  have hq := hc.separate hfree
  have hword := hc.word
  subst hq
  rw [← ha]
  rw [hfree] at hword hpost
  rw [Bool.not_false] at hpost
  have hhead := hpost.headWord
  by_cases heq : c.size = size
  . rw [heq] at hword hhead
    refine ⟨_, (ByteMem.confined_write32 (headWord post true &&& ~~~0x2#32) (show lo ≤ a + size by omega)
      (show a + size + 4 ≤ hi by omega)).comp
        (ByteMem.confined_write32 (header size true false) (show lo ≤ a by omega) (by omega)), ?_⟩
    intro m' hsame
    have hword' := ByteMem.read32_congr a (hsame.mono (by omega) (by omega))
    have hhead' := ByteMem.read32_congr (a + size) (hsame.mono (by omega) (by omega))
    rw [placeChunk_fit (by omega) h4 (hword'.trans hword),
      ByteMem.read32_write32_of_apart _ _ _ (by omega), hhead', hhead]
  . obtain ⟨n, hnext⟩ := hpost.headAllocated.headWord true
    rw [← hhead] at hnext
    refine ⟨_, (confined_writeFree (show 4 ≤ c.size - size by omega) (show lo ≤ a + size by omega) (by omega)).comp
        (ByteMem.confined_write32 (header size true false) (show lo ≤ a by omega) (by omega)), ?_⟩
    intro m' hsame
    apply placeChunk_split (by omega) (by omega) h4 hc4 (by omega)
    . rw [ByteMem.read32_congr a (hsame.mono (by omega) (by omega))]
      exact hword
    . rw [ByteMem.read32_congr (a + c.size) (hsame.mono (by omega) (by omega))]
      exact hnext

theorem freeChunk_confined (hs : s % 4 = 0) (hbrk : brk < 2 ^ 32)
    (htiles : Tiles m s false (pre ++ c :: post) brk)
    (hallocated : c.allocated = true) (hlo : lo ≤ s) (hhi : brk + 4 ≤ hi)
    : ∃ f, Confined lo hi f
        ∧ ∀ m', ByteMem.SameOn m m' lo hi → freeChunk m' (BitVec.ofNat 32 (s + total pre + 4)) = f m' := by
  have hend := htiles.brk_eq
  rw [total_append, total] at hend
  obtain ⟨a, q, hpre, hc⟩ := tiles_append.mp htiles
  obtain ⟨hc, hpost⟩ := tiles_cons.mp hc
  have haligned := hpre.aligned
  have ha := hpre.eq_total
  have hc4 := hc.aligned
  have hsize := hc.le_size
  have hword := hc.word
  rw [← ha]
  rw [hallocated] at hword hpost
  rw [Bool.not_true] at hpost
  have hsame : ByteMem.SameOutside m (freed m a c.size q (m.read32 (a + c.size) ||| mPrevFree)) a
    (a + c.size + 4) :=
    freed_sameOutside hsize
  have hfreed := confined_freed q (m.read32 (a + c.size) ||| mPrevFree) hsize (show lo ≤ a by omega)
    (show a + c.size + 4 ≤ hi by omega)
  obtain ⟨x, f, hf, hcoalesce⟩ := coalesce_confined hbrk (hpre.frame (hsame.below s)) hc.pos hc4
    (freed_word (by omega) hsize hc4) (follows_freed hsize hpost) hlo hhi
  refine ⟨_, hf.comp hfreed, ?_⟩
  intro m' hm'
  have hword' := ByteMem.read32_congr a (hm'.mono (by omega) (by omega))
  rw [freeChunk_eq (by omega) hsize hc4 (hword'.trans hword),
    ByteMem.read32_congr (a + c.size) (hm'.mono (by omega) (by omega)),
    hcoalesce _ (hfreed.reads m m' hm')]

theorem addChunk_confined (hs : s % 4 = 0) (htiles : Tiles m s false pre a) (hend : a + size < 2 ^ 32)
    (hsize : 4 ≤ size) (h4 : size % 4 = 0) (hlo : lo ≤ s) (hhi : a + size + 4 ≤ hi)
    : ∃ x f, Confined lo hi f
        ∧ ∀ m', ByteMem.SameOn m m' lo hi →
          lxGrowHeap.addChunk m' (BitVec.ofNat 32 a) (BitVec.ofNat 32 size) = (x, f m') := by
  have haligned := htiles.aligned
  have ha := htiles.brk_eq
  obtain ⟨q, hseg, hword⟩ := htiles
  have hsame : ByteMem.SameOutside m (freed m a size q (header 0 true true)) a (a + size + 4) :=
    freed_sameOutside hsize
  have hfreed := confined_freed q (header 0 true true) hsize (show lo ≤ a by omega) hhi
  have hfollows : Follows (freed m a size q (header 0 true true)) (a + size) (a + size) [] :=
    .allocated ⟨true, ⟨rfl, rfl⟩, freed_next⟩
  obtain ⟨x, f, hf, hcoalesce⟩ := coalesce_confined hend (hseg.frame (hsame.below s)) (by omega) h4
    (freed_word (by omega) hsize h4) hfollows hlo hhi
  refine ⟨x, _, hf.comp hfreed, ?_⟩
  intro m' hm'
  have hword' := ByteMem.read32_congr a (hm'.mono (by omega) (by omega))
  rw [addChunk_eq hend (by omega) hsize h4 (hword'.trans hword), hcoalesce _ (hfreed.reads m m' hm')]

theorem firstFit_congr {m' : ByteMem} (need : Word) (fuel : Nat) (htiles : Tiles m a prevFree pre brk)
    (hbrk : brk < 2 ^ 32) (hsame : ByteMem.SameOn m m' a (brk + 4))
    : firstFit m' (BitVec.ofNat 32 brk) need fuel (BitVec.ofNat 32 a)
        =
      firstFit m (BitVec.ofNat 32 brk) need fuel (BitVec.ofNat 32 a) := by
  induction pre generalizing a prevFree fuel with
  | nil =>
    obtain ⟨_, ⟨rfl, _⟩, _⟩ := htiles
    cases fuel with
    | zero => rfl
    | succ fuel =>
      unfold firstFit
      rw [if_neg (BitVec.lt_irrefl _), if_neg (BitVec.lt_irrefl _)]
  | cons c cs ih =>
    have hend := htiles.brk_eq
    obtain ⟨hc, hcs⟩ := tiles_cons.mp htiles
    have hpos := hc.pos
    rw [total] at hend
    cases fuel with
    | zero => rfl
    | succ fuel =>
      unfold firstFit
      dsimp only
      rw [lw_ofNat (by omega), lw_ofNat (by omega), ByteMem.read32_congr a (hsame.mono (by omega) (by omega)),
        hc.word, chunkS_header c.size _ _ (by omega) hc.aligned, ← BitVec.ofNat_add]
      rw [ih fuel hcs (hsame.mono (by omega) (Nat.le_refl _))]

end Chunk

end AwaOS
