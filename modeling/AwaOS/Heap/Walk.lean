import AwaOS.Heap.Lemmas.Live

/-!
The heap as its macros see it: a walk over the chunks by `CHUNK_S`, and the boundary tags it meets.
-/

namespace AwaOS

/--
Going from chunk to chunk by `NEXT_CHK` visits `ps` and ends at the epilogue.
-/
inductive Walk (m : ByteMem) (brk : Word) : Word → List Word → Prop
  | done : Walk m brk brk []
  | step (p : Word) (ps : List Word) (hlt : p < brk)
      (hnext : (nextChk m p).toNat = p.toNat + (chunkS (lw m p)).toNat) (hrest : Walk m brk (nextChk m p) ps)
      : Walk m brk p (p :: ps)

theorem Walk.unique {m : ByteMem} {brk p : Word} {ps qs : List Word} (h : Walk m brk p ps)
    (h' : Walk m brk p qs)
    : ps = qs := by
  induction h generalizing qs with
  | done =>
    cases h' with
    | done => rfl
    | step _ ps hlt => exact absurd hlt (BitVec.lt_irrefl _)
  | step p ps hlt hnext hrest ih =>
    cases h' with
    | done => exact absurd hlt (BitVec.lt_irrefl _)
    | step _ qs _ _ hrest' => rw [ih hrest']

theorem Walk.exists_cons {m : ByteMem} {brk p : Word} {ps : List Word} (h : Walk m brk p ps) (hlt : p < brk)
    : ∃ qs, ps = p :: qs := by
  cases h with
  | done => exact absurd hlt (BitVec.lt_irrefl _)
  | step _ qs => exact ⟨qs, rfl⟩

/--
The boundary tags of a chunk.
-/
structure ChunkOk (m : ByteMem) (p : Word) : Prop where
  pos : 0 < (chunkS (lw m p)).toNat
  aligned : (chunkS (lw m p)).toNat % 4 = 0
  prevFree : chunkPF (lw m (nextChk m p)) ≠ 0 ↔ chunkA (lw m p) = 0
  footer : chunkA (lw m p) = 0 → chunkS (lw m (fptr p (chunkS (lw m p)))) = chunkS (lw m p)
  separate : chunkA (lw m p) = 0 → chunkA (lw m (nextChk m p)) ≠ 0

/--
The prologue, the chunks of the walk and the epilogue.
-/
structure WellFormedHeap (m : ByteMem) (heap : HeapContext) (ps : List Word) : Prop where
  prologue : lw m heap.start = pack 4 mAllocated
  walk : Walk m heap.brk heap.start (heap.start :: ps)
  chunks : ∀ p ∈ heap.start :: ps, ChunkOk m p
  epilogue : chunkS (lw m heap.brk) = 0 ∧ chunkA (lw m heap.brk) ≠ 0

section Tiles

variable {m : ByteMem} {a brk : Nat} {prevFree : Bool} {c : Chunk} {cs : List Chunk}

theorem headWord_chunkPF (cs : List Chunk) (prevFree : Bool)
    : chunkPF (headWord cs prevFree) = if prevFree then mPrevFree else 0 := by
  cases cs with
  | nil => exact chunkPF_header 0 true prevFree
  | cons c cs => exact chunkPF_header c.size c.allocated prevFree

/--
The fields of the header of a chunk.
-/
structure HeaderAt (m : ByteMem) (a : Nat) (c : Chunk) : Prop where
  size : chunkS (lw m (BitVec.ofNat 32 a)) = BitVec.ofNat 32 c.size
  allocated : chunkA (lw m (BitVec.ofNat 32 a)) = 0 ↔ c.allocated = false
  next : nextChk m (BitVec.ofNat 32 a) = BitVec.ofNat 32 (a + c.size)

theorem ChunkAt.headerAt (h : ChunkAt m a prevFree c) (ha : a + c.size < 2 ^ 32) : HeaderAt m a c := by
  have hsize : chunkS (lw m (BitVec.ofNat 32 a)) = BitVec.ofNat 32 c.size := by
    rw [lw_ofNat (by omega), h.word, chunkS_header _ _ _ (by omega) h.aligned]
  constructor
  . exact hsize
  . rw [lw_ofNat (by omega), h.word]
    cases c.allocated with
    | true => exact ⟨fun hzero => absurd hzero chunkA_ne_zero, (nomatch ·)⟩
    | false => exact ⟨fun _ => rfl, fun _ => chunkA_eq_zero⟩
  . unfold nextChk
    rw [hsize, BitVec.ofNat_add]

theorem Tiles.chunkOk (hc : ChunkAt m a prevFree c) (hcs : Tiles m (a + c.size) (!c.allocated) cs brk)
    (hbrk : brk < 2 ^ 32)
    : ChunkOk m (BitVec.ofNat 32 a) := by
  have hend := hcs.brk_eq
  have hheader := hc.headerAt (by omega)
  have hpos := hc.pos
  have hnext : lw m (nextChk m (BitVec.ofNat 32 a)) = AwaOS.headWord cs (!c.allocated) := by
    rw [hheader.next, lw_ofNat (by omega), hcs.headWord]
  have htoNat : (BitVec.ofNat 32 c.size).toNat = c.size := by
    rw [BitVec.toNat_ofNat, Nat.mod_eq_of_lt (by omega)]
  constructor
  . rw [hheader.size, htoNat]
    exact hpos
  . rw [hheader.size, htoNat]
    exact hc.aligned
  . rw [hnext, headWord_chunkPF, hheader.allocated]
    cases c.allocated with
    | true => simp
    | false => simp [mPrevFree]
  . rw [hheader.allocated]
    intro hfree
    have h4 := hc.le_size
    rw [hheader.size, fptr_ofNat h4, lw_ofNat (by omega), hc.footer hfree,
      chunkS_header _ _ _ (by omega) hc.aligned]
  . rw [hheader.allocated, hnext]
    intro hfree
    rw [hfree] at hcs ⊢
    obtain ⟨size, hword⟩ := hcs.headAllocated.headWord (!false)
    rw [hword]
    exact chunkA_ne_zero

theorem ChunkAt.walk (hc : ChunkAt m a prevFree c) (hle : a + c.size ≤ brk) (hbrk : brk < 2 ^ 32)
    {ps : List Word} (hrest : Walk m (BitVec.ofNat 32 brk) (BitVec.ofNat 32 (a + c.size)) ps)
    : Walk m (BitVec.ofNat 32 brk) (BitVec.ofNat 32 a) (BitVec.ofNat 32 a :: ps) := by
  have hpos := hc.pos
  have hheader := hc.headerAt (by omega)
  have htoNat : ∀ n, n < 2 ^ 32 → (BitVec.ofNat 32 n).toNat = n :=
    fun n hn => by rw [BitVec.toNat_ofNat, Nat.mod_eq_of_lt hn]
  apply Walk.step
  . rw [BitVec.lt_def, htoNat _ (by omega), htoNat _ hbrk]
    omega
  . rw [hheader.next, hheader.size, htoNat _ (by omega), htoNat _ (by omega), htoNat _ (by omega)]
  . rw [hheader.next]
    exact hrest

theorem Tiles.walk (h : Tiles m a prevFree cs brk) (hbrk : brk < 2 ^ 32)
    : ∃ ps, Walk m (BitVec.ofNat 32 brk) (BitVec.ofNat 32 a) ps
        ∧ (∀ p ∈ ps, ChunkOk m p)
        ∧ ∀ n, (∃ p ∈ ps, chunkA (lw m p) = 0 ∧ n ≤ (chunkS (lw m p)).toNat)
            ↔
          ∃ c ∈ cs, c.allocated = false ∧ n ≤ c.size := by
  induction cs generalizing a prevFree with
  | nil =>
    obtain ⟨_, ⟨rfl, _⟩, _⟩ := h
    exact ⟨[], .done, by simp, by simp⟩
  | cons c cs ih =>
    have hend := h.brk_eq
    obtain ⟨hc, hcs⟩ := tiles_cons.mp h
    have hpos := hc.pos
    have hchunk := Tiles.chunkOk hc hcs hbrk
    obtain ⟨ps, hwalk, hchunks, hfits⟩ := ih hcs
    rw [total] at hend
    have hheader := hc.headerAt (by omega)
    refine ⟨BitVec.ofNat 32 a :: ps, hc.walk (by omega) hbrk hwalk, ?_, ?_⟩
    . exact List.forall_mem_cons.mpr ⟨hchunk, hchunks⟩
    . intro n
      simp only [List.mem_cons, exists_eq_or_imp]
      rw [hfits, hheader.allocated, hheader.size, BitVec.toNat_ofNat, Nat.mod_eq_of_lt (by omega)]

end Tiles

/--
The walk sees the layout, in particular which free chunks are large enough for a request.
-/
theorem HeapOk.wellFormed {m : ByteMem} {heap : HeapContext} {cs : List Chunk} (h : HeapOk m heap cs)
    : ∃ ps, WellFormedHeap m heap ps
        ∧ ∀ n, (∃ p ∈ heap.start :: ps, chunkA (lw m p) = 0 ∧ n ≤ (chunkS (lw m p)).toNat)
            ↔
          ∃ c ∈ cs, c.allocated = false ∧ n ≤ c.size := by
  have hend := h.walk.brk_eq
  obtain ⟨ps, hwalk, hchunks, hfits⟩ := h.walk.walk heap.brk.isLt
  obtain ⟨q, _, hword⟩ := h.tiles
  have hepilogue : lw m heap.brk = header 0 true q := hword
  rw [ofNat_toNat_word, ofNat_toNat_word] at hwalk
  have hlt : heap.start < heap.brk := by
    rw [BitVec.lt_def, hend, total]
    dsimp only
    omega
  obtain ⟨ps, rfl⟩ := hwalk.exists_cons hlt
  refine ⟨ps, { prologue := h.prologue, walk := hwalk, chunks := hchunks, epilogue := ?_ }, ?_⟩
  . rw [hepilogue]
    exact ⟨chunkS_header 0 _ _ (by decide) (by decide), chunkA_ne_zero⟩
  . intro n
    rw [hfits]
    simp

end AwaOS
