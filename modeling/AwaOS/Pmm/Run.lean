import AwaOS.Pmm.Lemmas.Alloc
import AwaOS.Pmm.Lemmas.Mark

/-!
Runs of the physical memory manager from `pmm_init`, and the frames that are handed out in them.
-/

namespace AwaOS

/--
The calls that other parts of the kernel make.
-/
inductive PmmOp where
  | markPageFree (ppn : Word)
  | markPageOccupied (ppn : Word)
  | markChunkFree (startPpn pageCount : Word)
  | markChunkOccupied (startPpn pageCount : Word)
  | allocPage
  | freePage (page : Word)

def PmmOp.exec (pmm : Pmm) : PmmOp → Pmm
  | .markPageFree ppn => pmmMarkPageFree pmm ppn
  | .markPageOccupied ppn => pmmMarkPageOccupied pmm ppn
  | .markChunkFree startPpn pageCount => pmmMarkChunkFree pmm startPpn pageCount
  | .markChunkOccupied startPpn pageCount => pmmMarkChunkOccupied pmm startPpn pageCount
  | .allocPage => (pmmAllocPage pmm).2
  | .freePage page => (pmmFreePage pmm page).2

/--
The state after `pmm_init` and a sequence of calls.
-/
def Pmm.after (pmBitmap : Bitmap) (memUpperLim : Word) (ops : List PmmOp) : Pmm :=
  ops.foldl PmmOp.exec (pmmInit pmBitmap memUpperLim)

/--
A run together with the frames that `pmm_alloc_page` returned in it and that have not been freed
since, neither by `pmm_free_page` nor by marking them as free.
-/
structure PmmHistory where
  pmm : Pmm
  held : List Nat

namespace PmmHistory

def init (pmBitmap : Bitmap) (memUpperLim : Word) : PmmHistory :=
  ⟨pmmInit pmBitmap memUpperLim, []⟩

def step (h : PmmHistory) (op : PmmOp) : PmmHistory where
  pmm := op.exec h.pmm
  held :=
    match op with
    | .markPageFree ppn => h.held.filter (· ≠ ppn.toNat)
    | .markChunkFree startPpn pageCount => h.held.filter (!chunkCovers startPpn pageCount ·)
    | .markPageOccupied _ => h.held
    | .markChunkOccupied _ _ => h.held
    | .allocPage =>
      let page := (pmmAllocPage h.pmm).1
      if page = 0 then
        h.held
      else
        (page >>> 12).toNat :: h.held
    | .freePage page =>
      if (pmmFreePage h.pmm page).1 then
        h.held.filter (· ≠ (page >>> 12).toNat)
      else
        h.held

def after (pmBitmap : Bitmap) (memUpperLim : Word) (ops : List PmmOp) : PmmHistory :=
  ops.foldl step (init pmBitmap memUpperLim)

/--
Every frame that is held is a page of its own and marked as occupied.
-/
structure Inv (h : PmmHistory) : Prop where
  nodup : h.held.Nodup
  occupied : ∀ ppn ∈ h.held, h.pmm.occupied ppn = true
  lt : ∀ ppn ∈ h.held, ppn < 2 ^ 32

theorem inv_init (pmBitmap : Bitmap) (memUpperLim : Word) : (init pmBitmap memUpperLim).Inv where
  nodup := List.nodup_nil
  occupied := by simp [init]
  lt := by simp [init]

/--
A call that keeps the bits of all frames that stay held keeps the invariant.
-/
theorem Inv.of_filter {h : PmmHistory} (hinv : h.Inv) (pmm : Pmm) (keep : Nat → Bool)
    (hkeep : ∀ ppn, ppn < 2 ^ 32 → keep ppn = true → h.pmm.occupied ppn = true → pmm.occupied ppn = true)
    : Inv ⟨pmm, h.held.filter keep⟩ where
  nodup := hinv.nodup.filter keep
  occupied := by
    intro ppn hppn
    rw [List.mem_filter] at hppn
    exact hkeep ppn (hinv.lt ppn hppn.1) hppn.2 (hinv.occupied ppn hppn.1)
  lt := by
    intro ppn hppn
    rw [List.mem_filter] at hppn
    exact hinv.lt ppn hppn.1

theorem Inv.of_mono {h : PmmHistory} (hinv : h.Inv) (pmm : Pmm)
    (hmono : ∀ ppn, h.pmm.occupied ppn = true → pmm.occupied ppn = true)
    : Inv ⟨pmm, h.held⟩ where
  nodup := hinv.nodup
  occupied := fun ppn hppn => hmono ppn (hinv.occupied ppn hppn)
  lt := hinv.lt

theorem Inv.alloc {h : PmmHistory} (hinv : h.Inv) : (h.step .allocPage).Inv := by
  simp only [step, PmmOp.exec]
  split
  . next hnull =>
    apply hinv.of_mono
    intro ppn hppn
    unfold Pmm.occupied
    rw [(pmmAllocPage_null h.pmm hnull).bitmap]
    exact hppn
  . next hfound =>
    have htook := pmmAllocPage_took h.pmm hfound
    have hbits : ∀ ppn, (pmmAllocPage h.pmm).2.occupied ppn
        = (decide (ppn = ((pmmAllocPage h.pmm).1 >>> 12).toNat) || h.pmm.occupied ppn) := by
      intro ppn
      unfold Pmm.occupied
      rw [htook.bitmap, Bitmap.test_set]
    constructor
    . refine List.nodup_cons.mpr ⟨?_, hinv.nodup⟩
      -- a held frame is occupied, the new one was free
      intro hmem
      have := hinv.occupied _ hmem
      rw [htook.free] at this
      contradiction
    . intro ppn hppn
      rw [hbits]
      cases List.mem_cons.mp hppn with
      | inl heq => simp [heq]
      | inr hmem => simp [hinv.occupied ppn hmem]
    . intro ppn hppn
      cases List.mem_cons.mp hppn with
      | inl heq =>
        rw [heq]
        exact Nat.lt_trans htook.lt (by decide)
      | inr hmem => exact hinv.lt ppn hmem

theorem Inv.step {h : PmmHistory} (hinv : h.Inv) (op : PmmOp) : (h.step op).Inv := by
  cases op with
  | markPageFree ppn =>
    apply hinv.of_filter
    intro q _ hne hq
    simpa [PmmOp.exec, hq] using hne
  | markPageOccupied ppn =>
    apply hinv.of_mono
    intro q hq
    simp [PmmOp.exec, hq]
  | markChunkFree startPpn pageCount =>
    apply hinv.of_filter
    intro q hlt hkeep hq
    have htouches : ¬(markChunkAuxVar startPpn pageCount).touches pageCount q = true := by
      intro htouches
      rw [touches_chunkCovers startPpn pageCount q hlt htouches] at hkeep
      contradiction
    simp [PmmOp.exec, occupied_pmmMarkChunkFree, hq, htouches]
  | markChunkOccupied startPpn pageCount =>
    apply hinv.of_mono
    intro q hq
    simp [PmmOp.exec, occupied_pmmMarkChunkOccupied, hq]
  | allocPage => exact hinv.alloc
  | freePage page =>
    simp only [PmmHistory.step, PmmOp.exec, pmmFreePage]
    split
    . apply hinv.of_filter
      intro q _ hne hq
      simpa [hq] using hne
    . exact hinv.of_mono _ (fun _ hq => hq)

theorem inv_after (pmBitmap : Bitmap) (memUpperLim : Word) (ops : List PmmOp)
    : (after pmBitmap memUpperLim ops).Inv :=
  List.foldlRecOn ops step (inv_init pmBitmap memUpperLim) (fun _ hinv op _ => hinv.step op)

end PmmHistory

/--
In every run the frames that are held are pairwise distinct, and the next call of `pmm_alloc_page`
takes one free frame other than page `0` and changes no other bit.
-/
theorem pmmAllocPage_exclusive (pmBitmap : Bitmap) (memUpperLim : Word) (ops : List PmmOp)
    : let h := PmmHistory.after pmBitmap memUpperLim ops
      let res := pmmAllocPage h.pmm
      let ppn := (res.1 >>> 12).toNat
      h.held.Nodup
        ∧
      (res.1 ≠ 0 →
        ppn ≠ 0
          ∧ h.pmm.occupied ppn = false
          ∧ res.2.occupied ppn = true
          ∧ ∀ q, q ≠ ppn → res.2.occupied q = h.pmm.occupied q) := by
  intro h res ppn
  refine ⟨(PmmHistory.inv_after pmBitmap memUpperLim ops).nodup, ?_⟩
  intro hfound
  have htook := pmmAllocPage_took h.pmm hfound
  have hbits : ∀ q, res.2.occupied q = (decide (q = ppn) || h.pmm.occupied q) := by
    intro q
    unfold Pmm.occupied
    rw [htook.bitmap, Bitmap.test_set]
  refine ⟨Nat.ne_of_gt htook.pos, htook.free, ?_, ?_⟩
  . simp [hbits]
  . intro q hq
    simp [hbits, hq]

end AwaOS
