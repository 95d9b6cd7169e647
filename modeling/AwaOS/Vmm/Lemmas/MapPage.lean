import AwaOS.Vmm.Lemmas.Tables

/-!
What `vmm_unmap_page` and the search of `vmm_map_page` can do, case by case.
-/

namespace AwaOS

namespace Machine

variable {s : Machine}

inductive UnmapPage (s : Machine) (va : Word) : EStateM.Result PageFault Machine Unit → Prop
  | guarded (hslot : l1Index va = 1023) : UnmapPage s va (.ok () s)
  | absent (hslot : l1Index va < 1023) (hzero : s.dir (l1Index va) = 0) : UnmapPage s va (.ok () s)
  | fault (hslot : l1Index va < 1023) (hne : s.dir (l1Index va) ≠ 0) (e : PageFault)
      (habsent : isCached (s.dir (l1Index va)) = false)
      : UnmapPage s va (.error e s)
  | cleared (hslot : l1Index va < 1023) (hpresent : isCached (s.dir (l1Index va)) = true)
      : UnmapPage s va
          (.ok () ((s.releasedEntry (s.table (l1Index va) (l2Index va))).setTable (l1Index va) (l2Index va) 0))

/--
The search of `vmm_map_page` from page `first`, with a nonzero entry of the directory, if it ends at page
`last` at the latest.
-/
inductive Search (s : Machine) (pa tattr : Word) (first last : Nat)
    : EStateM.Result PageFault Machine vmmMapPage.Exit → Prop
  | fault (e : PageFault) : Search s pa tattr first last (.error e s)
  | mapped (i j : Nat) (hi : i < 1023) (hj : j < 1024) (hfirst : first ≤ i * 1024 + j)
      (hlast : i * 1024 + j ≤ last) (hpresent : isCached (s.dir i) = true) (hempty : s.table i j = 0)
      : Search s pa tattr first last (.ok (.mapped i j) (s.setTable i j (newL2Entry tattr pa)))

end Machine

open Machine

theorem Machine.Search.mono {s : Machine} {pa tattr : Word} {first first' last : Nat}
    {r : EStateM.Result PageFault Machine vmmMapPage.Exit} (h : Search s pa tattr first last r)
    (hle : first' ≤ first)
    : Search s pa tattr first' last r := by
  cases h with
  | fault e => exact .fault e
  | mapped i j hi hj hfirst hlast hpresent hempty =>
    exact .mapped i j hi hj (Nat.le_trans hle hfirst) hlast hpresent hempty

theorem pgAlign_shift (addr : Word) : pgAlign addr >>> 12 = addr >>> 12 := by
  have hmask : 0xFFFFF000#32 >>> 12 = BitVec.allOnes 32 >>> 12 := by decide
  unfold pgAlign
  rw [BitVec.ushiftRight_and_distrib, hmask, ← BitVec.ushiftRight_and_distrib, BitVec.and_allOnes]

theorem pmmFreePage_pgAlign (pmm : Pmm) (page : Word)
    : pmmFreePage pmm (pgAlign page) = pmmFreePage pmm page := by
  unfold pmmFreePage
  rw [pgAlign_shift]

theorem vmmUnmapPage_cases {s : Machine} (h : s.SelfMapped) (va : Word)
    : UnmapPage s va (vmmUnmapPage va s) := by
  have hl1 := l1Index_lt va
  have hl2 := l2Index_lt va
  unfold vmmUnmapPage
  by_cases hslot : l1Index va = 1023
  . rw [if_pos hslot]
    exact .guarded hslot
  . have hlt : l1Index va < 1023 := by omega
    rw [if_neg hslot]
    dsimp only
    rw [bind_ok _ (h.load_l1 _ hl1)]
    by_cases hzero : s.dir (l1Index va) = 0
    . rw [if_neg (not_not.mpr hzero)]
      exact .absent hlt hzero
    . rw [if_pos hzero]
      cases hpresent : isCached (s.dir (l1Index va)) with
      | false =>
        rw [bind_error _ (h.load_l2_fault _ _ hl1 hl2 hpresent)]
        exact .fault hlt hzero _ hpresent
      | true =>
        have hcleared := UnmapPage.cleared hlt hpresent
        unfold releasedEntry at hcleared
        rw [bind_ok _ (h.load_l2 _ _ hl1 hl2 hpresent)]
        split
        . next hcached =>
          have hreleased : (s.released (s.table (l1Index va) (l2Index va))).SelfMapped := h.congr rfl rfl
          rw [if_pos hcached] at hcleared
          unfold released at hcleared
          rw [pmmFreePage_pgAlign] at hcleared
          rw [bind_ok _ (callPmmFreePage_eq s _)]
          rw [hreleased.store_l2 _ _ hl1 hl2 _ hpresent]
          exact hcleared
        . next hcached =>
          rw [if_neg hcached] at hcleared
          rw [h.store_l2 _ _ hl1 hl2 _ hpresent]
          exact hcleared

namespace vmmMapPage

theorem search_ended (s : Machine) (pa tattr : Word) (l1Inx l2Inx : Nat) (hl2 : l2Inx ≤ pgMaxEntries)
    : search pa tattr l1Inx l2Inx hl2 0 s = .ok (.ended l1Inx l2Inx) s := by
  unfold search
  rw [dif_neg (fun hand => hand.1 rfl)]
  rfl

theorem carryEntry_eq {s : Machine} (h : s.SelfMapped) (l1Inx l2Inx : Nat)
    (hlt : (carry l1Inx l2Inx).1 < 1024)
    : carryEntry l1Inx l2Inx (s.dir l1Inx) s = .ok (s.dir (carry l1Inx l2Inx).1) s := by
  unfold carryEntry
  split
  . rw [h.load_l1 _ hlt]
  . next hne =>
    unfold carry
    rw [if_neg hne, pure_eq]

/--
The search does not pass a page below entry 1023 which is not mapped.
-/
theorem search_cases {s : Machine} (h : s.SelfMapped) (pa tattr : Word) (i j : Nat) (hi : i < 1023)
    (hj : j < 1024) (hstop : ¬(isCached (s.dir i) = true ∧ s.table i j ≠ 0)) (l1Inx l2Inx : Nat)
    (hl2 : l2Inx ≤ pgMaxEntries) (hle : l1Inx * 1024 + l2Inx ≤ i * 1024 + j) (hne : s.dir l1Inx ≠ 0)
    : Search s pa tattr (l1Inx * 1024 + l2Inx) (i * 1024 + j)
        (search pa tattr l1Inx l2Inx hl2 (s.dir l1Inx) s) := by
  have hpos := carry_pos l1Inx l2Inx
  have hcarry : (carry l1Inx l2Inx).2 + 1 ≤ pgMaxEntries := carry_le hl2
  simp only [pgMaxEntries] at hpos hcarry
  have hlt1 : (carry l1Inx l2Inx).1 < 1023 := by omega
  have hlt2 : (carry l1Inx l2Inx).2 < 1024 := by omega
  have hcond : s.dir l1Inx ≠ 0 ∧ l1Inx < pgMaxEntries := by
    refine ⟨hne, ?_⟩
    unfold pgMaxEntries
    omega
  unfold search
  rw [dif_pos hcond]
  dsimp only
  rw [bind_ok _ (carryEntry_eq h l1Inx l2Inx (by omega))]
  cases hpresent : isCached (s.dir (carry l1Inx l2Inx).1) with
  | false =>
    rw [bind_error _ (h.load_l2_fault _ _ (by omega) hlt2 hpresent)]
    exact .fault _
  | true =>
    have hl2pt := l2Vaddr_ne_zero (carry l1Inx l2Inx).1 (by omega)
    rw [bind_ok _ (h.load_l2 _ _ (by omega) hlt2 hpresent)]
    by_cases hempty : s.table (carry l1Inx l2Inx).1 (carry l1Inx l2Inx).2 = 0
    . rw [if_pos ⟨hl2pt, hempty⟩, bind_ok _ (h.store_l2 _ _ (by omega) hlt2 _ hpresent)]
      have hfirst := Nat.le_of_eq hpos.symm
      have hlast := Nat.le_trans (Nat.le_of_eq hpos) hle
      exact .mapped _ _ hlt1 hlt2 hfirst hlast hpresent hempty
    . rw [if_neg (fun hand => hempty hand.2)]
      -- page `(i, j)` is still ahead, since it would have ended the search
      have hlt : (carry l1Inx l2Inx).1 * 1024 + (carry l1Inx l2Inx).2 ≠ i * 1024 + j := by
        intro heq
        have h1 : (carry l1Inx l2Inx).1 = i := by omega
        have h2 : (carry l1Inx l2Inx).2 = j := by omega
        rw [h1] at hpresent hempty
        rw [h2] at hempty
        exact hstop ⟨hpresent, hempty⟩
      have hnext : (carry l1Inx l2Inx).1 * 1024 + ((carry l1Inx l2Inx).2 + 1) ≤ i * 1024 + j :=
        Nat.lt_of_le_of_ne (Nat.le_trans (Nat.le_of_eq hpos) hle) hlt
      have hrest := search_cases h pa tattr i j hi hj hstop (carry l1Inx l2Inx).1 ((carry l1Inx l2Inx).2 + 1)
        (carry_le hl2) hnext (ne_zero_of_isCached hpresent)
      have hfirst : l1Inx * 1024 + l2Inx ≤ (carry l1Inx l2Inx).1 * 1024 + ((carry l1Inx l2Inx).2 + 1) := by
        rw [← Nat.add_assoc, hpos]
        exact Nat.le_succ _
      exact hrest.mono hfirst
termination_by i * 1024 + j - (l1Inx * 1024 + l2Inx)
decreasing_by
  simp only [pgMaxEntries] at hpos
  omega

end vmmMapPage

/--
Page `k` of the range that starts at `va`.
-/
def pageAt (va : Word) (k : Nat) : Word :=
  va + BitVec.ofNat 32 (4096 * k)

theorem pageAt_zero (va : Word) : pageAt va 0 = va := by
  simp [pageAt]

theorem pageAt_succ_left (va : Word) (k : Nat) : pageAt va (k + 1) = pageAt va k + 0x1000 := by
  have : BitVec.ofNat 32 (4096 * (k + 1)) = BitVec.ofNat 32 (4096 * k) + 0x1000#32 := by
    rw [Nat.mul_add, BitVec.ofNat_add]
  simp only [pageAt, this, BitVec.add_assoc, BitVec.ofNat_eq_ofNat]

theorem pageAt_succ (va : Word) (k : Nat) : pageAt (va + 0x1000) k = pageAt va (k + 1) := by
  have : BitVec.ofNat 32 (4096 * (k + 1)) = 0x1000#32 + BitVec.ofNat 32 (4096 * k) := by
    rw [Nat.mul_add, Nat.add_comm, BitVec.ofNat_add]
  simp only [pageAt, this, BitVec.add_assoc, BitVec.ofNat_eq_ofNat]

end AwaOS
