import AwaOS.Vmm.Ownership

/-!
What the operations on mappings do to the entries of the directory, and in particular to entry 1023.
-/

namespace AwaOS

namespace Machine

/--
`s'` comes from `s` by filling empty entries of the directory below entry 1023 with frames that were
free in `s`. The words of the new tables are zero except at the entries in `targets`.
-/
structure DirKept (targets : Nat → Nat → Prop) (s s' : Machine) : Prop where
  recursive : s'.Recursive
  filled : ∀ i, i < 1024 →
    s'.dir i = s.dir i
      ∨
    (i < 1023
      ∧ s.dir i = 0
      ∧ s.pmm.occupied (frameOf (s'.dir i)) = false
      ∧ ∀ j, j < 1024 → s'.table i j ≠ 0 → targets i j)

/--
While pages are only added, the tables stay occupied, no frame is freed and no entry is removed.
-/
structure Progress (targets : Nat → Nat → Prop) (s s' : Machine) : Prop extends DirKept targets s s' where
  occupied : s'.TablesOccupied
  mono : ∀ frame, s.pmm.occupied frame = true → s'.pmm.occupied frame = true
  untouched : ∀ i j, i < 1023 → j < 1024 → s.dir i ≠ 0 → s'.table i j = s.table i j ∨ targets i j
  mapped : ∀ i j, i < 1024 → j < 1024 → s.dir i ≠ 0 → s.table i j ≠ 0 → s'.table i j ≠ 0

/--
`__vmm_map_internal` without `forced` would put a mapping there.
-/
def FreeAt (s : Machine) (i j : Nat) : Prop :=
  s.dir i = 0 ∨ (isCached (s.dir i) = true ∧ s.table i j = 0)

/--
If table `i` is made with these attributes, then it can be cleared.
-/
def TableReady (s : Machine) (attr : Word) (i : Nat) : Prop :=
  s.dir i ≠ 0 ∨ isCached attr = true ∨ (pmmAllocPage s.pmm).1 = 0

variable {s s' s'' : Machine} {targets : Nat → Nat → Prop}

theorem DirKept.dir_ne (h : DirKept targets s s') (i : Nat) (hi : i < 1024) (hne : s.dir i ≠ 0)
    : s'.dir i = s.dir i := by
  cases h.filled i hi with
  | inl hsame => exact hsame
  | inr hfilled => exact absurd hfilled.2.1 hne

theorem Progress.refl (hrec : s.Recursive) (hocc : s.TablesOccupied) : Progress targets s s where
  recursive := hrec
  filled := fun _ _ => Or.inl rfl
  occupied := hocc
  mono := fun _ h => h
  untouched := fun _ _ _ _ _ => Or.inl rfl
  mapped := fun _ _ _ _ _ h => h

theorem Progress.trans (h : Progress targets s s') (h' : Progress targets s' s'')
    : Progress targets s s'' where
  recursive := h'.recursive
  filled := by
    intro i hi
    by_cases hzero : s'.dir i = 0
    . have hs : s.dir i = 0 := by
        by_cases hs : s.dir i = 0
        . exact hs
        . rw [← h.dir_ne i hi hs]
          exact hzero
      cases h'.filled i hi with
      | inl hsame =>
        left
        rw [hsame, hzero, hs]
      | inr hfilled =>
        obtain ⟨hlt, _, hfree, hwords⟩ := hfilled
        right
        refine ⟨hlt, hs, ?_, hwords⟩
        -- what is free in `s'` was free in `s`
        by_contra hocc
        rw [Bool.not_eq_false] at hocc
        rw [h.mono _ hocc] at hfree
        contradiction
    . have hsame := h'.dir_ne i hi hzero
      rw [hsame]
      cases h.filled i hi with
      | inl hs => exact Or.inl hs
      | inr hfilled =>
        obtain ⟨hlt, hs, hfree, hwords⟩ := hfilled
        right
        refine ⟨hlt, hs, hfree, ?_⟩
        intro j hj hne
        cases h'.untouched i j hlt hj hzero with
        | inl hword =>
          rw [hword] at hne
          exact hwords j hj hne
        | inr htarget => exact htarget
  occupied := h'.occupied
  mono := fun frame hframe => h'.mono frame (h.mono frame hframe)
  untouched := by
    intro i j hi hj hne
    have hne' : s'.dir i ≠ 0 := by
      rw [h.dir_ne i (by omega) hne]
      exact hne
    cases h'.untouched i j hi hj hne' with
    | inl hword =>
      rw [hword]
      exact h.untouched i j hi hj hne
    | inr htarget => exact Or.inr htarget
  mapped := by
    intro i j hi hj hne hword
    have hne' : s'.dir i ≠ 0 := by
      rw [h.dir_ne i hi hne]
      exact hne
    exact h'.mapped i j hi hj hne' (h.mapped i j hi hj hne hword)

theorem progress_allocated (hrec : s.Recursive) (hocc : s.TablesOccupied)
    : Progress targets s s.allocated where
  recursive := hrec.congr rfl rfl
  filled := fun _ _ => Or.inl rfl
  occupied := by
    intro i hi hne
    exact s.occupied_allocated _ (hocc i hi hne)
  mono := s.occupied_allocated
  untouched := fun _ _ _ _ _ => Or.inl rfl
  mapped := fun _ _ _ _ _ h => h

theorem progress_setTable (hrec : s.Recursive) (hocc : s.TablesOccupied) (i j : Nat) (w : Word) (hi : i < 1023)
    (hpresent : isCached (s.dir i) = true) (hempty : s.table i j = 0) (htarget : targets i j)
    : Progress targets s (s.setTable i j w) where
  recursive := hrec.setTable i j w hi (ne_zero_of_isCached hpresent)
  filled := by
    intro k _
    left
    exact hrec.dir_setTable i j w hi (ne_zero_of_isCached hpresent) k
  occupied := by
    intro k hk
    rw [hrec.dir_setTable i j w hi (ne_zero_of_isCached hpresent)]
    exact hocc k hk
  mono := fun _ h => h
  untouched := by
    intro k l hk _ hne
    rw [hrec.table_setTable i j w hi (ne_zero_of_isCached hpresent) k l (by omega) hne]
    split
    . next heq =>
      right
      rw [heq.1, heq.2]
      exact htarget
    . left
      rfl
  mapped := by
    intro k l hk _ hne hword
    rw [hrec.table_setTable i j w hi (ne_zero_of_isCached hpresent) k l hk hne, if_neg]
    . exact hword
    . intro heq
      rw [heq.1, heq.2] at hword
      exact hword hempty

theorem progress_installTable (hrec : s.Recursive) (hocc : s.TablesOccupied) (i : Nat) (attr : Word)
    (hi : i < 1023) (hzero : s.dir i = 0) (hfound : (pmmAllocPage s.pmm).1 ≠ 0)
    : Progress targets s (s.allocated.installTable i (newL1Entry attr (pmmAllocPage s.pmm).1)) := by
  have hrec' : s.allocated.Recursive := hrec.congr rfl rfl
  have hfresh : s.allocated.Fresh (frameOf (newL1Entry attr (pmmAllocPage s.pmm).1)) :=
    hocc.fresh_newL1Entry hfound attr
  have hframe : frameOf (newL1Entry attr (pmmAllocPage s.pmm).1) = ((pmmAllocPage s.pmm).1 >>> 12).toNat := by
    rw [newL1Entry_eq, frameOf_newL2Entry]
  constructor
  . constructor
    . exact hrec'.installTable i _ hi hfresh
    . intro k _
      rw [hrec'.dir_installTable i _ hfresh]
      by_cases hki : k = i
      . right
        rw [if_pos hki, hki, hframe]
        refine ⟨hi, hzero, (pmmAllocPage_took s.pmm hfound).free, ?_⟩
        intro j hj hword
        rw [hrec'.table_installTable i _ hfresh i j hi (Or.inl rfl) hj, if_pos rfl] at hword
        contradiction
      . left
        rw [if_neg hki, dir_allocated]
  . intro k hk
    rw [hrec'.dir_installTable i _ hfresh, pmm_installTable]
    intro hne
    by_cases hki : k = i
    . rw [if_pos hki, hframe]
      exact s.occupied_allocated_self hfound
    . rw [if_neg hki] at *
      exact s.occupied_allocated _ (hocc k hk hne)
  . intro frame hoccupied
    rw [pmm_installTable]
    exact s.occupied_allocated frame hoccupied
  . intro k l hk hl hne
    left
    rw [hrec'.table_installTable i _ hfresh k l hk (Or.inr hne) hl, if_neg]
    . rfl
    . intro hki
      rw [hki] at hne
      exact hne hzero
  . intro k l hk hl hne hword
    by_cases hk' : k = 1023
    . subst hk'
      have hself := (hrec'.installTable i _ hi hfresh).table_self l
      rw [hself, hrec'.dir_installTable i _ hfresh, if_neg]
      . rw [hrec.table_self] at hword
        exact hword
      . intro hli
        rw [hrec.table_self, hli] at hword
        exact hword hzero
    . rw [hrec'.table_installTable i _ hfresh k l (by omega) (Or.inr hne) hl, if_neg]
      . exact hword
      . intro hki
        rw [hki] at hne
        exact hne hzero

/--
A page that is free at the end was free before.
-/
theorem Progress.free (h : Progress targets s s') (i j : Nat) (hi : i < 1024) (hj : j < 1024)
    (hfree : s'.FreeAt i j)
    : s.FreeAt i j := by
  by_cases hzero : s.dir i = 0
  . exact Or.inl hzero
  . unfold FreeAt at hfree
    rw [h.dir_ne i hi hzero] at hfree
    have hfree := hfree.resolve_left hzero
    right
    refine ⟨hfree.1, ?_⟩
    by_contra hword
    exact h.mapped i j hi hj hzero hword hfree.2

end Machine

open Machine

/--
`__vmm_map_internal` proceeds if it is kept from the last entry of the directory.
-/
theorem vmmMapInternal_progress {s : Machine} {targets : Nat → Nat → Prop} (hrec : s.Recursive)
    (hocc : s.TablesOccupied) (i j : Nat) (hi : i < 1024) (hj : j < 1024) (pa attr : Word)
    (htarget : targets i j) (hsafe : s.FreeAt i j → i < 1023 ∧ s.TableReady attr i)
    : Progress targets s (finalState (vmmMapInternal i j pa attr false s))
        ∧
      ∀ s', vmmMapInternal i j pa attr false s = .ok true s' → s.FreeAt i j := by
  have hentry : ∀ s₁, Progress targets s s₁ → (s₁.FreeAt i j → i < 1023) →
      Progress targets s (finalState (vmmMapInternal.makeEntry i j pa attr false s₁))
        ∧
      ∀ s', vmmMapInternal.makeEntry i j pa attr false s₁ = .ok true s' → s.FreeAt i j := by
    intro s₁ hprogress hslot
    have hcases := vmmMapInternal.makeEntry_cases hprogress.recursive.toSelfMapped i j hi hj pa attr false
    generalize vmmMapInternal.makeEntry i j pa attr false s₁ = r at hcases ⊢
    cases hcases with
    | fault habsent => exact ⟨hprogress, by simp⟩
    | taken hpresent hne hforced => exact ⟨hprogress, by simp⟩
    | made hpresent hempty =>
      have hfree : s₁.FreeAt i j := Or.inr ⟨hpresent, hempty⟩
      have hmade : Progress targets s₁ _ := progress_setTable hprogress.recursive hprogress.occupied i j
        (newL2Entry attr pa) (hslot hfree) hpresent hempty htarget
      exact ⟨hprogress.trans hmade, fun _ _ => hprogress.free i j hi hj hfree⟩
    | forced hpresent hne hforced => contradiction
  have htable := vmmMapInternal.makeTable_cases hrec.toSelfMapped hocc i hi attr
  rw [vmmMapInternal_eq]
  generalize vmmMapInternal.makeTable i attr s = r at htable ⊢
  cases htable with
  | kept hne => exact hentry s (.refl hrec hocc) (fun hfree => (hsafe hfree).1)
  | null hzero hnull => exact ⟨progress_allocated hrec hocc, by simp⟩
  | made hzero hfound hattr =>
    have hslot := (hsafe (Or.inl hzero)).1
    exact hentry _ (progress_installTable hrec hocc i attr hslot hzero hfound) (fun _ => hslot)
  | fault hzero hfound hattr =>
    -- a table without `PG_PRESENT` is excluded
    obtain hne | hpresent | hnull := (hsafe (Or.inl hzero)).2
    . exact absurd hzero hne
    . rw [hattr] at hpresent
      contradiction
    . exact absurd hnull hfound

namespace Machine

variable {s s' s'' : Machine} {targets : Nat → Nat → Prop}

/--
`s'` comes from `s` by removing mappings.
-/
structure Removed (targets : Nat → Nat → Prop) (s s' : Machine) : Prop where
  recursive : s'.Recursive
  dir : ∀ i, s'.dir i = s.dir i
  untouched : ∀ i j, i < 1023 → j < 1024 → s.dir i ≠ 0 → s'.table i j = s.table i j ∨ targets i j

theorem Removed.refl (hrec : s.Recursive) : Removed targets s s where
  recursive := hrec
  dir := fun _ => rfl
  untouched := fun _ _ _ _ _ => Or.inl rfl

theorem Removed.trans (h : Removed targets s s') (h' : Removed targets s' s'')
    : Removed targets s s'' where
  recursive := h'.recursive
  dir := fun i => (h'.dir i).trans (h.dir i)
  untouched := by
    intro i j hi hj hne
    have hne' : s'.dir i ≠ 0 := by
      rw [h.dir]
      exact hne
    cases h'.untouched i j hi hj hne' with
    | inl hword =>
      rw [hword]
      exact h.untouched i j hi hj hne
    | inr htarget => exact Or.inr htarget

theorem DirKept.removed (h : DirKept targets s s') (h' : Removed targets s' s'')
    : DirKept targets s s'' where
  recursive := h'.recursive
  filled := by
    intro i hi
    rw [h'.dir]
    by_cases hzero : s'.dir i = 0
    . left
      by_cases hs : s.dir i = 0
      . rw [hzero, hs]
      . exact h.dir_ne i hi hs
    . cases h.filled i hi with
      | inl hsame => exact Or.inl hsame
      | inr hfilled =>
        obtain ⟨hlt, hs, hfree, hwords⟩ := hfilled
        right
        refine ⟨hlt, hs, hfree, ?_⟩
        intro j hj hne
        cases h'.untouched i j hlt hj hzero with
        | inl hword =>
          rw [hword] at hne
          exact hwords j hj hne
        | inr htarget => exact htarget

theorem removed_congr (hrec : s.Recursive) (hmem : s'.mem = s.mem) (hcr3 : s'.cr3 = s.cr3)
    : Removed targets s s' where
  recursive := hrec.congr hmem hcr3
  dir := dir_congr hmem hcr3
  untouched := fun i j _ _ _ => Or.inl (table_congr hmem hcr3 i j)

theorem removed_setTable (hrec : s.Recursive) (i j : Nat) (w : Word) (hi : i < 1023) (hne : s.dir i ≠ 0)
    (htarget : targets i j)
    : Removed targets s (s.setTable i j w) where
  recursive := hrec.setTable i j w hi hne
  dir := hrec.dir_setTable i j w hi hne
  untouched := by
    intro k l hk _ hkne
    rw [hrec.table_setTable i j w hi hne k l (by omega) hkne]
    split
    . next heq =>
      right
      rw [heq.1, heq.2]
      exact htarget
    . left
      rfl

theorem dirKept_of_dir (hrec : s'.Recursive) (hdir : ∀ i, s'.dir i = s.dir i) : DirKept targets s s' where
  recursive := hrec
  filled := fun i _ => Or.inl (hdir i)

theorem DirKept.of_allocated (h : DirKept targets s.allocated s') : DirKept targets s s' where
  recursive := h.recursive
  filled := by
    intro i hi
    cases h.filled i hi with
    | inl hsame => exact Or.inl hsame
    | inr hfilled =>
      obtain ⟨hlt, hzero, hfree, hwords⟩ := hfilled
      right
      refine ⟨hlt, hzero, ?_, hwords⟩
      by_contra hocc
      rw [Bool.not_eq_false] at hocc
      rw [s.occupied_allocated _ hocc] at hfree
      contradiction

theorem Removed.dirKept (h : Removed targets s s') : DirKept targets s s' :=
  dirKept_of_dir h.recursive h.dir

end Machine

theorem vmmUnmapPage_removed {s : Machine} {targets : Nat → Nat → Prop} (hrec : s.Recursive) (va : Word)
    (htarget : targets (l1Index va) (l2Index va))
    : Removed targets s (finalState (vmmUnmapPage va s)) := by
  have hcases := vmmUnmapPage_cases hrec.toSelfMapped va
  generalize vmmUnmapPage va s = r at hcases ⊢
  cases hcases with
  | guarded hslot => exact .refl hrec
  | absent hslot hzero => exact .refl hrec
  | fault hslot hne e habsent => exact .refl hrec
  | cleared hslot hpresent =>
    have hreleased : Removed targets s _ := removed_congr hrec
      (s.releasedEntry_mem (s.table (l1Index va) (l2Index va)))
      (s.releasedEntry_cr3 (s.table (l1Index va) (l2Index va)))
    apply hreleased.trans
    apply removed_setTable hreleased.recursive _ _ _ hslot _ htarget
    rw [hreleased.dir]
    exact ne_zero_of_isCached hpresent

theorem vmmUnmapPages_removed {s : Machine} {targets : Nat → Nat → Prop} (hrec : s.Recursive) (va : Word)
    (count : Nat) (htarget : ∀ k, k < count → targets (l1Index (pageAt va k)) (l2Index (pageAt va k)))
    : Removed targets s (finalState (vmmUnmapPages va count s)) := by
  induction count generalizing s va with
  | zero => exact .refl hrec
  | succ count ih =>
    have hfirst := htarget 0 (by omega)
    rw [pageAt_zero] at hfirst
    have hremoved := vmmUnmapPage_removed hrec va hfirst
    unfold vmmUnmapPages
    cases hunmap : vmmUnmapPage va s with
    | error e s' =>
      rw [hunmap] at hremoved
      rw [bind_error _ hunmap]
      exact hremoved
    | ok _ s' =>
      rw [hunmap] at hremoved
      rw [bind_ok _ hunmap]
      apply hremoved.trans
      apply ih hremoved.recursive
      intro k hk
      rw [pageAt_succ]
      exact htarget (k + 1) (by omega)

/--
`vmm_alloc_pages` stops at the first page that is not free. Up to there the range stays below the last
entry of the directory, and its tables exist or can be cleared.
-/
def SafeRange (s : Machine) (attr va : Word) (count : Nat) : Prop :=
  ∀ i, i < count →
    (∀ k, k ≤ i → s.FreeAt (l1Index (pageAt va k)) (l2Index (pageAt va k))) →
      l1Index (pageAt va i) < 1023 ∧ (s.dir (l1Index (pageAt va i)) ≠ 0 ∨ isCached attr = true)

theorem SafeRange.next {s s' : Machine} {targets : Nat → Nat → Prop} {attr va : Word} {count : Nat}
    (h : SafeRange s attr va (count + 1)) (hprogress : Progress targets s s')
    (hfree : s.FreeAt (l1Index va) (l2Index va))
    : SafeRange s' attr (va + 0x1000) count := by
  intro i hi hbefore
  rw [pageAt_succ]
  have hall : ∀ k, k ≤ i + 1 → s.FreeAt (l1Index (pageAt va k)) (l2Index (pageAt va k)) := by
    intro k hk
    cases k with
    | zero =>
      rw [pageAt_zero]
      exact hfree
    | succ k =>
      have hk' := hbefore k (by omega)
      rw [pageAt_succ] at hk'
      exact hprogress.free _ _ (l1Index_lt _) (l2Index_lt _) hk'
  obtain ⟨hlt, hready⟩ := h (i + 1) (by omega) hall
  refine ⟨hlt, ?_⟩
  cases hready with
  | inl hne =>
    left
    rw [hprogress.dir_ne _ (l1Index_lt _) hne]
    exact hne
  | inr hattr => exact Or.inr hattr

theorem mapNext_progress {s : Machine} {targets : Nat → Nat → Prop} (hrec : s.Recursive)
    (hocc : s.TablesOccupied) (va attr : Word) (count : Nat) (htarget : targets (l1Index va) (l2Index va))
    (hsafe : SafeRange s attr va (count + 1))
    : Progress targets s (finalState (vmmAllocPages.mapNext va attr s))
        ∧
      ∀ s', vmmAllocPages.mapNext va attr s = .ok true s' → s.FreeAt (l1Index va) (l2Index va) := by
  have hallocated : Progress targets s s.allocated := progress_allocated hrec hocc
  unfold vmmAllocPages.mapNext
  rw [bind_ok _ (callPmmAllocPage_eq s)]
  by_cases hnull : (pmmAllocPage s.pmm).1 = 0
  . rw [if_pos hnull]
    exact ⟨hallocated, by simp [pure_eq]⟩
  . rw [if_neg hnull]
    have hsafe' : s.FreeAt (l1Index va) (l2Index va) →
        l1Index va < 1023 ∧ s.allocated.TableReady attr (l1Index va) := by
      intro hfree
      have hfirst := hsafe 0 (by omega)
      rw [pageAt_zero] at hfirst
      have := hfirst (by
        intro k hk
        rw [Nat.le_zero.mp hk, pageAt_zero]
        exact hfree)
      exact ⟨this.1, this.2.imp_right Or.inl⟩
    have hmapped := vmmMapInternal_progress hallocated.recursive hallocated.occupied _ _ (l1Index_lt va)
      (l2Index_lt va) (pmmAllocPage s.pmm).1 attr htarget hsafe'
    exact ⟨hallocated.trans hmapped.1, hmapped.2⟩

theorem vmmAllocPages_go_dirKept {s₀ s : Machine} {targets : Nat → Nat → Prop} (va tattr : Word) (i : Nat)
    (va_ : Word) (count : Nat) (hva : va_ = pageAt va i)
    (htarget : ∀ k, k < i + count → targets (l1Index (pageAt va k)) (l2Index (pageAt va k)))
    (hprogress : Progress targets s₀ s) (hsafe : SafeRange s tattr va_ count)
    : DirKept targets s₀ (finalState (vmmAllocPages.go va tattr i va_ count s)) := by
  induction count generalizing s i va_ with
  | zero => exact hprogress.toDirKept
  | succ count ih =>
    have hthis := htarget i (by omega)
    rw [← hva] at hthis
    have hnext := mapNext_progress hprogress.recursive hprogress.occupied va_ tattr count hthis hsafe
    unfold vmmAllocPages.go
    cases hresult : vmmAllocPages.mapNext va_ tattr s with
    | error e s' =>
      rw [hresult] at hnext
      rw [bind_error _ hresult]
      exact (hprogress.trans hnext.1).toDirKept
    | ok mapped s' =>
      rw [hresult] at hnext
      rw [bind_ok _ hresult]
      have hprogress' := hprogress.trans hnext.1
      cases mapped with
      | true =>
        apply ih (i + 1)
        . rw [hva]
          exact (pageAt_succ_left va i).symm
        . intro k hk
          exact htarget k (by omega)
        . exact hprogress'
        . exact hsafe.next hnext.1 (hnext.2 s' rfl)
      | false =>
        have hremoved : Removed targets s' _ := vmmUnmapPages_removed hprogress'.recursive va i
          (fun k hk => htarget k (by omega))
        have hkept := hprogress'.toDirKept.removed hremoved
        simp only [Bool.not_false, ↓reduceIte]
        cases hunmap : vmmUnmapPages va i s' with
        | ok _ s'' =>
          rw [bind_ok _ hunmap, pure_eq]
          rw [finalState, hunmap] at hkept
          exact hkept
        | error e s'' =>
          rw [bind_error _ hunmap]
          rw [finalState, hunmap] at hkept
          exact hkept

theorem setTable_same (s : Machine) (i j : Nat) : (s.setTable i j (s.table i j)).mem = s.mem := by
  unfold Machine.setTable setWord table
  dsimp
  rw [Function.update_eq_self, Function.update_eq_self]

/--
With `forced` the entry of a page below the last entry of the directory may be replaced. In the last one
only the entry that is there already may be written.
-/
theorem vmmMapInternal_forced {s : Machine} {targets : Nat → Nat → Prop} (hrec : s.Recursive)
    (hocc : s.TablesOccupied) (i j : Nat) (hi : i < 1024) (hj : j < 1024) (pa attr : Word)
    (htarget : targets i j)
    (hsafe : (i < 1023 ∧ s.TableReady attr i) ∨ (i = 1023 ∧ s.dir j = newL2Entry attr pa))
    : DirKept targets s (finalState (vmmMapInternal i j pa attr true s)) := by
  have hentry : ∀ s₁, Progress targets s s₁ → i < 1023 →
      DirKept targets s (finalState (vmmMapInternal.makeEntry i j pa attr true s₁)) := by
    intro s₁ hprogress hslot
    have hcases := vmmMapInternal.makeEntry_cases hprogress.recursive.toSelfMapped i j hi hj pa attr true
    generalize vmmMapInternal.makeEntry i j pa attr true s₁ = r at hcases ⊢
    cases hcases with
    | fault habsent => exact hprogress.toDirKept
    | taken hpresent hne hforced => contradiction
    | made hpresent hempty =>
      apply hprogress.toDirKept.removed
      exact removed_setTable hprogress.recursive i j _ hslot (ne_zero_of_isCached hpresent) htarget
    | forced hpresent hne hforced =>
      have hreleased : Removed targets s₁ _ := removed_congr hprogress.recursive
        (s₁.releasedEntry_mem (s₁.table i j)) (s₁.releasedEntry_cr3 (s₁.table i j))
      apply hprogress.toDirKept.removed
      apply hreleased.trans
      apply removed_setTable hreleased.recursive i j _ hslot _ htarget
      rw [hreleased.dir]
      exact ne_zero_of_isCached hpresent
  have htable := vmmMapInternal.makeTable_cases hrec.toSelfMapped hocc i hi attr
  rw [vmmMapInternal_eq]
  generalize vmmMapInternal.makeTable i attr s = r at htable ⊢
  cases hsafe with
  | inl hbelow =>
    obtain ⟨hslot, hready⟩ := hbelow
    cases htable with
    | kept hne => exact hentry s (.refl hrec hocc) hslot
    | null hzero hnull => exact (progress_allocated hrec hocc).toDirKept
    | made hzero hfound hattr =>
      exact hentry _ (progress_installTable hrec hocc i attr hslot hzero hfound) hslot
    | fault hzero hfound hattr =>
      obtain hne | hpresent | hnull := hready
      . exact absurd hzero hne
      . rw [hattr] at hpresent
        contradiction
      . exact absurd hnull hfound
  | inr hlast =>
    obtain ⟨rfl, hsame⟩ := hlast
    have hne := ne_zero_of_isCached hrec.present
    have hword : newL2Entry attr pa = s.table 1023 j := by rw [hrec.table_self, hsame]
    cases htable with
    | kept hne' =>
      have hcases := vmmMapInternal.makeEntry_cases hrec.toSelfMapped 1023 j hi hj pa attr true
      dsimp only
      generalize vmmMapInternal.makeEntry 1023 j pa attr true s = r at hcases ⊢
      apply Removed.dirKept
      cases hcases with
      | fault habsent => exact .refl hrec
      | taken hpresent hne hforced => exact .refl hrec
      | made hpresent hempty =>
        rw [hword]
        exact removed_congr hrec (setTable_same s 1023 j) rfl
      | forced hpresent hne hforced =>
        have hreleased : Removed targets s _ := removed_congr hrec (s.releasedEntry_mem (s.table 1023 j))
          (s.releasedEntry_cr3 (s.table 1023 j))
        have hword' : newL2Entry attr pa = (s.releasedEntry (s.table 1023 j)).table 1023 j := by
          rw [table_congr (s.releasedEntry_mem _) (s.releasedEntry_cr3 _), hword]
        apply hreleased.trans
        rw [hword']
        exact removed_congr hreleased.recursive (setTable_same _ 1023 j) rfl
    | null hzero hnull => exact absurd hzero hne
    | made hzero hfound hattr => exact absurd hzero hne
    | fault hzero hfound hattr => exact absurd hzero hne

/--
`vmm_map_page` finds a page that is not mapped before it reaches the last entry of the directory.
-/
def SearchEnds (s : Machine) (va : Word) : Prop :=
  ∃ i j, i < 1023
    ∧ j < 1024
    ∧ l1Index va * 1024 + l2Index va ≤ i * 1024 + j
    ∧ ¬(isCached (s.dir i) = true ∧ s.table i j ≠ 0)

theorem vmmMapPage_dirKept {s : Machine} {targets : Nat → Nat → Prop} (hrec : s.Recursive)
    (hocc : s.TablesOccupied) (va pa tattr : Word) (htarget : targets (l1Index va) (l2Index va))
    (hsafe : pa = 0 ∨ va = 0 ∨ (SearchEnds s va ∧ s.TableReady tattr (l1Index va)))
    : DirKept targets s (finalState (vmmMapPage va pa tattr s)) := by
  unfold vmmMapPage
  by_cases hnull : pa = 0 ∨ va = 0
  . rw [if_pos hnull]
    exact (Progress.refl hrec hocc).toDirKept
  . obtain ⟨⟨i, j, hi, hj, hle, hstop⟩, hready⟩ := (or_assoc.mpr hsafe).resolve_left hnull
    have hl2 := l2Index_lt va
    rw [if_neg hnull]
    rw [bind_ok _ (hrec.load_l1 _ (l1Index_lt va))]
    by_cases hzero : s.dir (l1Index va) = 0
    . have hended := vmmMapPage.search_ended s pa tattr (l1Index va) (l2Index va) (l2Index_le va)
      have hslot : l1Index va < 1023 := by omega
      have hsmall : ¬l1Index va > pgMaxEntries := by
        unfold pgMaxEntries
        omega
      rw [← hzero] at hended
      rw [bind_ok _ hended]
      dsimp only
      rw [if_neg hsmall, finalState_bind]
      . exact (vmmMapInternal_progress hrec hocc _ _ (l1Index_lt va) hl2 pa tattr htarget
          (fun _ => ⟨hslot, hready⟩)).1.toDirKept
      . intro made s'
        cases made with
        | true => rfl
        | false => rfl
    . have hsearch := vmmMapPage.search_cases hrec.toSelfMapped pa tattr i j hi hj hstop (l1Index va)
        (l2Index va) (l2Index_le va) hle hzero
      generalize hresult : vmmMapPage.search pa tattr (l1Index va) (l2Index va) (l2Index_le va)
        (s.dir (l1Index va)) s = r at hsearch
      cases hsearch with
      | fault e =>
        rw [bind_error _ hresult]
        exact (Progress.refl hrec hocc).toDirKept
      | mapped i j hi hj _ _ hpresent hempty =>
        have hne := ne_zero_of_isCached hpresent
        rw [bind_ok _ hresult]
        exact dirKept_of_dir (hrec.setTable i j _ hi hne) (hrec.dir_setTable i j _ hi hne)

theorem vmmFmapPage_dirKept {s : Machine} {targets : Nat → Nat → Prop} (hrec : s.Recursive)
    (hocc : s.TablesOccupied) (va pa tattr : Word) (htarget : targets (l1Index va) (l2Index va))
    (hsafe : pa = 0
      ∨ va = 0
      ∨ (l1Index va < 1023 ∧ s.TableReady tattr (l1Index va))
      ∨ (l1Index va = 1023 ∧ s.dir (l2Index va) = newL2Entry tattr pa))
    : DirKept targets s (finalState (vmmFmapPage va pa tattr s)) := by
  unfold vmmFmapPage
  by_cases hnull : pa = 0 ∨ va = 0
  . rw [if_pos hnull]
    exact (Progress.refl hrec hocc).toDirKept
  . rw [if_neg hnull, finalState_bind]
    . exact vmmMapInternal_forced hrec hocc _ _ (l1Index_lt va) (l2Index_lt va) pa tattr htarget
        ((or_assoc.mpr hsafe).resolve_left hnull)
    . intro mapped s'
      cases mapped with
      | true => rfl
      | false => rfl

theorem vmmAllocPage_dirKept {s : Machine} {targets : Nat → Nat → Prop} (hrec : s.Recursive)
    (hocc : s.TablesOccupied) (vpn tattr : Word) (htarget : targets (l1Index vpn) (l2Index vpn))
    (hsafe : (pmmAllocPage s.pmm).1 = 0
      ∨ vpn = 0
      ∨ (SearchEnds s vpn ∧ s.allocated.TableReady tattr (l1Index vpn)))
    : DirKept targets s (finalState (vmmAllocPage vpn tattr s)) := by
  have hallocated : Progress targets s s.allocated := progress_allocated hrec hocc
  have hmapped : DirKept targets s _ := (vmmMapPage_dirKept hallocated.recursive hallocated.occupied vpn
    (pmmAllocPage s.pmm).1 tattr htarget hsafe).of_allocated
  unfold vmmAllocPage
  rw [bind_ok _ (callPmmAllocPage_eq s)]
  cases hresult : vmmMapPage vpn (pmmAllocPage s.pmm).1 tattr s.allocated with
  | error e s' =>
    rw [hresult] at hmapped
    rw [bind_error _ hresult]
    exact hmapped
  | ok result s' =>
    rw [hresult] at hmapped
    rw [bind_ok _ hresult]
    split
    . rw [bind_ok _ (callPmmFreePage_eq s' _)]
      exact hmapped.removed (removed_congr hmapped.recursive rfl rfl)
    . exact hmapped

theorem vmmSetMapping_dirKept {s : Machine} {targets : Nat → Nat → Prop} (hrec : s.Recursive)
    (hocc : s.TablesOccupied) (va pa attr : Word) (htarget : targets (l1Index va) (l2Index va))
    (hsafe : l1Index va = 1023 ∨ s.TableReady attr (l1Index va))
    : DirKept targets s (finalState (vmmSetMapping va pa attr s)) := by
  have hl1 := l1Index_lt va
  unfold vmmSetMapping
  by_cases hslot : l1Index va = 1023
  . rw [if_pos hslot]
    exact (Progress.refl hrec hocc).toDirKept
  . rw [if_neg hslot, finalState_bind (fun _ _ => rfl)]
    exact (vmmMapInternal_progress hrec hocc _ _ hl1 (l2Index_lt va) pa attr htarget
      (fun _ => ⟨by omega, hsafe.resolve_left hslot⟩)).1.toDirKept

/--
The operations on mappings.
-/
inductive VmmOp where
  | mapPage (va pa tattr : Word)
  | fmapPage (va pa tattr : Word)
  | allocPage (vpn tattr : Word)
  | allocPages (va sz tattr : Word)
  | setMapping (va pa attr : Word)
  | unmapPage (va : Word)

namespace VmmOp

def run : VmmOp → KernelM Unit
  | mapPage va pa tattr => do
    let _ ← vmmMapPage va pa tattr
  | fmapPage va pa tattr => do
    let _ ← vmmFmapPage va pa tattr
  | allocPage vpn tattr => do
    let _ ← vmmAllocPage vpn tattr
  | allocPages va sz tattr => do
    let _ ← vmmAllocPages va sz tattr
  | setMapping va pa attr => vmmSetMapping va pa attr
  | unmapPage va => vmmUnmapPage va

/--
The entries that an operation may write in a new page table.
-/
def targets : VmmOp → Nat → Nat → Prop
  | mapPage va _ _, i, j => i = l1Index va ∧ j = l2Index va
  | fmapPage va _ _, i, j => i = l1Index va ∧ j = l2Index va
  | allocPage vpn _, i, j => i = l1Index vpn ∧ j = l2Index vpn
  | allocPages va sz _, i, j => ∃ k, k < (sz >>> 12).toNat ∧ i = l1Index (pageAt va k)
    ∧ j = l2Index (pageAt va k)
  | setMapping va _ _, i, j => i = l1Index va ∧ j = l2Index va
  | unmapPage _, _, _ => False

/--
The operation does not reach the last entry of the directory, and makes no table that it can not clear.
-/
def Safe (s : Machine) (op : VmmOp) : Prop :=
  s.TablesOccupied
    ∧
  match op with
  | mapPage va pa tattr => pa = 0 ∨ va = 0 ∨ (SearchEnds s va ∧ s.TableReady tattr (l1Index va))
  | fmapPage va pa tattr =>
    pa = 0
      ∨ va = 0
      ∨ (l1Index va < 1023 ∧ s.TableReady tattr (l1Index va))
      ∨ (l1Index va = 1023 ∧ s.dir (l2Index va) = newL2Entry tattr pa)
  | allocPage vpn tattr =>
    (pmmAllocPage s.pmm).1 = 0
      ∨ vpn = 0
      ∨ (SearchEnds s vpn ∧ s.allocated.TableReady tattr (l1Index vpn))
  | allocPages va sz tattr => SafeRange s tattr va (sz >>> 12).toNat
  | setMapping va _ attr => l1Index va = 1023 ∨ s.TableReady attr (l1Index va)
  | unmapPage _ => True

theorem run_dirKept {s : Machine} (hrec : s.Recursive) (op : VmmOp) (hsafe : op.Safe s)
    : DirKept op.targets s (finalState (op.run s)) := by
  obtain ⟨hocc, hsafe⟩ := hsafe
  cases op with
  | mapPage va pa tattr =>
    unfold run
    rw [finalState_bind (fun _ _ => rfl)]
    exact vmmMapPage_dirKept hrec hocc va pa tattr ⟨rfl, rfl⟩ hsafe
  | fmapPage va pa tattr =>
    unfold run
    rw [finalState_bind (fun _ _ => rfl)]
    exact vmmFmapPage_dirKept hrec hocc va pa tattr ⟨rfl, rfl⟩ hsafe
  | allocPage vpn tattr =>
    unfold run
    rw [finalState_bind (fun _ _ => rfl)]
    exact vmmAllocPage_dirKept hrec hocc vpn tattr ⟨rfl, rfl⟩ hsafe
  | allocPages va sz tattr =>
    unfold run vmmAllocPages
    rw [finalState_bind (fun _ _ => rfl)]
    apply vmmAllocPages_go_dirKept va tattr 0 va _ (pageAt_zero va).symm _ (.refl hrec hocc) hsafe
    intro k hk
    exact ⟨k, by omega, rfl, rfl⟩
  | setMapping va pa attr =>
    exact vmmSetMapping_dirKept hrec hocc va pa attr ⟨rfl, rfl⟩ hsafe
  | unmapPage va =>
    have hremoved : Removed (fun _ _ => True) s _ := vmmUnmapPage_removed hrec va trivial
    exact dirKept_of_dir hremoved.recursive hremoved.dir

end VmmOp

/--
A run in which every operation is safe in the state that it starts from. An operation may also fault.
-/
inductive SafeRun (s₀ : Machine) : Machine → Prop
  | start : SafeRun s₀ s₀
  | step {s : Machine} (hrun : SafeRun s₀ s) (op : VmmOp) (hsafe : op.Safe s) : SafeRun s₀
    (finalState (op.run s))

theorem SafeRun.recursive {s₀ s : Machine} (hrun : SafeRun s₀ s) (hrec : s₀.Recursive) : s.Recursive := by
  induction hrun with
  | start => exact hrec
  | step hrun op hsafe ih => exact (VmmOp.run_dirKept ih op hsafe).recursive

/--
In every run of safe operations the last entry of the directory keeps referring to the directory, and
every operation only fills empty entries of the directory, with new and empty tables.
-/
theorem recursiveSlot_kept {s₀ s : Machine} (hrec : s₀.Recursive) (hrun : SafeRun s₀ s)
    : s.Recursive ∧ ∀ op : VmmOp, op.Safe s → DirKept op.targets s (finalState (op.run s)) := by
  have hrec' := hrun.recursive hrec
  exact ⟨hrec', VmmOp.run_dirKept hrec'⟩

theorem finalState_run_twoPages
    : finalState ((VmmOp.allocPages 0x400000 0x2000 3).run bootMachine) = twoPages := by
  unfold VmmOp.run
  rw [finalState_bind (fun _ _ => rfl)]
  exact finalState_twoPages

/--
After two pages have been mapped at 4 MiB, a page is mapped at 8 MiB. Both times a page table is made.
-/
theorem recursiveSlot_kept_twoPages
    : bootMachine.dir 1 = 0
        ∧ twoPages.dir 1 = 0x3003
        ∧ ∃ s, vmmSetMapping 0x800000 0x9000 3 twoPages = .ok () s
          ∧ s.dir 1 = 0x3003
          ∧ s.dir 2 = 0x5003
          ∧ s.dir 1023 = 0x1013
          ∧ DirKept (VmmOp.setMapping 0x800000 0x9000 3).targets twoPages s := by
  have hpages : (VmmOp.allocPages 0x400000 0x2000 3).Safe bootMachine := by
    refine ⟨owned_bootMachine.tablesOccupied, ?_⟩
    intro i hi _
    exact ⟨l1Index_pageAt 0x400000 0x2000 (by decide) i hi, Or.inr (by decide)⟩
  have hrun : SafeRun bootMachine twoPages := by
    rw [← finalState_run_twoPages]
    exact SafeRun.start.step _ hpages
  have hpage : (pmmAllocPage twoPages.pmm).1 = 0x5000 := by decide +kernel
  have hmap := vmmMapInternal_first owned_twoPages (show 2 < 1023 by decide) (show 0 < 1024 by decide) 0x9000
    (show isCached 3 = true by decide) (by decide +kernel) (by rw [hpage]; decide)
  rw [hpage] at hmap
  have hset : vmmSetMapping 0x800000 0x9000 3 twoPages
      = .ok () ((twoPages.allocated.installTable 2 (newL1Entry 3 0x5000)).setTable 2 0 (newL2Entry 3 0x9000)) := by
    unfold vmmSetMapping
    rw [if_neg (by decide)]
    exact bind_ok _ hmap
  have hkept := (recursiveSlot_kept owned_bootMachine.recursive hrun).2 (.setMapping 0x800000 0x9000 3)
    ⟨owned_twoPages.tablesOccupied, Or.inr (Or.inr (Or.inl (by decide)))⟩
  have hfinal : finalState ((VmmOp.setMapping 0x800000 0x9000 3).run twoPages)
      = (twoPages.allocated.installTable 2 (newL1Entry 3 0x5000)).setTable 2 0 (newL2Entry 3 0x9000) :=
    congrArg finalState hset
  rw [hfinal] at hkept
  exact ⟨by decide, by decide +kernel, _, hset, by decide +kernel, by decide +kernel, by decide +kernel, hkept⟩

theorem vmmFmapPage_overwrites_slot
    : directoryOnly.Recursive
        ∧ directoryOnly.TablesOccupied
        ∧ directoryOnly.dir 1023 = 0x1013
        ∧ (finalState ((VmmOp.fmapPage 0xFFFFF000 0x5000 3).run directoryOnly)).dir 1023 = 0x5003
        ∧ ¬DirKept (VmmOp.fmapPage 0xFFFFF000 0x5000 3).targets directoryOnly
            (finalState ((VmmOp.fmapPage 0xFFFFF000 0x5000 3).run directoryOnly)) := by
  have hdir : (finalState ((VmmOp.fmapPage 0xFFFFF000 0x5000 3).run directoryOnly)).dir 1023 = 0x5003 := by
    decide
  refine ⟨owned_directoryOnly.recursive, owned_directoryOnly.tablesOccupied, by decide, hdir, ?_⟩
  intro hkept
  have hsame := hkept.dir_ne 1023 (by decide) (by decide)
  rw [hdir] at hsame
  exact absurd hsame (by decide)

end AwaOS
