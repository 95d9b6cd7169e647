import AwaOS.Vmm.Entries

/-!
The search of `vmm_map_page`, step by step. Where it is, is the page number `l1_index * 1024 + l2_index`.
In entry 1023 of the directory the search takes the directory for a page table.
-/

namespace AwaOS

open Machine

namespace vmmMapPage

theorem carry_eq {l1Inx l2Inx v : Nat} (hl2 : l2Inx ≤ pgMaxEntries) (hv : l1Inx * 1024 + l2Inx = v)
    : (carry l1Inx l2Inx).1 = v / 1024 ∧ (carry l1Inx l2Inx).2 = v % 1024 := by
  unfold carry pgMaxEntries at *
  split
  . dsimp only
    omega
  . dsimp only
    omega

/--
The second-level entries that `search` reads.
-/
def searchReads (s : Machine) (l1Inx l2Inx : Nat) (hl2 : l2Inx ≤ pgMaxEntries) (l1pte : Word) : List (Nat × Nat) :=
  if _hcond:l1pte ≠ 0 ∧ l1Inx < pgMaxEntries then
    let l1Inx' := (carry l1Inx l2Inx).1
    let l2Inx' := (carry l1Inx l2Inx).2
    match carryEntry l1Inx l2Inx l1pte s with
    | .error _ _ => []
    | .ok l1pte _ =>
      (l1Inx', l2Inx') ::
        match load (entryAddr (l2Vaddr l1Inx') l2Inx') s with
        | .error _ _ => []
        | .ok l2pte _ =>
          if l2Vaddr l1Inx' ≠ 0 ∧ l2pte = 0 then
            []
          else
            searchReads s l1Inx' (l2Inx' + 1) (carry_le hl2) l1pte
  else
    []
termination_by pgMaxEntries * pgMaxEntries + 1 - (l1Inx * pgMaxEntries + l2Inx)
decreasing_by
  have hpos := carry_pos l1Inx l2Inx
  simp only [pgMaxEntries] at *
  omega

section Step

variable {s : Machine} {l1Inx l2Inx v : Nat}

theorem succ_le (v : Nat) : v % 1024 + 1 ≤ pgMaxEntries := by
  unfold pgMaxEntries
  omega

theorem search_absent (h : s.SelfMapped) (pa tattr : Word) (hl2 : l2Inx ≤ pgMaxEntries)
    (hv : l1Inx * 1024 + l2Inx = v)
    (hlt : v < 1024 * 1024) (hne : s.dir l1Inx ≠ 0) (habsent : isCached (s.dir (v / 1024)) = false)
    : (∃ e, search pa tattr l1Inx l2Inx hl2 (s.dir l1Inx) s = .error e s)
        ∧ searchReads s l1Inx l2Inx hl2 (s.dir l1Inx) = [(v / 1024, v % 1024)] := by
  obtain ⟨hcarry1, hcarry2⟩ := carry_eq hl2 hv
  have hcond : s.dir l1Inx ≠ 0 ∧ l1Inx < pgMaxEntries := by
    refine ⟨hne, ?_⟩
    unfold pgMaxEntries
    omega
  have hentry := carryEntry_eq h l1Inx l2Inx (by omega)
  have hload := h.load_l2_fault (v / 1024) (v % 1024) (by omega) (by omega) habsent
  rw [hcarry1] at hentry
  constructor
  . unfold search
    rw [dif_pos hcond]
    simp only [hcarry1, hcarry2]
    rw [bind_ok _ hentry, bind_error _ hload]
    exact ⟨_, rfl⟩
  . unfold searchReads
    rw [dif_pos hcond]
    simp only [hcarry1, hcarry2, hentry, hload]

theorem search_free (h : s.SelfMapped) (pa tattr : Word) (hl2 : l2Inx ≤ pgMaxEntries)
    (hv : l1Inx * 1024 + l2Inx = v)
    (hlt : v < 1024 * 1024) (hne : s.dir l1Inx ≠ 0) (hpresent : isCached (s.dir (v / 1024)) = true)
    (hempty : s.table (v / 1024) (v % 1024) = 0)
    : search pa tattr l1Inx l2Inx hl2 (s.dir l1Inx) s
          = .ok (.mapped (v / 1024) (v % 1024)) (s.setTable (v / 1024) (v % 1024) (newL2Entry tattr pa))
        ∧ searchReads s l1Inx l2Inx hl2 (s.dir l1Inx) = [(v / 1024, v % 1024)] := by
  obtain ⟨hcarry1, hcarry2⟩ := carry_eq hl2 hv
  have hcond : s.dir l1Inx ≠ 0 ∧ l1Inx < pgMaxEntries := by
    refine ⟨hne, ?_⟩
    unfold pgMaxEntries
    omega
  have hentry := carryEntry_eq h l1Inx l2Inx (by omega)
  have hload := h.load_l2 (v / 1024) (v % 1024) (by omega) (by omega) hpresent
  have hstore := h.store_l2 (v / 1024) (v % 1024) (by omega) (by omega) (newL2Entry tattr pa) hpresent
  have hl2pt := l2Vaddr_ne_zero (v / 1024) (by omega)
  rw [hcarry1] at hentry
  constructor
  . unfold search
    rw [dif_pos hcond]
    simp only [hcarry1, hcarry2]
    rw [bind_ok _ hentry, bind_ok _ hload, if_pos ⟨hl2pt, hempty⟩, bind_ok _ hstore]
    rfl
  . unfold searchReads
    rw [dif_pos hcond]
    simp only [hcarry1, hcarry2, hentry, hload]
    rw [if_pos ⟨hl2pt, hempty⟩]

theorem search_full (h : s.SelfMapped) (pa tattr : Word) (hl2 : l2Inx ≤ pgMaxEntries)
    (hv : l1Inx * 1024 + l2Inx = v)
    (hlt : v < 1024 * 1024) (hne : s.dir l1Inx ≠ 0) (hpresent : isCached (s.dir (v / 1024)) = true)
    (hfull : s.table (v / 1024) (v % 1024) ≠ 0)
    : search pa tattr l1Inx l2Inx hl2 (s.dir l1Inx) s
          = search pa tattr (v / 1024) (v % 1024 + 1) (succ_le v) (s.dir (v / 1024)) s
        ∧ searchReads s l1Inx l2Inx hl2 (s.dir l1Inx)
          = (v / 1024, v % 1024) :: searchReads s (v / 1024) (v % 1024 + 1) (succ_le v) (s.dir (v / 1024)) := by
  obtain ⟨hcarry1, hcarry2⟩ := carry_eq hl2 hv
  have hcond : s.dir l1Inx ≠ 0 ∧ l1Inx < pgMaxEntries := by
    refine ⟨hne, ?_⟩
    unfold pgMaxEntries
    omega
  have hentry := carryEntry_eq h l1Inx l2Inx (by omega)
  have hload := h.load_l2 (v / 1024) (v % 1024) (by omega) (by omega) hpresent
  have hsame : ∀ i j hj, i = v / 1024 → j = v % 1024 →
      search pa tattr i (j + 1) hj (s.dir i) s = search pa tattr (v / 1024) (v % 1024 + 1) (succ_le v)
        (s.dir (v / 1024)) s
        ∧ searchReads s i (j + 1) hj (s.dir i) = searchReads s (v / 1024) (v % 1024 + 1) (succ_le v)
          (s.dir (v / 1024)) := by
    rintro _ _ _ rfl rfl
    exact ⟨rfl, rfl⟩
  obtain ⟨hsearch, hreads⟩ := hsame _ _ (carry_le hl2) hcarry1 hcarry2
  have hpair : ((carry l1Inx l2Inx).1, (carry l1Inx l2Inx).2) = (v / 1024, v % 1024) := by rw [hcarry1, hcarry2]
  rw [← hcarry1, ← hcarry2] at hload
  rw [← hsearch, ← hreads]
  constructor
  . rw [search, dif_pos hcond]
    dsimp only
    rw [bind_ok _ hentry, bind_ok _ hload,
      if_neg (fun hand => hfull (by rw [← hcarry1, ← hcarry2]; exact hand.2))]
  . rw [searchReads, dif_pos hcond]
    simp only [hentry, hload]
    rw [if_neg (fun hand => hfull (by rw [← hcarry1, ← hcarry2]; exact hand.2)), hpair]

end Step

/--
The search passes pages that are mapped.
-/
structure Passed (s : Machine) (pa tattr : Word) (v w l1Inx l2Inx : Nat) (hl2 : l2Inx ≤ pgMaxEntries)
    (r : EStateM.Result PageFault Machine Exit) (reads : List (Nat × Nat)) : Prop where
  pos : l1Inx * 1024 + l2Inx = w
  dir_ne : s.dir l1Inx ≠ 0
  rest : r = search pa tattr l1Inx l2Inx hl2 (s.dir l1Inx) s
  reads_eq : ∃ passed, reads = passed ++ searchReads s l1Inx l2Inx hl2 (s.dir l1Inx)
    ∧ ∀ p ∈ passed, ∃ u, v ≤ u ∧ u < w ∧ p = (u / 1024, u % 1024)

theorem search_passes {s : Machine} (h : s.SelfMapped) (pa tattr : Word) {l1Inx l2Inx v w : Nat}
    (hl2 : l2Inx ≤ pgMaxEntries) (hv : l1Inx * 1024 + l2Inx = v) (hle : v ≤ w) (hw : w ≤ 1024 * 1024)
    (hne : s.dir l1Inx ≠ 0)
    (hfull : ∀ u, v ≤ u → u < w → isCached (s.dir (u / 1024)) = true ∧ s.table (u / 1024) (u % 1024) ≠ 0)
    : ∃ l1Inx' l2Inx' hl2', Passed s pa tattr v w l1Inx' l2Inx' hl2'
        (search pa tattr l1Inx l2Inx hl2 (s.dir l1Inx) s) (searchReads s l1Inx l2Inx hl2 (s.dir l1Inx)) := by
  induction hn : w - v generalizing l1Inx l2Inx v with
  | zero => exact ⟨l1Inx, l2Inx, hl2, by omega, hne, rfl, [], rfl, by simp⟩
  | succ n ih =>
    obtain ⟨hpresent, hmapped⟩ := hfull v (Nat.le_refl _) (by omega)
    obtain ⟨hsearch, hreads⟩ := search_full h pa tattr hl2 hv (by omega) hne hpresent hmapped
    have hfull' : ∀ u, v + 1 ≤ u → u < w → isCached (s.dir (u / 1024)) = true
      ∧ s.table (u / 1024) (u % 1024) ≠ 0 :=
      fun u hge hlt => hfull u (by omega) hlt
    have hpos : v / 1024 * 1024 + (v % 1024 + 1) = v + 1 := by rw [← Nat.add_assoc, Nat.div_add_mod']
    have hle' : v + 1 ≤ w := by omega
    have hn' : w - (v + 1) = n := by omega
    obtain ⟨l1Inx', l2Inx', hl2', hpassed⟩ := ih (succ_le v) hpos hle' (ne_zero_of_isCached hpresent) hfull' hn'
    obtain ⟨passed, hrest, hpages⟩ := hpassed.reads_eq
    refine ⟨l1Inx', l2Inx', hl2', hpassed.pos, hpassed.dir_ne, ?_, (v / 1024, v % 1024) :: passed, ?_, ?_⟩
    . rw [hsearch, hpassed.rest]
    . rw [hreads, hrest, List.cons_append]
    . intro p hp
      cases List.mem_cons.mp hp with
      | inl heq => exact ⟨v, Nat.le_refl _, by omega, heq⟩
      | inr hmem =>
        obtain ⟨u, hge, hlt, heq⟩ := hpages p hmem
        exact ⟨u, by omega, hlt, heq⟩

/--
The ways in which the search ends from page `v` on. Behind entry 1023 of the directory the address of the
next entry wraps around to zero.
-/
inductive SearchExit (s : Machine) (pa tattr : Word) (v : Nat) : EStateM.Result PageFault Machine Exit → Prop
  | fault (e : PageFault) : SearchExit s pa tattr v (.error e s)
  | mapped (w : Nat) (hge : v ≤ w) (hlt : w < 1024 * 1024)
      : SearchExit s pa tattr v
          (.ok (.mapped (w / 1024) (w % 1024)) (s.setTable (w / 1024) (w % 1024) (newL2Entry tattr pa)))
  | wrapped (entry : Word) (hload : load 0 s = .ok entry s) : SearchExit s pa tattr v (.ok (.ended 1024 1) s)

theorem l2Vaddr_wrapped : l2Vaddr 1024 = l2Vaddr 0 := by
  decide

theorem l1EntryAddr_wrapped : entryAddr l1BaseVaddr 1024 = 0 := by
  decide

theorem load_cases (va : Word) (s : Machine) : (∃ w, load va s = .ok w s) ∨ ∃ e, load va s = .error e s := by
  unfold load
  cases s.translate va with
  | none => exact Or.inr ⟨_, rfl⟩
  | some place => exact Or.inl ⟨_, rfl⟩

/--
What the word at address zero says about page zero.
-/
theorem present_of_load_zero {s : Machine} {entry : Word} (hload : load 0 s = .ok entry s)
    : isCached (s.dir 0) = true ∧ isCached (s.table 0 0) = true := by
  have hl1 : l1Index 0 = 0 := by decide
  have hl2 : l2Index 0 = 0 := by decide
  unfold load Machine.translate at hload
  rw [hl1, hl2] at hload
  dsimp only at hload
  cases hdir : isCached (s.mem s.cr3 0) with
  | false =>
    rw [hdir, if_neg (by decide)] at hload
    contradiction
  | true =>
    rw [hdir, if_pos rfl] at hload
    cases htable : isCached (s.mem (frameOf (s.mem s.cr3 0)) 0) with
    | false =>
      rw [htable, if_neg (by decide)] at hload
      contradiction
    | true => exact ⟨hdir, htable⟩

theorem search_wrapped {s : Machine} (h : s.SelfMapped) (pa tattr : Word) (v : Nat) (hl2 : 1024 ≤ pgMaxEntries)
    : SearchExit s pa tattr v (search pa tattr 1023 1024 hl2 (s.dir 1023) s) := by
  have hcond : s.dir 1023 ≠ 0 ∧ 1023 < pgMaxEntries := ⟨ne_zero_of_isCached h.present, by decide⟩
  have hcarry : carry 1023 1024 = (1024, 0) := by decide
  have hentry : carryEntry 1023 1024 (s.dir 1023) = load 0 := by
    unfold carryEntry
    rw [if_pos (by decide), hcarry, l1EntryAddr_wrapped]
  unfold search
  rw [dif_pos hcond]
  simp only [hcarry, hentry, l2Vaddr_wrapped]
  cases load_cases 0 s with
  | inr hfault =>
    obtain ⟨e, hfault⟩ := hfault
    rw [bind_error _ hfault]
    exact .fault e
  | inl hok =>
    obtain ⟨entry, hload⟩ := hok
    obtain ⟨hpresent, hcached⟩ := present_of_load_zero hload
    rw [bind_ok _ hload, bind_ok _ (h.load_l2 0 0 (by decide) (by decide) hpresent),
      if_neg (fun hand => ne_zero_of_isCached hcached hand.2)]
    unfold search
    rw [dif_neg (fun hand => absurd hand.2 (by decide))]
    exact .wrapped entry hload

theorem search_exit {s : Machine} (h : s.SelfMapped) (pa tattr : Word) {l1Inx l2Inx v : Nat}
    (hl2 : l2Inx ≤ pgMaxEntries) (hv : l1Inx * 1024 + l2Inx = v) (hl1 : l1Inx < 1024) (hne : s.dir l1Inx ≠ 0)
    : SearchExit s pa tattr v (search pa tattr l1Inx l2Inx hl2 (s.dir l1Inx) s) := by
  have hl2' : l2Inx ≤ 1024 := hl2
  by_cases hlt : v < 1024 * 1024
  . cases hpresent : isCached (s.dir (v / 1024)) with
    | false =>
      obtain ⟨e, hfault⟩ := (search_absent h pa tattr hl2 hv hlt hne hpresent).1
      rw [hfault]
      exact .fault e
    | true =>
      by_cases hempty : s.table (v / 1024) (v % 1024) = 0
      . rw [(search_free h pa tattr hl2 hv hlt hne hpresent hempty).1]
        exact .mapped v (Nat.le_refl _) hlt
      . rw [(search_full h pa tattr hl2 hv hlt hne hpresent hempty).1]
        have hpos : v / 1024 * 1024 + (v % 1024 + 1) = v + 1 := by rw [← Nat.add_assoc, Nat.div_add_mod']
        have hindex : v / 1024 < 1024 := Nat.div_lt_of_lt_mul hlt
        have hrest := search_exit h pa tattr (succ_le v) hpos hindex (ne_zero_of_isCached hpresent)
        generalize search pa tattr (v / 1024) (v % 1024 + 1) (succ_le v) (s.dir (v / 1024)) s = r at hrest
        cases hrest with
        | fault e => exact .fault e
        | mapped w hge hlt' => exact .mapped w (Nat.le_of_succ_le hge) hlt'
        | wrapped entry hload => exact .wrapped entry hload
  . have hlast : l1Inx = 1023 ∧ l2Inx = 1024 := by omega
    obtain ⟨rfl, rfl⟩ := hlast
    exact search_wrapped h pa tattr v hl2
termination_by 1024 * 1024 - v
decreasing_by
  exact Nat.sub_succ_lt_self _ _ hlt

end vmmMapPage

end AwaOS
