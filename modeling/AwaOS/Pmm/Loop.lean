import AwaOS.Lib.Walk
import AwaOS.Pmm.Lemmas.Alloc

/-!
The loop of `pmm_alloc_page`, round by round: it ends, and it stays within the bitmap.
-/

namespace AwaOS

namespace pmmAllocPage

open Walk

/--
The variables of `pmm_alloc_page` between two rounds of its loop, with the indices of `pm_bitmap` that were used so
far, and how often the search has started again at `LOOKUP_START`.
-/
structure Locals where
  pmm : Pmm
  goodPageFound : Word
  oldPgPtr : Nat
  upperLim : Nat
  indices : List Nat
  wraps : Nat

def start (pmm : Pmm) : Locals where
  pmm := pmm
  goodPageFound := 0
  oldPgPtr := pmm.pgLookupPtr
  upperLim := pmm.maxPg
  indices := []
  wraps := 0

/--
The body of the loop. `pmm_mark_page_occupied` uses the index `ppn / 8`.
-/
def body (l : Locals) : Locals :=
  let group := l.pmm.pgLookupPtr >>> 3
  let chunk := l.pmm.pmBitmap group
  let l := { l with indices := group :: l.indices }
  if chunk ≠ 0xFF#8 then
    let i := scanChunk chunk (l.pmm.pgLookupPtr % 8)
    let pmm := l.pmm.advance (i - l.pmm.pgLookupPtr % 8)
    if i < 8 then
      { l with
        pmm := pmmMarkPageOccupied pmm (BitVec.ofNat 32 pmm.pgLookupPtr)
        goodPageFound := BitVec.ofNat 32 (pmm.pgLookupPtr <<< 12)
        indices := pmm.pgLookupPtr / 8 :: l.indices }
    else
      { l with pmm := pmm }
  else
    let pmm := l.pmm.advance 8
    if l.upperLim ≤ pmm.pgLookupPtr ∧ l.oldPgPtr ≠ Pmm.lookupStart then
      { l with
        pmm := pmm.rewind
        oldPgPtr := Pmm.lookupStart
        upperLim := l.oldPgPtr
        wraps := l.wraps + 1 }
    else
      { l with pmm := pmm }

/--
One round, `none` if the condition of the loop is false.
-/
def round (l : Locals) : Option Locals :=
  if l.goodPageFound = 0 ∧ l.pmm.pgLookupPtr < l.upperLim then
    some (body l)
  else
    none

/--
What a round can do: find a page in the byte of `pg_lookup_ptr`, move `pg_lookup_ptr` up, or start again.
-/
theorem body_cases (l : Locals)
    : (∃ i, i = scanChunk (l.pmm.pmBitmap (l.pmm.pgLookupPtr >>> 3)) (l.pmm.pgLookupPtr % 8) ∧ i < 8
        ∧
      let pmm := l.pmm.advance (i - l.pmm.pgLookupPtr % 8)
      body l = { l with
        pmm := pmmMarkPageOccupied pmm (BitVec.ofNat 32 pmm.pgLookupPtr)
        goodPageFound := BitVec.ofNat 32 (pmm.pgLookupPtr <<< 12)
        indices := pmm.pgLookupPtr / 8 :: l.pmm.pgLookupPtr >>> 3 :: l.indices })
        ∨ (∃ n, 0 < n ∧ body l = { l with
            pmm := l.pmm.advance n
            indices := l.pmm.pgLookupPtr >>> 3 :: l.indices })
        ∨ (l.upperLim ≤ l.pmm.pgLookupPtr + 8 ∧ l.oldPgPtr ≠ Pmm.lookupStart ∧ body l = { l with
            pmm := (l.pmm.advance 8).rewind
            oldPgPtr := Pmm.lookupStart
            upperLim := l.oldPgPtr
            indices := l.pmm.pgLookupPtr >>> 3 :: l.indices
            wraps := l.wraps + 1 }) := by
  unfold body
  dsimp only
  split
  . split
    . next hi => exact Or.inl ⟨_, rfl, hi, rfl⟩
    . next hi =>
      refine Or.inr (Or.inl ⟨_, ?_, rfl⟩)
      omega
  . split
    . next hwrap => exact Or.inr (Or.inr ⟨hwrap.left, hwrap.right, rfl⟩)
    . exact Or.inr (Or.inl ⟨8, by decide, rfl⟩)

variable {l l' : Locals}

theorem round_eq_some (hround : round l = some l')
    : l.goodPageFound = 0 ∧ l.pmm.pgLookupPtr < l.upperLim ∧ l' = body l := by
  unfold round at hround
  split at hround
  . next hcond =>
    cases hround
    exact ⟨hcond.left, hcond.right, rfl⟩
  . contradiction

/--
A page that is found ends the loop. Otherwise what is left of the interval gets smaller, and so does what is left to
start again with.
-/
def left (l : Locals) : Nat :=
  if l.goodPageFound = 0 then
    (if l.oldPgPtr = Pmm.lookupStart then 0 else l.oldPgPtr) + (l.upperLim - l.pmm.pgLookupPtr) + 1
  else
    0

theorem found_ne_zero (hlt : l.pmm.pgLookupPtr < l.upperLim) (hupper : l.upperLim < 2 ^ 20) {i : Nat} (hi : i < 8)
    : BitVec.ofNat 32 ((l.pmm.advance (i - l.pmm.pgLookupPtr % 8)).pgLookupPtr <<< 12) ≠ 0 := by
  apply shiftLeft_ne_null
  . exact Pmm.pgLookupPtr_pos _
  . exact found_lt hlt hupper hi

/--
What holds between two rounds.
-/
structure InBitmap (l : Locals) : Prop where
  upperLim_lt : l.upperLim < 2 ^ 20
  oldPgPtr_lt : l.pmm.pgLookupPtr < l.upperLim → l.oldPgPtr < 2 ^ 20
  indices_lt : ∀ i ∈ l.indices, i < Pmm.bmpMaxSize
  wraps : l.wraps = 0 ∨ l.wraps = 1 ∧ l.oldPgPtr = Pmm.lookupStart

theorem inBitmap_start (pmm : Pmm) : InBitmap (start pmm) where
  upperLim_lt := pmm.maxPg_lt
  oldPgPtr_lt := fun hlt => Nat.lt_trans hlt pmm.maxPg_lt
  indices_lt := fun _ hi => absurd hi List.not_mem_nil
  wraps := Or.inl rfl

theorem InBitmap.body (h : InBitmap l) (hlt : l.pmm.pgLookupPtr < l.upperLim) : InBitmap (body l) := by
  have hupper := h.upperLim_lt
  have hgroup : ∀ i ∈ l.pmm.pgLookupPtr >>> 3 :: l.indices, i < Pmm.bmpMaxSize := by
    intro i hi
    cases List.mem_cons.mp hi with
    | inl hnew =>
      rw [hnew, Nat.shiftRight_eq_div_pow]
      unfold Pmm.bmpMaxSize
      omega
    | inr hold => exact h.indices_lt i hold
  obtain ⟨i, -, hi, heq⟩ | ⟨n, -, heq⟩ | ⟨-, hne, heq⟩ := body_cases l
  . rw [heq]
    refine ⟨hupper, fun _ => h.oldPgPtr_lt hlt, ?_, h.wraps⟩
    intro k hk
    cases List.mem_cons.mp hk with
    | inl hfound =>
      -- the page is in the same byte as `pg_lookup_ptr`
      rw [hfound, Pmm.pgLookupPtr_advance]
      unfold Pmm.bmpMaxSize
      omega
    | inr hold => exact hgroup k hold
  . rw [heq]
    exact ⟨hupper, fun _ => h.oldPgPtr_lt hlt, hgroup, h.wraps⟩
  . rw [heq]
    refine ⟨h.oldPgPtr_lt hlt, fun _ => (by decide : Pmm.lookupStart < 2 ^ 20), hgroup, Or.inr ⟨?_, rfl⟩⟩
    have hwraps := h.wraps.resolve_right (fun hdone => hne hdone.right)
    exact congrArg (· + 1) hwraps

theorem left_body (hzero : l.goodPageFound = 0) (hlt : l.pmm.pgLookupPtr < l.upperLim) (h : InBitmap l)
    : left (body l) < left l := by
  have hleft : left l
      = (if l.oldPgPtr = Pmm.lookupStart then 0 else l.oldPgPtr) + (l.upperLim - l.pmm.pgLookupPtr) + 1 :=
        if_pos hzero
  obtain ⟨i, -, hi, heq⟩ | ⟨n, hn, heq⟩ | ⟨-, hne, heq⟩ := body_cases l
  . have hfound : left (body l) = 0 := by
      rw [heq]
      exact if_neg (found_ne_zero hlt h.upperLim_lt hi)
    omega
  . have hmoved : left (body l) = (if l.oldPgPtr = Pmm.lookupStart then 0 else l.oldPgPtr)
        + (l.upperLim - (l.pmm.pgLookupPtr + n)) + 1 := by
      rw [heq]
      exact if_pos hzero
    omega
  . have hwrapped : left (body l) = 0 + (l.oldPgPtr - Pmm.lookupStart) + 1 := by
      rw [heq]
      exact if_pos hzero
    rw [if_neg hne] at hleft
    omega

/--
What `pmm_alloc_page` is going to return.
-/
def result (l : Locals) : Word × Pmm :=
  if l.goodPageFound = 0 then
    go l.pmm l.oldPgPtr l.upperLim
  else
    (l.goodPageFound, l.pmm)

theorem result_body (hzero : l.goodPageFound = 0) (hlt : l.pmm.pgLookupPtr < l.upperLim) (h : InBitmap l)
    : result (body l) = result l := by
  have hresult : result l = go l.pmm l.oldPgPtr l.upperLim := if_pos hzero
  rw [hresult]
  unfold go
  rw [dif_pos hlt]
  unfold body
  dsimp only
  split
  . split
    . next hi => exact if_neg (found_ne_zero hlt h.upperLim_lt hi)
    . exact if_pos hzero
  . split
    . exact if_pos hzero
    . exact if_pos hzero

theorem result_of_round (hround : round l = none) : result l = (l.goodPageFound, l.pmm) := by
  unfold result
  split
  . next hzero =>
    have hdone : ¬l.pmm.pgLookupPtr < l.upperLim := by
      intro hlt
      unfold round at hround
      rw [if_pos ⟨hzero, hlt⟩] at hround
      contradiction
    unfold go
    rw [dif_neg hdone, hzero]
  . rfl

theorem inBitmap_of_reaches {pmm : Pmm} (hreach : Reaches round (start pmm) l)
    : InBitmap l ∧ result l = pmmAllocPage pmm := by
  induction hreach with
  | refl => exact ⟨inBitmap_start pmm, if_pos rfl⟩
  | tail _ hstep ih =>
    obtain ⟨hzero, hlt, heq⟩ := round_eq_some hstep
    rw [heq]
    exact ⟨ih.left.body hlt, (result_body hzero hlt ih.left).trans ih.right⟩

end pmmAllocPage

open Walk pmmAllocPage

/--
The loop of `pmm_alloc_page` ends after finitely many rounds, starts again at most once, and uses only indices of
`pm_bitmap` that are in the array.
-/
theorem pmmAllocPage_ends (pmm : Pmm)
    : Walk.Ends pmmAllocPage.round (start pmm)
        ∧ (∀ l, Reaches pmmAllocPage.round (start pmm) l →
            l.wraps ≤ 1 ∧ ∀ i ∈ l.indices, i < Pmm.bmpMaxSize)
        ∧ ∃ l, Reaches pmmAllocPage.round (start pmm) l ∧ pmmAllocPage.round l = none
            ∧ pmmAllocPage pmm = (l.goodPageFound, l.pmm) := by
  have hends : Walk.Ends pmmAllocPage.round (start pmm) := by
    apply ends_of_measure left _ (inBitmap_start pmm)
    intro l l' h hround
    obtain ⟨hzero, hlt, heq⟩ := round_eq_some hround
    rw [heq]
    exact ⟨h.body hlt, left_body hzero hlt h⟩
  refine ⟨hends, ?_, ?_⟩
  . intro l hreach
    have hin := (inBitmap_of_reaches hreach).left
    refine ⟨?_, hin.indices_lt⟩
    cases hin.wraps with
    | inl hnever => omega
    | inr honce => omega
  . obtain ⟨l, hreach, hlast⟩ := hends.exists_last
    refine ⟨l, hreach, hlast, ?_⟩
    rw [← (inBitmap_of_reaches hreach).right]
    exact result_of_round hlast

end AwaOS
