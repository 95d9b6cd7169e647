import AwaOS.Heap.Backed
import AwaOS.Vmm.Range

/-!
Which calls of `lxbrk` move the break forward by what they were asked for. The range check is on the rounded size,
which is zero for the last three sizes.
-/

namespace AwaOS

open Machine

section MapPages

variable {k : Kernel} {size : Nat}

theorem mapPages_iff (hwf : k.vm.WellFormed) (hroom : k.heap.brk.toNat + size < vpnEnd * 4096)
    : ∃ made vm,
        lxbrk.mapPages k.heap.brk (pgAlign (k.heap.brk + BitVec.ofNat 32 size) - pgAlign k.heap.brk) k
          = .ok made { k with vm := vm }
        ∧ (made = true
            ↔ k.vm.CanMap (k.heap.brk.toNat / 4096 + 1)
              ((k.heap.brk.toNat + size) / 4096 - k.heap.brk.toNat / 4096))
        ∧ (made = true → MadePages k.vm (k.heap.brk.toNat / 4096 + 1)
            ((k.heap.brk.toNat + size) / 4096 - k.heap.brk.toNat / 4096) pgPremRw vm) := by
  unfold vpnEnd at hroom
  cases mapPages_call (show k.heap.brk.toNat + size < 2 ^ 32 by omega) with
  | inl hnone =>
    obtain ⟨hcount, hcall⟩ := hnone
    rw [hcount]
    have hmade := madePages_zero hwf (k.heap.brk.toNat / 4096 + 1) pgPremRw
    exact ⟨true, k.vm, hcall, ⟨fun _ => ⟨hmade.fresh, hmade.supplies⟩, fun _ => rfl⟩, fun _ => hmade⟩
  | inr hsome =>
    obtain ⟨va, sz, hbase, hcount, hcall⟩ := hsome
    have hattr : isCached pgPremRw = true := by decide
    obtain ⟨made, vm, hresult, hiff, hmade⟩ := vmmAllocPages_iff hwf va sz
      (by rw [hbase, hcount]; unfold vpnEnd; omega) hattr
    rw [hbase, hcount] at hiff hmade
    exact ⟨made, vm, hcall.trans (callVmm_ok hresult), hiff, hmade⟩

end MapPages

/--
Either `lxbrk` returns the old break, and the new one is `size` bytes further on, below the limit and on a mapped
page, or it returns `NULL` and the break is where it was.
-/
def MovesForward (k : Kernel) (size : Word) : Prop :=
  ∃ ptr k', lxbrk size k = .ok ptr k'
    ∧ (ptr ≠ 0 → ptr = k.heap.brk ∧ k'.heap.brk.toNat = k.heap.brk.toNat + size.toNat
        ∧ k'.heap.brk.toNat < k'.heap.maxAddr.toNat ∧ k'.vm.Mapped (k'.heap.brk.toNat / 4096))
    ∧ (ptr = 0 → k'.heap.brk = k.heap.brk)

/--
The size as `lxbrk` rounds it, if that does not wrap.
-/
def rounded (size : Word) : Nat :=
  (size.toNat + 3) / 4 * 4

theorem rounded_words {bytes : Nat} (h4 : bytes % 4 = 0) (hlt : bytes < 2 ^ 32)
    : rounded (BitVec.ofNat 32 bytes) = bytes := by
  unfold rounded
  rw [BitVec.toNat_ofNat, Nat.mod_eq_of_lt hlt]
  omega

/--
`lxbrk` refuses to move the break by this size.
-/
def Refuses (k : Kernel) (size : Word) : Prop :=
  k.heap.maxAddr.toNat ≤ k.heap.brk.toNat + rounded size
    ∨ ¬k.vm.CanMap (k.heap.brk.toNat / 4096 + 1)
        ((k.heap.brk.toNat + rounded size) / 4096 - k.heap.brk.toNat / 4096)

section Lxbrk

variable {k : Kernel} {size : Word}

theorem lxbrk_zero (k : Kernel) : lxbrk 0 k = .ok k.heap.brk k := by
  unfold lxbrk
  rw [bind_get, if_pos rfl]
  rfl

/--
After the range check.
-/
theorem lxbrk_of_room {next : Word} {made : Bool} {vm : Machine} (hne : size ≠ 0)
    (hnext : k.heap.brk + roundup size boundary = next) (hroom : ¬(next ≥ k.heap.maxAddr ∨ next < k.heap.brk))
    (hmap : lxbrk.mapPages k.heap.brk (pgAlign next - pgAlign k.heap.brk) k = .ok made { k with vm := vm })
    : lxbrk size k
        =
      if made then
        .ok k.heap.brk { k with vm := vm, heap := { k.heap with brk := k.heap.brk + size } }
      else
        .ok 0 { k with vm := vm } := by
  unfold lxbrk
  rw [bind_get, if_neg hne]
  dsimp only
  rw [hnext, if_neg hroom, bind_ok _ hmap]
  cases made with
  | true => rfl
  | false => rfl

theorem lxbrk_of_limit (hne : size ≠ 0) (hsize : size.toNat + 3 < 2 ^ 32)
    (hlimit : k.heap.maxAddr.toNat ≤ k.heap.brk.toNat + rounded size)
    : lxbrk size k = .ok 0 k := by
  have hbrk := k.heap.brk.isLt
  have hround := toNat_roundup size hsize
  unfold rounded at hlimit
  have hover : k.heap.brk + roundup size boundary ≥ k.heap.maxAddr
    ∨ k.heap.brk + roundup size boundary < k.heap.brk := by
    rw [ge_iff_le, BitVec.le_def, BitVec.lt_def, BitVec.toNat_add, hround]
    omega
  unfold lxbrk
  rw [bind_get, if_neg hne]
  dsimp only
  rw [if_pos hover]
  rfl

/--
A size that does not wrap: the pages up to the rounded break are mapped, or none is.
-/
theorem lxbrk_rounded (hwf : k.vm.WellFormed) (hmax : k.heap.maxAddr.toNat ≤ vpnEnd * 4096) (hne : size ≠ 0)
    (hsize : size.toNat + 3 < 2 ^ 32) (hroom : k.heap.brk.toNat + rounded size < k.heap.maxAddr.toNat)
    : ∃ made vm,
        lxbrk size k
          = (if made then
              .ok k.heap.brk { k with vm := vm, heap := { k.heap with brk := k.heap.brk + size } }
            else
              .ok 0 { k with vm := vm })
        ∧ (made = true
            ↔ k.vm.CanMap (k.heap.brk.toNat / 4096 + 1)
                ((k.heap.brk.toNat + rounded size) / 4096 - k.heap.brk.toNat / 4096))
        ∧ (made = true → MadePages k.vm (k.heap.brk.toNat / 4096 + 1)
            ((k.heap.brk.toNat + rounded size) / 4096 - k.heap.brk.toNat / 4096) pgPremRw vm) := by
  have hround : roundup size boundary = BitVec.ofNat 32 (rounded size) := by
    apply BitVec.eq_of_toNat_eq
    rw [toNat_roundup size hsize, BitVec.toNat_ofNat]
    unfold rounded
    omega
  have hlimit := k.heap.maxAddr.isLt
  have hnext : (k.heap.brk + BitVec.ofNat 32 (rounded size)).toNat = k.heap.brk.toNat + rounded size := by
    rw [BitVec.toNat_add, BitVec.toNat_ofNat]
    omega
  obtain ⟨made, vm, hmap, hiff, hmade⟩ := mapPages_iff hwf (show k.heap.brk.toNat + rounded size < _ by omega)
  refine ⟨made, vm, ?_, hiff, hmade⟩
  refine lxbrk_of_room hne (by rw [hround]) ?_ hmap
  rw [ge_iff_le, BitVec.le_def, BitVec.lt_def, hnext]
  omega

/--
A size that wraps moves the break without looking at the limit or at the pages.
-/
theorem lxbrk_wrapped (hlt : k.heap.brk.toNat < k.heap.maxAddr.toNat) (hsize : 2 ^ 32 ≤ size.toNat + 3)
    : lxbrk size k = .ok k.heap.brk { k with heap := { k.heap with brk := k.heap.brk + size } } := by
  have hne : size ≠ 0 := by
    intro hzero
    rw [hzero] at hsize
    contradiction
  have hround : roundup size boundary = 0 := by
    have hmask : ~~~(boundary - 1) = Align.highMask 32 2 := by decide
    have hsum : size + boundary - 1 = size + 3#32 := by
      unfold boundary
      rw [BitVec.sub_eq_add_neg, BitVec.add_assoc]
      rfl
    have hlt := size.isLt
    apply BitVec.eq_of_toNat_eq
    unfold roundup
    rw [hmask, hsum, Align.toNat_and_highMask, BitVec.toNat_add, BitVec.toNat_ofNat]
    change _ = 0
    omega
  have hnext : k.heap.brk + roundup size boundary = k.heap.brk := by
    rw [hround]
    exact BitVec.add_zero _
  have hmap :
      lxbrk.mapPages k.heap.brk (pgAlign k.heap.brk - pgAlign k.heap.brk) k = .ok true { k with vm := k.vm } := by
    have hdiff : pgAlign k.heap.brk - pgAlign k.heap.brk = 0 := BitVec.sub_self _
    rw [hdiff]
    rfl
  apply lxbrk_of_room hne hnext _ hmap
  rw [ge_iff_le, BitVec.le_def, BitVec.lt_def]
  omega

theorem movesForward_zero (hlt : k.heap.brk.toNat < k.heap.maxAddr.toNat)
    (hmapped : k.vm.Mapped (k.heap.brk.toNat / 4096))
    : MovesForward k 0 :=
  ⟨k.heap.brk, k, lxbrk_zero k, fun _ => ⟨rfl, rfl, hlt, hmapped⟩, fun _ => rfl⟩

theorem movesForward_of_limit (hne : size ≠ 0) (hsize : size.toNat + 3 < 2 ^ 32)
    (hlimit : k.heap.maxAddr.toNat ≤ k.heap.brk.toNat + rounded size)
    : MovesForward k size :=
  ⟨0, k, lxbrk_of_limit hne hsize hlimit, fun h => absurd rfl h, fun _ => rfl⟩

theorem not_movesForward_of_wrapped (h4 : k.heap.brk.toNat % 4 = 0)
    (hlt : k.heap.brk.toNat < k.heap.maxAddr.toNat) (hsize : 2 ^ 32 ≤ size.toNat + 3)
    : ¬MovesForward k size := by
  rintro ⟨ptr, k', hresult, hmoved, hnull⟩
  obtain ⟨rfl, rfl⟩ := EStateM.Result.ok.inj ((lxbrk_wrapped hlt hsize).symm.trans hresult)
  have hbrk := (k.heap.brk + size).isLt
  by_cases hzero : k.heap.brk = 0
  . have hsame : k.heap.brk + size = k.heap.brk := hnull hzero
    rw [hzero] at hsame
    have hnat : size.toNat = 0 := congrArg BitVec.toNat ((BitVec.zero_add size).symm.trans hsame)
    omega
  . have hpos : k.heap.brk.toNat ≠ 0 := fun hnat => hzero (BitVec.eq_of_toNat_eq hnat)
    obtain ⟨_, hsum, _⟩ := hmoved hzero
    dsimp only at hsum
    omega

/--
The page of the new break is the old one, or one of those that were mapped.
-/
theorem MadePages.mapped_brk {vm : Machine} (hmade : MadePages k.vm (k.heap.brk.toNat / 4096 + 1)
      ((k.heap.brk.toNat + rounded size) / 4096 - k.heap.brk.toNat / 4096) pgPremRw vm)
    (hroom : k.heap.brk.toNat + rounded size < vpnEnd * 4096) (hmapped : k.vm.Mapped (k.heap.brk.toNat / 4096))
    : vm.Mapped ((k.heap.brk.toNat + size.toNat) / 4096) := by
  have hle : size.toNat ≤ rounded size := by
    unfold rounded
    omega
  by_cases hsame : (k.heap.brk.toNat + size.toNat) / 4096 = k.heap.brk.toNat / 4096
  . have hkept := hmade.entry_kept (k.heap.brk.toNat / 4096) (by omega) (by omega)
    have hne : k.vm.entry (k.heap.brk.toNat / 4096) ≠ 0 := hmapped
    rw [← hkept] at hne
    rw [hsame]
    exact hne
  . have hcached := hmade.cached (by decide)
      (show (k.heap.brk.toNat + size.toNat) / 4096 - (k.heap.brk.toNat / 4096 + 1) < _ by omega)
    rw [show k.heap.brk.toNat / 4096 + 1 + ((k.heap.brk.toNat + size.toNat) / 4096 - (k.heap.brk.toNat / 4096 + 1))
      = (k.heap.brk.toNat + size.toNat) / 4096 by omega] at hcached
    exact ne_zero_of_isCached hcached

/--
`lxbrk` moves the break as it should if and only if rounding the size does not wrap, and the break is not address
zero, which would be taken for `NULL`, when it moves.
-/
theorem lxbrk_movesForward_iff (hwf : k.vm.WellFormed) (h4 : k.heap.brk.toNat % 4 = 0)
    (hlt : k.heap.brk.toNat < k.heap.maxAddr.toNat) (hmax : k.heap.maxAddr.toNat ≤ vpnEnd * 4096)
    (hmapped : k.vm.Mapped (k.heap.brk.toNat / 4096)) (size : Word)
    : MovesForward k size ↔ size.toNat + 3 < 2 ^ 32 ∧ (k.heap.brk ≠ 0 ∨ size = 0 ∨ Refuses k size) := by
  by_cases hsize : size.toNat + 3 < 2 ^ 32
  . by_cases hne : size = 0
    . subst hne
      exact ⟨fun _ => ⟨hsize, Or.inr (Or.inl rfl)⟩, fun _ => movesForward_zero hlt hmapped⟩
    . by_cases hlimit : k.heap.maxAddr.toNat ≤ k.heap.brk.toNat + rounded size
      . exact ⟨fun _ => ⟨hsize, Or.inr (Or.inr (Or.inl hlimit))⟩,
          fun _ => movesForward_of_limit hne hsize hlimit⟩
      . obtain ⟨made, vm, hresult, hiff, hmade⟩ := lxbrk_rounded hwf hmax hne hsize (by omega)
        cases made with
        | false =>
          have hcannot := (not_iff_not.mpr hiff).mp (by decide)
          refine ⟨fun _ => ⟨hsize, Or.inr (Or.inr (Or.inr hcannot))⟩, fun _ => ?_⟩
          exact ⟨0, _, hresult, fun h => absurd rfl h, fun _ => rfl⟩
        | true =>
          have hle : size.toNat ≤ rounded size := by
            unfold rounded
            omega
          have hpos : size.toNat ≠ 0 := fun hnat => hne (BitVec.eq_of_toNat_eq hnat)
          have hmaxlt := k.heap.maxAddr.isLt
          have hbrk : (k.heap.brk + size).toNat = k.heap.brk.toNat + size.toNat := by
            rw [BitVec.toNat_add]
            omega
          constructor
          . rintro ⟨ptr, k', hmoved, _, hnull⟩
            obtain ⟨rfl, rfl⟩ := EStateM.Result.ok.inj (hresult.symm.trans hmoved)
            refine ⟨hsize, Or.inl (fun hzero => ?_)⟩
            have hsame : (k.heap.brk + size).toNat = k.heap.brk.toNat := congrArg BitVec.toNat (hnull hzero)
            omega
          . rintro ⟨_, hcond⟩
            have hzero : k.heap.brk ≠ 0 := by
              rcases hcond with hzero | hsmall | hover | hcannot
              . exact hzero
              . exact absurd hsmall hne
              . exact absurd hover hlimit
              . exact absurd (hiff.mp rfl) hcannot
            refine ⟨k.heap.brk, _, hresult, fun _ => ⟨rfl, hbrk, ?_, ?_⟩, fun h => absurd h hzero⟩
            . dsimp only
              omega
            . dsimp only
              rw [hbrk]
              exact (hmade rfl).mapped_brk (by omega) hmapped
  . exact ⟨fun h => absurd h (not_movesForward_of_wrapped h4 hlt (by omega)), fun h => absurd h.1 hsize⟩

/--
The heap after `kalloc_init`.
-/
theorem kallocInit_bootKernel_break
    : ∃ k : Kernel, k.vm.WellFormed ∧ k.heap.brk.toNat = 0x401004 ∧ k.heap.maxAddr = kStackStart
        ∧ k.vm.Mapped (k.heap.brk.toNat / 4096) := by
  obtain ⟨k, hinit, _⟩ := kallocInit_bootKernel
  obtain ⟨_, _, _, _, _, _, ⟨grown⟩⟩ := kallocInit_grown (by decide) hinit
  have hbacked := kallocInit_backed (by decide) wellFormed_bootMachine
    (not_mapped_bootMachine _ (by decide)) hinit
  have hbrk : k.heap.brk.toNat = 0x401004 := grown.brk_eq
  have hstart : k.heap.start.toNat = 0x400000 := congrArg BitVec.toNat grown.start_eq
  refine ⟨k, hbacked.wellFormed, hbrk, hbacked.maxAddr_eq,
    ne_zero_of_isCached (hbacked.cached _ ?_ (Nat.le_refl _))⟩
  rw [hstart, hbrk]
  decide

theorem lxbrk_movesForward_bootKernel : ∃ k : Kernel, k.heap.brk.toNat = 0x401004 ∧ MovesForward k 5000 := by
  obtain ⟨k, hwf, hbrk, hmax, hmapped⟩ := kallocInit_bootKernel_break
  have hlimit : k.heap.maxAddr.toNat = 0xFFBF0000 := by
    rw [hmax]
    rfl
  refine ⟨k, hbrk, (lxbrk_movesForward_iff hwf (by omega) (by omega) (by rw [hlimit]; decide) hmapped 5000).mpr ?_⟩
  refine ⟨by decide, Or.inl fun hzero => ?_⟩
  rw [hzero] at hbrk
  contradiction

/--
After `kalloc_init` a call with a size of `2 ^ 32 - 3` bytes moves the break back by three bytes.
-/
theorem lxbrk_moves_back
    : ∃ k : Kernel, k.vm.WellFormed
        ∧ k.heap.brk.toNat % 4 = 0
        ∧ k.heap.brk.toNat < k.heap.maxAddr.toNat
        ∧ k.vm.Mapped (k.heap.brk.toNat / 4096)
        ∧ ¬MovesForward k 0xFFFFFFFD := by
  obtain ⟨k, hwf, hbrk, hmax, hmapped⟩ := kallocInit_bootKernel_break
  have hlimit : k.heap.maxAddr.toNat = 0xFFBF0000 := by
    rw [hmax]
    rfl
  refine ⟨k, hwf, by omega, by omega, hmapped, ?_⟩
  apply not_movesForward_of_wrapped
  . omega
  . omega
  . decide

end Lxbrk

end AwaOS
