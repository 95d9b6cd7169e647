import AwaOS.Lib.Align
import AwaOS.Page.Basic

/-!
The fields of virtual addresses and page table entries as numbers.
-/

namespace AwaOS

theorem getLsbD_pgMask (i : Nat) (hi : i < 32) : (0xFFFFF000#32).getLsbD i = decide (12 ≤ i) := by
  revert i
  decide

theorem getLsbD_offsetMask (i : Nat) (hi : i < 32) : (0xFFF#32).getLsbD i = decide (i < 12) := by
  revert i
  decide

theorem toNat_pgAlign (addr : Word) : (pgAlign addr).toNat = addr.toNat / 4096 * 4096 :=
  Align.toNat_and_highMask addr 12

theorem l1Index_eq (vaddr : Word) : l1Index vaddr = vaddr.toNat / 4194304 := by
  have := vaddr.isLt
  have hmask : 0xFFC00000#32 >>> 22 = 0x3FF#32 := by decide
  unfold l1Index
  rw [BitVec.ushiftRight_and_distrib, hmask, BitVec.toNat_and, BitVec.toNat_ushiftRight,
    Nat.shiftRight_eq_div_pow]
  rw [show (0x3FF#32).toNat = 2 ^ 10 - 1 from rfl, Nat.and_two_pow_sub_one_eq_mod]
  omega

theorem l2Index_eq (vaddr : Word) : l2Index vaddr = vaddr.toNat / 4096 % 1024 := by
  have hmask : 0x003FF000#32 >>> 12 = 0x3FF#32 := by decide
  unfold l2Index
  rw [BitVec.ushiftRight_and_distrib, hmask, BitVec.toNat_and, BitVec.toNat_ushiftRight,
    Nat.shiftRight_eq_div_pow]
  rw [show (0x3FF#32).toNat = 2 ^ 10 - 1 from rfl, Nat.and_two_pow_sub_one_eq_mod]

theorem toNat_pgOffset (vaddr : Word) : (pgOffset vaddr).toNat = vaddr.toNat % 4096 := by
  unfold pgOffset
  rw [BitVec.toNat_and]
  rw [show (0x00000FFF#32).toNat = 2 ^ 12 - 1 from rfl, Nat.and_two_pow_sub_one_eq_mod]

theorem index_div (va : Word) : va.toNat / 4096 / 1024 = l1Index va ∧ va.toNat / 4096 % 1024 = l2Index va := by
  rw [l1Index_eq, l2Index_eq, Nat.div_div_eq_div_mul]
  exact ⟨rfl, rfl⟩

theorem toNat_of_aligned {va : Word} (hva : pgOffset va = 0) : va.toNat = va.toNat / 4096 * 4096 := by
  have hoffset := congrArg BitVec.toNat hva
  rw [toNat_pgOffset] at hoffset
  have hmod : va.toNat % 4096 = 0 := hoffset
  omega

theorem pgAlign_of_aligned {pa : Word} (hpa : pgOffset pa = 0) : pgAlign pa = pa := by
  apply BitVec.eq_of_toNat_eq
  rw [toNat_pgAlign, ← toNat_of_aligned hpa]

theorem l1Index_lt (vaddr : Word) : l1Index vaddr < 1024 := by
  have := vaddr.isLt
  rw [l1Index_eq]
  omega

theorem l2Index_lt (vaddr : Word) : l2Index vaddr < 1024 := by
  rw [l2Index_eq]
  omega

theorem l2Index_le (vaddr : Word) : l2Index vaddr ≤ pgMaxEntries :=
  Nat.le_of_lt (l2Index_lt vaddr)

theorem getLsbD_newEntry (flags addr : Word) (i : Nat) (hi : i < 32)
    : (newL2Entry flags addr).getLsbD i = if i < 12 then flags.getLsbD i else addr.getLsbD i := by
  unfold newL2Entry pgAlign
  rw [BitVec.getLsbD_or, BitVec.getLsbD_and, BitVec.getLsbD_and, getLsbD_pgMask i hi,
    getLsbD_offsetMask i hi]
  by_cases h12 : i < 12
  . have : ¬12 ≤ i := by omega
    simp [h12, this]
  . have : 12 ≤ i := by omega
    simp [h12, this]

theorem newL1Entry_eq : newL1Entry = newL2Entry := by
  rfl

theorem newL2Entry_shift (flags addr : Word) : newL2Entry flags addr >>> 12 = addr >>> 12 := by
  apply BitVec.eq_of_getLsbD_eq
  intro i hi
  rw [BitVec.getLsbD_ushiftRight, BitVec.getLsbD_ushiftRight]
  by_cases h : 12 + i < 32
  . have : ¬12 + i < 12 := by omega
    rw [getLsbD_newEntry flags addr _ h, if_neg this]
  . rw [BitVec.getLsbD_of_ge _ _ (by omega), BitVec.getLsbD_of_ge _ _ (by omega)]

theorem pgEntryFlags_newL2Entry (flags addr : Word)
    : pgEntryFlags (newL2Entry flags addr) = flags &&& 0xFFF#32 := by
  unfold pgEntryFlags
  apply BitVec.eq_of_getLsbD_eq
  intro i hi
  rw [BitVec.getLsbD_and, BitVec.getLsbD_and, getLsbD_offsetMask i hi, getLsbD_newEntry flags addr i hi]
  by_cases h12 : i < 12
  . simp [h12]
  . simp [h12]

theorem pgEntryAddr_newL2Entry (flags addr : Word)
    : pgEntryAddr (newL2Entry flags addr) = pgAlign addr := by
  unfold pgEntryAddr pgAlign
  apply BitVec.eq_of_getLsbD_eq
  intro i hi
  rw [show ~~~0xFFF#32 = 0xFFFFF000#32 from rfl, BitVec.getLsbD_and, BitVec.getLsbD_and,
    getLsbD_pgMask i hi, getLsbD_newEntry flags addr i hi]
  by_cases h12 : i < 12
  . have : ¬12 ≤ i := by omega
    simp [this]
  . simp [h12]

theorem and_one_eq (entry : Word) : entry &&& 0x1#32 = if entry.getLsbD 0 then 1#32 else 0#32 := by
  apply BitVec.eq_of_getLsbD_eq
  intro i hi
  rw [BitVec.getLsbD_and]
  cases i with
  | zero =>
    cases entry.getLsbD 0 with
    | false => simp
    | true => simp
  | succ i =>
    have : (1#32).getLsbD (i + 1) = false := by simp [BitVec.getLsbD_one]
    rw [this]
    split
    . simp [BitVec.getLsbD_one]
    . simp

theorem isCached_eq_getLsbD (entry : Word) : isCached entry = entry.getLsbD 0 := by
  unfold isCached
  rw [and_one_eq]
  cases entry.getLsbD 0 with
  | false => rfl
  | true => rfl

theorem hasFlags_pgPresent (entry : Word) : hasFlags entry pgPresent = isCached entry := by
  have hmask : 0xFFF#32 &&& 0x1#32 = 0x1#32 := by decide
  unfold hasFlags pgEntryFlags pgPresent
  rw [isCached_eq_getLsbD, BitVec.ofNat_eq_ofNat, BitVec.and_assoc, hmask, and_one_eq]
  cases entry.getLsbD 0 with
  | false => rfl
  | true => rfl

/--
An entry is present iff the flags it was made with contain `PG_PRESENT`.
-/
theorem isCached_newL2Entry (flags addr : Word)
    : isCached (newL2Entry flags addr) = isCached flags := by
  rw [isCached_eq_getLsbD, isCached_eq_getLsbD, getLsbD_newEntry flags addr 0 (by decide)]
  simp

theorem toNat_vAddr {pd pt : Nat} (hpd : pd < 1024) (hpt : pt < 1024) {offset : Word}
    (hoffset : offset.toNat < 4096)
    : (vAddr pd pt offset).toNat = (pd * 1024 + pt) * 4096 + offset.toNat := by
  have hlow : pt <<< 12 + offset.toNat = pt <<< 12 ||| offset.toNat := Nat.shiftLeft_add_eq_or_of_lt hoffset pt
  have hsum : pt <<< 12 + offset.toNat < 2 ^ 22 := by
    rw [Nat.shiftLeft_eq]
    omega
  have hhigh := Nat.shiftLeft_add_eq_or_of_lt hsum pd
  have hpd' : (BitVec.ofNat 32 (pd <<< 22)).toNat = pd <<< 22 := by
    rw [BitVec.toNat_ofNat, Nat.shiftLeft_eq, Nat.mod_eq_of_lt (by omega)]
  have hpt' : (BitVec.ofNat 32 (pt <<< 12)).toNat = pt <<< 12 := by
    rw [BitVec.toNat_ofNat, Nat.shiftLeft_eq, Nat.mod_eq_of_lt (by omega)]
  unfold vAddr
  rw [BitVec.toNat_or, BitVec.toNat_or, hpd', hpt', Nat.or_assoc, ← hlow, ← hhigh, Nat.shiftLeft_eq,
    Nat.shiftLeft_eq]
  omega

end AwaOS
