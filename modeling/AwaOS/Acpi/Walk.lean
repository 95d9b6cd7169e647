import AwaOS.Acpi.Impl

/-!
When the loop of `madt_parse` ends. Its step is the length byte of the entry that it looks at.
-/

namespace AwaOS

namespace Acpi

open Walk

/--
The entries of a table, one behind the other. Addresses wrap, as those of the code do.
-/
inductive EntryAt (mem : Firmware) (madt : Word) : Word → Prop where
  | first (hlt : madt + BitVec.ofNat 32 madtSize < icsEnd mem madt) : EntryAt mem madt
    (madt + BitVec.ofNat 32 madtSize)
  | next {p : Word} (hp : EntryAt mem madt p) (hlt : p + (icsLength mem p).setWidth 32 < icsEnd mem madt)
      : EntryAt mem madt (p + (icsLength mem p).setWidth 32)

/--
The entry behind an entry.
-/
def nextEntry (mem : Firmware) (icsEnd p : Word) : Option Word :=
  if p < icsEnd then some (p + (icsLength mem p).setWidth 32) else none

/--
The entry extends over the end of the address space.
-/
def Wraps (mem : Firmware) (p : Word) : Prop :=
  2 ^ 32 ≤ p.toNat + (icsLength mem p).toNat

section Entries

variable {mem : Firmware} {madt p q : Word}

theorem step_iff {icsEnd : Word}
    : Step (nextEntry mem icsEnd) p q ↔ p < icsEnd ∧ q = p + (icsLength mem p).setWidth 32 := by
  unfold Step nextEntry
  split
  . next hlt =>
    rw [Option.some_inj]
    exact ⟨fun heq => ⟨hlt, heq.symm⟩, fun h => h.right.symm⟩
  . next hge => exact ⟨fun h => Option.noConfusion rfl (heq_of_eq h), fun h => absurd h.left hge⟩

theorem EntryAt.lt (h : EntryAt mem madt p) : p < icsEnd mem madt := by
  cases h with
  | first hlt => exact hlt
  | next _ hlt => exact hlt

theorem entryAt_iff
    : EntryAt mem madt p
        ↔
      Reaches (nextEntry mem (icsEnd mem madt)) (madt + BitVec.ofNat 32 madtSize) p ∧ p < icsEnd mem madt := by
  constructor
  . intro h
    refine ⟨?_, h.lt⟩
    induction h with
    | first hlt => exact .refl
    | next hp hlt ih => exact ih.tail (step_iff.mpr ⟨hp.lt, rfl⟩)
  . intro h
    obtain ⟨hreach, hlt⟩ := h
    induction hreach with
    | refl => exact .first hlt
    | tail _ hstep ih =>
      obtain ⟨hless, heq⟩ := step_iff.mp hstep
      rw [heq] at hlt ⊢
      exact .next (ih hless) hlt

theorem toNat_next (hwraps : ¬Wraps mem p)
    : (p + (icsLength mem p).setWidth 32).toNat = p.toNat + (icsLength mem p).toNat := by
  have hlen := (icsLength mem p).isLt
  unfold Wraps at hwraps
  rw [BitVec.toNat_add, BitVec.toNat_setWidth, Nat.mod_eq_of_lt (show _ < 2 ^ 32 by omega),
    Nat.mod_eq_of_lt (by omega)]

theorem comesBack_of_zero {icsEnd : Word} (hlt : p < icsEnd) (hzero : icsLength mem p = 0)
    : ComesBack (nextEntry mem icsEnd) p := by
  apply Relation.TransGen.single
  apply step_iff.mpr
  refine ⟨hlt, ?_⟩
  rw [hzero]
  exact (BitVec.add_zero p).symm

theorem lt_of_comesBack {icsEnd : Word} (h : ComesBack (nextEntry mem icsEnd) p) : p < icsEnd := by
  obtain ⟨q, hstep, _⟩ := Relation.TransGen.head'_iff.mp h
  exact (step_iff.mp hstep).left

/--
Between two visits the addresses grow, unless an entry is empty or wraps.
-/
theorem not_comesBack {icsEnd : Word}
    (hgrows : ∀ q, Reaches (nextEntry mem icsEnd) p q → ComesBack (nextEntry mem icsEnd) q →
      icsLength mem q ≠ 0 ∧ ¬Wraps mem q)
    : ¬ComesBack (nextEntry mem icsEnd) p := by
  intro hback
  have hstep :
      ∀ q r, Reaches (nextEntry mem icsEnd) p q → Step (nextEntry mem icsEnd) q r → q.toNat < r.toNat := by
    intro q r hreach hqr
    obtain ⟨hnonzero, hwraps⟩ := hgrows q hreach (hback.of_reaches hreach)
    rw [(step_iff.mp hqr).right, toNat_next hwraps]
    have hpos : (icsLength mem q).toNat ≠ 0 := fun heq => hnonzero (BitVec.eq_of_toNat_eq heq)
    omega
  have hless : ∀ r, Relation.TransGen (Step (nextEntry mem icsEnd)) p r → p.toNat < r.toNat := by
    intro r hr
    induction hr with
    | single hpr => exact hstep p _ .refl hpr
    | tail hpq hqr ih => exact Nat.lt_trans ih (hstep _ _ hpq.to_reflTransGen hqr)
  exact Nat.lt_irrefl _ (hless p hback)

end Entries

section Ends

variable (mem : Firmware) (madt : Word)

instance finiteWord : Finite Word :=
  Finite.of_injective BitVec.toFin (fun _ _ h => BitVec.eq_of_toFin_eq h)

theorem round_icsStart (icsEnd : Word) (parse : Parse)
    : (madtParse.round mem icsEnd parse).map Parse.icsStart = nextEntry mem icsEnd parse.icsStart := by
  unfold madtParse.round nextEntry
  split
  . rfl
  . rfl

/--
The loop of `madt_parse` ends.
-/
def ParseEnds : Prop :=
  ∀ slots toc, Walk.Ends (madtParse.round mem (icsEnd mem madt)) (madtParse.start mem madt slots toc)

theorem parseEnds_iff_comesBack
    : ParseEnds mem madt ↔ ∀ p, EntryAt mem madt p → ¬ComesBack (nextEntry mem (icsEnd mem madt)) p := by
  have hends : ∀ slots toc, Walk.Ends (madtParse.round mem (icsEnd mem madt)) (madtParse.start mem madt slots toc)
      ↔ ∀ p, EntryAt mem madt p → ¬ComesBack (nextEntry mem (icsEnd mem madt)) p := by
    intro slots toc
    rw [ends_map (round_icsStart mem (icsEnd mem madt)), ends_iff]
    constructor
    . intro h p hp
      exact h p (entryAt_iff.mp hp).left
    . intro h p hreach hback
      exact h p (entryAt_iff.mpr ⟨hreach, lt_of_comesBack hback⟩) hback
  constructor
  . intro h
    exact (hends (fun _ => 0) ⟨0, 0, 0, fun _ => 0⟩).mp (h _ _)
  . intro h slots toc
    exact (hends slots toc).mpr h

/--
The loop ends if and only if no entry is empty, and none wraps around to lead back to itself. Where the table ends
below the last 255 bytes of the address space, only empty entries count.
-/
theorem parseEnds_iff
    : (ParseEnds mem madt
          ↔ (∀ p, EntryAt mem madt p → icsLength mem p ≠ 0)
            ∧ (∀ p, EntryAt mem madt p → Wraps mem p → ¬ComesBack (nextEntry mem (icsEnd mem madt)) p))
        ∧ ((icsEnd mem madt).toNat + 255 ≤ 2 ^ 32 →
          (ParseEnds mem madt ↔ ∀ p, EntryAt mem madt p → icsLength mem p ≠ 0)) := by
  have hiff : ParseEnds mem madt
      ↔ (∀ p, EntryAt mem madt p → icsLength mem p ≠ 0)
        ∧ (∀ p, EntryAt mem madt p → Wraps mem p → ¬ComesBack (nextEntry mem (icsEnd mem madt)) p) := by
    rw [parseEnds_iff_comesBack]
    constructor
    . intro h
      exact ⟨fun p hp hzero => h p hp (comesBack_of_zero hp.lt hzero), fun p hp _ => h p hp⟩
    . intro h p hp
      obtain ⟨hnonzero, hwraps⟩ := h
      apply not_comesBack
      intro q hreach hback
      have hq : EntryAt mem madt q :=
        entryAt_iff.mpr ⟨(entryAt_iff.mp hp).left.trans hreach, lt_of_comesBack hback⟩
      exact ⟨hnonzero q hq, fun hwrap => hwraps q hq hwrap hback⟩
  refine ⟨hiff, fun hroom => ?_⟩
  rw [hiff]
  constructor
  . intro h
    exact h.left
  . intro h
    refine ⟨h, fun p hp hwrap => ?_⟩
    have hlt : p.toNat < (icsEnd mem madt).toNat := hp.lt
    have hlen := (icsLength mem p).isLt
    unfold Wraps at hwrap
    omega

end Ends

/--
A table with one entry, of the given length.
-/
def oneEntry (len : BitVec 8) : Firmware := fun a =>
  if a = 0x1004 then 52 else if a = 0x102D then len else 0

theorem parseEnds_iff_oneEntry
    : ParseEnds (oneEntry 8) 0x1000 ↔ ∀ p, EntryAt (oneEntry 8) 0x1000 p → icsLength (oneEntry 8) p ≠ 0 := by
  exact (parseEnds_iff (oneEntry 8) 0x1000).right (by decide)

/--
An empty entry is looked at for ever.
-/
theorem not_parseEnds_empty : ¬ParseEnds (oneEntry 0) 0x1000 := by
  intro h
  have hentry : EntryAt (oneEntry 0) 0x1000 (0x1000 + BitVec.ofNat 32 madtSize) := .first (by decide)
  exact (parseEnds_iff_comesBack _ _).mp h _ hentry (comesBack_of_zero hentry.lt (by decide))

end Acpi

end AwaOS
