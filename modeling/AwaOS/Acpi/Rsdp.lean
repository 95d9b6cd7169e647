import AwaOS.Acpi.Impl
import Mathlib.Algebra.Group.Nat.Defs

/-!
The search for the RSDP in `hal/acpi/acpi.c`. It takes the first address that holds `RSD `, and the checksum is only
looked at afterwards.
-/

namespace AwaOS

namespace Acpi

/--
`ACPI_RSDP_SIG_L`
-/
def rsdpSigL : Word := 0x20445352

/--
`ACPI_RSDP_SIG_H`. The search does not use it.
-/
def rsdpSigH : Word := 0x20525450

/--
The loop of `acpi_locate_rsdp` from `memStart` on.
-/
def acpiLocateRsdp.go (mem : Firmware) (memStart : Word) : Option Word :=
  if memStart < 0x100000 then
    if load32 mem memStart = rsdpSigL then
      some memStart
    else
      go mem (memStart + 16)
  else
    none
termination_by 0x100000 - memStart.toNat
decreasing_by
  next hlt _ =>
    have hless : memStart.toNat < 0x100000 := hlt
    rw [BitVec.toNat_add, show (16 : Word).toNat = 16 from rfl]
    omega

/--
`acpi_locate_rsdp`, `none` for the null pointer.
-/
def acpiLocateRsdp (mem : Firmware) : Option Word :=
  acpiLocateRsdp.go mem 0x4000

/--
`acpi_rsdp_validate`
-/
def acpiRsdpValidate (mem : Firmware) (rsdp : Word) : Bool :=
  (List.range 20).foldl (fun sum i => sum + mem (rsdp + BitVec.ofNat 32 i)) 0 == (0 : BitVec 8)

/--
An address that the search may look at.
-/
structure Searched (a : Word) : Prop where
  ge : 0x4000 ≤ a.toNat
  lt : a.toNat < 0x100000
  aligned : a.toNat % 16 = 0

/--
The full signature with a checksum that is right.
-/
structure IsRsdp (mem : Firmware) (a : Word) : Prop where
  low : load32 mem a = rsdpSigL
  high : load32 mem (a + 4) = rsdpSigH
  sum : acpiRsdpValidate mem a = true

/--
Where there is a descriptor the search returns one.
-/
def FindsRsdp (mem : Firmware) : Prop :=
  (∃ a, Searched a ∧ IsRsdp mem a) → ∃ a, acpiLocateRsdp mem = some a ∧ IsRsdp mem a

section Search

variable {mem : Firmware} {s a : Word}

theorem toNat_add_sixteen (hlt : s < 0x100000) : (s + 16).toNat = s.toNat + 16 := by
  have hless : s.toNat < 0x100000 := hlt
  rw [BitVec.toNat_add, show (16 : Word).toNat = 16 from rfl]
  omega

theorem go_eq_none (haligned : s.toNat % 16 = 0) (hnone : acpiLocateRsdp.go mem s = none) {b : Word}
    (hle : s.toNat ≤ b.toNat) (hlt : b.toNat < 0x100000) (hb : b.toNat % 16 = 0)
    : load32 mem b ≠ rsdpSigL := by
  induction s using acpiLocateRsdp.go.induct mem with
  | case1 s hs hfound =>
    rw [acpiLocateRsdp.go, if_pos hs, if_pos hfound] at hnone
    contradiction
  | case2 s hs hmissed ih =>
    rw [acpiLocateRsdp.go, if_pos hs, if_neg hmissed] at hnone
    have hnext := toNat_add_sixteen hs
    by_cases heq : b = s
    . rw [heq]
      exact hmissed
    . have hne : b.toNat ≠ s.toNat := fun h => heq (BitVec.eq_of_toNat_eq h)
      exact ih (by omega) hnone (by omega)
  | case3 s hs =>
    have hge : ¬s.toNat < 0x100000 := hs
    omega

/--
The search stops at the first address that holds the low word.
-/
theorem go_eq_some (haligned : s.toNat % 16 = 0) (hsome : acpiLocateRsdp.go mem s = some a)
    : s.toNat ≤ a.toNat ∧ a.toNat < 0x100000 ∧ a.toNat % 16 = 0 ∧ load32 mem a = rsdpSigL
        ∧ ∀ b : Word, s.toNat ≤ b.toNat → b.toNat < a.toNat → b.toNat % 16 = 0 → load32 mem b ≠ rsdpSigL := by
  induction s using acpiLocateRsdp.go.induct mem with
  | case1 s hs hfound =>
    rw [acpiLocateRsdp.go, if_pos hs, if_pos hfound] at hsome
    cases hsome
    exact ⟨Nat.le_refl _, hs, haligned, hfound, fun b hle hlt _ => by omega⟩
  | case2 s hs hmissed ih =>
    rw [acpiLocateRsdp.go, if_pos hs, if_neg hmissed] at hsome
    have hnext := toNat_add_sixteen hs
    obtain ⟨hle, hlt, hmod, hfound, hbefore⟩ := ih (by omega) hsome
    refine ⟨by omega, hlt, hmod, hfound, fun b hsb hba hb => ?_⟩
    by_cases heq : b = s
    . rw [heq]
      exact hmissed
    . have hne : b.toNat ≠ s.toNat := fun h => heq (BitVec.eq_of_toNat_eq h)
      exact hbefore b (by omega) hba hb
  | case3 s hs =>
    rw [acpiLocateRsdp.go, if_neg hs] at hsome
    contradiction

/--
The search finds a descriptor if and only if no other address before it holds the low word of the signature.
-/
theorem findsRsdp_iff (mem : Firmware)
    : FindsRsdp mem
        ↔
      ((∃ a, Searched a ∧ IsRsdp mem a) →
        ∃ a, Searched a ∧ IsRsdp mem a ∧ ∀ b, Searched b → b.toNat < a.toNat → load32 mem b ≠ rsdpSigL) := by
  have hstart : (0x4000 : Word).toNat = 0x4000 := rfl
  constructor
  . intro h hexists
    obtain ⟨a, hsome, hrsdp⟩ := h hexists
    obtain ⟨hle, hlt, hmod, _, hbefore⟩ := go_eq_some (by decide) hsome
    refine ⟨a, ⟨by omega, hlt, hmod⟩, hrsdp, fun b hb hless => ?_⟩
    exact hbefore b (by have := hb.ge; omega) hless hb.aligned
  . intro h hexists
    obtain ⟨a, ha, hrsdp, hfirst⟩ := h hexists
    have hge := ha.ge
    cases hsearch : acpiLocateRsdp mem with
    | none => exact absurd hrsdp.low (go_eq_none (by decide) hsearch (by omega) ha.lt ha.aligned)
    | some b =>
      obtain ⟨hle, hlt, hmod, hfound, hbefore⟩ := go_eq_some (by decide) hsearch
      have hnotLess : ¬b.toNat < a.toNat := fun hless => hfirst b ⟨by omega, hlt, hmod⟩ hless hfound
      have hnotGreater : ¬a.toNat < b.toNat := fun hless => hbefore a (by omega) hless ha.aligned hrsdp.low
      have heq : b = a := BitVec.eq_of_toNat_eq (by omega)
      refine ⟨b, rfl, ?_⟩
      rw [heq]
      exact hrsdp

/--
`RSD ` alone at `0x4000`, and a descriptor behind it.
-/
def decoy : Firmware := fun a =>
  ([0x52, 0x53, 0x44, 0x20, 0, 0, 0, 0, 0, 0, 0, 0, 0, 0, 0, 0,
    0x52, 0x53, 0x44, 0x20, 0x50, 0x54, 0x52, 0x20, 0xE1] : List (BitVec 8)).getD (a.toNat - 0x4000) 0

/--
The search returns the address of the decoy.
-/
theorem not_findsRsdp_decoy : ¬FindsRsdp decoy := by
  intro h
  have hrsdp : IsRsdp decoy 0x4010 := by
    constructor
    . decide
    . decide
    . decide
  obtain ⟨a, hsome, hfound⟩ := h ⟨0x4010, ⟨by decide, by decide, by decide⟩, hrsdp⟩
  unfold acpiLocateRsdp at hsome
  rw [acpiLocateRsdp.go, if_pos (by decide), if_pos (by decide)] at hsome
  cases hsome
  exact absurd hfound.high (by decide)

end Search

end Acpi

end AwaOS
