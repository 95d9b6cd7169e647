import AwaOS.Heap.Run
import AwaOS.Vmm.SharedAlloc

/-!
The heap in a machine with shared frames, as the boot code leaves it. The heap is backed by frames that were
free when it was set up, and all other mappings stay as they are.
-/

namespace AwaOS

open Machine

/--
What has happened to the machine `s₀` for the sake of a heap that starts at `start`.
-/
structure HeapOnly (shared : Nat → Prop) (s₀ : Machine) (start : Word) (k : Kernel) : Prop where
  ownedBut : k.vm.OwnedBut shared
  start_eq : k.heap.start = start
  maxAddr_eq : k.heap.maxAddr = kStackStart
  room : k.heap.brk.toNat + 4 < kStackStart.toNat
  dir_kept : ∀ i, i < 1024 → s₀.dir i ≠ 0 → k.vm.dir i = s₀.dir i
  occupied : ∀ frame, s₀.pmm.occupied frame = true → k.vm.pmm.occupied frame = true
  entry_kept : ∀ v, v < vpnEnd → ¬(start.toNat / 4096 ≤ v ∧ v * 4096 < kStackStart.toNat) →
    k.vm.entry v = s₀.entry v
  backed : ∀ v, start.toNat / 4096 ≤ v → v ≤ k.heap.brk.toNat / 4096 → k.vm.entry v ≠ 0
  heap : ∀ v, start.toNat / 4096 ≤ v → v * 4096 < kStackStart.toNat → k.vm.entry v ≠ 0 →
    ∃ pa, k.vm.entry v = newL2Entry pgPremRw pa ∧ s₀.pmm.occupied (pa >>> 12).toNat = false

section Grow

variable {shared : Nat → Prop} {s₀ : Machine} {start : Word} {k : Kernel} {size : Nat}

/--
The pages from that of the break on are mapped, all of them or none.
-/
theorem HeapOnly.allocated (h : HeapOnly shared s₀ start k) (hbrk : start.toNat ≤ k.heap.brk.toNat)
    {made : Bool} {vm : Machine} {m' : ByteMem} {heap' : HeapContext}
    (hlimit : k.heap.brk.toNat + size < kStackStart.toNat)
    (hmade : AllocatedBut shared k.vm (k.heap.brk.toNat / 4096 + 1)
      ((k.heap.brk.toNat + size) / 4096 - k.heap.brk.toNat / 4096) pgPremRw made vm)
    (hstart : heap'.start = k.heap.start) (hmax : heap'.maxAddr = k.heap.maxAddr)
    (hroom : heap'.brk.toNat + 4 < kStackStart.toNat)
    (hgrown : heap'.brk.toNat ≤ k.heap.brk.toNat + (if made then size else 0))
    : HeapOnly shared s₀ start { vm := vm, mem := m', heap := heap' } where
  ownedBut := hmade.ownedBut
  start_eq := hstart.trans h.start_eq
  maxAddr_eq := hmax.trans h.maxAddr_eq
  room := hroom
  dir_kept := by
    intro i hi hne
    have hkept := h.dir_kept i hi hne
    rw [hmade.dir_kept i hi (by rw [hkept]; exact hne), hkept]
  occupied := fun frame hframe => hmade.occupied frame (h.occupied frame hframe)
  entry_kept := by
    intro v hv hout
    rw [toNat_kStackStart] at hlimit hout
    rw [hmade.entry_kept v hv (by omega), h.entry_kept v hv (by rw [toNat_kStackStart]; exact hout)]
  backed := by
    intro v hge hle
    rw [toNat_kStackStart] at hlimit
    dsimp only at hle ⊢
    by_cases hold : v ≤ k.heap.brk.toNat / 4096
    . rw [hmade.entry_kept v (by unfold vpnEnd; omega) (by omega)]
      exact h.backed v hge hold
    . cases made with
      | false =>
        simp only [Bool.false_eq_true, ↓reduceIte, Nat.add_zero] at hgrown
        omega
      | true =>
        simp only [↓reduceIte] at hgrown
        obtain ⟨_, pa, hentry, _⟩ := hmade.entry_made rfl (v - (k.heap.brk.toNat / 4096 + 1)) (by omega)
        rw [show k.heap.brk.toNat / 4096 + 1 + (v - (k.heap.brk.toNat / 4096 + 1)) = v by omega] at hentry
        rw [hentry]
        exact newL2Entry_ne_zero (by decide)
  heap := by
    intro v hge hlt hne
    rw [toNat_kStackStart] at hlimit hlt
    dsimp only at hne ⊢
    by_cases hnew : made = true ∧ k.heap.brk.toNat / 4096 + 1 ≤ v
        ∧ v < k.heap.brk.toNat / 4096 + 1 + ((k.heap.brk.toNat + size) / 4096 - k.heap.brk.toNat / 4096)
    . obtain ⟨_, pa, hentry, hfree⟩ := hmade.entry_made hnew.1 (v - (k.heap.brk.toNat / 4096 + 1)) (by omega)
      rw [show k.heap.brk.toNat / 4096 + 1 + (v - (k.heap.brk.toNat / 4096 + 1)) = v by omega] at hentry
      refine ⟨pa, hentry, ?_⟩
      by_contra hframe
      rw [h.occupied _ (Bool.not_eq_false _ ▸ hframe)] at hfree
      contradiction
    . have hkept := hmade.entry_kept v (by unfold vpnEnd; omega) hnew
      rw [hkept] at hne ⊢
      exact h.heap v hge (by rw [toNat_kStackStart]; exact hlt) hne

theorem HeapOnly.setMem (h : HeapOnly shared s₀ start k) (m' : ByteMem)
    : HeapOnly shared s₀ start { k with mem := m' } :=
  ⟨h.ownedBut, h.start_eq, h.maxAddr_eq, h.room, h.dir_kept, h.occupied, h.entry_kept, h.backed, h.heap⟩

end Grow

section Malloc

variable {shared : Nat → Prop} {s₀ : Machine} {start : Word} {k : Kernel} {cs : List Chunk}

end Malloc

section Init

variable {shared : Nat → Prop} {k₀ k : Kernel} {start : Word}

end Init

end AwaOS
