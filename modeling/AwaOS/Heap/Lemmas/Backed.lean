import AwaOS.Heap.Lemmas.Confined
import AwaOS.Heap.Lemmas.Mapped
import AwaOS.Vmm.FirstFree

/-!
The pages of the heap are present. Nothing is assumed about the pages behind it.
-/

namespace AwaOS

open Machine

namespace Machine

variable {s : Machine}

/--
Virtual page `vpn` is present in the directory and in its page table.
-/
def Present (s : Machine) (vpn : Nat) : Prop :=
  isCached (s.dir (vpn / 1024)) = true ∧ isCached (s.entry vpn) = true

theorem WellFormed.present_of_cached (h : s.WellFormed) {vpn : Nat} (hvpn : vpn < vpnEnd)
    (hcached : isCached (s.entry vpn) = true)
    : s.Present vpn := by
  have hne : s.dir (vpn / 1024) ≠ 0 := by
    intro hzero
    rw [entry_of_absent hzero, isCached_zero] at hcached
    contradiction
  unfold vpnEnd at hvpn
  exact ⟨h.tabled.isCached_dir (by omega) hne, hcached⟩

/--
The MMU translates the addresses of such a page.
-/
theorem isSome_translate_iff (s : Machine) (va : Word)
    : (s.translate va).isSome = true ↔ s.Present (va.toNat / 4096) := by
  obtain ⟨hdiv, hmod⟩ := index_div va
  have hpde : s.mem s.cr3 (l1Index va) = s.dir (l1Index va) := rfl
  unfold Machine.translate Present
  rw [hdiv, hpde]
  dsimp only
  by_cases hdir : isCached (s.dir (l1Index va)) = true
  . have hne : s.dir (va.toNat / 4096 / 1024) ≠ 0 := by
      rw [hdiv]
      exact ne_zero_of_isCached hdir
    have hpte : s.mem (frameOf (s.dir (l1Index va))) (l2Index va) = s.entry (va.toNat / 4096) := by
      rw [entry_of_table hne, hdiv, hmod]
      rfl
    rw [if_pos hdir, hpte]
    split
    . next hcached => exact ⟨fun _ => ⟨hdir, hcached⟩, fun _ => rfl⟩
    . next hcached => exact ⟨(nomatch ·), fun hand => absurd hand.2 hcached⟩
  . rw [if_neg hdir]
    exact ⟨(nomatch ·), fun hand => absurd hand.1 hdir⟩

end Machine

/--
From the first page of the heap to that of the epilogue, every page has a present entry.
-/
structure Backed (k : Kernel) : Prop where
  wellFormed : k.vm.WellFormed
  maxAddr_eq : k.heap.maxAddr = kStackStart
  room : k.heap.brk.toNat + 4 < kStackStart.toNat
  cached : ∀ v, k.heap.start.toNat / 4096 ≤ v → v ≤ k.heap.brk.toNat / 4096 → isCached (k.vm.entry v) = true

section Backed

variable {k : Kernel} {size : Nat} {vm : Machine}

/--
`lxbrk` maps the pages after that of `brk`, or leaves every page as it was.
-/
theorem mapPages_cached (hwf : k.vm.WellFormed) (hroom : k.heap.brk.toNat + size < kStackStart.toNat)
    : ∃ made vm,
        lxbrk.mapPages k.heap.brk (pgAlign (k.heap.brk + BitVec.ofNat 32 size) - pgAlign k.heap.brk) k
          = .ok made { k with vm := vm }
        ∧ vm.WellFormed
        ∧ (∀ v, v < vpnEnd → isCached (k.vm.entry v) = true → isCached (vm.entry v) = true)
        ∧ (made = true → ∀ v, k.heap.brk.toNat / 4096 < v → v ≤ (k.heap.brk.toNat + size) / 4096 →
            isCached (vm.entry v) = true) := by
  have hattr : isCached pgPremRw = true := by decide
  cases mapPages_call (lt_of_lt_kStackStart hroom) with
  | inl hnone =>
    obtain ⟨hcount, hcall⟩ := hnone
    exact ⟨true, k.vm, hcall, hwf, fun _ _ hcached => hcached, fun _ v hgt hle => by omega⟩
  | inr hsome =>
    obtain ⟨va, sz, hbase, hcount, hcall⟩ := hsome
    rw [toNat_kStackStart] at hroom
    have hcases := vmmAllocPages_cases hwf va sz (by rw [hbase, hcount]; unfold vpnEnd; omega) hattr
    generalize hresult : vmmAllocPages va sz pgPremRw k.vm = r at hcases
    rw [hbase, hcount] at hcases
    rw [hcall]
    cases hcases with
    | done vm hmade =>
      refine ⟨true, vm, callVmm_ok hresult, hmade.wellFormed, ?_, ?_⟩
      . intro v hv hcached
        rw [hmade.entry_kept v hv]
        . exact hcached
        . rintro ⟨hge, hlt⟩
          have hfresh := hmade.fresh (v - (k.heap.brk.toNat / 4096 + 1)) (by omega)
          rw [show k.heap.brk.toNat / 4096 + 1 + (v - (k.heap.brk.toNat / 4096 + 1)) = v by omega] at hfresh
          rw [hfresh, isCached_zero] at hcached
          contradiction
      . intro _ v hgt hle
        have hcached := hmade.cached hattr (show v - (k.heap.brk.toNat / 4096 + 1) < _ by omega)
        rwa [show k.heap.brk.toNat / 4096 + 1 + (v - (k.heap.brk.toNat / 4096 + 1)) = v by omega] at hcached
    | failed n hn s s₁ vm hmade hnext hunmapped =>
      refine ⟨false, vm, callVmm_ok hresult, hunmapped.wellFormed, ?_, (nomatch ·)⟩
      intro v hv hcached
      rw [hmade.entry_rolledBack (hnext.failed hmade.wellFormed) hunmapped hv]
      exact hcached

theorem Backed.moved (h : Backed k) (hroom : k.heap.brk.toNat + (size + 4) < kStackStart.toNat)
    (hmap : lxbrk.mapPages k.heap.brk
        (pgAlign (k.heap.brk + BitVec.ofNat 32 (size + 4)) - pgAlign k.heap.brk) k
      = .ok true { k with vm := vm })
    {m' : ByteMem} {heap' : HeapContext} (hstart : heap'.start = k.heap.start)
    (hmax : heap'.maxAddr = k.heap.maxAddr) (hbrk : heap'.brk.toNat = k.heap.brk.toNat + size)
    : Backed { vm := vm, mem := m', heap := heap' } := by
  obtain ⟨made, vm', hmap', hwf, hkept, hnew⟩ := mapPages_cached h.wellFormed hroom
  obtain ⟨hmade, hk⟩ := EStateM.Result.ok.inj (hmap.symm.trans hmap')
  have hvm : vm = vm' := congrArg Kernel.vm hk
  subst hmade hvm
  constructor
  . exact hwf
  . exact hmax.trans h.maxAddr_eq
  . rw [hbrk]
    omega
  . intro v hge hle
    dsimp only at hge hle
    rw [hstart] at hge
    rw [hbrk] at hle
    by_cases hold : v ≤ k.heap.brk.toNat / 4096
    . rw [toNat_kStackStart] at hroom
      exact hkept v (by unfold vpnEnd; omega) (h.cached v hge hold)
    . exact hnew rfl v (by omega) (by omega)

theorem Backed.refused (h : Backed k) (hroom : k.heap.brk.toNat + size < kStackStart.toNat)
    (hmap : lxbrk.mapPages k.heap.brk (pgAlign (k.heap.brk + BitVec.ofNat 32 size) - pgAlign k.heap.brk) k
      = .ok false { k with vm := vm })
    : Backed { k with vm := vm } := by
  obtain ⟨made, vm', hmap', hwf, hkept, _⟩ := mapPages_cached h.wellFormed hroom
  obtain ⟨_, hk⟩ := EStateM.Result.ok.inj (hmap.symm.trans hmap')
  have hvm : vm = vm' := congrArg Kernel.vm hk
  subst hvm
  constructor
  . exact hwf
  . exact h.maxAddr_eq
  . exact h.room
  . intro v hge hle
    have hlimit := h.room
    rw [toNat_kStackStart] at hlimit
    dsimp only at hle
    exact hkept v (by unfold vpnEnd; omega) (h.cached v hge hle)

theorem lxmalloc_backed {cs : List Chunk} (hok : HeapOk k.mem k.heap cs) (h : Backed k) (size : Word)
    (hsize : size.toNat + 12 ≤ 2 ^ 32)
    : Backed (finalState (lxmalloc size k)) := by
  have hbytes : chunkBytes size + 4 < 2 ^ 32 := by
    unfold chunkBytes
    omega
  have htoNat : (BitVec.ofNat 32 (chunkBytes size + 4)).toNat = chunkBytes size + 4 := by
    rw [BitVec.toNat_ofNat, Nat.mod_eq_of_lt hbytes]
  have hcases := lxmalloc_cases hok size hsize
  generalize lxmalloc size k = r at hcases ⊢
  cases hcases with
  | empty hzero => exact h
  | null hne hfull vm hbrk =>
    cases hbrk.null_cases hok.brk_ne_zero with
    | inl hlimit =>
      obtain ⟨_, rfl⟩ := hlimit
      exact h
    | inr hrefused =>
      obtain ⟨hroom, hmap⟩ := hrefused
      rw [htoNat, h.maxAddr_eq] at hroom
      exact h.refused hroom hmap
  | fault hne hfull e vm hbrk =>
    obtain ⟨hroom, hmap⟩ := hbrk.fault_cases
    rw [htoNat, h.maxAddr_eq] at hroom
    obtain ⟨made, vm', hmap', _⟩ := mapPages_cached h.wellFormed hroom
    nomatch hmap.symm.trans hmap'
  | fit hne c hc hfree hle ptr m' placed => exact ⟨h.wellFormed, h.maxAddr_eq, h.room, h.cached⟩
  | grown hne hfull vm hbrk ptr m' heap' hmoved placed =>
    obtain ⟨hroom, hmap⟩ := hbrk.moved_cases hok.brk_ne_zero
    rw [htoNat, h.maxAddr_eq] at hroom
    exact h.moved hroom hmap placed.start_eq placed.maxAddr_eq hmoved

end Backed

/--
`kalloc_init` maps the page of the prologue, if it was not mapped before, and the one after it.
-/
theorem kallocInit_backed {start : Word} {k₀ k : Kernel} (haligned : start.toNat % 4096 = 0)
    (hwf : k₀.vm.WellFormed) (hfree : ¬k₀.vm.Mapped (start.toNat / 4096)) (h : kallocInit start k₀ = .ok true k)
    : Backed k := by
  obtain ⟨page, vm, ptr, hpage, hne, hbrk, ⟨grown⟩⟩ := kallocInit_grown haligned h
  have hstart := toNat_start_wsize haligned
  obtain ⟨hroom, hmap⟩ := Lxbrk.moved_cases (emptyKernel_ok vm k₀.mem haligned).brk_ne_zero hbrk
  have hroom' : start.toNat + 4 + (4096 + 4) < kStackStart.toNat := by
    rw [← hstart]
    exact hroom
  rw [toNat_kStackStart] at hroom'
  obtain ⟨hwf', pa, hmade⟩ := vmmAllocPage_unmapped hwf (by rw [l1Index_eq]; omega) hfree (by decide) hpage hne
  have hempty : Backed (emptyKernel vm k₀.mem start) := by
    constructor
    . exact hwf'
    . rfl
    . change (start + wsize).toNat + 4 < _
      rw [hstart, toNat_kStackStart]
      omega
    . intro v hge hle
      change start.toNat / 4096 ≤ v at hge
      change v ≤ (start + wsize).toNat / 4096 at hle
      rw [hstart] at hle
      have hv : v = start.toNat / 4096 := by omega
      have hentry : (emptyKernel vm k₀.mem start).vm.entry v = newL2Entry pgPremRw pa := by
        rw [hv]
        exact hmade.entry_self
      rw [hentry, isCached_newL2Entry]
      decide
  exact hempty.moved hroom hmap grown.start_eq grown.maxAddr_eq grown.brk_eq

end AwaOS
