import AwaOS.Descriptor.Encoders
import AwaOS.Interrupt.Wrapper

/-!
The tables that `_init_gdt` and `_init_idt` leave to the processor: an interrupt goes to the stub of its vector, in
the flat code segment of the kernel.
-/

namespace AwaOS

section Impl

/--
`_init_idt`, with `_asm_isr<vector>` at `asmIsr vector`.
-/
def initIdt (asmIsr : BitVec 8 → Word) (idt : Idt) : Option Idt := do
  let idt ← setIdtEntry idt (faultDivisionError.setWidth 32) 0x08 (asmIsr 0) 0
  let idt ← setIdtEntry idt (faultGeneralProtection.setWidth 32) 0x08 (asmIsr 13) 0
  let idt ← setIdtEntry idt (faultPageFault.setWidth 32) 0x08 (asmIsr 14) 0
  let idt ← setIdtEntry idt (apicErrorIv.setWidth 32) 0x08 (asmIsr 200) 0
  let idt ← setIdtEntry idt (apicLint0Iv.setWidth 32) 0x08 (asmIsr 201) 0
  let idt ← setIdtEntry idt (apicTimerIv.setWidth 32) 0x08 (asmIsr 202) 0
  let idt ← setIdtEntry idt (apicSpivIv.setWidth 32) 0x08 (asmIsr 203) 0
  let idt ← setIdtEntry idt (rtcTimerIv.setWidth 32) 0x08 (asmIsr 210) 0
  setIdtEntry idt (awaSysPanic.setWidth 32) 0x08 (asmIsr 32) 0

end Impl

section Idt

/--
What the processor reads for an interrupt.
-/
def Idt.gate (idt : Idt) (vector : BitVec 8) : GateDescriptor :=
  GateDescriptor.decode (idt.get ⟨vector.toNat, vector.isLt⟩)

/--
The vectors in the order in which `_init_idt` sets their gates.
-/
def initIdt.vectors : List (BitVec 8) :=
  [faultDivisionError, faultGeneralProtection, faultPageFault, apicErrorIv, apicLint0Iv, apicTimerIv, apicSpivIv,
    rtcTimerIv, awaSysPanic]

theorem mem_initIdt_vectors (vector : BitVec 8)
    : vector ∈ initIdt.vectors ↔ vector ∈ isrTemplates.map IsrTemplate.vector := by
  have hperm : initIdt.vectors.Perm (isrTemplates.map IsrTemplate.vector) := by decide
  exact hperm.mem_iff

variable (asmIsr : BitVec 8 → Word)

def setVector (idt : Idt) (vector : BitVec 8) : Idt :=
  idt.set vector.toNat (gateWord 0x08 (asmIsr vector) 0) vector.isLt

@[simp]
theorem gate_setVector_self (idt : Idt) (vector : BitVec 8)
    : (setVector asmIsr idt vector).gate vector = .interrupt32 (asmIsr vector) 0x08 0 := by
  have hget : (setVector asmIsr idt vector).get ⟨vector.toNat, vector.isLt⟩ = gateWord 0x08 (asmIsr vector) 0 := by
    apply Vector.getElem_set_self
  unfold Idt.gate
  rw [hget, decode_gateWord]
  rfl

theorem gate_setVector_of_ne (idt : Idt) {vector vector' : BitVec 8} (hne : vector' ≠ vector)
    : (setVector asmIsr idt vector).gate vector' = idt.gate vector' := by
  have hget
      : (setVector asmIsr idt vector).get ⟨vector'.toNat, vector'.isLt⟩
          =
        idt.get ⟨vector'.toNat, vector'.isLt⟩ := by
    apply Vector.getElem_set_ne
    intro heq
    exact hne (BitVec.eq_of_toNat_eq heq.symm)
  unfold Idt.gate
  rw [hget]

theorem gate_foldl_setVector (idt : Idt) (vectors : List (BitVec 8)) (vector : BitVec 8)
    : (vectors.foldl (setVector asmIsr) idt).gate vector
        =
      if vector ∈ vectors then .interrupt32 (asmIsr vector) 0x08 0 else idt.gate vector := by
  induction vectors generalizing idt with
  | nil => rfl
  | cons v vectors ih =>
    rw [List.foldl_cons, ih]
    by_cases heq : vector = v
    . subst heq
      simp
    . rw [gate_setVector_of_ne asmIsr idt heq]
      simp [heq]

theorem setIdtEntry_vector (idt : Idt) (vector : BitVec 8)
    : setIdtEntry idt (vector.setWidth 32) 0x08 (asmIsr vector) 0 = some (setVector asmIsr idt vector) := by
  have hvector : (vector.setWidth 32).toNat = vector.toNat := by
    apply BitVec.toNat_setWidth_of_le
    decide
  have hlt : (vector.setWidth 32).toNat < idtEntry := by
    rw [hvector]
    exact vector.isLt
  rw [setIdtEntry_eq _ _ _ hlt]
  unfold setVector
  simp only [hvector]

theorem initIdt_eq (idt : Idt) : initIdt asmIsr idt = some (initIdt.vectors.foldl (setVector asmIsr) idt) := by
  have hcalls
      : initIdt asmIsr idt
          =
        initIdt.vectors.foldlM
          (fun idt vector => setIdtEntry idt (vector.setWidth 32) 0x08 (asmIsr vector) 0) idt := by
    simp only [initIdt.vectors, List.foldlM_cons, List.foldlM_nil, bind_pure]
    rfl
  rw [hcalls]
  simp only [setIdtEntry_vector]
  apply List.foldlM_pure

/--
The vectors that have a stub, and only they, get a gate, which leads to the stub.
-/
theorem initIdt_gates (idt : Idt)
    : ∃ idt',
        initIdt asmIsr idt = some idt'
          ∧ ∀ vector,
              idt'.gate vector
                =
              if vector ∈ isrTemplates.map IsrTemplate.vector then
                .interrupt32 (asmIsr vector) 0x08 0
              else
                idt.gate vector := by
  refine ⟨_, initIdt_eq asmIsr idt, ?_⟩
  intro vector
  rw [gate_foldl_setVector]
  simp only [mem_initIdt_vectors]

end Idt

section Gdt

/--
A present segment of 32 bit code or data that begins at zero and is made of pages.
-/
def SegmentDescriptor.flat (type : BitVec 4) (dpl : BitVec 2) : SegmentDescriptor where
  base := 0
  limit := 0xfffff
  flags :=
    {
      type := type
      codeData := 1
      dpl := dpl
      present := 1
      avl := 0
      bits64 := 0
      bits32 := 1
      gran4k := 1
    }

/--
The number of bytes of a segment that does not expand down.
-/
def SegmentDescriptor.size (s : SegmentDescriptor) : Nat :=
  (s.limit.toNat + 1) * if s.flags.gran4k = 1 then pgSize else 1

theorem size_flat (type : BitVec 4) (dpl : BitVec 2) : (SegmentDescriptor.flat type dpl).size = 2 ^ 32 := by
  have hlimit : (0xfffff : BitVec 20).toNat + 1 = 2 ^ 20 := by decide
  have hpage : pgSize = 2 ^ 12 := by decide
  unfold SegmentDescriptor.size SegmentDescriptor.flat
  rw [if_pos rfl, hlimit, hpage]
  exact (Nat.pow_add 2 20 12).symm

theorem initGdt_eq (gdt : Gdt)
    : initGdt gdt
        =
      some #v[segmentWord 0 0 0, segmentWord 0 0xfffff segR0Code, segmentWord 0 0xfffff segR0Data,
        segmentWord 0 0xfffff segR3Code, segmentWord 0 0xfffff segR3Data] := by
  obtain ⟨⟨entries⟩, hsize⟩ := gdt
  match entries, hsize with
  | [_, _, _, _, _], _ =>
    unfold initGdt
    simp (disch := decide) only [setGdtEntry_eq, Option.bind_eq_bind, Option.bind_some]
    rfl

/--
The null descriptor, and flat segments for the kernel and for the user.
-/
theorem initGdt_segments (gdt : Gdt)
    : ∃ gdt',
        initGdt gdt = some gdt'
          ∧ gdt'.toList.map SegmentDescriptor.decode
              =
            [.decode 0, .flat (segCodeExrd.setWidth 4) 0, .flat (segDataRdwr.setWidth 4) 0,
              .flat (segCodeExrd.setWidth 4) 3, .flat (segDataRdwr.setWidth 4) 3] := by
  have hr0Code : SegmentDescriptor.decode (segmentWord 0 0xfffff segR0Code) = .flat (segCodeExrd.setWidth 4) 0 := by
    decide
  have hr0Data : SegmentDescriptor.decode (segmentWord 0 0xfffff segR0Data) = .flat (segDataRdwr.setWidth 4) 0 := by
    decide
  have hr3Code : SegmentDescriptor.decode (segmentWord 0 0xfffff segR3Code) = .flat (segCodeExrd.setWidth 4) 3 := by
    decide
  have hr3Data : SegmentDescriptor.decode (segmentWord 0 0xfffff segR3Data) = .flat (segDataRdwr.setWidth 4) 3 := by
    decide
  refine ⟨_, initGdt_eq gdt, ?_⟩
  rw [← hr0Code, ← hr0Data, ← hr3Code, ← hr3Data]
  rfl

/--
The segment that a selector stands for. There is no local descriptor table.
-/
def Gdt.segment (gdt : Gdt) (selector : BitVec 16) : Option SegmentDescriptor :=
  if selector.getLsbD 2 then
    none
  else
    gdt[(selector.extractLsb' 3 13).toNat]?.map SegmentDescriptor.decode

end Gdt

/--
Where an interrupt with a stub goes: to the stub, in the code segment of the kernel.
-/
theorem interrupt_entry (asmIsr : BitVec 8 → Word) (idt : Idt) (gdt : Gdt)
    : ∃ idt' gdt',
        initIdt asmIsr idt = some idt'
          ∧ initGdt gdt = some gdt'
          ∧ ∀ t ∈ isrTemplates,
              (idt'.gate t.vector).present = 1
                ∧ (idt'.gate t.vector).offset = asmIsr t.vector
                ∧ gdt'.segment (idt'.gate t.vector).selector = some (.flat (segCodeExrd.setWidth 4) 0) := by
  obtain ⟨idt', hidt, hgates⟩ := initIdt_gates asmIsr idt
  refine ⟨idt', _, hidt, initGdt_eq gdt, ?_⟩
  intro t ht
  have hgate : idt'.gate t.vector = .interrupt32 (asmIsr t.vector) 0x08 0 := by
    rw [hgates, if_pos (List.mem_map_of_mem ht)]
  rw [hgate]
  refine ⟨rfl, rfl, ?_⟩
  show Gdt.segment _ 0x08 = _
  decide

end AwaOS
