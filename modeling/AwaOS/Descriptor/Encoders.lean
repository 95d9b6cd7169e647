import AwaOS.Descriptor.Impl
import AwaOS.Descriptor.Layout

/-!
What `_set_idt_entry` and `_set_gdt_entry` store is what the processor reads.
-/

namespace AwaOS

namespace DescriptorTable

variable {n : Nat} {table : DescriptorTable n} {index : Word}

theorem store_eq (h : index.toNat < n) (descriptor : BitVec 64)
    : table.store index descriptor = some (table.set index.toNat descriptor h) := by
  unfold store
  rw [dif_pos h]

@[simp]
theorem load_set (h : index.toNat < n) (descriptor : BitVec 64)
    : load (table.set index.toNat descriptor h) index = some descriptor := by
  unfold load
  simp [h]

theorem setEntry_eq (h : index.toNat < n) (high low : Word)
    : table.setEntry index high low = some (table.set index.toNat (high ++ low) h) := by
  have happend : high.setWidth 64 <<< 32 ||| low.setWidth 64 = high ++ low :=
    BitField.shiftLeft_or_eq_append high low
  unfold setEntry
  simp only [store_eq h, load_set, Option.bind_eq_bind, Option.bind_some, Vector.set_set, happend]

end DescriptorTable

section Gate

/--
A present interrupt gate for a handler of 32 bit code.
-/
def GateDescriptor.interrupt32 (offset : Word) (selector : BitVec 16) (dpl : BitVec 2) : GateDescriptor where
  offset := offset
  selector := selector
  reserved := 0
  type := 0b1110
  storage := 0
  dpl := dpl
  present := 1

theorem idtAttr_eq (dpl : BitVec 8)
    : idtAttr dpl = 0#16 ++ 1#1 ++ dpl.extractLsb' 0 2 ++ 0#1 ++ 0b1110#4 ++ 0#8 := by
  revert dpl
  decide

variable (segSelector : BitVec 16) (isr : Word) (dpl : BitVec 8)

def gateWord : BitVec 64 :=
  ((isr &&& 0xffff0000#32) ||| idtAttr dpl) ++ (segSelector.setWidth 32 <<< 16 ||| (isr &&& 0x0000ffff#32))

theorem decode_gateWord
    : GateDescriptor.decode (gateWord segSelector isr dpl)
        =
      GateDescriptor.interrupt32 isr segSelector (dpl.extractLsb' 0 2) := by
  have hoffset : isr.extractLsb' 16 16 ++ isr.extractLsb' 0 16 = isr := BitVec.extractLsb'_append_extractLsb'
  have hselector : (segSelector.setWidth 32).extractLsb' 0 16 = segSelector := by
    rw [BitVec.extractLsb'_setWidth_of_le (by decide)]
    exact BitVec.extractLsb'_eq_self
  unfold GateDescriptor.decode GateDescriptor.interrupt32 gateWord
  rw [idtAttr_eq]
  -- a field of `a ||| b` is what `a` and `b` have in it, and one of them is zero there
  simp (disch := omega) only [BitVec.extractLsb'_append_eq_of_le, BitVec.extractLsb'_append_eq_of_add_le,
    BitVec.extractLsb'_or, BitField.extractLsb'_shiftLeft, BitField.extractLsb'_shiftLeft_of_add_le, Nat.reduceSub]
  simp (disch := decide) only [BitField.extractLsb'_and_of_allOnes, BitField.extractLsb'_and_of_zero]
  simp [hoffset, hselector]

example : gateWord 0xfff8 0xc0123456 3 = 0xc012ee00fff83456 := by decide

theorem setIdtEntry_eq {idt : Idt} {vector : Word} (h : vector.toNat < idtEntry)
    : setIdtEntry idt vector segSelector isr dpl
        =
      some (idt.set vector.toNat (gateWord segSelector isr dpl) h) := by
  unfold setIdtEntry gateWord
  apply DescriptorTable.setEntry_eq

end Gate

section Segment

def segmentWord (base limit flags : Word) : BitVec 64 :=
  (segBaseH base ||| flags ||| segLimH limit ||| segBaseM base) ++ (segBaseL base ||| segLimL limit)

variable (base limit : Word) {flags : Word}

theorem decode_segmentWord (hflags : flags &&& SegmentFlags.mask = flags)
    : SegmentDescriptor.decode (segmentWord base limit flags)
        =
      ⟨base, limit.extractLsb' 0 20, SegmentFlags.decode flags⟩ := by
  have hbase : base.extractLsb' 24 8 ++ base.extractLsb' 16 8 ++ base.extractLsb' 0 16 = base :=
    @BitField.append_three 8 16 8 base
  have hlimit : limit.extractLsb' 16 4 ++ limit.extractLsb' 0 16 = limit.extractLsb' 0 20 := by
    apply BitVec.extractLsb'_append_extractLsb'_eq_extractLsb'
    rfl
  have hzero24 : flags.extractLsb' 24 8 = 0#8 := BitField.extractLsb'_eq_zero hflags (by decide)
  have hzero16 : flags.extractLsb' 16 4 = 0#4 := BitField.extractLsb'_eq_zero hflags (by decide)
  have hzero0 : flags.extractLsb' 0 8 = 0#8 := BitField.extractLsb'_eq_zero hflags (by decide)
  unfold SegmentDescriptor.decode SegmentFlags.decode segmentWord segBaseH segBaseM segBaseL segLimH segLimL
  simp (disch := omega) only [BitVec.extractLsb'_append_eq_of_le, BitVec.extractLsb'_append_eq_of_add_le,
    BitVec.extractLsb'_or, BitField.extractLsb'_shiftLeft, BitField.extractLsb'_shiftLeft_of_add_le,
    BitField.extractLsb'_ushiftRight, Nat.reduceSub]
  simp (disch := decide) only [BitField.extractLsb'_and_of_allOnes, BitField.extractLsb'_and_of_zero]
  simp only [hzero24, hzero16, hzero0, BitVec.or_zero, BitVec.zero_or, Nat.add_zero, hbase, hlimit]

example : segmentWord 0xfedcba98 0xabcde segR3Data = 0xfecaf2dcba98bcde := by decide

theorem setGdtEntry_eq {gdt : Gdt} {index : Word} (h : index.toNat < gdtEntry)
    : setGdtEntry gdt index base limit flags = some (gdt.set index.toNat (segmentWord base limit flags) h) := by
  unfold setGdtEntry segmentWord
  apply DescriptorTable.setEntry_eq

end Segment

section Faithful

/--
The processor reads from `d` the interrupt gate that `_set_idt_entry` was asked for.
-/
structure StoresGate (d : BitVec 64) (segSelector : BitVec 16) (isr : Word) (dpl : BitVec 8) : Prop where
  offset : (GateDescriptor.decode d).offset = isr
  selector : (GateDescriptor.decode d).selector = segSelector
  dpl : (GateDescriptor.decode d).dpl.toNat = dpl.toNat
  present : (GateDescriptor.decode d).present = 1
  type : (GateDescriptor.decode d).type = 0b1110
  storage : (GateDescriptor.decode d).storage = 0
  reserved : (GateDescriptor.decode d).reserved = 0

/--
The processor reads from `d` the segment that `_set_gdt_entry` was asked for.
-/
structure StoresSegment (d : BitVec 64) (base limit flags : Word) : Prop where
  base : (SegmentDescriptor.decode d).base = base
  limit : (SegmentDescriptor.decode d).limit.toNat = limit.toNat
  flags : (SegmentDescriptor.decode d).flags.encode = flags

theorem storesGate_gateWord (segSelector : BitVec 16) (isr : Word) {dpl : BitVec 8} (hdpl : dpl.toNat < 4)
    : StoresGate (gateWord segSelector isr dpl) segSelector isr dpl := by
  have hdecode := decode_gateWord segSelector isr dpl
  constructor
  . rw [hdecode]
    rfl
  . rw [hdecode]
    rfl
  . rw [hdecode]
    exact BitField.toNat_extractLsb'_zero hdpl
  . rw [hdecode]
    rfl
  . rw [hdecode]
    rfl
  . rw [hdecode]
    rfl
  . rw [hdecode]
    rfl

theorem storesSegment_segmentWord (base : Word) {limit flags : Word} (hlimit : limit.toNat < 2 ^ 20)
    (hflags : flags &&& SegmentFlags.mask = flags)
    : StoresSegment (segmentWord base limit flags) base limit flags := by
  have hdecode := decode_segmentWord base limit hflags
  constructor
  . rw [hdecode]
  . rw [hdecode]
    exact BitField.toNat_extractLsb'_zero hlimit
  . rw [hdecode]
    exact SegmentFlags.encode_decode hflags

theorem DescriptorTable.getElem_set_of_ne {n : Nat} (table : DescriptorTable n) {index : Word}
    (h : index.toNat < n) (descriptor : BitVec 64) {i : Nat} (hi : i < n) (hne : i ≠ index.toNat)
    : (table.set index.toNat descriptor h)[i] = table[i] := by
  apply Vector.getElem_set_ne
  exact hne.symm

theorem encoders_faithful
    : (∀ (idt : Idt) (vector : Word) (segSelector : BitVec 16) (isr : Word) (dpl : BitVec 8),
        ∀ hvector : vector.toNat < idtEntry,
        dpl.toNat < 4 →
          ∃ idt',
            setIdtEntry idt vector segSelector isr dpl = some idt'
              ∧ StoresGate idt'[vector.toNat] segSelector isr dpl
              ∧ ∀ i (hi : i < idtEntry), i ≠ vector.toNat → idt'[i] = idt[i])
        ∧ (∀ (gdt : Gdt) (index base limit flags : Word),
            ∀ hindex : index.toNat < gdtEntry,
            limit.toNat < 2 ^ 20 →
            flags &&& SegmentFlags.mask = flags →
              ∃ gdt',
                setGdtEntry gdt index base limit flags = some gdt'
                  ∧ StoresSegment gdt'[index.toNat] base limit flags
                  ∧ ∀ i (hi : i < gdtEntry), i ≠ index.toNat → gdt'[i] = gdt[i]) := by
  constructor
  . intro idt vector segSelector isr dpl hvector hdpl
    refine ⟨_, setIdtEntry_eq segSelector isr dpl hvector, ?_, ?_⟩
    . rw [Vector.getElem_set_self]
      apply storesGate_gateWord
      exact hdpl
    . intro i hi hne
      apply DescriptorTable.getElem_set_of_ne
      exact hne
  . intro gdt index base limit flags hindex hlimit hflags
    refine ⟨_, setGdtEntry_eq base limit hindex, ?_, ?_⟩
    . rw [Vector.getElem_set_self]
      apply storesSegment_segmentWord
      . exact hlimit
      . exact hflags
    . intro i hi hne
      apply DescriptorTable.getElem_set_of_ne
      exact hne

/--
A negative `seg_selector << 16` does not reach the second word, nor does the sign bit of the base.
-/
theorem encoders_faithful_sign_bits
    : (∃ idt',
        setIdtEntry (Vector.replicate idtEntry 0) 255 0xfff8 0xc0123456 3 = some idt'
          ∧ StoresGate (idt'.get ⟨255, by decide⟩) 0xfff8 0xc0123456 3
          ∧ ∀ i (hi : i < idtEntry), i ≠ 255 → idt'[i] = (Vector.replicate idtEntry 0#64)[i])
        ∧ (∃ gdt',
            setGdtEntry (Vector.replicate gdtEntry 0) 4 0xfedcba98 0xabcde segR3Data = some gdt'
              ∧ StoresSegment (gdt'.get ⟨4, by decide⟩) 0xfedcba98 0xabcde segR3Data
              ∧ ∀ i (hi : i < gdtEntry), i ≠ 4 → gdt'[i] = (Vector.replicate gdtEntry 0#64)[i]) :=
  ⟨encoders_faithful.1 (Vector.replicate idtEntry 0) 255 0xfff8 0xc0123456 3 (by decide) (by decide),
    encoders_faithful.2 (Vector.replicate gdtEntry 0) 4 0xfedcba98 0xabcde segR3Data (by decide) (by decide)
      (by decide)⟩

end Faithful

end AwaOS
