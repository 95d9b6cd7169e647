import AwaOS.Page.Basic
import AwaOS.Lib.BitField

/-!
How an x86 processor reads the 64 bits of a descriptor. Each bit belongs to exactly one field, so that descriptors
and the values of their fields correspond to each other.
-/

namespace AwaOS

section Gate

/--
A gate of the interrupt descriptor table. `storage` is the bit that is set in the descriptor of a code or data
segment only.
-/
structure GateDescriptor where
  offset : Word
  selector : BitVec 16
  reserved : BitVec 8
  type : BitVec 4
  storage : BitVec 1
  dpl : BitVec 2
  present : BitVec 1
  deriving DecidableEq

namespace GateDescriptor

def decode (d : BitVec 64) : GateDescriptor where
  offset := d.extractLsb' 48 16 ++ d.extractLsb' 0 16
  selector := d.extractLsb' 16 16
  reserved := d.extractLsb' 32 8
  type := d.extractLsb' 40 4
  storage := d.extractLsb' 44 1
  dpl := d.extractLsb' 45 2
  present := d.extractLsb' 47 1

def encode (g : GateDescriptor) : BitVec 64 :=
  g.offset.extractLsb' 16 16 ++ g.present ++ g.dpl ++ g.storage ++ g.type ++ g.reserved ++ g.selector ++
    g.offset.extractLsb' 0 16

theorem decode_encode (g : GateDescriptor) : decode g.encode = g := by
  have hoffset : g.offset.extractLsb' 16 16 ++ g.offset.extractLsb' 0 16 = g.offset :=
    BitVec.extractLsb'_append_extractLsb'
  unfold decode encode
  simp (disch := omega) only [BitVec.extractLsb'_append_eq_of_le, BitVec.extractLsb'_append_eq_of_add_le]
  simp only [Nat.reduceSub, BitVec.extractLsb'_eq_self, hoffset]

theorem encode_decode (d : BitVec 64) : (decode d).encode = d := by
  unfold decode encode
  simp (disch := omega) only [BitVec.extractLsb'_append_eq_of_le, BitVec.extractLsb'_append_eq_of_add_le]
  simp only [Nat.reduceSub, BitVec.extractLsb'_eq_self]
  simp only [BitVec.extractLsb'_append_extractLsb'_eq_extractLsb']
  exact BitVec.extractLsb'_eq_self

end GateDescriptor

end Gate

section Segment

/--
What the bits 8 to 15 and 20 to 23 of the second word of a segment descriptor mean.
-/
structure SegmentFlags where
  type : BitVec 4
  codeData : BitVec 1
  dpl : BitVec 2
  present : BitVec 1
  avl : BitVec 1
  bits64 : BitVec 1
  bits32 : BitVec 1
  gran4k : BitVec 1
  deriving DecidableEq

namespace SegmentFlags

def mask : Word := 0x00f0ff00

def decode (flags : Word) : SegmentFlags where
  type := flags.extractLsb' 8 4
  codeData := flags.extractLsb' 12 1
  dpl := flags.extractLsb' 13 2
  present := flags.extractLsb' 15 1
  avl := flags.extractLsb' 20 1
  bits64 := flags.extractLsb' 21 1
  bits32 := flags.extractLsb' 22 1
  gran4k := flags.extractLsb' 23 1

def encode (f : SegmentFlags) : Word :=
  0#8 ++ f.gran4k ++ f.bits32 ++ f.bits64 ++ f.avl ++ 0#4 ++ f.present ++ f.dpl ++ f.codeData ++ f.type ++ 0#8

theorem decode_encode (f : SegmentFlags) : decode f.encode = f := by
  unfold decode encode
  simp (disch := omega) only [BitVec.extractLsb'_append_eq_of_le, BitVec.extractLsb'_append_eq_of_add_le]
  simp only [Nat.reduceSub, BitVec.extractLsb'_eq_self]

/--
Flags that use no other bit are determined by their fields.
-/
theorem encode_decode {flags : Word} (hflags : flags &&& mask = flags) : (decode flags).encode = flags := by
  have hhigh : flags.extractLsb' 24 8 = 0#8 := BitField.extractLsb'_eq_zero hflags (by decide)
  have hmid : flags.extractLsb' 16 4 = 0#4 := BitField.extractLsb'_eq_zero hflags (by decide)
  have hlow : flags.extractLsb' 0 8 = 0#8 := BitField.extractLsb'_eq_zero hflags (by decide)
  have hbits
      : flags.extractLsb' 24 8 ++ flags.extractLsb' 23 1 ++ flags.extractLsb' 22 1 ++ flags.extractLsb' 21 1 ++
          flags.extractLsb' 20 1 ++ flags.extractLsb' 16 4 ++ flags.extractLsb' 15 1 ++ flags.extractLsb' 13 2 ++
          flags.extractLsb' 12 1 ++ flags.extractLsb' 8 4 ++ flags.extractLsb' 0 8
        =
      flags := by
    simp only [BitVec.extractLsb'_append_extractLsb'_eq_extractLsb']
    exact BitVec.extractLsb'_eq_self
  rw [hhigh, hmid, hlow] at hbits
  exact hbits

end SegmentFlags

/--
A descriptor of a segment of the global descriptor table.
-/
structure SegmentDescriptor where
  base : Word
  limit : BitVec 20
  flags : SegmentFlags
  deriving DecidableEq

namespace SegmentDescriptor

def decode (d : BitVec 64) : SegmentDescriptor where
  base := d.extractLsb' 56 8 ++ d.extractLsb' 32 8 ++ d.extractLsb' 16 16
  limit := d.extractLsb' 48 4 ++ d.extractLsb' 0 16
  flags :=
    {
      type := d.extractLsb' 40 4
      codeData := d.extractLsb' 44 1
      dpl := d.extractLsb' 45 2
      present := d.extractLsb' 47 1
      avl := d.extractLsb' 52 1
      bits64 := d.extractLsb' 53 1
      bits32 := d.extractLsb' 54 1
      gran4k := d.extractLsb' 55 1
    }

def encode (s : SegmentDescriptor) : BitVec 64 :=
  s.base.extractLsb' 24 8 ++ s.flags.gran4k ++ s.flags.bits32 ++ s.flags.bits64 ++ s.flags.avl ++
    s.limit.extractLsb' 16 4 ++ s.flags.present ++ s.flags.dpl ++ s.flags.codeData ++ s.flags.type ++
    s.base.extractLsb' 16 8 ++ s.base.extractLsb' 0 16 ++ s.limit.extractLsb' 0 16

theorem decode_encode (s : SegmentDescriptor) : decode s.encode = s := by
  have hbase : s.base.extractLsb' 24 8 ++ s.base.extractLsb' 16 8 ++ s.base.extractLsb' 0 16 = s.base :=
    @BitField.append_three 8 16 8 s.base
  have hlimit : s.limit.extractLsb' 16 4 ++ s.limit.extractLsb' 0 16 = s.limit :=
    BitVec.extractLsb'_append_extractLsb'
  unfold decode encode
  simp (disch := omega) only [BitVec.extractLsb'_append_eq_of_le, BitVec.extractLsb'_append_eq_of_add_le]
  simp only [Nat.reduceSub, BitVec.extractLsb'_eq_self, hbase, hlimit]

theorem encode_decode (d : BitVec 64) : (decode d).encode = d := by
  unfold decode encode
  simp (disch := omega) only [BitVec.extractLsb'_append_eq_of_le, BitVec.extractLsb'_append_eq_of_add_le]
  simp only [Nat.reduceSub, BitVec.extractLsb'_eq_self]
  simp only [BitVec.extractLsb'_append_extractLsb'_eq_extractLsb']
  exact BitVec.extractLsb'_eq_self

end SegmentDescriptor

end Segment

end AwaOS
