import AwaOS.Acpi.Walk
import AwaOS.Lib.LastWriter
import Mathlib.Algebra.GroupWithZero.Nat

/-!
What `madt_parse` makes of a well formed MADT, and what `ioapic_get_irq` returns then.
-/

namespace AwaOS

namespace Acpi

open Walk

/--
The size of the structure that an entry of this type has at least.
-/
def icsSize (type : BitVec 8) : Nat :=
  if type = madtLapic then
    8
  else if type = madtIoapic then
    12
  else if type = madtIntso then
    10
  else
    2

/--
`source`, the second byte behind the header.
-/
def sourceOf (body : List (BitVec 8)) : BitVec 8 :=
  body.getD 1 0

/--
`gsi`, the word behind it.
-/
def gsiOf (body : List (BitVec 8)) : Word :=
  body.getD 5 0 ++ body.getD 4 0 ++ body.getD 3 0 ++ body.getD 2 0

/--
An entry of a well formed table, without its length byte.
-/
structure Ics where
  type : BitVec 8
  body : List (BitVec 8)
  whole : icsSize type ≤ body.length + 2
  short : body.length + 2 < 256
  source_lt : type = madtIntso → (sourceOf body).toNat < 24
  gsi_lt : type = madtIntso → (gsiOf body).toNat < 24

namespace Ics

def size (e : Ics) : Nat :=
  e.body.length + 2

def bytes (e : Ics) : List (BitVec 8) :=
  e.type :: BitVec.ofNat 8 e.size :: e.body

/--
The entry overrides this IRQ.
-/
def overrides (irq : BitVec 8) (e : Ics) : Bool :=
  e.type = madtIntso ∧ sourceOf e.body = irq

def isLapic (e : Ics) : Bool :=
  e.type = madtLapic

def isIoapic (e : Ics) : Bool :=
  e.type = madtIoapic

/--
The bytes of the entry are at `p`.
-/
def HeldAt (mem : Firmware) (p : Word) (e : Ics) : Prop :=
  ∀ i (hi : i < e.bytes.length), mem (p + BitVec.ofNat 32 i) = e.bytes[i]

end Ics

/--
The entries with their addresses, one behind the other.
-/
def places (p : Word) : List Ics → List (Word × Ics)
  | [] => []
  | e :: es => (p, e) :: places (p + BitVec.ofNat 32 e.size) es

def totalSize (es : List Ics) : Nat :=
  (es.map Ics.size).sum

/--
The table consists of its header and these entries, and ends inside the address space.
-/
structure IsMadt (mem : Firmware) (madt : Word) (es : List Ics) : Prop where
  length : (length mem madt).toNat = madtSize + totalSize es
  ends : madt.toNat + madtSize + totalSize es < 2 ^ 32
  held : ∀ x ∈ places (madt + BitVec.ofNat 32 madtSize) es, x.2.HeldAt mem x.1

/--
`madt_parse` returns with this `toc->madt`.
-/
def MadtParse (mem : Firmware) (madt : Word) (slots : Nat → Word) (toc toc' : MadtToc) : Prop :=
  ∃ parse, Reaches (madtParse.round mem (icsEnd mem madt)) (madtParse.start mem madt slots toc) parse
    ∧ madtParse.round mem (icsEnd mem madt) parse = none ∧ parse.toc = toc'

section Entry

variable {mem : Firmware} {p : Word} {e : Ics}

theorem two_le_size (e : Ics) : 2 ≤ e.size :=
  Nat.le_add_left 2 e.body.length

theorem icsType_held (h : e.HeldAt mem p) : icsType mem p = e.type := by
  have hbyte := h 0 (Nat.zero_lt_succ _)
  rw [BitVec.add_zero] at hbyte
  exact hbyte

theorem icsLength_held (h : e.HeldAt mem p) : icsLength mem p = BitVec.ofNat 8 e.size :=
  h 1 (Nat.succ_lt_succ (Nat.zero_lt_succ _))

theorem setWidth_length_held (h : e.HeldAt mem p) : (icsLength mem p).setWidth 32 = BitVec.ofNat 32 e.size := by
  have hshort : e.size < 256 := e.short
  rw [icsLength_held h]
  apply BitVec.eq_of_toNat_eq
  rw [BitVec.toNat_setWidth, BitVec.toNat_ofNat, BitVec.toNat_ofNat]
  omega

theorem body_held (h : e.HeldAt mem p) {i : Nat} (hi : i < e.body.length)
    : mem (p + BitVec.ofNat 32 (i + 2)) = e.body.getD i 0 := by
  have hbyte := h (i + 2) (Nat.add_lt_add_right hi 2)
  rw [hbyte, List.getD_eq_getElem?_getD, List.getElem?_eq_getElem hi]
  rfl

theorem intso_body (e : Ics) (hintso : e.type = madtIntso) : 8 ≤ e.body.length := by
  have hwhole := e.whole
  rw [hintso] at hwhole
  have hsize : icsSize madtIntso = 10 := by decide
  omega

theorem intsoSource_held (h : e.HeldAt mem p) (hintso : e.type = madtIntso)
    : intsoSource mem p = sourceOf e.body := by
  have hbody := intso_body e hintso
  exact body_held h (show 1 < e.body.length by omega)

theorem intsoGsi_held (h : e.HeldAt mem p) (hintso : e.type = madtIntso) : intsoGsi mem p = gsiOf e.body := by
  have hbody := intso_body e hintso
  have hbyte : ∀ i, i < 8 → mem (p + BitVec.ofNat 32 (i + 2)) = e.body.getD i 0 :=
    fun i hi => body_held h (Nat.lt_of_lt_of_le hi hbody)
  unfold intsoGsi load32 gsiOf
  rw [← hbyte 2 (by decide), ← hbyte 3 (by decide), ← hbyte 4 (by decide), ← hbyte 5 (by decide),
    BitVec.add_assoc, BitVec.add_assoc, BitVec.add_assoc]
  rfl

end Entry

section Places

variable {mem : Firmware}

theorem map_snd_places (p : Word) (es : List Ics) : (places p es).map Prod.snd = es := by
  induction es generalizing p with
  | nil => rfl
  | cons e es ih => rw [places, List.map_cons, ih]

theorem totalSize_cons (e : Ics) (es : List Ics) : totalSize (e :: es) = e.size + totalSize es := by
  unfold totalSize
  rw [List.map_cons, List.sum_cons]

theorem toNat_add_size {p : Word} {n : Nat} (hlt : p.toNat + n < 2 ^ 32)
    : (p + BitVec.ofNat 32 n).toNat = p.toNat + n := by
  rw [BitVec.toNat_add, BitVec.toNat_ofNat, Nat.mod_eq_of_lt (show n < 2 ^ 32 by omega), Nat.mod_eq_of_lt hlt]

/--
No entry lies below the first.
-/
theorem le_of_mem_places {p : Word} {es : List Ics} (hends : p.toNat + totalSize es < 2 ^ 32) {x : Word × Ics}
    (hx : x ∈ places p es)
    : p.toNat ≤ x.1.toNat := by
  induction es generalizing p with
  | nil => contradiction
  | cons e es ih =>
    rw [totalSize_cons] at hends
    have hnext := @toNat_add_size p e.size (by omega)
    rw [places, List.mem_cons] at hx
    cases hx with
    | inl heq => rw [heq]
    | inr hx =>
      have hle := ih (by omega) hx
      omega

/--
The loop goes over the entries in the order of the table.
-/
theorem reaches_end {p q : Word} {es : List Ics} (hends : p.toNat + totalSize es < 2 ^ 32)
    (hq : q = p + BitVec.ofNat 32 (totalSize es)) (hheld : ∀ x ∈ places p es, x.2.HeldAt mem x.1) (toc : MadtToc)
    : Reaches (madtParse.round mem q) ⟨p, toc⟩
        ⟨q, (places p es).foldl (fun toc x => madtParse.store mem x.1 toc) toc⟩ := by
  induction es generalizing p toc with
  | nil =>
    rw [hq, show totalSize [] = 0 from rfl, BitVec.add_zero]
    exact .refl
  | cons e es ih =>
    rw [totalSize_cons] at hends hq
    have hsize := two_le_size e
    have hnext := @toNat_add_size p e.size (by omega)
    have hlt : p < q := by
      change p.toNat < q.toNat
      rw [hq, toNat_add_size hends]
      omega
    have hfirst : e.HeldAt mem p := hheld (p, e) List.mem_cons_self
    have hrest := ih (p := p + BitVec.ofNat 32 e.size) (by omega)
      (by rw [hq, BitVec.ofNat_add, ← BitVec.add_assoc])
      (fun x hx => hheld x (List.mem_cons_of_mem _ hx)) (madtParse.store mem p toc)
    apply Relation.ReflTransGen.head _ hrest
    unfold Step madtParse.round
    rw [if_pos hlt, setWidth_length_held hfirst]

end Places

section Store

variable {mem : Firmware} {p : Word} {e : Ics} (toc : MadtToc)

theorem apic_store (h : e.HeldAt mem p)
    : (madtParse.store mem p toc).apic = if e.isLapic then p else toc.apic := by
  unfold madtParse.store Ics.isLapic
  rw [icsType_held h]
  by_cases hlapic : e.type = madtLapic
  . simp [hlapic]
  . simp only [hlapic, if_false, decide_false, Bool.false_eq_true]
    split
    . rfl
    . split
      . rfl
      . rfl

theorem ioapic_store (h : e.HeldAt mem p)
    : (madtParse.store mem p toc).ioapic = if e.isIoapic then p else toc.ioapic := by
  unfold madtParse.store Ics.isIoapic
  rw [icsType_held h]
  by_cases hioapic : e.type = madtIoapic
  . rw [hioapic, if_neg (show madtIoapic ≠ madtLapic by decide)]
    simp
  . simp only [hioapic, if_false, decide_false, Bool.false_eq_true]
    split
    . rfl
    . split
      . rfl
      . rfl

theorem irqException_store (h : e.HeldAt mem p) (irq : BitVec 8)
    : (madtParse.store mem p toc).irqException irq.toNat
        =
      if e.overrides irq then p else toc.irqException irq.toNat := by
  unfold madtParse.store Ics.overrides
  rw [icsType_held h]
  by_cases hintso : e.type = madtIntso
  . rw [hintso, if_neg (show madtIntso ≠ madtLapic by decide), if_neg (show madtIntso ≠ madtIoapic by decide),
      if_pos rfl, intsoSource_held h hintso]
    by_cases hsource : sourceOf e.body = irq
    . simp [hsource]
    . have hne : irq.toNat ≠ (sourceOf e.body).toNat := fun heq => hsource (BitVec.eq_of_toNat_eq heq.symm)
      simp [hsource, Function.update_of_ne hne]
  . simp only [hintso, false_and, if_false, decide_false, Bool.false_eq_true]
    split
    . rfl
    . split
      . rfl
      . rfl

end Store

section Routing

variable {mem : Firmware} {madt : Word} {es : List Ics} {slots : Nat → Word} {toc : MadtToc}

/--
What the loop leaves in a field that some of the entries write.
-/
theorem read_parsed (read : MadtToc → Word) (writes : Ics → Bool) {p : Word}
    (hread : ∀ x ∈ places p es, ∀ toc,
      read (madtParse.store mem x.1 toc) = if writes x.2 then x.1 else read toc) (toc : MadtToc)
    : read ((places p es).foldl (fun toc x => madtParse.store mem x.1 toc) toc)
        =
      (((places p es).findRev? (fun x => writes x.2)).map Prod.fst).getD (read toc) := by
  apply LastWriter.foldl_eq
  . intro x hx toc hwrites
    rw [hread x hx, if_pos hwrites]
  . intro x hx toc hkeeps
    rw [hread x hx, hkeeps]
    rfl

/--
The override that `ioapic_get_irq` finds is the last one of the table.
-/
theorem ioapicGetIrq_parsed (htable : IsMadt mem madt es) {toc' : MadtToc} {irq : BitVec 8} (hirq : irq < 24)
    (hslot : toc'.irqException irq.toNat
      =
        (((places (madt + BitVec.ofNat 32 madtSize) es).findRev? (fun x => x.2.overrides irq)).map Prod.fst).getD 0)
    : (ioapicGetIrq mem toc' irq).toNat
        =
      ((es.findRev? (Ics.overrides irq)).map (fun e => (gsiOf e.body).toNat)).getD irq.toNat := by
  have hends := htable.ends
  have hstart := @toNat_add_size madt madtSize (by omega)
  have hes := LastWriter.findRev?_map (Ics.overrides irq) Prod.snd (places (madt + BitVec.ofNat 32 madtSize) es)
  rw [map_snd_places] at hes
  unfold ioapicGetIrq
  rw [if_neg (BitVec.not_le.mpr hirq), hslot, hes]
  cases hlast : (places (madt + BitVec.ofNat 32 madtSize) es).findRev? (fun x => x.2.overrides irq) with
  | none =>
    rw [show (places _ es).findRev? (Ics.overrides irq ∘ Prod.snd) = none from hlast]
    rfl
  | some x =>
    obtain ⟨hmem, hoverrides⟩ := LastWriter.findRev?_eq_some hlast
    have hheld := htable.held x hmem
    have hintso : x.2.type = madtIntso := (of_decide_eq_true hoverrides).left
    have hne : x.1 ≠ 0 := by
      intro hzero
      have hle := le_of_mem_places (by omega) hmem
      rw [hzero, hstart] at hle
      have hzero' : (0 : Word).toNat = 0 := rfl
      have hsize : madtSize = 44 := rfl
      omega
    have hgsi := x.2.gsi_lt hintso
    rw [show (places _ es).findRev? (Ics.overrides irq ∘ Prod.snd) = some x from hlast]
    change (if x.1 ≠ 0 then (intsoGsi mem x.1).setWidth 8 else irq).toNat = (gsiOf x.2.body).toNat
    rw [if_pos hne, intsoGsi_held hheld hintso, BitVec.toNat_setWidth]
    omega

/--
No entry overrides an IRQ that has no slot.
-/
theorem ioapicGetIrq_of_ge (toc' : MadtToc) {irq : BitVec 8} (hirq : 24 ≤ irq)
    : (ioapicGetIrq mem toc' irq).toNat
        =
      ((es.findRev? (Ics.overrides irq)).map (fun e => (gsiOf e.body).toNat)).getD irq.toNat := by
  have hnone : es.findRev? (Ics.overrides irq) = none := by
    apply LastWriter.findRev?_eq_none
    intro e _
    apply decide_eq_false
    intro h
    obtain ⟨hintso, hsource⟩ := h
    have hlt := e.source_lt hintso
    have hle : 24 ≤ irq.toNat := hirq
    rw [hsource] at hlt
    omega
  unfold ioapicGetIrq
  rw [if_pos hirq, hnone]
  rfl

/--
The `toc->madt` that the loop leaves.
-/
def parsedToc (mem : Firmware) (madt : Word) (es : List Ics) (slots : Nat → Word) (toc : MadtToc) : MadtToc :=
  (places (madt + BitVec.ofNat 32 madtSize) es).foldl (fun toc x => madtParse.store mem x.1 toc)
    (madtParse.start mem madt slots toc).toc

theorem madtParse_table (htable : IsMadt mem madt es) (slots : Nat → Word) (toc : MadtToc)
    : MadtParse mem madt slots toc (parsedToc mem madt es slots toc) := by
  have hends := htable.ends
  have hstart := @toNat_add_size madt madtSize (by omega)
  have hicsEnd : icsEnd mem madt = madt + BitVec.ofNat 32 madtSize + BitVec.ofNat 32 (totalSize es) := by
    unfold icsEnd
    rw [BitVec.add_assoc, ← BitVec.ofNat_add, ← htable.length, BitVec.ofNat_toNat, BitVec.setWidth_eq]
  refine ⟨_, reaches_end (by omega) hicsEnd htable.held (madtParse.start mem madt slots toc).toc, ?_, rfl⟩
  unfold madtParse.round
  rw [if_neg (BitVec.lt_irrefl _)]

theorem ioapicGetIrq_table (htable : IsMadt mem madt es) (hslots : ∀ k, k < 24 → slots k = 0) (toc : MadtToc)
    (irq : BitVec 8)
    : (ioapicGetIrq mem (parsedToc mem madt es slots toc) irq).toNat
        =
      ((es.findRev? (Ics.overrides irq)).map (fun e => (gsiOf e.body).toNat)).getD irq.toNat := by
  by_cases hirq : irq < 24
  . apply ioapicGetIrq_parsed htable hirq
    unfold parsedToc
    rw [read_parsed (fun toc => toc.irqException irq.toNat) (Ics.overrides irq)
      (fun x hx toc => irqException_store toc (htable.held x hx) irq)]
    rw [show (madtParse.start mem madt slots toc).toc.irqException irq.toNat = 0 from hslots _ hirq]
  . exact ioapicGetIrq_of_ge _ (BitVec.not_lt.mp hirq)

/--
IRQ routing reflects the table.
-/
theorem routing_reflects_table (htable : IsMadt mem madt es) (hslots : ∀ k, k < 24 → slots k = 0)
    : ∃ toc', MadtParse mem madt slots toc toc'
        ∧ (∀ irq, (ioapicGetIrq mem toc' irq).toNat
            =
          ((es.findRev? (Ics.overrides irq)).map (fun e => (gsiOf e.body).toNat)).getD irq.toNat)
        ∧ toc'.apic
            =
          (((places (madt + BitVec.ofNat 32 madtSize) es).findRev? (fun x => x.2.isLapic)).map Prod.fst).getD toc.apic
        ∧ toc'.ioapic
            =
          (((places (madt + BitVec.ofNat 32 madtSize) es).findRev? (fun x => x.2.isIoapic)).map Prod.fst).getD
            toc.ioapic := by
  refine ⟨_, madtParse_table htable slots toc, ioapicGetIrq_table htable hslots toc, ?_, ?_⟩
  . exact read_parsed MadtToc.apic Ics.isLapic (fun x hx toc => apic_store toc (htable.held x hx)) _
  . exact read_parsed MadtToc.ioapic Ics.isIoapic (fun x hx toc => ioapic_store toc (htable.held x hx)) _

def processor : Ics :=
  ⟨madtLapic, [0, 0, 1, 0, 0, 0], by decide, by decide, by decide, by decide⟩

/--
The timer is at the pin 2.
-/
def timer : Ics :=
  ⟨madtIntso, [0, 0, 2, 0, 0, 0, 0, 0], by decide, by decide, by decide, by decide⟩

def timerTable : Firmware := fun a =>
  if a = 0x1004 then
    62
  else
    (processor.bytes ++ timer.bytes).getD (a.toNat - 0x102C) 0

theorem routing_reflects_table_timer
    : ∃ toc', MadtParse timerTable 0x1000 (fun _ => 0) ⟨0, 0, 0, fun _ => 0⟩ toc'
        ∧ (ioapicGetIrq timerTable toc' 0).toNat = 2
        ∧ (ioapicGetIrq timerTable toc' 8).toNat = 8
        ∧ toc'.apic = 0x102C ∧ toc'.ioapic = 0 := by
  have htable : IsMadt timerTable 0x1000 [processor, timer] := by
    constructor
    . decide
    . decide
    . unfold Ics.HeldAt
      decide
  obtain ⟨toc', hparse, hirq, hapic, hioapic⟩ :=
    @routing_reflects_table _ _ _ _ ⟨0, 0, 0, fun _ => 0⟩ htable (fun _ _ => rfl)
  refine ⟨toc', hparse, ?_, ?_, ?_, ?_⟩
  . rw [hirq]
    decide
  . rw [hirq]
    decide
  . rw [hapic]
    decide
  . rw [hioapic]
    decide

end Routing

end Acpi

end AwaOS
