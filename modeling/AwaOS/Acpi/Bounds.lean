import AwaOS.Acpi.Walk

/-!
Which bytes `acpi_init` and `madt_parse` read, and which slots they write.
-/

namespace AwaOS

namespace Acpi

open Walk

/--
The byte belongs to the table.
-/
def Inside (mem : Firmware) (r : Word × Word) : Prop :=
  offsetFrom r.1 r.2 < (length mem r.1).toNat

/--
The array that a round to `s'` writes to. It is new if the round has called `madt_parse`.
-/
def Init.array (slots : Nat → Word) (s s' : Init) : Nat → Word :=
  match s, s' with
  | .tables _ _, .parsing _ _ _ _ => slots
  | _, _ => s.toc.irqException

/--
`acpiInit.reads` and `acpiInit.writes` are all that a round reads and writes: it is the same in every memory with the
same bytes there, and it changes no other slot of the array, nor what lies behind it.
-/
structure KeepsToLists (mem : Firmware) (rsdt : Word) (entryN : Nat) (slots : Nat → Word) (s : Init) : Prop where
  reads : ∀ mem', (∀ r ∈ acpiInit.reads mem rsdt entryN s, mem' r.2 = mem r.2) →
    acpiInit.round mem' rsdt entryN slots s = acpiInit.round mem rsdt entryN slots s
  writes : ∀ s', acpiInit.round mem rsdt entryN slots s = some s' →
    ∀ k, k ∉ acpiInit.writes mem s → s'.toc.irqException k = s.array slots s' k

/--
No round reads a byte outside the table that it looks at, or writes a slot that `irq_exception` does not have.
-/
def StaysInside (mem : Firmware) (rsdt : Word) : Prop :=
  ∀ slots toc s, Reaches (acpiInit.round mem rsdt (entryN mem rsdt) slots) (.tables 0 toc) s →
    KeepsToLists mem rsdt (entryN mem rsdt) slots s
      ∧ (∀ r ∈ acpiInit.reads mem rsdt (entryN mem rsdt) s, Inside mem r)
      ∧ (∀ k ∈ acpiInit.writes mem s, k < 24)

/--
The header of an entry is inside its table, and the source of an override is too and is an IRQ.
-/
structure EntryFits (mem : Firmware) (madt p : Word) : Prop where
  header : offsetFrom madt p + 2 ≤ (length mem madt).toNat
  source : icsType mem p = madtIntso → offsetFrom madt (p + 3) < (length mem madt).toNat
  slot : icsType mem p = madtIntso → (intsoSource mem p).toNat < 24

/--
Every MADT before this entry of the RSDT has come to its end.
-/
def Visited (mem : Firmware) (rsdt : Word) (i : Nat) : Prop :=
  ∀ j, j < i → signature mem (rsdtEntry mem rsdt j) = madtSig →
    ∀ p, EntryAt mem (rsdtEntry mem rsdt j) p
      → ¬ComesBack (nextEntry mem (icsEnd mem (rsdtEntry mem rsdt j))) p

/--
The RSDT has a header, the tables have a signature, and the MADTs have all fields up to `apic_addr` and entries
that fit.
-/
structure TablesFit (mem : Firmware) (rsdt : Word) : Prop where
  header : sdthdrSize ≤ (length mem rsdt).toNat
  table : ∀ i, i < entryN mem rsdt → Visited mem rsdt i → 4 ≤ (length mem (rsdtEntry mem rsdt i)).toNat
  madt : ∀ i, i < entryN mem rsdt → Visited mem rsdt i → signature mem (rsdtEntry mem rsdt i) = madtSig →
    40 ≤ (length mem (rsdtEntry mem rsdt i)).toNat
  entry : ∀ i, i < entryN mem rsdt → Visited mem rsdt i → signature mem (rsdtEntry mem rsdt i) = madtSig →
    ∀ p, EntryAt mem (rsdtEntry mem rsdt i) p → EntryFits mem (rsdtEntry mem rsdt i) p

section Rsdt

variable {mem : Firmware} {rsdt : Word}

theorem entryN_eq (hle : sdthdrSize ≤ (length mem rsdt).toNat)
    : entryN mem rsdt = ((length mem rsdt).toNat - sdthdrSize) / 4 := by
  have hlt := (length mem rsdt).isLt
  unfold sdthdrSize at *
  unfold entryN sdthdrSize
  rw [BitVec.toNat_ushiftRight, BitVec.toNat_sub, BitVec.toNat_ofNat, Nat.shiftRight_eq_div_pow]
  omega

/--
A table that is shorter than its header seems to have a quarter of the address space in entries.
-/
theorem entryN_pos (hlt : (length mem rsdt).toNat < sdthdrSize) : 0 < entryN mem rsdt := by
  unfold sdthdrSize at *
  unfold entryN sdthdrSize
  rw [BitVec.toNat_ushiftRight, BitVec.toNat_sub, BitVec.toNat_ofNat, Nat.shiftRight_eq_div_pow]
  omega

theorem mem_wordBytes {a b : Word} : b ∈ wordBytes a ↔ offsetFrom a b < 4 := by
  have h0 := @eq_add_iff a b 0 (by decide)
  rw [BitVec.add_zero] at h0
  unfold wordBytes
  simp only [List.mem_cons, List.not_mem_nil, or_false]
  rw [h0]
  rw [show b = a + 1 ↔ _ from @eq_add_iff a b 1 (by decide), show b = a + 2 ↔ _ from @eq_add_iff a b 2 (by decide),
    show b = a + 3 ↔ _ from @eq_add_iff a b 3 (by decide)]
  omega

/--
A field is inside a table that reaches up to its end.
-/
theorem inside_field {table : Word} {offset : Nat} (hle : offset + 4 ≤ (length mem table).toNat) {r : Word × Word}
    (hr : r ∈ fieldBytes table offset)
    : Inside mem r := by
  have hlt := (length mem table).isLt
  obtain ⟨b, hb, rfl⟩ := List.mem_map.mp hr
  rw [mem_wordBytes, offsetFrom_add_lt_iff table b (by omega)] at hb
  change offsetFrom table b < (length mem table).toNat
  omega

theorem le_of_inside {table : Word} {offset : Nat} (hoffset : offset + 4 ≤ 2 ^ 32)
    (h : ∀ r ∈ fieldBytes table offset, Inside mem r)
    : offset + 4 ≤ (length mem table).toNat := by
  have hlast : offsetFrom table (table + BitVec.ofNat 32 (offset + 3)) = offset + 3 :=
    offsetFrom_add table (by omega)
  have hmem : table + BitVec.ofNat 32 (offset + 3) ∈ wordBytes (table + BitVec.ofNat 32 offset) := by
    rw [mem_wordBytes, offsetFrom_add_lt_iff table _ hoffset]
    omega
  have hlt : offsetFrom table (table + BitVec.ofNat 32 (offset + 3)) < (length mem table).toNat :=
    h _ (List.mem_map_of_mem hmem)
  omega

/--
The entries of an RSDT with a header are inside.
-/
theorem inside_rsdt (hle : sdthdrSize ≤ (length mem rsdt).toNat) {i : Nat} (hi : i < entryN mem rsdt)
    {r : Word × Word} (hr : r ∈ fieldBytes rsdt (sdthdrSize + 4 * i))
    : Inside mem r := by
  rw [entryN_eq hle] at hi
  exact inside_field (by omega) hr

theorem visited_succ {i : Nat}
    : Visited mem rsdt (i + 1)
        ↔
      Visited mem rsdt i
        ∧ (signature mem (rsdtEntry mem rsdt i) = madtSig → ParseEnds mem (rsdtEntry mem rsdt i)) := by
  constructor
  . intro h
    refine ⟨fun j hj => h j (Nat.lt_succ_of_lt hj), fun hmadt => ?_⟩
    rw [parseEnds_iff_comesBack]
    exact h i (Nat.lt_succ_self i) hmadt
  . intro h j hj hmadt
    obtain ⟨hvisited, hends⟩ := h
    cases Nat.lt_succ_iff_lt_or_eq.mp hj with
    | inl hlt => exact hvisited j hlt hmadt
    | inr heq =>
      rw [heq] at hmadt ⊢
      rw [← parseEnds_iff_comesBack]
      exact hends hmadt

end Rsdt

section Runs

variable {mem : Firmware} {rsdt : Word} {slots : Nat → Word}

theorem reaches_parsing {i : Nat} {madt : Word} {parse parse' : Parse}
    (h : Reaches (madtParse.round mem (icsEnd mem madt)) parse parse')
    : Reaches (acpiInit.round mem rsdt (entryN mem rsdt) slots) (.parsing i madt (icsEnd mem madt) parse)
        (.parsing i madt (icsEnd mem madt) parse') := by
  induction h with
  | refl => exact .refl
  | tail _ hstep ih =>
    apply ih.tail
    unfold Step
    rw [acpiInit.round, show madtParse.round mem (icsEnd mem madt) _ = some _ from hstep]

theorem step_tables_of_ne {i : Nat} (toc : MadtToc) (hi : i < entryN mem rsdt)
    (hne : signature mem (rsdtEntry mem rsdt i) ≠ madtSig)
    : Step (acpiInit.round mem rsdt (entryN mem rsdt) slots) (.tables i toc) (.tables (i + 1) toc) := by
  unfold Step
  rw [acpiInit.round, if_pos hi, if_neg hne]

theorem step_tables_of_madt {i : Nat} (toc : MadtToc) (hi : i < entryN mem rsdt)
    (hmadt : signature mem (rsdtEntry mem rsdt i) = madtSig)
    : Step (acpiInit.round mem rsdt (entryN mem rsdt) slots) (.tables i toc)
        (.parsing i (rsdtEntry mem rsdt i) (icsEnd mem (rsdtEntry mem rsdt i))
          (madtParse.start mem (rsdtEntry mem rsdt i) slots toc)) := by
  unfold Step
  rw [acpiInit.round, if_pos hi, if_pos hmadt]

/--
The loop over the RSDT gets behind every table whose walk ends.
-/
theorem exists_reaches_tables (toc : MadtToc) {i : Nat} (hi : i ≤ entryN mem rsdt) (hvisited : Visited mem rsdt i)
    : ∃ toc', Reaches (acpiInit.round mem rsdt (entryN mem rsdt) slots) (.tables 0 toc) (.tables i toc') := by
  induction i with
  | zero => exact ⟨toc, .refl⟩
  | succ i ih =>
    obtain ⟨hbefore, hends⟩ := visited_succ.mp hvisited
    obtain ⟨toc', hreach⟩ := ih (Nat.le_of_succ_le hi) hbefore
    by_cases hmadt : signature mem (rsdtEntry mem rsdt i) = madtSig
    . obtain ⟨last, hwalk, hnone⟩ := (hends hmadt slots toc').exists_last
      refine ⟨last.toc, ?_⟩
      apply Relation.ReflTransGen.tail
        (b := .parsing i (rsdtEntry mem rsdt i) (icsEnd mem (rsdtEntry mem rsdt i)) last)
      . exact (hreach.tail (step_tables_of_madt toc' hi hmadt)).trans (reaches_parsing hwalk)
      . unfold Step
        rw [acpiInit.round, hnone]
    . exact ⟨toc', hreach.tail (step_tables_of_ne toc' hi hmadt)⟩

theorem exists_reaches_entry (toc : MadtToc) {i : Nat} (hi : i < entryN mem rsdt) (hvisited : Visited mem rsdt i)
    (hmadt : signature mem (rsdtEntry mem rsdt i) = madtSig) {p : Word} (hp : EntryAt mem (rsdtEntry mem rsdt i) p)
    : ∃ toc', Reaches (acpiInit.round mem rsdt (entryN mem rsdt) slots) (.tables 0 toc)
        (.parsing i (rsdtEntry mem rsdt i) (icsEnd mem (rsdtEntry mem rsdt i)) ⟨p, toc'⟩) := by
  obtain ⟨toc', hreach⟩ : ∃ toc',
    Reaches (acpiInit.round mem rsdt (entryN mem rsdt) slots) (.tables 0 toc) (.tables i toc') :=
    exists_reaches_tables toc (Nat.le_of_lt hi) hvisited
  have hstart : Reaches (nextEntry mem (icsEnd mem (rsdtEntry mem rsdt i)))
      (madtParse.start mem (rsdtEntry mem rsdt i) slots toc').icsStart p := (entryAt_iff.mp hp).left
  obtain ⟨parse, hwalk, heq⟩ := hstart.exists_map (round_icsStart mem (icsEnd mem (rsdtEntry mem rsdt i)))
  refine ⟨parse.toc, ?_⟩
  rw [← heq]
  exact (hreach.tail (step_tables_of_madt toc' hi hmadt)).trans (reaches_parsing hwalk)

/--
What holds between two rounds.
-/
def Init.Visiting (mem : Firmware) (rsdt : Word) : Init → Prop
  | .tables i _ => Visited mem rsdt i
  | .parsing i madt last parse =>
    i < entryN mem rsdt ∧ Visited mem rsdt i ∧ madt = rsdtEntry mem rsdt i ∧ signature mem madt = madtSig
      ∧ last = icsEnd mem madt
      ∧ Reaches (nextEntry mem (icsEnd mem madt)) (madt + BitVec.ofNat 32 madtSize) parse.icsStart

/--
The walk through a MADT ends where it has come to its last entry.
-/
theorem parseEnds_of_reaches {madt : Word} {parse : Parse}
    (hreach : Reaches (nextEntry mem (icsEnd mem madt)) (madt + BitVec.ofNat 32 madtSize) parse.icsStart)
    (hnone : madtParse.round mem (icsEnd mem madt) parse = none)
    : ParseEnds mem madt := by
  intro slots toc
  rw [ends_map (round_icsStart mem (icsEnd mem madt))]
  apply (ends_of_reaches hreach).mpr
  refine ⟨1, ?_⟩
  rw [after_one, ← round_icsStart, hnone]
  rfl

theorem visiting_step {s s' : Init} (hs : s.Visiting mem rsdt)
    (hstep : Step (acpiInit.round mem rsdt (entryN mem rsdt) slots) s s')
    : s'.Visiting mem rsdt := by
  unfold Step at hstep
  cases s with
  | tables i toc =>
    rw [acpiInit.round] at hstep
    split at hstep
    . next hi =>
      dsimp only at hstep
      split at hstep
      . next hmadt =>
        cases hstep
        exact ⟨hi, hs, rfl, hmadt, rfl, .refl⟩
      . next hne =>
        cases hstep
        exact visited_succ.mpr ⟨hs, fun hmadt => absurd hmadt hne⟩
    . contradiction
  | parsing i madt icsEnd parse =>
    obtain ⟨hi, hvisited, heq, hmadt, rfl, hreach⟩ := hs
    rw [acpiInit.round] at hstep
    cases hround : madtParse.round mem (icsEnd mem madt) parse with
    | some parse' =>
      rw [hround] at hstep
      cases hstep
      refine ⟨hi, hvisited, heq, hmadt, rfl, hreach.tail ?_⟩
      unfold Step
      rw [← round_icsStart, hround]
      rfl
    | none =>
      rw [hround] at hstep
      cases hstep
      refine visited_succ.mpr ⟨hvisited, fun _ => ?_⟩
      rw [← heq]
      exact parseEnds_of_reaches hreach hround

theorem visiting_of_reaches {toc : MadtToc} {s : Init}
    (h : Reaches (acpiInit.round mem rsdt (entryN mem rsdt) slots) (.tables 0 toc) s)
    : s.Visiting mem rsdt := by
  induction h with
  | refl =>
    intro j hj
    contradiction
  | tail _ hstep ih => exact visiting_step ih hstep

end Runs

section Lists

variable {mem mem' : Firmware}

theorem load32_congr {a : Word} (h : ∀ b ∈ wordBytes a, mem' b = mem b) : load32 mem' a = load32 mem a := by
  unfold wordBytes at h
  unfold load32
  rw [h a (by simp), h (a + 1) (by simp), h (a + 2) (by simp), h (a + 3) (by simp)]

theorem field_congr {table : Word} {offset : Nat} (h : ∀ r ∈ fieldBytes table offset, mem' r.2 = mem r.2)
    : load32 mem' (table + BitVec.ofNat 32 offset) = load32 mem (table + BitVec.ofNat 32 offset) := by
  apply load32_congr
  exact fun b hb => h (table, b) (List.mem_map_of_mem hb)

/--
The slots that an entry does not write.
-/
theorem irqException_store_of_ne {entry : Word} (toc : MadtToc) {k : Nat}
    (hk : icsType mem entry = madtIntso → k ≠ (intsoSource mem entry).toNat)
    : (madtParse.store mem entry toc).irqException k = toc.irqException k := by
  unfold madtParse.store
  split
  . rfl
  . split
    . rfl
    . split
      . next hintso => exact Function.update_of_ne (hk hintso) _ _
      . rfl

theorem store_congr {entry : Word} (toc : MadtToc) (htype : mem' entry = mem entry)
    (hsource : icsType mem entry = madtIntso → mem' (entry + 3) = mem (entry + 3))
    : madtParse.store mem' entry toc = madtParse.store mem entry toc := by
  have htype' : icsType mem' entry = icsType mem entry := htype
  unfold madtParse.store
  rw [htype']
  split
  . rfl
  . split
    . rfl
    . split
      . next hintso =>
        have hsource' : intsoSource mem' entry = intsoSource mem entry := hsource hintso
        rw [hsource']
      . rfl

theorem round_congr_tables {rsdt : Word} {entryN i : Nat} {slots : Nat → Word} {toc : MadtToc}
    (h : ∀ r ∈ acpiInit.reads mem rsdt entryN (.tables i toc), mem' r.2 = mem r.2)
    : acpiInit.round mem' rsdt entryN slots (.tables i toc)
        =
      acpiInit.round mem rsdt entryN slots (.tables i toc) := by
  rw [acpiInit.reads] at h
  rw [acpiInit.round, acpiInit.round]
  split
  . next hi =>
    rw [if_pos hi] at h
    dsimp only at h ⊢
    have hentry : rsdtEntry mem' rsdt i = rsdtEntry mem rsdt i :=
      field_congr fun r hr => h r (List.mem_append_left _ (List.mem_append_left _ hr))
    have hsignature : load32 mem' (rsdtEntry mem rsdt i + BitVec.ofNat 32 0)
        = load32 mem (rsdtEntry mem rsdt i + BitVec.ofNat 32 0) :=
      field_congr fun r hr => h r (List.mem_append_left _ (List.mem_append_right _ hr))
    rw [BitVec.add_zero] at hsignature
    rw [hentry, show signature mem' (rsdtEntry mem rsdt i) = signature mem (rsdtEntry mem rsdt i) from hsignature]
    split
    . next hmadt =>
      rw [if_pos hmadt] at h
      have happic : load32 mem' (rsdtEntry mem rsdt i + 36) = load32 mem (rsdtEntry mem rsdt i + 36) :=
        field_congr fun r hr => h r (List.mem_append_right _ (List.mem_append_left _ hr))
      have hlength : length mem' (rsdtEntry mem rsdt i) = length mem (rsdtEntry mem rsdt i) :=
        field_congr fun r hr => h r (List.mem_append_right _ (List.mem_append_right _ hr))
      unfold icsEnd madtParse.start
      rw [hlength, happic]
    . rfl
  . rfl

theorem round_congr_parsing {rsdt madt last : Word} {entryN i : Nat} {slots : Nat → Word} {parse : Parse}
    (h : ∀ r ∈ acpiInit.reads mem rsdt entryN (.parsing i madt last parse), mem' r.2 = mem r.2)
    : acpiInit.round mem' rsdt entryN slots (.parsing i madt last parse)
        =
      acpiInit.round mem rsdt entryN slots (.parsing i madt last parse) := by
  have hround : madtParse.round mem' last parse = madtParse.round mem last parse := by
    rw [acpiInit.reads] at h
    unfold madtParse.round
    split
    . next hlt =>
      rw [if_pos hlt] at h
      have hheader : mem' parse.icsStart = mem parse.icsStart
        ∧ mem' (parse.icsStart + 1) = mem (parse.icsStart + 1) := by
        split at h
        . exact ⟨h (madt, _) (by simp), h (madt, _) (by simp)⟩
        . exact ⟨h (madt, _) (by simp), h (madt, _) (by simp)⟩
      have hlength : icsLength mem' parse.icsStart = icsLength mem parse.icsStart := hheader.right
      rw [hlength, store_congr parse.toc hheader.left]
      intro hintso
      rw [if_pos hintso] at h
      exact h (madt, parse.icsStart + 3) (by simp)
    . rfl
  rw [acpiInit.round, acpiInit.round, hround]

theorem keepsToLists (mem : Firmware) (rsdt : Word) (entryN : Nat) (slots : Nat → Word) (s : Init)
    : KeepsToLists mem rsdt entryN slots s := by
  cases s with
  | tables i toc =>
    refine ⟨fun mem' => round_congr_tables, ?_⟩
    intro s' hround k _
    rw [acpiInit.round] at hround
    split at hround
    . dsimp only at hround
      split at hround
      . cases hround
        rfl
      . cases hround
        rfl
    . contradiction
  | parsing i madt last parse =>
    refine ⟨fun mem' => round_congr_parsing, ?_⟩
    intro s' hround k hk
    rw [acpiInit.round] at hround
    rw [acpiInit.writes] at hk
    cases hparse : madtParse.round mem last parse with
    | none =>
      rw [hparse] at hround
      cases hround
      rfl
    | some parse' =>
      rw [hparse] at hround
      cases hround
      unfold madtParse.round at hparse
      split at hparse
      . next hlt =>
        cases hparse
        apply @irqException_store_of_ne mem parse.icsStart parse.toc
        intro hintso heq
        rw [if_pos ⟨hlt, hintso⟩] at hk
        exact hk (List.mem_singleton.mpr heq)
      . contradiction

end Lists

section Reads

variable {mem : Firmware} {rsdt : Word}

theorem offsetFrom_next {madt p : Word} (hlt : offsetFrom madt p < (length mem madt).toNat)
    : offsetFrom madt (p + 1) = offsetFrom madt p + 1 := by
  have hbound := (length mem madt).isLt
  apply (@eq_add_iff madt (p + 1) (offsetFrom madt p + 1) (by omega)).mp
  rw [BitVec.ofNat_add, ← BitVec.add_assoc, add_offsetFrom]
  rfl

theorem inside_entry {madt p : Word} (hp : EntryFits mem madt p)
    : Inside mem (madt, p) ∧ Inside mem (madt, p + 1) := by
  have hheader := hp.header
  have hnext := offsetFrom_next (show offsetFrom madt p < (length mem madt).toNat by omega)
  constructor
  . change offsetFrom madt p < (length mem madt).toNat
    omega
  . change offsetFrom madt (p + 1) < (length mem madt).toNat
    omega

theorem inside_of_fits (hfits : TablesFit mem rsdt) {s : Init} (hs : s.Visiting mem rsdt)
    : (∀ r ∈ acpiInit.reads mem rsdt (entryN mem rsdt) s, Inside mem r)
        ∧ (∀ k ∈ acpiInit.writes mem s, k < 24) := by
  cases s with
  | tables i toc =>
    refine ⟨fun r hr => ?_, fun k hk => absurd hk List.not_mem_nil⟩
    rw [acpiInit.reads] at hr
    split at hr
    . next hi =>
      dsimp only at hr
      rw [List.mem_append, List.mem_append] at hr
      rcases hr with (hentry | hsignature) | hfields
      . exact inside_rsdt hfits.header hi hentry
      . exact inside_field (hfits.table i hi hs) hsignature
      . split at hfields
        . next hmadt =>
          have hlength := hfits.madt i hi hs hmadt
          cases List.mem_append.mp hfields with
          | inl hapic => exact inside_field hlength hapic
          | inr hlen => exact inside_field (Nat.le_trans (by decide) hlength) hlen
        . contradiction
    . contradiction
  | parsing i madt last parse =>
    obtain ⟨hi, hvisited, heq, hmadt, rfl, hreach⟩ := hs
    have hentry : parse.icsStart < icsEnd mem madt → EntryFits mem madt parse.icsStart := by
      intro hlt
      rw [heq] at hmadt hreach hlt ⊢
      exact hfits.entry i hi hvisited hmadt _ (entryAt_iff.mpr ⟨hreach, hlt⟩)
    constructor
    . intro r hr
      rw [acpiInit.reads] at hr
      split at hr
      . next hlt =>
        obtain ⟨hfirst, hsecond⟩ := inside_entry (hentry hlt)
        split at hr
        . next hintso =>
          simp only [List.mem_cons, List.not_mem_nil, or_false] at hr
          rcases hr with rfl | rfl | rfl
          . exact hfirst
          . exact (hentry hlt).source hintso
          . exact hsecond
        . simp only [List.mem_cons, List.not_mem_nil, or_false] at hr
          rcases hr with rfl | rfl
          . exact hfirst
          . exact hsecond
      . contradiction
    . intro k hk
      rw [acpiInit.writes] at hk
      split at hk
      . next h =>
        rw [List.mem_singleton] at hk
        rw [hk]
        exact (hentry h.left).slot h.right
      . contradiction

/--
A round of the loop over the RSDT that stays inside.
-/
theorem fields_of_inside {i : Nat} {toc : MadtToc} (hi : i < entryN mem rsdt)
    (hreads : ∀ r ∈ acpiInit.reads mem rsdt (entryN mem rsdt) (.tables i toc), Inside mem r)
    : 4 ≤ (length mem (rsdtEntry mem rsdt i)).toNat
        ∧ (signature mem (rsdtEntry mem rsdt i) = madtSig → 40 ≤ (length mem (rsdtEntry mem rsdt i)).toNat) := by
  rw [acpiInit.reads, if_pos hi] at hreads
  dsimp only at hreads
  constructor
  . apply le_of_inside (show 0 + 4 ≤ 2 ^ 32 by decide)
    exact fun r hr => hreads r (List.mem_append_left _ (List.mem_append_right _ hr))
  . intro hmadt
    rw [if_pos hmadt] at hreads
    apply le_of_inside (show 36 + 4 ≤ 2 ^ 32 by decide)
    exact fun r hr => hreads r (List.mem_append_right _ (List.mem_append_left _ hr))

theorem header_of_staysInside (h : StaysInside mem rsdt) : sdthdrSize ≤ (length mem rsdt).toNat := by
  by_contra hlt
  have hpos := entryN_pos (Nat.lt_of_not_le hlt)
  obtain ⟨-, hreads, -⟩ := h (fun _ => 0) ⟨0, 0, 0, fun _ => 0⟩ _ .refl
  rw [acpiInit.reads, if_pos hpos] at hreads
  have hle := @le_of_inside mem rsdt sdthdrSize (by decide)
    (fun r hr => hreads r (List.mem_append_left _ (List.mem_append_left _ hr)))
  omega

theorem entryFits_of_inside {madt p : Word} {i : Nat} {toc : MadtToc} (hlt : p < icsEnd mem madt)
    (hreads : ∀ r ∈ acpiInit.reads mem rsdt (entryN mem rsdt) (.parsing i madt (icsEnd mem madt) ⟨p, toc⟩),
      Inside mem r)
    (hwrites : ∀ k ∈ acpiInit.writes mem (.parsing i madt (icsEnd mem madt) ⟨p, toc⟩), k < 24)
    : EntryFits mem madt p := by
  rw [acpiInit.reads, if_pos hlt] at hreads
  rw [acpiInit.writes] at hwrites
  have hheader : Inside mem (madt, p) ∧ Inside mem (madt, p + 1) := by
    split at hreads
    . exact ⟨hreads _ (by simp), hreads _ (by simp)⟩
    . exact ⟨hreads _ (by simp), hreads _ (by simp)⟩
  have hfirst : offsetFrom madt p < (length mem madt).toNat := hheader.left
  have hsecond : offsetFrom madt (p + 1) < (length mem madt).toNat := hheader.right
  have hnext := offsetFrom_next hfirst
  constructor
  . omega
  . intro hintso
    rw [if_pos hintso] at hreads
    exact hreads (madt, p + 3) (by simp)
  . intro hintso
    rw [if_pos ⟨hlt, hintso⟩] at hwrites
    exact hwrites _ List.mem_cons_self

/--
The walks stay inside if and only if the tables fit.
-/
theorem staysInside_iff (mem : Firmware) (rsdt : Word) : StaysInside mem rsdt ↔ TablesFit mem rsdt := by
  constructor
  . intro h
    have htables : ∀ i, i < entryN mem rsdt → Visited mem rsdt i →
        4 ≤ (length mem (rsdtEntry mem rsdt i)).toNat
          ∧ (signature mem (rsdtEntry mem rsdt i) = madtSig → 40 ≤ (length mem (rsdtEntry mem rsdt i)).toNat) := by
      intro i hi hvisited
      obtain ⟨toc, hreach⟩ := exists_reaches_tables ⟨0, 0, 0, fun _ => 0⟩ (Nat.le_of_lt hi) hvisited
      obtain ⟨-, hreads, -⟩ := h (fun _ => 0) _ _ hreach
      exact fields_of_inside hi hreads
    constructor
    . exact header_of_staysInside h
    . exact fun i hi hvisited => (htables i hi hvisited).left
    . exact fun i hi hvisited => (htables i hi hvisited).right
    . intro i hi hvisited hmadt p hp
      obtain ⟨toc, hreach⟩ := exists_reaches_entry ⟨0, 0, 0, fun _ => 0⟩ hi hvisited hmadt hp
      obtain ⟨-, hreads, hwrites⟩ := h (fun _ => 0) _ _ hreach
      exact entryFits_of_inside hp.lt hreads hwrites
  . intro hfits slots toc s hreach
    exact ⟨keepsToLists mem rsdt (entryN mem rsdt) slots s, inside_of_fits hfits (visiting_of_reaches hreach)⟩

/--
An RSDT with one entry, a MADT that overrides the IRQ 200.
-/
def farSource : Firmware := fun a =>
  (([(0x1004, 40), (0x1025, 0x20), (0x2000, 0x41), (0x2001, 0x50), (0x2002, 0x49), (0x2003, 0x43), (0x2004, 54),
    (0x202C, 2), (0x202D, 10), (0x202F, 200)] : List (Word × BitVec 8)).lookup a).getD 0

/--
The override is written behind the slots.
-/
theorem not_staysInside_farSource : ¬StaysInside farSource 0x1000 := by
  intro h
  have hstep : Reaches (acpiInit.round farSource 0x1000 (entryN farSource 0x1000) fun _ => 0)
    (.tables 0 ⟨0, 0, 0, fun _ => 0⟩)
      (.parsing 0 (rsdtEntry farSource 0x1000 0) (icsEnd farSource (rsdtEntry farSource 0x1000 0))
        (madtParse.start farSource _ _ _)) :=
    .single (step_tables_of_madt _ (by decide) (by decide))
  have hwrite : 200 ∈ acpiInit.writes farSource
      (.parsing 0 (rsdtEntry farSource 0x1000 0) (icsEnd farSource (rsdtEntry farSource 0x1000 0))
        (madtParse.start farSource (rsdtEntry farSource 0x1000 0) (fun _ => 0) ⟨0, 0, 0, fun _ => 0⟩)) := by
    decide
  obtain ⟨-, -, hwrites⟩ := h _ _ _ hstep
  exact absurd (hwrites 200 hwrite) (by decide)

end Reads

end Acpi

end AwaOS
