import AwaOS.Lib.LoggedMemory

/-!
The general registers and the stack of a 32 bit x86 processor, and the instructions that move words between them.
-/

namespace X86

inductive Reg where
  | eax | ebx | ecx | edx | edi | ebp | esi | esp
  deriving DecidableEq

structure Cpu where
  reg : Reg → BitVec 32
  mem : LoggedMem

/--
In the order of the AT&T syntax: the source comes first.
-/
inductive Instr where
  | pushl (src : Reg)
  | pushImm (imm : BitVec 32)
  | popl (dst : Reg)
  | movl (src dst : Reg)
  /-- `movl %src, (%addr)` -/
  | store (src addr : Reg)
  | andl (imm : BitVec 32) (dst : Reg)
  | subl (imm : BitVec 32) (dst : Reg)
  | addl (imm : BitVec 32) (dst : Reg)
  /-- `callee` is what the function does from its first instruction on until it has returned, `none` if it does not. -/
  | call (callee : Cpu → Option Cpu) (returnAddr : BitVec 32)

namespace Cpu

def set (cpu : Cpu) (r : Reg) (w : BitVec 32) : Cpu :=
  { cpu with reg := Function.update cpu.reg r w }

def push (cpu : Cpu) (w : BitVec 32) : Cpu :=
  { cpu.set .esp (cpu.reg .esp - 4) with mem := cpu.mem.store32 (cpu.reg .esp - 4) w }

@[simp]
theorem mem_set (cpu : Cpu) (r : Reg) (w : BitVec 32) : (cpu.set r w).mem = cpu.mem :=
  rfl

@[simp]
theorem reg_set_self (cpu : Cpu) (r : Reg) (w : BitVec 32) : (cpu.set r w).reg r = w := by
  unfold set
  dsimp only
  rw [Function.update_self]

theorem reg_set_of_ne (cpu : Cpu) {q r : Reg} (hne : q ≠ r) (w : BitVec 32) : (cpu.set r w).reg q = cpu.reg q := by
  unfold set
  dsimp only
  rw [Function.update_of_ne hne]

end Cpu

/--
`pushl %esp` pushes what `%esp` was before, and `popl %esp` leaves what was popped.
-/
def Instr.exec (cpu : Cpu) : Instr → Option Cpu
  | pushl src => some (cpu.push (cpu.reg src))
  | pushImm imm => some (cpu.push imm)
  | popl dst => some ((cpu.set .esp (cpu.reg .esp + 4)).set dst (cpu.mem.load32 (cpu.reg .esp)))
  | movl src dst => some (cpu.set dst (cpu.reg src))
  | store src addr => some { cpu with mem := cpu.mem.store32 (cpu.reg addr) (cpu.reg src) }
  | andl imm dst => some (cpu.set dst (cpu.reg dst &&& imm))
  | subl imm dst => some (cpu.set dst (cpu.reg dst - imm))
  | addl imm dst => some (cpu.set dst (cpu.reg dst + imm))
  | call callee returnAddr => callee (cpu.push returnAddr)

def exec (cpu : Cpu) : List Instr → Option Cpu
  | [] => some cpu
  | i :: program => (i.exec cpu).bind (exec · program)

theorem exec_append (cpu : Cpu) (first rest : List Instr)
    : exec cpu (first ++ rest) = (exec cpu first).bind (exec · rest) := by
  induction first generalizing cpu with
  | nil => rfl
  | cons i first ih =>
    rw [List.cons_append, exec, exec]
    cases i.exec cpu with
    | none => rfl
    | some cpu' => exact ih cpu'

/--
The words at the top of the stack, the last one that was pushed first.
-/
def Words (m : LoggedMem) (a : BitVec 32) (ws : List (BitVec 32)) : Prop :=
  ∀ i (hi : i < ws.length), m.load32 (a + BitVec.ofNat 32 (4 * i)) = ws[i]

section Words

variable {m m' : LoggedMem} {a w : BitVec 32} {ws ws' : List (BitVec 32)}

theorem words_nil : Words m a [] :=
  fun _ hi => absurd hi (Nat.not_lt_zero _)

theorem words_cons : Words m a (w :: ws) ↔ m.load32 a = w ∧ Words m (a + 4) ws := by
  have hnext : ∀ i, a + 4 + BitVec.ofNat 32 (4 * i) = a + BitVec.ofNat 32 (4 * (i + 1)) := by
    intro i
    rw [Nat.mul_add, BitVec.ofNat_add, BitVec.add_assoc, BitVec.add_comm (BitVec.ofNat 32 (4 * i))]
    rfl
  constructor
  . intro h
    constructor
    . have hfirst := h 0 (Nat.succ_pos _)
      rw [Nat.mul_zero, BitVec.add_zero] at hfirst
      exact hfirst
    . intro i hi
      rw [hnext]
      exact h (i + 1) (Nat.succ_lt_succ hi)
  . intro h i hi
    cases i with
    | zero =>
      rw [Nat.mul_zero, BitVec.add_zero]
      exact h.left
    | succ i =>
      rw [← hnext]
      exact h.right i (Nat.lt_of_succ_lt_succ hi)

theorem Words.drop (h : Words m a (ws ++ ws')) : Words m (a + BitVec.ofNat 32 (4 * ws.length)) ws' := by
  intro i hi
  have hat := h (ws.length + i) (by rw [List.length_append]; exact Nat.add_lt_add_left hi _)
  rw [List.getElem_append_right (Nat.le_add_right _ _), Nat.mul_add, BitVec.ofNat_add, ← BitVec.add_assoc] at hat
  rw [hat]
  congr 1
  exact Nat.add_sub_cancel_left _ _

theorem Words.congr (h : Words m a ws) (hlen : 4 * ws.length ≤ 2 ^ 32)
    (hsame : ∀ b, offsetFrom a b < 4 * ws.length → m'.byte b = m.byte b)
    : Words m' a ws := by
  intro i hi
  rw [LoggedMem.load32_congr _ ?_]
  . exact h i hi
  . intro b hb
    apply hsame
    rw [offsetFrom_add_lt_iff a b (by omega)] at hb
    omega

/--
A word that is stored below.
-/
theorem Words.store32 {j k : Nat} (h : Words m (a + BitVec.ofNat 32 k) ws) (hjk : j + 4 ≤ k)
    (hlen : k + 4 * ws.length ≤ 2 ^ 32)
    : Words (m.store32 (a + BitVec.ofNat 32 j) w) (a + BitVec.ofNat 32 k) ws := by
  intro i hi
  rw [← h i hi, BitVec.add_assoc, ← BitVec.ofNat_add]
  exact LoggedMem.load32_store32_of_apart a w (by omega) (by omega) (by omega)

theorem Words.store32_base {k : Nat} (h : Words m (a + BitVec.ofNat 32 k) ws) (hk : 4 ≤ k)
    (hlen : k + 4 * ws.length ≤ 2 ^ 32)
    : Words (m.store32 a w) (a + BitVec.ofNat 32 k) ws := by
  have hbelow := h.store32 (w := w) (show 0 + 4 ≤ k from hk) hlen
  rw [BitVec.add_zero] at hbelow
  exact hbelow

theorem Words.push (h : Words m a ws) (hlen : 4 * (ws.length + 1) ≤ 2 ^ 32)
    : Words (m.store32 (a - 4) w) (a - 4) (w :: ws) := by
  have ha : a - 4 + BitVec.ofNat 32 4 = a := BitVec.sub_add_cancel a 4
  rw [words_cons]
  constructor
  . exact LoggedMem.load32_store32_self m (a - 4) w
  . have habove : Words m (a - 4 + BitVec.ofNat 32 4) ws := by
      rw [ha]
      exact h
    exact habove.store32_base (Nat.le_refl 4) (by omega)

end Words

section Stack

variable {cpu : Cpu} {ws : List (BitVec 32)}

/--
The stack of `cpu` has the words `ws` at its top.
-/
abbrev StackTop (cpu : Cpu) (ws : List (BitVec 32)) : Prop :=
  Words cpu.mem (cpu.reg .esp) ws

theorem reg_push (cpu : Cpu) (w : BitVec 32) {r : Reg} (hr : r ≠ .esp) : (cpu.push w).reg r = cpu.reg r :=
  cpu.reg_set_of_ne hr _

theorem esp_push (cpu : Cpu) (w : BitVec 32) : (cpu.push w).reg .esp = cpu.reg .esp - 4 :=
  cpu.reg_set_self .esp _

theorem StackTop.push (h : StackTop cpu ws) (w : BitVec 32) (hlen : 4 * (ws.length + 1) ≤ 2 ^ 32)
    : StackTop (cpu.push w) (w :: ws) := by
  unfold StackTop
  rw [esp_push]
  exact Words.push h hlen

/--
Registers are pushed one after the other.
-/
theorem exec_pushes (rs : List Reg) (hesp : .esp ∉ rs) (h : StackTop cpu ws)
    (hlen : 4 * (rs.length + ws.length) ≤ 2 ^ 32)
    : ∃ cpu', exec cpu (rs.map .pushl) = some cpu'
        ∧ (∀ r, r ≠ .esp → cpu'.reg r = cpu.reg r)
        ∧ cpu'.reg .esp = cpu.reg .esp - BitVec.ofNat 32 (4 * rs.length)
        ∧ StackTop cpu' (rs.reverse.map cpu.reg ++ ws) := by
  induction rs generalizing cpu ws with
  | nil => exact ⟨cpu, rfl, fun _ _ => rfl, (BitVec.sub_zero _).symm, h⟩
  | cons r rs ih =>
    rw [List.length_cons] at hlen
    have hrest : .esp ∉ rs := fun hmem => hesp (List.mem_cons_of_mem r hmem)
    obtain ⟨cpu', hexec, hkept, hpointer, htop⟩ :=
      ih hrest (h.push (cpu.reg r) (by omega)) (by rw [List.length_cons]; omega)
    have hsame : rs.reverse.map (cpu.push (cpu.reg r)).reg = rs.reverse.map cpu.reg := by
      apply List.map_congr_left
      intro q hq
      apply reg_push
      intro heq
      rw [heq] at hq
      exact hrest (List.mem_reverse.mp hq)
    refine ⟨cpu', hexec, ?_, ?_, ?_⟩
    . intro q hq
      rw [hkept q hq, reg_push cpu _ hq]
    . rw [hpointer, esp_push, List.length_cons, Nat.mul_succ, BitVec.ofNat_add, BitVec.add_comm, BitVec.sub_sub]
      rfl
    . rw [hsame] at htop
      rw [List.reverse_cons, List.map_append, List.append_assoc]
      exact htop

/--
Registers are popped one after the other.
-/
theorem exec_pops (rs : List Reg) (hesp : .esp ∉ rs) (saved : Reg → BitVec 32)
    (h : StackTop cpu (rs.map saved ++ ws))
    : ∃ cpu', exec cpu (rs.map .popl) = some cpu'
        ∧ cpu'.mem = cpu.mem
        ∧ (∀ r ∈ rs, cpu'.reg r = saved r)
        ∧ (∀ r, r ≠ .esp → r ∉ rs → cpu'.reg r = cpu.reg r)
        ∧ cpu'.reg .esp = cpu.reg .esp + BitVec.ofNat 32 (4 * rs.length)
        ∧ StackTop cpu' ws := by
  induction rs generalizing cpu with
  | nil => exact ⟨cpu, rfl, rfl, fun _ hr => absurd hr List.not_mem_nil, fun _ _ _ => rfl,
    (BitVec.add_zero _).symm, h⟩
  | cons r rs ih =>
    have hr : r ≠ .esp := fun heq => hesp (heq ▸ List.mem_cons_self)
    have hrest : .esp ∉ rs := fun hmem => hesp (List.mem_cons_of_mem r hmem)
    obtain ⟨hfirst, habove⟩ := words_cons.mp h
    generalize hcpu₁ : (cpu.set .esp (cpu.reg .esp + 4)).set r (cpu.mem.load32 (cpu.reg .esp)) = cpu₁
    have hpointer : cpu₁.reg .esp = cpu.reg .esp + 4 := by
      rw [← hcpu₁, Cpu.reg_set_of_ne _ hr.symm, Cpu.reg_set_self]
    have hmem : cpu₁.mem = cpu.mem := by
      rw [← hcpu₁]
      rfl
    have hvalue : cpu₁.reg r = saved r := by
      rw [← hcpu₁, ← hfirst, Cpu.reg_set_self]
    have hother : ∀ q, q ≠ .esp → q ≠ r → cpu₁.reg q = cpu.reg q := by
      intro q hq hne
      rw [← hcpu₁, Cpu.reg_set_of_ne _ hne, Cpu.reg_set_of_ne _ hq]
    have htop : StackTop cpu₁ (rs.map saved ++ ws) := by
      unfold StackTop
      rw [hpointer, hmem]
      exact habove
    obtain ⟨cpu', hexec, hmem', hpopped, hkept, hpointer', htop'⟩ := ih hrest htop
    refine ⟨cpu', ?_, hmem'.trans hmem, ?_, ?_, ?_, htop'⟩
    . rw [List.map_cons, exec, Instr.exec, hcpu₁]
      exact hexec
    . intro q hq
      by_cases hin : q ∈ rs
      . exact hpopped q hin
      . have heq : q = r := (List.mem_cons.mp hq).resolve_right hin
        rw [heq] at hin ⊢
        rw [hkept r hr hin, hvalue]
    . intro q hq hnot
      rw [List.mem_cons, not_or] at hnot
      rw [hkept q hq hnot.right, hother q hq hnot.left]
    . rw [hpointer', hpointer, List.length_cons, Nat.mul_succ, BitVec.ofNat_add, BitVec.add_assoc,
        BitVec.add_comm (BitVec.ofNat 32 (4 * rs.length))]
      rfl

end Stack

section Pushes

variable {cpu : Cpu} {ws us : List (BitVec 32)} {low : BitVec 32} {k n : Nat}

theorem exec_pushImms (cpu : Cpu) (us : List (BitVec 32))
    : exec cpu (us.map .pushImm) = some (us.foldl Cpu.push cpu) := by
  induction us generalizing cpu with
  | nil => rfl
  | cons u us ih => exact ih (cpu.push u)

theorem reg_pushes (cpu : Cpu) (us : List (BitVec 32)) {r : Reg} (hr : r ≠ .esp)
    : (us.foldl Cpu.push cpu).reg r = cpu.reg r := by
  induction us generalizing cpu with
  | nil => rfl
  | cons u us ih =>
    rw [List.foldl_cons, ih, reg_push cpu u hr]

theorem StackTop.pushes (h : StackTop cpu ws) (us : List (BitVec 32)) (hlen : 4 * (us.length + ws.length) ≤ 2 ^ 32)
    : StackTop (us.foldl Cpu.push cpu) (us.reverse ++ ws) := by
  induction us generalizing cpu ws with
  | nil => exact h
  | cons u us ih =>
    rw [List.length_cons] at hlen
    have hrest := ih (h.push u (by omega)) (by rw [List.length_cons]; omega)
    rw [List.reverse_cons, List.append_assoc]
    exact hrest

/--
The instruction pushes one word.
-/
def Instr.IsPush (i : Instr) : Prop :=
  ∀ cpu, ∃ w, i.exec cpu = some (cpu.push w)

theorem push_below (cpu : Cpu) (w : BitVec 32) (hesp : cpu.reg .esp = low + BitVec.ofNat 32 (k + 4))
    (hk : k + 4 ≤ n)
    (hn : n ≤ 2 ^ 32)
    : (cpu.push w).reg .esp = low + BitVec.ofNat 32 k ∧ LoggedMem.SameOutside cpu.mem (cpu.push w).mem low n := by
  have hslot : cpu.reg .esp - 4 = low + BitVec.ofNat 32 k := by
    rw [hesp, BitVec.ofNat_add, ← BitVec.add_assoc]
    exact BitVec.add_sub_cancel _ 4
  constructor
  . rw [esp_push, hslot]
  . apply LoggedMem.SameOutside.widen (LoggedMem.sameOutside_store32 cpu.mem (cpu.reg .esp - 4) w)
    intro c hc
    rw [hslot, offsetFrom_add_lt_iff low c (by omega)] at hc
    omega

/--
Pushes change the words below the stack only.
-/
theorem exec_pushes_below (program : List Instr) (hpush : ∀ i ∈ program, i.IsPush)
    (hesp : cpu.reg .esp = low + BitVec.ofNat 32 (k + 4 * program.length)) (hk : k + 4 * program.length ≤ n)
    (hn : n ≤ 2 ^ 32)
    : ∃ cpu', exec cpu program = some cpu'
        ∧ cpu'.reg .esp = low + BitVec.ofNat 32 k
        ∧ LoggedMem.SameOutside cpu.mem cpu'.mem low n := by
  induction program generalizing cpu with
  | nil => exact ⟨cpu, rfl, hesp, fun _ _ => rfl⟩
  | cons i program ih =>
    rw [List.length_cons, Nat.mul_succ, ← Nat.add_assoc] at hesp hk
    obtain ⟨w, hw⟩ := hpush i List.mem_cons_self cpu
    obtain ⟨hpushed, hsame⟩ := push_below cpu w hesp hk hn
    obtain ⟨cpu', hexec, hpointer, hrest⟩ :=
      ih (fun j hj => hpush j (List.mem_cons_of_mem i hj)) hpushed (by omega)
    refine ⟨cpu', ?_, hpointer, hsame.trans hrest⟩
    rw [exec, hw]
    exact hexec

end Pushes

end X86
