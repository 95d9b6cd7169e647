import AwaOS.Interrupt.Impl
import AwaOS.Lib.Align
import AwaOS.Lib.X86

/-!
The stubs of the interrupts, `kernel/asm/x86/interrupt.S`, run on the registers and the stack. They call
`intr_handler` with what they have saved, and when it has returned the interrupted code finds its registers again.
-/

namespace AwaOS

open X86

section Impl

def apicLint0Iv : BitVec 8 := 201

def apicTimerIv : BitVec 8 := 202

def rtcTimerIv : BitVec 8 := 210

structure IsrTemplate where
  vector : BitVec 8
  noErrorCode : Bool
  deriving DecidableEq

/--
The `isr_template`s of `.text`.
-/
def isrTemplates : List IsrTemplate :=
  [⟨faultDivisionError, true⟩, ⟨faultGeneralProtection, false⟩, ⟨faultPageFault, false⟩, ⟨awaSysPanic, true⟩,
    ⟨apicErrorIv, true⟩, ⟨apicLint0Iv, true⟩, ⟨apicTimerIv, true⟩, ⟨apicSpivIv, true⟩, ⟨rtcTimerIv, true⟩]

/--
`_asm_isr\vector`, up to its jump.
-/
def IsrTemplate.stub (t : IsrTemplate) : List Instr :=
  (if t.noErrorCode then [.pushImm 0] else []) ++ [.pushImm (t.vector.setWidth 32)]

def interruptWrapper.save : List Instr :=
  [.pushl .esp, .pushl .esi, .pushl .ebp, .pushl .edi, .pushl .edx, .pushl .ecx, .pushl .ebx, .pushl .eax]

/--
The argument of `intr_handler` goes to an address that is a multiple of 16.
-/
def interruptWrapper.passArg : List Instr :=
  [.movl .esp .eax, .andl 0xfffffff0 .esp, .subl 16 .esp, .store .eax .esp]

def interruptWrapper.restore : List Instr :=
  [.popl .esp, .popl .eax, .popl .ebx, .popl .ecx, .popl .edx, .popl .edi, .popl .ebp, .popl .esi, .popl .esp,
    .addl 8 .esp]

/--
Up to its `iret`.
-/
def interruptWrapper (intrHandler : Cpu → Option Cpu) (returnAddr : Word) : List Instr :=
  interruptWrapper.save ++ interruptWrapper.passArg ++ .call intrHandler returnAddr :: interruptWrapper.restore

/--
From the entry of the gate on.
-/
def IsrTemplate.code (t : IsrTemplate) (intrHandler : Cpu → Option Cpu) (returnAddr : Word) : List Instr :=
  t.stub ++ interruptWrapper intrHandler returnAddr

/--
`gp_regs`
-/
structure GpRegs where
  eax : Word
  ebx : Word
  ecx : Word
  edx : Word
  edi : Word
  ebp : Word
  esi : Word
  esp : Word

/--
The fields of an `isr_param` that are there for every interrupt: `esp` and `ss` come after them.
-/
structure SavedParam where
  registers : GpRegs
  vector : Word
  errCode : Word
  eip : Word
  cs : Word
  eflags : Word

def GpRegs.read (m : LoggedMem) (a : Word) : GpRegs where
  eax := m.load32 a
  ebx := m.load32 (a + 4)
  ecx := m.load32 (a + 8)
  edx := m.load32 (a + 12)
  edi := m.load32 (a + 16)
  ebp := m.load32 (a + 20)
  esi := m.load32 (a + 24)
  esp := m.load32 (a + 28)

/--
`*param`
-/
def SavedParam.read (m : LoggedMem) (param : Word) : SavedParam where
  registers := GpRegs.read m param
  vector := m.load32 (param + 32)
  errCode := m.load32 (param + 36)
  eip := m.load32 (param + 40)
  cs := m.load32 (param + 44)
  eflags := m.load32 (param + 48)

end Impl

section Frame

/--
The interrupts for which the processor pushes an error code.
-/
def pushesErrorCode (vector : BitVec 8) : Bool :=
  vector ∈ [8, 10, 11, 12, 13, 14, 17, 21]

/--
What the processor pushes before it enters the gate. `%esp` and `%ss` are only pushed if it was at another
privilege level.
-/
structure CpuPushed where
  errCode : Option Word
  eip : Word
  cs : Word
  eflags : Word
  espSs : Option (Word × Word)

def CpuPushed.outer (pushed : CpuPushed) : List Word :=
  match pushed.espSs with
  | none => []
  | some (esp, ss) => [esp, ss]

def CpuPushed.words (pushed : CpuPushed) : List Word :=
  pushed.errCode.toList ++ pushed.eip :: pushed.cs :: pushed.eflags :: pushed.outer

def GpRegs.words (regs : GpRegs) : List Word :=
  [regs.eax, regs.ebx, regs.ecx, regs.edx, regs.edi, regs.ebp, regs.esi, regs.esp]

def SavedParam.words (param : SavedParam) : List Word :=
  param.registers.words ++ [param.vector, param.errCode, param.eip, param.cs, param.eflags]

/--
Where the `%eip` is that `iret` pops.
-/
def CpuPushed.eipAddr (pushed : CpuPushed) (cpu : Cpu) : Word :=
  cpu.reg .esp + BitVec.ofNat 32 (4 * pushed.errCode.toList.length)

/--
What is saved for an interrupt at which the processor was `cpu` when it had pushed `pushed`. The `%esp` is the one
that `interrupt_wrapper` starts with.
-/
def savedFor (t : IsrTemplate) (cpu : Cpu) (pushed : CpuPushed) : SavedParam where
  registers :=
    { eax := cpu.reg .eax, ebx := cpu.reg .ebx, ecx := cpu.reg .ecx, edx := cpu.reg .edx, edi := cpu.reg .edi,
      ebp := cpu.reg .ebp, esi := cpu.reg .esi, esp := pushed.eipAddr cpu - 8 }
  vector := t.vector.setWidth 32
  errCode := pushed.errCode.getD 0
  eip := pushed.eip
  cs := pushed.cs
  eflags := pushed.eflags

/--
The argument of `intr_handler`, read when it is entered.
-/
def paramOf (entry : Cpu) : Word :=
  entry.mem.load32 (entry.reg .esp + 4)

/--
The saved frame is as it was when `intr_handler` was entered.
-/
def FrameSame (pushed : CpuPushed) (entry : Cpu) (m : LoggedMem) : Prop :=
  ∀ b, offsetFrom (paramOf entry) b < 4 * (13 + pushed.outer.length) → m.byte b = entry.mem.byte b

/--
`intr_handler` has returned, with the saved frame and the slot of its argument as they were.
-/
structure ReturnedKeeping (pushed : CpuPushed) (entry ret : Cpu) : Prop where
  esp : ret.reg .esp = entry.reg .esp + 4
  frame : FrameSame pushed entry ret.mem
  slot : ∀ b, offsetFrom (entry.reg .esp + 4) b < 4 → ret.mem.byte b = entry.mem.byte b

end Frame

section Fields

variable {m : LoggedMem} {a : Word} {ws : List Word}

theorem GpRegs.read_eq {regs : GpRegs} (h : Words m a (regs.words ++ ws)) : GpRegs.read m a = regs := by
  have hlen : ∀ i, i < 8 → i < (regs.words ++ ws).length := by
    intro i hi
    rw [List.length_append]
    exact Nat.lt_of_lt_of_le hi (Nat.le_add_right _ _)
  have heax : m.load32 a = regs.eax := (words_cons.mp h).left
  have hebx : m.load32 (a + 4) = regs.ebx := h 1 (hlen 1 (by decide))
  have hecx : m.load32 (a + 8) = regs.ecx := h 2 (hlen 2 (by decide))
  have hedx : m.load32 (a + 12) = regs.edx := h 3 (hlen 3 (by decide))
  have hedi : m.load32 (a + 16) = regs.edi := h 4 (hlen 4 (by decide))
  have hebp : m.load32 (a + 20) = regs.ebp := h 5 (hlen 5 (by decide))
  have hesi : m.load32 (a + 24) = regs.esi := h 6 (hlen 6 (by decide))
  have hesp : m.load32 (a + 28) = regs.esp := h 7 (hlen 7 (by decide))
  unfold GpRegs.read
  rw [heax, hebx, hecx, hedx, hedi, hebp, hesi, hesp]

/--
The layout of the structure is the order of the pushes.
-/
theorem SavedParam.read_eq {param : SavedParam} (h : Words m a (param.words ++ ws))
    : SavedParam.read m a = param := by
  have hlen : ∀ i, i < 13 → i < (param.words ++ ws).length := by
    intro i hi
    rw [List.length_append]
    exact Nat.lt_of_lt_of_le hi (Nat.le_add_right _ _)
  have hvector : m.load32 (a + 32) = param.vector := h 8 (hlen 8 (by decide))
  have herrCode : m.load32 (a + 36) = param.errCode := h 9 (hlen 9 (by decide))
  have heip : m.load32 (a + 40) = param.eip := h 10 (hlen 10 (by decide))
  have hcs : m.load32 (a + 44) = param.cs := h 11 (hlen 11 (by decide))
  have heflags : m.load32 (a + 48) = param.eflags := h 12 (hlen 12 (by decide))
  have hregs : GpRegs.read m a = param.registers := by
    apply GpRegs.read_eq
    unfold SavedParam.words at h
    rw [List.append_assoc] at h
    exact h
  unfold SavedParam.read
  rw [hregs, hvector, herrCode, heip, hcs, heflags]

end Fields

theorem CpuPushed.length_outer_le (pushed : CpuPushed) : pushed.outer.length ≤ 2 := by
  unfold outer
  cases pushed.espSs with
  | none => exact Nat.zero_le 2
  | some espSs => exact Nat.le_refl 2

theorem CpuPushed.length_words_le (pushed : CpuPushed) : pushed.words.length ≤ 6 := by
  have houter := pushed.length_outer_le
  have hcode : pushed.errCode.toList.length ≤ 1 := Option.length_toList_le
  unfold words
  rw [List.length_append, List.length_cons, List.length_cons, List.length_cons]
  omega

section Steps

variable {cpu : Cpu} {frame : Word} {ws : List Word}

theorem exec_stub (t : IsrTemplate) {pushed : CpuPushed} (hpushed : StackTop cpu pushed.words)
    (herr : pushed.errCode.isSome = !t.noErrorCode)
    : ∃ cpu', exec cpu t.stub = some cpu'
        ∧ (∀ r, r ≠ .esp → cpu'.reg r = cpu.reg r)
        ∧ cpu'.reg .esp = pushed.eipAddr cpu - 8
        ∧ StackTop cpu' (t.vector.setWidth 32 :: pushed.errCode.getD 0 :: pushed.eip :: pushed.cs :: pushed.eflags
            :: pushed.outer) := by
  have hlen := pushed.length_words_le
  unfold CpuPushed.eipAddr
  unfold CpuPushed.words at hpushed hlen
  unfold IsrTemplate.stub
  cases hcode : pushed.errCode with
  | none =>
    rw [hcode] at herr hpushed hlen
    rw [if_pos (by rw [← Bool.not_eq_false', ← herr]; rfl)]
    refine ⟨(cpu.push 0).push (t.vector.setWidth 32), rfl, ?_, ?_, ?_⟩
    . intro r hr
      rw [reg_push _ _ hr, reg_push _ _ hr]
    . rw [esp_push, esp_push, BitVec.sub_sub]
      exact congrArg (· - (8 : Word)) (BitVec.add_zero _).symm
    . exact (hpushed.push 0 (by omega)).push _ (by rw [List.length_cons]; omega)
  | some code =>
    rw [hcode] at herr hpushed hlen
    rw [if_neg (by intro hno; rw [hno] at herr; cases herr)]
    refine ⟨cpu.push (t.vector.setWidth 32), rfl, fun r hr => reg_push _ _ hr, ?_, ?_⟩
    . rw [esp_push]
      show cpu.reg .esp - 4 = cpu.reg .esp + 4 - 8
      bv_omega
    . exact hpushed.push _ (by omega)

theorem exec_save (h : StackTop cpu ws) (hlen : 4 * (8 + ws.length) ≤ 2 ^ 32)
    : ∃ cpu', exec cpu interruptWrapper.save = some cpu'
        ∧ (∀ r, r ≠ .esp → cpu'.reg r = cpu.reg r)
        ∧ cpu'.reg .esp = cpu.reg .esp - 32
        ∧ StackTop cpu' ([.eax, .ebx, .ecx, .edx, .edi, .ebp, .esi, .esp].map cpu.reg ++ ws) := by
  generalize hrs : [Reg.esi, .ebp, .edi, .edx, .ecx, .ebx, .eax] = rs
  have hcode : interruptWrapper.save = .pushl .esp :: rs.map .pushl := by
    rw [← hrs]
    rfl
  have hcount : rs.length = 7 := by
    rw [← hrs]
    rfl
  obtain ⟨cpu', hexec, hkept, hpointer, htop⟩ :=
    exec_pushes rs (by rw [← hrs]; decide) (h.push (cpu.reg .esp) (by omega)) (by rw [List.length_cons]; omega)
  refine ⟨cpu', ?_, ?_, ?_, ?_⟩
  . rw [hcode, exec, Instr.exec]
    exact hexec
  . intro r hr
    rw [hkept r hr, reg_push _ _ hr]
  . rw [hpointer, esp_push, BitVec.sub_sub, hcount]
    exact congrArg (cpu.reg .esp - ·) (by decide)
  . rw [← hrs] at htop
    exact htop

/--
From here on the saved frame is not at the top of the stack, but at the address that is passed.
-/
theorem exec_passArg (h : StackTop cpu ws) (hlen : 36 + 4 * ws.length ≤ 2 ^ 32) (returnAddr : Word)
    : ∃ cpu', exec cpu interruptWrapper.passArg = some cpu'
        ∧ paramOf (cpu'.push returnAddr) = cpu.reg .esp
        ∧ Words (cpu'.push returnAddr).mem (cpu.reg .esp) ws := by
  generalize hframe : cpu.reg .esp = frame
  generalize hslot : (frame &&& 0xfffffff0) - 16 = slot
  generalize hlow : slot - 4 = low
  generalize hpad : 20 + frame.toNat % 2 ^ 4 = pad
  have hmod : frame.toNat % 2 ^ 4 < 16 := Nat.mod_lt _ (by decide)
  have hslotAt : slot = low + BitVec.ofNat 32 4 := by
    rw [← hlow]
    exact (BitVec.sub_add_cancel slot 4).symm
  have hframeAt : frame = low + BitVec.ofNat 32 pad := by
    have halign : (frame &&& 0xfffffff0) + BitVec.ofNat 32 (frame.toNat % 2 ^ 4) = frame :=
      Align.and_highMask_add frame 4
    have hsum : low + BitVec.ofNat 32 20 = frame &&& 0xfffffff0 := by
      rw [← hlow, ← hslot]
      bv_omega
    rw [← hpad, BitVec.ofNat_add, ← BitVec.add_assoc, hsum, halign]
  have hexec : exec cpu interruptWrapper.passArg
      = some
        { (((cpu.set .eax frame).set .esp (frame &&& 0xfffffff0)).set .esp slot) with
          mem := cpu.mem.store32 slot frame } := by
    rw [← hslot, ← hframe]
    rfl
  have harg : Words (cpu.mem.store32 slot frame) slot [frame] :=
    words_cons.mpr ⟨LoggedMem.load32_store32_self _ _ _, words_nil⟩
  have hbefore : Words cpu.mem (low + BitVec.ofNat 32 pad) ws := by
    rw [← hframeAt, ← hframe]
    exact h
  have hstored : Words (cpu.mem.store32 slot frame) (low + BitVec.ofNat 32 pad) ws := by
    rw [hslotAt]
    exact hbefore.store32 (by omega) (by omega)
  refine ⟨_, hexec, ?_, ?_⟩
  . have hpushed := Words.push (w := returnAddr) harg (by rw [List.length_singleton]; decide)
    exact hpushed 1 (Nat.lt_succ_self 1)
  . have hcalled := hstored.store32_base (w := returnAddr) (by omega) (by omega)
    rw [← hframeAt, ← hlow] at hcalled
    exact hcalled

theorem exec_restore (saved : Reg → Word) {ret : Cpu} (hslot : ret.mem.load32 (ret.reg .esp) = frame)
    (h : Words ret.mem frame ([.eax, .ebx, .ecx, .edx, .edi, .ebp, .esi, .esp].map saved ++ ws))
    : ∃ final, exec ret interruptWrapper.restore = some final
        ∧ final.mem = ret.mem
        ∧ (∀ r, r ≠ .esp → final.reg r = saved r)
        ∧ final.reg .esp = saved .esp + 8 := by
  generalize hrs : [Reg.eax, .ebx, .ecx, .edx, .edi, .ebp, .esi] = rs
  have hcode : interruptWrapper.restore = .popl .esp :: (rs.map .popl ++ [.popl .esp, .addl 8 .esp]) := by
    rw [← hrs]
    rfl
  generalize hstart : (ret.set .esp (ret.reg .esp + 4)).set .esp (ret.mem.load32 (ret.reg .esp)) = start
  have hesp : start.reg .esp = frame := by
    rw [← hstart, ← hslot, Cpu.reg_set_self]
  have hmem : start.mem = ret.mem := by
    rw [← hstart, Cpu.mem_set, Cpu.mem_set]
  have htop : StackTop start (rs.map saved ++ saved .esp :: ws) := by
    unfold StackTop
    rw [hesp, hmem, ← hrs]
    exact h
  obtain ⟨popped, hexec, hmem', hpopped, -, -, htop'⟩ := exec_pops rs (by rw [← hrs]; decide) saved htop
  have hlast : popped.mem.load32 (popped.reg .esp) = saved .esp := (words_cons.mp htop').left
  have hlastTwo : exec popped [.popl .esp, .addl 8 .esp]
      = some (((popped.set .esp (popped.reg .esp + 4)).set .esp (saved .esp)).set .esp (saved .esp + 8)) := by
    rw [exec, Instr.exec, Option.bind_some, exec, Instr.exec, Option.bind_some, Cpu.reg_set_self, hlast]
    rfl
  refine ⟨((popped.set .esp (popped.reg .esp + 4)).set .esp (saved .esp)).set .esp (saved .esp + 8), ?_, ?_, ?_, ?_⟩
  . rw [hcode, exec, Instr.exec, Option.bind_some, hstart, exec_append, hexec, Option.bind_some, hlastTwo]
  . rw [Cpu.mem_set, Cpu.mem_set, Cpu.mem_set, hmem', hmem]
  . intro r hr
    have hin : r ∈ rs := by
      rw [← hrs]
      cases r with
      | esp => exact absurd rfl hr
      | _ => decide
    rw [Cpu.reg_set_of_ne _ hr, Cpu.reg_set_of_ne _ hr, Cpu.reg_set_of_ne _ hr, hpopped r hin]
  . rw [Cpu.reg_set_self]

end Steps

section Transparent

theorem isrTemplates_noErrorCode : ∀ t ∈ isrTemplates, t.noErrorCode = !pushesErrorCode t.vector := by
  decide

/--
The stub and the first half of `interrupt_wrapper`: how `intr_handler` is entered.
-/
theorem exec_code {t : IsrTemplate} (ht : t ∈ isrTemplates) {cpu : Cpu} {pushed : CpuPushed}
    (hpushed : StackTop cpu pushed.words) (herr : pushed.errCode.isSome = pushesErrorCode t.vector)
    (returnAddr : Word)
    : ∃ entry : Cpu,
        (∀ intrHandler, exec cpu (t.code intrHandler returnAddr)
          = (intrHandler entry).bind (exec · interruptWrapper.restore))
        ∧ paramOf entry = pushed.eipAddr cpu - 40
        ∧ Words entry.mem (paramOf entry) ((savedFor t cpu pushed).words ++ pushed.outer) := by
  have houter := pushed.length_outer_le
  have hno : pushed.errCode.isSome = !t.noErrorCode := by
    rw [herr, isrTemplates_noErrorCode t ht, Bool.not_not]
  obtain ⟨cpu₁, hstub, hkept₁, hesp₁, htop₁⟩ := exec_stub t hpushed hno
  obtain ⟨cpu₂, hsave, hkept₂, hesp₂, htop₂⟩ := exec_save htop₁ (by simp only [List.length_cons]; omega)
  obtain ⟨cpu₃, harg, hparam, hframe⟩ := exec_passArg htop₂
    (by simp only [List.length_append, List.length_map, List.length_cons, List.length_nil]; omega) returnAddr
  refine ⟨cpu₃.push returnAddr, ?_, ?_, ?_⟩
  . intro intrHandler
    unfold IsrTemplate.code interruptWrapper
    rw [exec_append, hstub, Option.bind_some, exec_append, exec_append, hsave, Option.bind_some, harg,
      Option.bind_some]
    rfl
  . rw [hparam, hesp₂, hesp₁, BitVec.sub_sub]
    exact congrArg (pushed.eipAddr cpu - ·) (by decide)
  . rw [hparam]
    have hregs : [Reg.eax, .ebx, .ecx, .edx, .edi, .ebp, .esi, .esp].map cpu₁.reg
        = (savedFor t cpu pushed).registers.words := by
      unfold savedFor GpRegs.words
      simp only [List.map_cons, List.map_nil]
      rw [hkept₁ .eax (by decide), hkept₁ .ebx (by decide), hkept₁ .ecx (by decide), hkept₁ .edx (by decide),
        hkept₁ .edi (by decide), hkept₁ .ebp (by decide), hkept₁ .esi (by decide), hesp₁]
    rw [hregs] at hframe
    unfold SavedParam.words
    rw [List.append_assoc]
    exact hframe

/--
The words of the processor are the end of the saved frame.
-/
theorem savedFor_pushed (t : IsrTemplate) (cpu : Cpu) {pushed : CpuPushed} {m : LoggedMem}
    (h : Words m (pushed.eipAddr cpu - 40) ((savedFor t cpu pushed).words ++ pushed.outer))
    : Words m (cpu.reg .esp) pushed.words := by
  unfold CpuPushed.eipAddr savedFor at h
  unfold CpuPushed.words
  generalize hregs : GpRegs.mk .. = registers at h
  cases hcode : pushed.errCode with
  | none =>
    rw [hcode] at h
    have hdrop := @Words.drop _ _ (registers.words ++ [t.vector.setWidth 32, 0]) _ h
    have haddr : cpu.reg .esp + 0 - 40 + 40 = cpu.reg .esp := by bv_omega
    exact haddr ▸ hdrop
  | some code =>
    rw [hcode] at h
    have hdrop := @Words.drop _ _ (registers.words ++ [t.vector.setWidth 32]) _ h
    have haddr : cpu.reg .esp + 4 - 40 + 36 = cpu.reg .esp := by bv_omega
    exact haddr ▸ hdrop

/--
The handler finds the registers and the words that the processor has pushed in the fields of its argument, and
when it has returned the registers and the stack are those of the interrupted code again.
-/
theorem interrupt_transparent {t : IsrTemplate} (ht : t ∈ isrTemplates) {cpu : Cpu} {pushed : CpuPushed}
    (hpushed : StackTop cpu pushed.words) (herr : pushed.errCode.isSome = pushesErrorCode t.vector)
    (returnAddr : Word)
    : ∃ entry : Cpu,
        (∀ intrHandler, exec cpu (t.code intrHandler returnAddr)
          = (intrHandler entry).bind (exec · interruptWrapper.restore))
        ∧ (∀ m, FrameSame pushed entry m → SavedParam.read m (paramOf entry) = savedFor t cpu pushed)
        ∧ ∀ intrHandler ret, intrHandler entry = some ret → ReturnedKeeping pushed entry ret →
            ∃ final, exec cpu (t.code intrHandler returnAddr) = some final
              ∧ (∀ r, r ≠ .esp → final.reg r = cpu.reg r)
              ∧ final.reg .esp = pushed.eipAddr cpu
              ∧ Words final.mem (cpu.reg .esp) pushed.words := by
  have houter := pushed.length_outer_le
  obtain ⟨entry, hcode, hparam, hframe⟩ := exec_code ht hpushed herr returnAddr
  have hlen : ((savedFor t cpu pushed).words ++ pushed.outer).length = 13 + pushed.outer.length :=
    List.length_append
  have hsame : ∀ m, FrameSame pushed entry m →
      Words m (paramOf entry) ((savedFor t cpu pushed).words ++ pushed.outer) := by
    intro m hm
    apply hframe.congr
    . omega
    . rw [hlen]
      exact hm
  refine ⟨entry, hcode, fun m hm => SavedParam.read_eq (hsame m hm), ?_⟩
  intro intrHandler ret hret hkeep
  have hslot : ret.mem.load32 (ret.reg .esp) = paramOf entry := by
    rw [hkeep.esp]
    exact LoggedMem.load32_congr _ hkeep.slot
  obtain ⟨final, hrestore, hmem, hregs, hesp⟩ :=
    exec_restore (Function.update cpu.reg .esp (pushed.eipAddr cpu - 8)) hslot (hsame ret.mem hkeep.frame)
  refine ⟨final, ?_, ?_, ?_, ?_⟩
  . rw [hcode, hret, Option.bind_some, hrestore]
  . intro r hr
    rw [hregs r hr, Function.update_of_ne hr]
  . rw [hesp, Function.update_self]
    exact BitVec.sub_add_cancel _ 8
  . rw [hmem]
    apply savedFor_pushed t cpu
    rw [← hparam]
    exact hsame ret.mem hkeep.frame

/--
A page fault at a stack that is not aligned, and a handler that does nothing.
-/
theorem interrupt_transparent_unaligned
    : ∃ final, exec ⟨fun _ => 0x1003, ⟨fun _ => 0, []⟩⟩
          (IsrTemplate.code ⟨faultPageFault, false⟩ (fun entry => some (entry.set .esp (entry.reg .esp + 4))) 0)
          = some final
        ∧ (∀ r, r ≠ .esp → final.reg r = 0x1003)
        ∧ final.reg .esp = 0x1007
        ∧ Words final.mem 0x1003 [0, 0, 0, 0] := by
  have hpushed : Words ⟨fun _ => 0, []⟩ 0x1003 [0, 0, 0, 0] :=
    words_cons.mpr ⟨rfl, words_cons.mpr ⟨rfl, words_cons.mpr ⟨rfl, words_cons.mpr ⟨rfl, words_nil⟩⟩⟩⟩
  obtain ⟨entry, -, -, hreturns⟩ := @interrupt_transparent ⟨faultPageFault, false⟩ (by decide)
    ⟨fun _ => 0x1003, ⟨fun _ => 0, []⟩⟩ ⟨some 0, 0, 0, 0, none⟩ hpushed rfl 0
  exact hreturns (fun entry => some (entry.set .esp (entry.reg .esp + 4))) _ rfl
    ⟨Cpu.reg_set_self _ _ _, fun _ _ => rfl, fun _ _ => rfl⟩

end Transparent

end AwaOS
