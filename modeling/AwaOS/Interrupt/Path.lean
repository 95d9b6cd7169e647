import AwaOS.Descriptor.Init
import AwaOS.Interrupt.Dispatch

/-!
The whole way of an interrupt. The processor enters the gate, the stub calls `intr_handler`, and `iret` goes back to
the code that was interrupted, which finds its registers, its flags and its memory again.
-/

namespace AwaOS

open X86

section Impl

/--
The processor between two instructions.
-/
structure Processor where
  cpu : Cpu
  eip : Word
  cs : BitVec 16
  eflags : Word

/--
The flags TF, IF, NT, RF and VM, which are clear behind an interrupt gate.
-/
def gateFlags : Word := 0x34300

namespace Processor

/--
What the processor pushes without a change of its privilege level.
-/
def pushed (p : Processor) (errCode : Option Word) : CpuPushed where
  errCode := errCode
  eip := p.eip
  cs := p.cs.setWidth 32
  eflags := p.eflags
  espSs := none

/--
The privilege level stays 0, since there is no task state segment with a stack for another one. `none` stands for a
fault of the processor.
-/
def enter (idt : Idt) (gdt : Gdt) (vector : BitVec 8) (errCode : Option Word) (p : Processor) : Option Processor :=
  let gate := idt.gate vector
  match gdt.segment gate.selector with
  | none => none
  | some segment =>
    if gate.present = 1 ∧ gate.storage = 0 ∧ gate.type = 0xE ∧ segment.flags.present = 1
      ∧ segment.flags.codeData = 1
        ∧ segment.flags.type.getLsbD 3 = true ∧ segment.flags.dpl = 0 ∧ p.cs.extractLsb' 0 2 = 0
        ∧ gate.offset.toNat < segment.size then
      some
        {
          cpu := (p.pushed errCode).words.reverse.foldl Cpu.push p.cpu
          eip := gate.offset
          cs := gate.selector
          eflags := p.eflags &&& ~~~gateFlags
        }
    else
      none

/--
From the interrupt to the first instruction of `intr_handler`. `stubAt` says which stub is at a linear address.
-/
def arrive (idt : Idt) (gdt : Gdt) (stubAt : Word → Option IsrTemplate) (returnAddr : Word) (vector : BitVec 8)
    (errCode : Option Word) (p : Processor) : Option Cpu := do
  let entered ← p.enter idt gdt vector errCode
  let segment ← gdt.segment entered.cs
  let t ← stubAt (segment.base + entered.eip)
  let cpu ← exec entered.cpu (t.stub ++ interruptWrapper.save ++ interruptWrapper.passArg)
  some (cpu.push returnAddr)

/--
`iret` without a change of the privilege level.
-/
def iret (cpu : Cpu) : Processor where
  cpu := cpu.set .esp (cpu.reg .esp + 12)
  eip := cpu.mem.load32 (cpu.reg .esp)
  cs := (cpu.mem.load32 (cpu.reg .esp + 4)).setWidth 16
  eflags := cpu.mem.load32 (cpu.reg .esp + 8)

/--
From the return of `intr_handler` to the code that was interrupted.
-/
def leave (ret : Cpu) : Option Processor :=
  (exec ret interruptWrapper.restore).map iret

end Processor

/--
What a compiled `intr_handler` does from its first instruction on until it has returned: what can be seen of it,
the variables of `interrupts.c` and the processor afterwards.
-/
abbrev CompiledHandler :=
  IntrState → Cpu → Option (List IntrEvent × IntrState × Cpu)

/--
An interrupt with its error code.
-/
structure Arrival where
  t : IsrTemplate
  known : t ∈ isrTemplates
  errCode : Option Word
  errCode_iff : errCode.isSome = pushesErrorCode t.vector

/--
Where the tables and the stubs are.
-/
structure Tables where
  idt : Idt
  gdt : Gdt
  stubAt : Word → Option IsrTemplate
  returnAddr : Word

def Tables.interrupt (tables : Tables) (callee : CompiledHandler) (st : IntrState) (p : Processor) (a : Arrival)
    : Option (List IntrEvent × IntrState × Processor) := do
  let entry ← p.arrive tables.idt tables.gdt tables.stubAt tables.returnAddr a.t.vector a.errCode
  let (events, st, ret) ← callee st entry
  let p ← Processor.leave ret
  some (events, st, p)

/--
One interrupt after the other.
-/
def Tables.interrupts (tables : Tables) (callee : CompiledHandler) (st : IntrState) (p : Processor)
    : List Arrival → Option (List IntrEvent × IntrState × Processor)
  | [] => some ([], st, p)
  | a :: arrivals => do
    let (events, st, p) ← tables.interrupt callee st p a
    let (rest, st, p) ← tables.interrupts callee st p arrivals
    some (events ++ rest, st, p)

end Impl

section Spec

/--
What `intr_handler` reads of its argument.
-/
def argOf (entry : Cpu) : IsrParam :=
  let saved := SavedParam.read entry.mem (paramOf entry)
  {
    addr := paramOf entry
    edi := saved.registers.edi
    vector := saved.vector
    errCode := saved.errCode
    eip := saved.eip
    cs := saved.cs
  }

/--
Where the function returns, its code returns too. It leaves the stack of its caller alone, and besides the bytes of
`own` it writes to at most `depth` bytes of the stack.
-/
structure CompiledHandler.Compiles (callee : CompiledHandler) (env : IntrEnv) (own : Word → Prop) (depth : Nat)
    : Prop where
  returns : ∀ st entry st', (intrHandler env st (argOf entry)).outcome = .returned st' →
    ∃ ret, callee st entry = some ((intrHandler env st (argOf entry)).events, st', ret)
      ∧ ret.reg .esp = entry.reg .esp + 4
      ∧ ∀ b, ¬own b → ¬offsetFrom (entry.reg .esp - BitVec.ofNat 32 depth) b < depth →
          ret.mem.byte b = entry.mem.byte b

/--
The argument of `intr_handler`.
-/
def Processor.param (p : Processor) (a : Arrival) : IsrParam where
  addr := p.cpu.reg .esp - 52
  edi := p.cpu.reg .edi
  vector := a.t.vector.setWidth 32
  errCode := a.errCode.getD 0
  eip := p.eip
  cs := p.cs.setWidth 32

/--
The interrupted code goes on as if nothing had happened: only bytes of `own` and bytes below its stack can differ.
-/
structure Resumed (own : Word → Prop) (depth : Nat) (p p' : Processor) : Prop where
  reg : ∀ r, p'.cpu.reg r = p.cpu.reg r
  eip : p'.eip = p.eip
  cs : p'.cs = p.cs
  eflags : p'.eflags = p.eflags
  byte : ∀ b, ¬own b → ¬offsetFrom (p.cpu.reg .esp - BitVec.ofNat 32 (depth + 88)) b < depth + 88 →
    p'.cpu.mem.byte b = p.cpu.mem.byte b

/--
`intr_handler` for one argument after the other, as long as it returns.
-/
def serve (env : IntrEnv) (st : IntrState) : List IsrParam → Option (List IntrEvent × IntrState)
  | [] => some ([], st)
  | param :: params =>
    match (intrHandler env st param).outcome with
    | .returned st' => (serve env st' params).map fun rest => ((intrHandler env st param).events ++ rest.1, rest.2)
    | _ => none

/--
`apic_done_servicing` is due for this argument.
-/
def dueEoi (param : IsrParam) : Bool :=
  exInterruptBegin ≤ param.vector ∧ param.vector ≠ apicSpivIv.setWidth 32

/--
The tables that `_init_idt` and `_init_gdt` leave, with the stubs where `_init_idt` takes them from.
-/
structure Tables.Initialized (tables : Tables) (asmIsr : BitVec 8 → Word) : Prop where
  idt : ∃ idt, initIdt asmIsr idt = some tables.idt
  gdt : ∃ gdt, initGdt gdt = some tables.gdt
  stub : ∀ t ∈ isrTemplates, tables.stubAt (asmIsr t.vector) = some t

end Spec

section Arrive

variable {tables : Tables} {asmIsr : BitVec 8 → Word} {p : Processor}

theorem Tables.Initialized.gate (h : tables.Initialized asmIsr) {t : IsrTemplate} (ht : t ∈ isrTemplates)
    : tables.idt.gate t.vector = .interrupt32 (asmIsr t.vector) 0x08 0 := by
  obtain ⟨idt, hidt⟩ := h.idt
  have hgates := gate_foldl_setVector asmIsr idt initIdt.vectors t.vector
  rw [← Option.some.inj ((initIdt_eq asmIsr idt).symm.trans hidt), hgates, if_pos]
  rw [mem_initIdt_vectors]
  exact List.mem_map_of_mem ht

theorem Tables.Initialized.segment (h : tables.Initialized asmIsr)
    : tables.gdt.segment 0x08 = some (.flat (segCodeExrd.setWidth 4) 0) := by
  obtain ⟨gdt, hgdt⟩ := h.gdt
  rw [← Option.some.inj ((initGdt_eq gdt).symm.trans hgdt)]
  decide

/--
The processor as it is at the first instruction of a stub.
-/
def Processor.entered (p : Processor) (offset : Word) (errCode : Option Word) : Processor where
  cpu := (p.pushed errCode).words.reverse.foldl Cpu.push p.cpu
  eip := offset
  cs := 0x08
  eflags := p.eflags &&& ~~~gateFlags

theorem Processor.enter_eq {idt : Idt} {gdt : Gdt} {vector : BitVec 8} {offset : Word}
    (hgate : idt.gate vector = .interrupt32 offset 0x08 0)
    (hsegment : gdt.segment 0x08 = some (.flat (segCodeExrd.setWidth 4) 0)) (hring : p.cs.extractLsb' 0 2 = 0)
    (errCode : Option Word)
    : p.enter idt gdt vector errCode = some (p.entered offset errCode) := by
  have hselector : (GateDescriptor.interrupt32 offset 0x08 0).selector = 0x08 := rfl
  have hoffset : offset.toNat < (SegmentDescriptor.flat (segCodeExrd.setWidth 4) 0).size := by
    rw [size_flat]
    exact offset.isLt
  unfold enter
  rw [hgate]
  dsimp only
  rw [hselector, hsegment]
  dsimp only
  rw [if_pos ⟨rfl, rfl, rfl, rfl, rfl, by decide, rfl, hring, hoffset⟩]
  rfl

theorem arrive_eq (h : tables.Initialized asmIsr) (hring : p.cs.extractLsb' 0 2 = 0) (a : Arrival)
    : p.arrive tables.idt tables.gdt tables.stubAt tables.returnAddr a.t.vector a.errCode
        =
      (exec (p.entered (asmIsr a.t.vector) a.errCode).cpu
        (a.t.stub ++ interruptWrapper.save ++ interruptWrapper.passArg)).map (·.push tables.returnAddr) := by
  have hbase : (SegmentDescriptor.flat (segCodeExrd.setWidth 4) 0).base + asmIsr a.t.vector = asmIsr a.t.vector :=
    BitVec.zero_add _
  unfold Processor.arrive
  rw [Processor.enter_eq (h.gate a.known) h.segment hring, Option.bind_eq_bind, Option.bind_some]
  rw [show tables.gdt.segment (p.entered (asmIsr a.t.vector) a.errCode).cs = _ from h.segment, Option.bind_eq_bind,
    Option.bind_some]
  rw [show (p.entered (asmIsr a.t.vector) a.errCode).eip = asmIsr a.t.vector from rfl, hbase, h.stub a.t a.known,
    Option.bind_eq_bind, Option.bind_some]
  cases exec (p.entered (asmIsr a.t.vector) a.errCode).cpu
      (a.t.stub ++ interruptWrapper.save ++ interruptWrapper.passArg) with
  | none => rfl
  | some cpu => rfl

/--
`intr_handler` is entered in one state only.
-/
theorem entry_unique {cpu entry entry' : Cpu} {t : IsrTemplate} {returnAddr : Word}
    (h : ∀ callee, exec cpu (t.code callee returnAddr) = (callee entry).bind (exec · interruptWrapper.restore))
    (h' : ∀ callee, exec cpu (t.code callee returnAddr) = (callee entry').bind (exec · interruptWrapper.restore))
    : entry' = entry := by
  classical
  have hsame := (h fun cpu => if cpu = entry then some cpu else none).symm.trans (h' _)
  rw [if_pos rfl] at hsame
  by_cases heq : entry' = entry
  . exact heq
  . rw [if_neg heq] at hsame
    contradiction

theorem isPush_stub (t : IsrTemplate) : ∀ i ∈ t.stub ++ interruptWrapper.save, i.IsPush := by
  intro i hi
  unfold IsrTemplate.stub interruptWrapper.save at hi
  split at hi
  all_goals
    simp only [List.cons_append, List.nil_append, List.mem_cons, List.not_mem_nil, or_false] at hi
    rcases hi with rfl | rfl | rfl | rfl | rfl | rfl | rfl | rfl | rfl | rfl
    all_goals exact fun cpu => ⟨_, rfl⟩

theorem length_stub (t : IsrTemplate) (errCode : Option Word) (herr : errCode.isSome = !t.noErrorCode)
    : 4 * (t.stub ++ interruptWrapper.save).length + 4 * errCode.toList.length = 40 := by
  unfold IsrTemplate.stub
  cases errCode with
  | none =>
    rw [Option.isSome_none, eq_comm, Bool.not_eq_false'] at herr
    rw [herr]
    rfl
  | some code =>
    rw [Option.isSome_some, eq_comm, Bool.not_eq_true'] at herr
    rw [herr]
    rfl

/--
The state in which `intr_handler` is entered, `j` bytes above the lowest address `low` that can have been written.
-/
structure Entered (p : Processor) (a : Arrival) (low : Word) (j : Nat) (entry : Cpu) : Prop where
  j_le : j ≤ 16
  esp : entry.reg .esp = low + BitVec.ofNat 32 j
  param : paramOf entry = low + BitVec.ofNat 32 36
  frame : ∃ cpu, Words entry.mem (low + BitVec.ofNat 32 36) (savedFor a.t cpu (p.pushed a.errCode)).words
    ∧ (∀ r, r ≠ .esp → cpu.reg r = p.cpu.reg r)
    ∧ (p.pushed a.errCode).eipAddr cpu = low + BitVec.ofNat 32 76
  mem : LoggedMem.SameOutside p.cpu.mem entry.mem low 88

/--
The slot of the argument, in bytes from `low`: `%esp` is rounded down to a multiple of 16.
-/
theorem slot_eq (low : Word) (k : Nat) (hk : 36 ≤ k)
    : (low + BitVec.ofNat 32 k &&& 0xfffffff0) - 16
        =
      low + BitVec.ofNat 32 (k - 16 - (low + BitVec.ofNat 32 k).toNat % 16) := by
  have halign := Align.and_highMask_add (low + BitVec.ofNat 32 k) 4
  generalize hframe : low + BitVec.ofNat 32 k = frame at *
  have hmod : frame.toNat % 2 ^ 4 < 16 := Nat.mod_lt _ (by decide)
  have hsplit : BitVec.ofNat 32 k = BitVec.ofNat 32 (k - 16 - frame.toNat % 2 ^ 4) + BitVec.ofNat 32 16
      + BitVec.ofNat 32 (frame.toNat % 2 ^ 4) := by
    rw [← BitVec.ofNat_add, ← BitVec.ofNat_add]
    congr 1
    omega
  rw [hsplit, ← BitVec.add_assoc, ← BitVec.add_assoc] at hframe
  have hrounded := hframe.trans halign.symm
  rw [BitVec.add_left_inj] at hrounded
  change low + BitVec.ofNat 32
    (k - 16 - frame.toNat % 2 ^ 4) + BitVec.ofNat 32 16 = frame &&& 0xfffffff0 at hrounded
  rw [← hrounded]
  exact BitVec.add_sub_cancel _ _

theorem exec_passArg_slot (cpu : Cpu)
    : ∃ cpu', exec cpu interruptWrapper.passArg = some cpu'
        ∧ cpu'.reg .esp = (cpu.reg .esp &&& 0xfffffff0) - 16
        ∧ cpu'.mem = cpu.mem.store32 ((cpu.reg .esp &&& 0xfffffff0) - 16) (cpu.reg .esp) := by
  generalize hframe : cpu.reg .esp = frame
  generalize hslot : (frame &&& 0xfffffff0) - 16 = slot
  have hexec : exec cpu interruptWrapper.passArg
      = some
        { (((cpu.set .eax frame).set .esp (frame &&& 0xfffffff0)).set .esp slot) with
          mem := cpu.mem.store32 slot frame } := by
    rw [← hslot, ← hframe]
    rfl
  exact ⟨_, hexec, Cpu.reg_set_self ((cpu.set .eax frame).set .esp (frame &&& 0xfffffff0)) .esp slot, rfl⟩

/--
The processor pushes 12 bytes, and 4 more where there is an error code.
-/
theorem Processor.entered_below (p : Processor) (offset : Word) (errCode : Option Word) {low : Word}
    (hlow : p.cpu.reg .esp = low + BitVec.ofNat 32 88)
    : (p.entered offset errCode).cpu.reg .esp = low + BitVec.ofNat 32 (76 - 4 * errCode.toList.length)
        ∧ LoggedMem.SameOutside p.cpu.mem (p.entered offset errCode).cpu.mem low 88 := by
  have hcode : errCode.toList.length ≤ 1 := Option.length_toList_le
  have hlen : (p.pushed errCode).words.reverse.length = errCode.toList.length + 3 := by
    rw [List.length_reverse]
    exact List.length_append
  have hpushes : ∀ i ∈ (p.pushed errCode).words.reverse.map Instr.pushImm, i.IsPush := by
    intro i hi
    obtain ⟨u, _, hu⟩ := List.mem_map.mp hi
    rw [← hu]
    exact fun cpu => ⟨u, rfl⟩
  have hsum : 76 - 4 * errCode.toList.length + 4 * ((p.pushed errCode).words.reverse.map Instr.pushImm).length
      = 88 := by
    rw [List.length_map, hlen]
    omega
  obtain ⟨cpu, hexec, hesp, hsame⟩ := exec_pushes_below _ hpushes (by rw [hsum]; exact hlow)
    (Nat.le_of_eq hsum) (by decide)
  rw [exec_pushImms] at hexec
  cases hexec
  exact ⟨hesp, hsame⟩

/--
The argument, the padding above it and the return address take at most 36 bytes.
-/
theorem exec_passArg_below {cpu : Cpu} {low : Word} (hesp : cpu.reg .esp = low + BitVec.ofNat 32 36)
    (returnAddr : Word)
    : ∃ cpu' j, exec cpu interruptWrapper.passArg = some cpu'
        ∧ j ≤ 16
        ∧ (cpu'.push returnAddr).reg .esp = low + BitVec.ofNat 32 j
        ∧ LoggedMem.SameOutside cpu.mem (cpu'.push returnAddr).mem low 88 := by
  generalize hj : 16 - (low + BitVec.ofNat 32 36).toNat % 16 = j
  have hmod : (low + BitVec.ofNat 32 36).toNat % 16 < 16 := Nat.mod_lt _ (by decide)
  have hslot : (cpu.reg .esp &&& 0xfffffff0) - 16 = low + BitVec.ofNat 32 (j + 4) := by
    rw [hesp, slot_eq low 36 (Nat.le_refl 36)]
    congr 2
    omega
  obtain ⟨cpu', hexec, hesp', hmem⟩ := exec_passArg_slot cpu
  rw [hslot] at hesp'
  have hstore : LoggedMem.SameOutside cpu.mem cpu'.mem low 88 := by
    rw [hmem, hslot]
    apply LoggedMem.SameOutside.widen (LoggedMem.sameOutside_store32 _ _ _)
    intro c hc
    rw [offsetFrom_add_lt_iff low c (by omega)] at hc
    omega
  obtain ⟨hbelow, hpush⟩ := push_below cpu' returnAddr hesp' (show j + 4 ≤ 88 by omega) (by decide)
  exact ⟨cpu', j, hexec, by omega, hbelow, hstore.trans hpush⟩

theorem stackTop_entered (p : Processor) (offset : Word) (errCode : Option Word)
    : StackTop (p.entered offset errCode).cpu (p.pushed errCode).words := by
  have hcode : errCode.toList.length ≤ 1 := Option.length_toList_le
  have hlen : (p.pushed errCode).words.length = errCode.toList.length + 3 := List.length_append
  have hall := StackTop.pushes (@words_nil p.cpu.mem (p.cpu.reg .esp)) (p.pushed errCode).words.reverse (by
    rw [List.length_reverse, hlen, List.length_nil]
    omega)
  rw [List.reverse_reverse, List.append_nil] at hall
  exact hall

theorem arrive_entered (h : tables.Initialized asmIsr) (hring : p.cs.extractLsb' 0 2 = 0) (a : Arrival) {low : Word}
    (hlow : p.cpu.reg .esp = low + BitVec.ofNat 32 88)
    : ∃ entry j, p.arrive tables.idt tables.gdt tables.stubAt tables.returnAddr a.t.vector a.errCode = some entry
        ∧ Entered p a low j entry := by
  have herr : a.errCode.isSome = !a.t.noErrorCode := by
    rw [a.errCode_iff, isrTemplates_noErrorCode a.t a.known, Bool.not_not]
  have hcode : a.errCode.toList.length ≤ 1 := Option.length_toList_le
  have hprogram := length_stub a.t a.errCode herr
  have hrest : 36 + 4 * (a.t.stub ++ interruptWrapper.save).length = 76 - 4 * a.errCode.toList.length := by omega
  obtain ⟨hesp₁, hsame₁⟩ := p.entered_below (asmIsr a.t.vector) a.errCode hlow
  have htop := stackTop_entered p (asmIsr a.t.vector) a.errCode
  have hreg : ∀ r, r ≠ .esp → (p.entered (asmIsr a.t.vector) a.errCode).cpu.reg r = p.cpu.reg r :=
    fun r hr => reg_pushes _ _ hr
  have harrive := arrive_eq h hring a
  generalize (p.entered (asmIsr a.t.vector) a.errCode).cpu = cpu at *
  obtain ⟨cpu₂, hexec₂, hesp₂, hsame₂⟩ := @exec_pushes_below cpu low 36 88 (a.t.stub ++ interruptWrapper.save)
    (isPush_stub a.t) (by rw [hrest]; exact hesp₁) (by omega) (by decide)
  obtain ⟨cpu₃, j, hexec₃, hj, hesp₃, hsame₃⟩ := exec_passArg_below hesp₂ tables.returnAddr
  have hdirect : ∀ callee, exec cpu (a.t.code callee tables.returnAddr)
      = (callee (cpu₃.push tables.returnAddr)).bind (exec · interruptWrapper.restore) := by
    intro callee
    unfold IsrTemplate.code interruptWrapper
    rw [← List.append_assoc, ← List.append_assoc, exec_append, exec_append, hexec₂, Option.bind_some, hexec₃,
      Option.bind_some, exec, Instr.exec]
  -- the frame is the one that the code of the stub leaves for any callee
  obtain ⟨entry, hcode, hparam, hframe⟩ := exec_code a.known htop a.errCode_iff tables.returnAddr
  have hentry := entry_unique hcode hdirect
  have heip : (p.pushed a.errCode).eipAddr cpu = low + BitVec.ofNat 32 76 := by
    unfold CpuPushed.eipAddr
    rw [hesp₁, BitVec.add_assoc, ← BitVec.ofNat_add]
    congr 2
    exact Nat.sub_add_cancel (by omega)
  have hparam' : paramOf entry = low + BitVec.ofNat 32 36 := by
    have hsplit : BitVec.ofNat 32 76 = BitVec.ofNat 32 36 + (40 : Word) := rfl
    rw [hparam, heip, hsplit, ← BitVec.add_assoc]
    exact BitVec.add_sub_cancel _ _
  rw [hparam'] at hframe
  rw [hentry] at hesp₃ hsame₃
  refine ⟨entry, j, ?_, ?_⟩
  . rw [harrive, exec_append, hexec₂, Option.bind_some, hexec₃, ← hentry]
    rfl
  . constructor
    . exact hj
    . exact hesp₃
    . exact hparam'
    . refine ⟨cpu, ?_, hreg, heip⟩
      have houter : (p.pushed a.errCode).outer = [] := rfl
      rw [houter, List.append_nil] at hframe
      exact hframe
    . exact hsame₁.trans (hsame₂.trans hsame₃)

end Arrive

section Leave

variable {own : Word → Prop} {depth : Nat} {p p' : Processor} {a : Arrival} {low : Word} {j : Nat} {entry : Cpu}

theorem Entered.argOf_eq (h : Entered p a low j entry) (hlow : p.cpu.reg .esp = low + BitVec.ofNat 32 88)
    : argOf entry = p.param a := by
  obtain ⟨cpu, hframe, hreg, _⟩ := h.frame
  have hread : SavedParam.read entry.mem (paramOf entry) = savedFor a.t cpu (p.pushed a.errCode) := by
    rw [h.param]
    apply @SavedParam.read_eq _ _ []
    rw [List.append_nil]
    exact hframe
  have haddr : paramOf entry = p.cpu.reg .esp - 52 := by
    have hsplit : BitVec.ofNat 32 88 = BitVec.ofNat 32 36 + (52 : Word) := rfl
    rw [h.param, hlow, hsplit, ← BitVec.add_assoc]
    exact (BitVec.add_sub_cancel _ _).symm
  have hedi : cpu.reg .edi = p.cpu.reg .edi := hreg .edi (by decide)
  unfold argOf Processor.param
  rw [hread, haddr, ← hedi]
  rfl

/--
The lowest byte of the stack of the function.
-/
theorem Entered.stack (h : Entered p a low j entry) {base : Word} (hlow : low = base + BitVec.ofNat 32 depth)
    : entry.reg .esp - BitVec.ofNat 32 depth = base + BitVec.ofNat 32 j := by
  rw [h.esp, hlow, BitVec.add_assoc, BitVec.add_comm (BitVec.ofNat 32 depth), ← BitVec.add_assoc]
  exact BitVec.add_sub_cancel _ _

/--
Neither the saved frame nor the slot of the argument is in what the function may change.
-/
theorem Entered.kept (h : Entered p a low j entry) (hdepth : depth + 88 ≤ 2 ^ 32)
    (hown : ∀ b, offsetFrom low b < 88 → ¬own b) {ret : Cpu}
    (hkept : ∀ b, ¬own b → ¬offsetFrom (entry.reg .esp - BitVec.ofNat 32 depth) b < depth →
      ret.mem.byte b = entry.mem.byte b) {b : Word} (hge : ¬offsetFrom low b < j) (hlt : offsetFrom low b < 88)
    : ret.mem.byte b = entry.mem.byte b := by
  generalize hbase : low - BitVec.ofNat 32 depth = base
  have hj := h.j_le
  have hlow : low = base + BitVec.ofNat 32 depth := by
    rw [← hbase]
    exact (BitVec.sub_add_cancel low _).symm
  apply hkept b (hown b hlt)
  rw [hlow, offsetFrom_add_lt_iff base b (by omega)] at hge hlt
  rw [h.stack hlow, offsetFrom_add_lt_iff base b (by omega)]
  omega

theorem Processor.iret_eq {cpu : Cpu} {eip eflags : Word} {cs : BitVec 16}
    (h : Words cpu.mem (cpu.reg .esp) [eip, cs.setWidth 32, eflags])
    : iret cpu = { cpu := cpu.set .esp (cpu.reg .esp + 12), eip := eip, cs := cs, eflags := eflags } := by
  obtain ⟨heip, h⟩ := words_cons.mp h
  obtain ⟨hcs, h⟩ := words_cons.mp h
  have heflags := (words_cons.mp h).left
  have haddr : cpu.reg .esp + 8 = cpu.reg .esp + 4 + 4 := (BitVec.add_assoc _ 4 4).symm
  unfold iret
  rw [heip, hcs, haddr, heflags, BitVec.setWidth_setWidth_of_le _ (by decide), BitVec.setWidth_eq]

/--
The wrapper finds the frame as it has saved it.
-/
theorem Entered.restore (h : Entered p a low j entry) (hdepth : depth + 88 ≤ 2 ^ 32)
    (hown : ∀ b, offsetFrom low b < 88 → ¬own b) {ret : Cpu} (hesp : ret.reg .esp = entry.reg .esp + 4)
    (hkept : ∀ b, ¬own b → ¬offsetFrom (entry.reg .esp - BitVec.ofNat 32 depth) b < depth →
      ret.mem.byte b = entry.mem.byte b)
    : ∃ final, exec ret interruptWrapper.restore = some final
        ∧ final.mem = ret.mem
        ∧ (∀ r, r ≠ .esp → final.reg r = p.cpu.reg r)
        ∧ final.reg .esp = low + BitVec.ofNat 32 76
        ∧ Words final.mem (final.reg .esp) [p.eip, p.cs.setWidth 32, p.eflags] := by
  have hj := h.j_le
  have hslot : ret.mem.load32 (ret.reg .esp) = low + BitVec.ofNat 32 36 := by
    have haddr : entry.reg .esp + 4 = low + BitVec.ofNat 32 (j + 4) := by
      rw [h.esp, BitVec.ofNat_add, ← BitVec.add_assoc]
      rfl
    rw [← h.param, hesp]
    apply LoggedMem.load32_congr
    intro b hb
    rw [haddr, offsetFrom_add_lt_iff low b (by omega)] at hb
    exact h.kept hdepth hown hkept (by omega) (by omega)
  obtain ⟨cpu, hframe, hreg, heip⟩ := h.frame
  have hwords : Words ret.mem (low + BitVec.ofNat 32 36) (savedFor a.t cpu (p.pushed a.errCode)).words := by
    have hlen : (savedFor a.t cpu (p.pushed a.errCode)).words.length = 13 := rfl
    apply hframe.congr
    . rw [hlen]
      decide
    . intro b hb
      rw [hlen, offsetFrom_add_lt_iff low b (by omega)] at hb
      exact h.kept hdepth hown hkept (by omega) (by omega)
  obtain ⟨final, hrestore, hmem, hregs, hfinal⟩ :=
    exec_restore (Function.update cpu.reg .esp (low + BitVec.ofNat 32 76 - 8)) hslot (by
      rw [← heip]
      exact hwords)
  rw [Function.update_self, BitVec.sub_add_cancel] at hfinal
  have htail : Words ret.mem (low + BitVec.ofNat 32 76) [p.eip, p.cs.setWidth 32, p.eflags] := by
    have hdrop := @Words.drop ret.mem (low + BitVec.ofNat 32 36)
      ((savedFor a.t cpu (p.pushed a.errCode)).registers.words ++ [a.t.vector.setWidth 32, a.errCode.getD 0])
      [p.eip, p.cs.setWidth 32, p.eflags] hwords
    have hsplit : BitVec.ofNat 32 76 = BitVec.ofNat 32 36 + BitVec.ofNat 32 (4 * 10) := rfl
    rw [hsplit, ← BitVec.add_assoc]
    exact hdrop
  refine ⟨final, hrestore, hmem, ?_, hfinal, ?_⟩
  . intro r hr
    rw [hregs r hr, Function.update_of_ne hr, hreg r hr]
  . rw [hfinal, hmem]
    exact htail

theorem Entered.leave (h : Entered p a low j entry) (hlow : p.cpu.reg .esp = low + BitVec.ofNat 32 88)
    (hdepth : depth + 88 ≤ 2 ^ 32) (hown : ∀ b, offsetFrom low b < 88 → ¬own b) {ret : Cpu}
    (hesp : ret.reg .esp = entry.reg .esp + 4)
    (hkept : ∀ b, ¬own b → ¬offsetFrom (entry.reg .esp - BitVec.ofNat 32 depth) b < depth →
      ret.mem.byte b = entry.mem.byte b)
    : ∃ p', Processor.leave ret = some p' ∧ Resumed own depth p p' := by
  generalize hbase : low - BitVec.ofNat 32 depth = base
  have hj := h.j_le
  have hlowBase : low = base + BitVec.ofNat 32 depth := by
    rw [← hbase]
    exact (BitVec.sub_add_cancel low _).symm
  obtain ⟨final, hrestore, hmem, hregs, hfinal, htail⟩ := h.restore hdepth hown hesp hkept
  have hleave : Processor.leave ret = some (Processor.iret final) := by
    unfold Processor.leave
    rw [hrestore]
    rfl
  rw [Processor.iret_eq htail] at hleave
  refine ⟨_, hleave, ?_, rfl, rfl, rfl, ?_⟩
  . intro r
    by_cases hr : r = .esp
    . have hsplit : BitVec.ofNat 32 88 = BitVec.ofNat 32 76 + (12 : Word) := rfl
      rw [hr, hlow, hsplit, ← BitVec.add_assoc, ← hfinal]
      exact Cpu.reg_set_self final .esp _
    . exact (Cpu.reg_set_of_ne final hr _).trans (hregs r hr)
  . intro b hnot hout
    have hbelow : p.cpu.reg .esp - BitVec.ofNat 32 (depth + 88) = base := by
      rw [hlow, hlowBase, BitVec.add_assoc, ← BitVec.ofNat_add]
      exact BitVec.add_sub_cancel _ _
    have hsame : (final.set .esp (final.reg .esp + 12)).mem.byte b = ret.mem.byte b := by
      rw [← hmem]
      rfl
    rw [hbelow] at hout
    rw [hsame, hkept b hnot, h.mem b]
    . rw [hlowBase, offsetFrom_add_lt_iff base b hdepth]
      omega
    . rw [h.stack hlowBase, offsetFrom_add_lt_iff base b (by omega)]
      omega

end Leave

section Resumed

variable {own : Word → Prop} {depth : Nat} {p p' p'' : Processor}

theorem Resumed.refl (p : Processor) : Resumed own depth p p where
  reg _ := rfl
  eip := rfl
  cs := rfl
  eflags := rfl
  byte _ _ _ := rfl

theorem Resumed.trans (h : Resumed own depth p p') (h' : Resumed own depth p' p'') : Resumed own depth p p'' where
  reg r := (h'.reg r).trans (h.reg r)
  eip := h'.eip.trans h.eip
  cs := h'.cs.trans h.cs
  eflags := h'.eflags.trans h.eflags
  byte := by
    intro b hnot hout
    rw [h'.byte b hnot, h.byte b hnot hout]
    rw [h.reg]
    exact hout

/--
Code that goes on as before is interrupted with the same arguments as before.
-/
theorem Resumed.param_eq (h : Resumed own depth p p') (a : Arrival) : p'.param a = p.param a := by
  unfold Processor.param
  rw [h.reg, h.reg, h.eip, h.cs]

end Resumed

section Eoi

theorem eoiWrites_intrHandler (env : IntrEnv) (st : IntrState) (param : IsrParam) {st' : IntrState}
    (hret : (intrHandler env st param).outcome = .returned st')
    : (intrHandler env st param).events.count .eoi = if dueEoi param = true then 1 else 0 := by
  have hdue : (if dueEoi param = true then 1 else 0)
      = if exInterruptBegin ≤ param.vector ∧ param.vector ≠ apicSpivIv.setWidth 32 then 1 else 0 := by
    apply if_congr
    . unfold dueEoi
      exact decide_eq_true_iff
    . rfl
    . rfl
  unfold intrHandler at *
  rw [outcome_done] at hret
  rw [hdue]
  apply eoiWrites_done param _ hret
  split
  . apply eoiWrites_call
  . split
    . apply eoiWrites_call
    . rfl

/--
Every external interrupt but the spurious one is acknowledged exactly once.
-/
theorem serve_eois {env : IntrEnv} {st st' : IntrState} {params : List IsrParam} {events : List IntrEvent}
    (h : serve env st params = some (events, st'))
    : events.count .eoi = params.countP dueEoi := by
  induction params generalizing st events with
  | nil =>
    cases h
    rfl
  | cons param params ih =>
    unfold serve at h
    cases hout : (intrHandler env st param).outcome with
    | returned st₁ =>
      rw [hout] at h
      obtain ⟨⟨rest, st₂⟩, hrest, heq⟩ := Option.map_eq_some_iff.mp h
      cases heq
      rw [List.count_append, List.countP_cons, ih hrest, eoiWrites_intrHandler env st param hout, Nat.add_comm]
    | spins st₁ =>
      rw [hout] at h
      contradiction
    | lost =>
      rw [hout] at h
      contradiction

end Eoi

section Run

variable {tables : Tables} {asmIsr : BitVec 8 → Word} {callee : CompiledHandler} {env : IntrEnv} {own : Word → Prop}
  {depth : Nat} {p : Processor}

theorem interrupt_resumed (h : tables.Initialized asmIsr) (hcallee : callee.Compiles env own depth)
    (hring : p.cs.extractLsb' 0 2 = 0) (hdepth : depth + 88 ≤ 2 ^ 32)
    (hown : ∀ b, offsetFrom (p.cpu.reg .esp - 88) b < 88 → ¬own b) (a : Arrival) {st st' : IntrState}
    (hret : (intrHandler env st (p.param a)).outcome = .returned st')
    : ∃ p', tables.interrupt callee st p a = some ((intrHandler env st (p.param a)).events, st', p')
        ∧ Resumed own depth p p' := by
  have hlow : p.cpu.reg .esp = p.cpu.reg .esp - 88 + BitVec.ofNat 32 88 := (BitVec.sub_add_cancel _ 88).symm
  obtain ⟨entry, j, harrive, hentered⟩ := arrive_entered h hring a hlow
  have harg := hentered.argOf_eq hlow
  rw [← harg] at hret
  obtain ⟨ret, hcall, hesp, hkept⟩ := hcallee.returns st entry st' hret
  obtain ⟨p', hleave, hresumed⟩ := hentered.leave hlow hdepth hown hesp hkept
  refine ⟨p', ?_, hresumed⟩
  unfold Tables.interrupt
  rw [harrive, Option.bind_eq_bind, Option.bind_some, hcall, Option.bind_eq_bind, Option.bind_some, harg]
  dsimp only
  rw [hleave]
  rfl

theorem interrupts_resumed (h : tables.Initialized asmIsr) (hcallee : callee.Compiles env own depth)
    (hring : p.cs.extractLsb' 0 2 = 0) (hdepth : depth + 88 ≤ 2 ^ 32)
    (hown : ∀ b, offsetFrom (p.cpu.reg .esp - 88) b < 88 → ¬own b) (arrivals : List Arrival) {st st' : IntrState}
    {events : List IntrEvent} (hserve : serve env st (arrivals.map p.param) = some (events, st'))
    : ∃ p', tables.interrupts callee st p arrivals = some (events, st', p') ∧ Resumed own depth p p' := by
  induction arrivals generalizing p st events with
  | nil =>
    cases hserve
    exact ⟨p, rfl, Resumed.refl p⟩
  | cons a arrivals ih =>
    rw [List.map_cons] at hserve
    unfold serve at hserve
    cases hout : (intrHandler env st (p.param a)).outcome with
    | returned st₁ =>
      rw [hout] at hserve
      obtain ⟨⟨rest, st₂⟩, hrest, heq⟩ := Option.map_eq_some_iff.mp hserve
      cases heq
      obtain ⟨p₁, hfirst, hresumed⟩ := interrupt_resumed h hcallee hring hdepth hown a hout
      have hparams : arrivals.map p₁.param = arrivals.map p.param :=
        List.map_congr_left fun a _ => hresumed.param_eq a
      rw [← hparams] at hrest
      rw [← hresumed.cs] at hring
      rw [← hresumed.reg] at hown
      obtain ⟨p', hothers, hresumed'⟩ := ih hring hown hrest
      refine ⟨p', ?_, hresumed.trans hresumed'⟩
      unfold Tables.interrupts
      rw [hfirst, Option.bind_eq_bind, Option.bind_some]
      dsimp only
      rw [hothers]
      rfl
    | spins st₁ =>
      rw [hout] at hserve
      contradiction
    | lost =>
      rw [hout] at hserve
      contradiction

/--
However many interrupts come between two instructions and in whatever order, `intr_handler` is called once for each
of them, with its vector and with what has been interrupted, as long as it returns. Every external interrupt is
acknowledged once, and the interrupted code goes on as if nothing had happened.
-/
theorem interrupts_resume (h : tables.Initialized asmIsr) (hcallee : callee.Compiles env own depth)
    (hring : p.cs.extractLsb' 0 2 = 0) (hdepth : depth + 88 ≤ 2 ^ 32)
    (hown : ∀ b, offsetFrom (p.cpu.reg .esp - 88) b < 88 → ¬own b) (arrivals : List Arrival) {st st' : IntrState}
    {events : List IntrEvent} (hserve : serve env st (arrivals.map p.param) = some (events, st'))
    : ∃ p', tables.interrupts callee st p arrivals = some (events, st', p')
        ∧ Resumed own depth p p'
        ∧ events.count .eoi = (arrivals.map p.param).countP dueEoi := by
  obtain ⟨p', hrun, hresumed⟩ := interrupts_resumed h hcallee hring hdepth hown arrivals hserve
  exact ⟨p', hrun, hresumed, serve_eois hserve⟩

/--
A handler that leaves the memory alone.
-/
def quietHandler (env : IntrEnv) : CompiledHandler :=
  fun st entry =>
    match (intrHandler env st (argOf entry)).outcome with
    | .returned st' =>
      some ((intrHandler env st (argOf entry)).events, st', entry.set .esp (entry.reg .esp + 4))
    | _ => none

theorem compiles_quietHandler (env : IntrEnv) : (quietHandler env).Compiles env (fun _ => False) 0 where
  returns := by
    intro st entry st' hret
    refine ⟨entry.set .esp (entry.reg .esp + 4), ?_, Cpu.reg_set_self entry .esp _, fun _ _ _ => rfl⟩
    unfold quietHandler
    rw [hret]

/--
The stub of vector `v` is at `0xC0101000 + 16 * v`.
-/
def linkedTables : Tables where
  idt := initIdt.vectors.foldl (setVector fun v => 0xC0101000 + (v.setWidth 32) <<< 4) (Vector.replicate 256 0)
  gdt := #v[segmentWord 0 0 0, segmentWord 0 0xfffff segR0Code, segmentWord 0 0xfffff segR0Data,
    segmentWord 0 0xfffff segR3Code, segmentWord 0 0xfffff segR3Data]
  stubAt addr := isrTemplates.find? fun t => 0xC0101000 + (t.vector.setWidth 32) <<< 4 = addr
  returnAddr := 0xC0102000

theorem initialized_linkedTables
    : linkedTables.Initialized (fun v => 0xC0101000 + (v.setWidth 32) <<< 4) where
  idt := ⟨Vector.replicate 256 0, initIdt_eq _ _⟩
  gdt := ⟨Vector.replicate 5 0, initGdt_eq _⟩
  stub := by decide

def idleProcessor : Processor where
  cpu := ⟨fun _ => 0xC0200003, ⟨fun _ => 0, []⟩⟩
  eip := 0xC0100000
  cs := 0x08
  eflags := 0x202

def clockArrival : Arrival :=
  ⟨⟨rtcTimerIv, true⟩, by decide, none, rfl⟩

def spuriousArrival : Arrival :=
  ⟨⟨apicSpivIv, true⟩, by decide, none, rfl⟩

def clockIntrState : IntrState :=
  intrSubscribe bootIntrState rtcTimerIv (some (.other 0xC0103000))

/--
The clock, a spurious interrupt and the clock again.
-/
theorem interrupts_resume_idle
    : ∃ p', linkedTables.interrupts (quietHandler bootIntrEnv) clockIntrState idleProcessor
          [clockArrival, spuriousArrival, clockArrival]
          = some ([.call (.other 0xC0103000), .eoi, .call .intrRoutineApicSpi, .call (.other 0xC0103000), .eoi],
            clockIntrState, p')
        ∧ p'.eip = 0xC0100000
        ∧ p'.eflags = 0x202
        ∧ ∀ r, p'.cpu.reg r = 0xC0200003 := by
  have hserve : serve bootIntrEnv clockIntrState
    ([clockArrival, spuriousArrival, clockArrival].map idleProcessor.param)
      = some ([.call (.other 0xC0103000), .eoi, .call .intrRoutineApicSpi, .call (.other 0xC0103000), .eoi],
        clockIntrState) := rfl
  obtain ⟨p', hrun, hresumed, -⟩ := interrupts_resume initialized_linkedTables (compiles_quietHandler bootIntrEnv)
    (show idleProcessor.cs.extractLsb' 0 2 = 0 by decide) (by decide) (fun _ _ hown => hown)
    [clockArrival, spuriousArrival, clockArrival] hserve
  exact ⟨p', hrun, hresumed.eip, hresumed.eflags, hresumed.reg⟩

end Run

end AwaOS
