import Ysyx.Nemu.Paddr

/-!
# The trap entry

The instructions of `trap.S` for riscv32, and what they do on NEMU: one half
saves a context below the stack pointer, the other restores one.
-/

namespace Ysyx.Am

open Nemu

/-! ## Words of memory -/

/-- The word `index` of the structure at `base`. -/
def slot (base : Word) (index : Nat) : Word :=
  base + BitVec.ofNat 32 (index * 4)

theorem hostRead_hostWrite_slot (pmem : Pmem) (base data : Word)
    {index other : Nat} (inRange : index < 64) (otherInRange : other < 64)
    (different : index ≠ other) :
    hostRead (hostWrite pmem (slot base other) 4 data) (slot base index) 4 =
      hostRead pmem (slot base index) 4 := by
  apply hostRead_congr
  intro offset inWord
  apply hostWrite_of_outside
  simp only [slot, BitVec.toNat_sub, BitVec.toNat_add, BitVec.toNat_ofNat]
  omega

/-! ## Instructions -/

/-- The effect of `inst` where it is fetched. -/
def exec (state : State) (inst : Word) : State :=
  match decodeExec state.pc inst state.cpu state.pmem with
  | .done cpu dnpc request => ⟨dnpc, cpu, perform request state.pmem⟩
  | _ => state

/-- Straight-line code. -/
def execAll (state : State) (code : List Word) : State :=
  code.foldl exec state

/-- NEMU runs the code that it fetches. -/
theorem run_eq_execAll (state : State) (code : List Word)
    (fetched : ∀ (index : Nat) (inCode : index < code.length),
      (state.run index).inst = code[index]) :
    state.run code.length = execAll state code := by
  induction code using List.reverseRecOn with
  | nil =>
      rfl
  | append_singleton code inst inductionHypothesis =>
      have earlier : state.run code.length = execAll state code := by
        apply inductionHypothesis
        intro index inCode
        rw [fetched index (by simp; omega)]
        simp [inCode]
      have last : (state.run code.length).inst = inst := by
        simpa using fetched code.length (by simp)
      simp only [List.length_append, List.length_singleton, State.run,
        execAll, List.foldl_append, List.foldl_cons, List.foldl_nil]
      rw [← execAll, ← earlier]
      exact congrArg (exec (state.run code.length)) last

/-- The place in the INSTPAT table of the pattern that `inst` matches. -/
def rowOf (inst : Word) : Option Nat :=
  instpats.findIdx? fun row => row.pattern.Matches inst

theorem selected_eq {inst : Word} {place : Nat}
    (found : rowOf inst = some place) :
    selected inst = instpats[place]? := by
  obtain ⟨inTable, isMatch, none⟩ := List.findIdx?_eq_some_iff_getElem.mp found
  rw [List.getElem?_eq_getElem inTable, selected, List.find?_eq_some_iff_getElem]
  exact ⟨isMatch, place, inTable, rfl, fun earlier before =>
    by simpa using none earlier before⟩

/-- `opcode` and `func3`. -/
def selector (inst : Word) : Word := inst &&& 0x707f

/-- The row at `place` looks at the selector only, and no row before it accepts
a word with this selector. -/
def Selects (low : Word) (place : Nat) : Prop :=
  (∃ row ∈ instpats[place]?,
    row.pattern.mask = 0x707f ∧ row.pattern.key = low) ∧
  ∀ row ∈ instpats.take place,
    low &&& row.pattern.mask ≠ selector row.pattern.key

instance (low : Word) (place : Nat) : Decidable (Selects low place) :=
  inferInstanceAs (Decidable (_ ∧ _))

theorem rowOf_of_selects {inst : Word} {place : Nat}
    (selects : Selects (selector inst) place) :
    rowOf inst = some place := by
  obtain ⟨⟨row, here, mask, key⟩, noEarlier⟩ := selects
  obtain ⟨inTable, isRow⟩ := List.getElem?_eq_some_iff.mp here
  refine List.findIdx?_eq_some_iff_getElem.mpr ⟨inTable, ?_, ?_⟩
  · rw [isRow]
    simp [Pattern.Matches, mask, key, selector]
  · intro earlier before
    have rejected := noEarlier instpats[earlier]
      (List.mem_take_iff_getElem.mpr ⟨earlier, by omega, rfl⟩)
    simp only [decide_eq_true_eq]
    intro accepted
    apply rejected
    rw [← show _ = _ from accepted]
    simp only [selector, BitVec.and_assoc, BitVec.and_comm 0x707f]

def rdOf (inst : Word) : BitVec 5 := (bits inst 11 7).setWidth 5
def rs1Of (inst : Word) : BitVec 5 := (bits inst 19 15).setWidth 5
def rs2Of (inst : Word) : BitVec 5 := (bits inst 24 20).setWidth 5

theorem rdOf_eq (inst : Word) : rdOf inst = inst.extractLsb' 7 5 :=
  bits_setWidth inst rfl (by decide)

theorem rs1Of_eq (inst : Word) : rs1Of inst = inst.extractLsb' 15 5 :=
  bits_setWidth inst rfl (by decide)

theorem rs2Of_eq (inst : Word) : rs2Of inst = inst.extractLsb' 20 5 :=
  bits_setWidth inst rfl (by decide)

theorem setR_zero (cpu : CpuState) (value : Word) :
    cpu.setR 0#5 value = cpu := by
  have kept : ∀ index, (cpu.setR 0#5 value).gpr index = cpu.gpr index := by
    intro index
    by_cases zero : index = 0
    · rw [zero, (cpu.setR 0#5 value).gpr_zero, cpu.gpr_zero]
    · simp only [CpuState.setR]
      rw [if_neg zero]
      exact if_neg zero
  cases cpu
  simp only [CpuState.setR] at kept ⊢
  congr
  exact funext kept

@[simp] theorem setR_sr (cpu : CpuState) (rd : BitVec 5) (value : Word) :
    (cpu.setR rd value).sr = cpu.sr := rfl

@[simp] theorem setSr_gpr (cpu : CpuState) (csr : BitVec 12) (value : Word) :
    (cpu.setSr csr value).gpr = cpu.gpr := rfl

theorem setSr_sr_self (cpu : CpuState) (csr : BitVec 12) (value : Word) :
    (cpu.setSr csr value).sr csr = value :=
  if_pos rfl

theorem setSr_sr_of_ne (cpu : CpuState) {csr name : BitVec 12}
    (different : name ≠ csr) (value : Word) :
    (cpu.setSr csr value).sr name = cpu.sr name :=
  if_neg different

theorem setR_gpr_self (cpu : CpuState) {rd : BitVec 5} (notZero : rd ≠ 0)
    (value : Word) : (cpu.setR rd value).gpr rd = value :=
  (if_neg notZero).trans (if_pos rfl)

theorem setR_gpr_of_ne (cpu : CpuState) {rd index : BitVec 5}
    (different : index ≠ rd) (value : Word) :
    (cpu.setR rd value).gpr index = cpu.gpr index := by
  simp only [CpuState.setR]
  by_cases zero : index = 0
  · rw [if_pos zero, zero, cpu.gpr_zero]
  · rw [if_neg zero, if_neg different]

section Effects

variable {inst : Word} (state : State)

theorem exec_addi (found : rowOf inst = some 18) :
    exec state inst =
      ⟨state.pc + 4, state.cpu.setR (rdOf inst)
        (state.cpu.gpr (rs1Of inst) + immI inst), state.pmem⟩ := by
  simp only [exec, decodeExec, selected_eq found]
  rfl

theorem exec_lw (found : rowOf inst = some 12) :
    exec state inst =
      ⟨state.pc + 4, state.cpu.setR (rdOf inst)
        (hostRead state.pmem (state.cpu.gpr (rs1Of inst) + immI inst) 4),
        state.pmem⟩ := by
  simp only [exec, decodeExec, selected_eq found]
  rfl

theorem exec_sw (found : rowOf inst = some 17) :
    exec state inst =
      ⟨state.pc + 4, state.cpu,
        hostWrite state.pmem (state.cpu.gpr (rs1Of inst) + immS inst) 4
          (state.cpu.gpr (rs2Of inst))⟩ := by
  simp only [exec, decodeExec, selected_eq found]
  rfl

theorem exec_csrr (found : rowOf inst = some 49)
    (readsOnly : rs1Of inst = 0)
    (exists' : csrExists ((immI inst).setWidth 12) = true) :
    exec state inst =
      ⟨state.pc + 4, state.cpu.setR (rdOf inst)
        (state.cpu.sr ((immI inst).setWidth 12)), state.pmem⟩ := by
  have rs1 : (bits inst 19 15).setWidth 5 = (0 : BitVec 5) := readsOnly
  simp only [exec, decodeExec, selected_eq found]
  simp [instpats, csrBody, decodeOperand, exists', rs1, perform, rdOf]

theorem exec_csrw (found : rowOf inst = some 48)
    (writesOnly : rdOf inst = 0)
    (exists' : csrExists ((immI inst).setWidth 12) = true) :
    exec state inst =
      ⟨state.pc + 4, state.cpu.setSr ((immI inst).setWidth 12)
        (state.cpu.gpr (rs1Of inst)), state.pmem⟩ := by
  have rd : (bits inst 11 7).setWidth 5 = (0 : BitVec 5) := writesOnly
  simp only [exec, decodeExec, selected_eq found]
  simp [instpats, csrBody, decodeOperand, exists', rd, setR_zero, perform,
    rs1Of]

theorem exec_mret :
    exec state 0x30200073 =
      ⟨state.cpu.sr CSR_MEPC, state.cpu.setSr CSR_MSTATUS
        (let mstatus := state.cpu.sr CSR_MSTATUS
        ((mstatus &&& ~~~(1#32 <<< 3)) |||
          (((mstatus >>> 7) &&& 1) <<< 3)) ||| (1#32 <<< 7)),
        state.pmem⟩ := by
  have found : rowOf 0x30200073 = some 47 := by decide +kernel
  simp only [exec, decodeExec, selected_eq found]
  rfl

end Effects

/-! ## Formats -/

section Formats

variable {inst : Word} {rd rs1 rs2 : BitVec 5} {funct3 : BitVec 3}
  {opcode : BitVec 7}

/-- The fields of the I format. -/
theorem decode_iType {imm : BitVec 12}
    (format : inst = imm ++ rs1 ++ funct3 ++ rd ++ opcode) :
    selector inst = (funct3 ++ 0#5 ++ opcode).setWidth 32 ∧ rs1Of inst = rs1 ∧
      rdOf inst = rd ∧ immI inst = imm.signExtend 32 := by
  have field : ∀ k, inst.getLsbD k = _ := fun k =>
    congrArg (BitVec.getLsbD · k) format
  simp only [BitVec.getLsbD_append] at field
  have immediate : (bits inst 31 20).setWidth 12 = imm := by
    rw [show _ = inst.extractLsb' 20 12 from bits_setWidth inst rfl (by decide)]
    apply BitVec.eq_of_getLsbD_eq
    intro k inRange
    rw [BitVec.getLsbD_extractLsb', field]
    interval_cases k <;> simp
  refine ⟨?_, ?_, ?_, ?_⟩
  · apply BitVec.eq_of_getLsbD_eq
    intro k inRange
    simp only [selector, BitVec.getLsbD_and, field, BitVec.getLsbD_setWidth,
      BitVec.getLsbD_append]
    interval_cases k <;> simp
  · apply BitVec.eq_of_getLsbD_eq
    intro k inRange
    rw [rs1Of_eq, BitVec.getLsbD_extractLsb', field]
    interval_cases k <;> simp
  · apply BitVec.eq_of_getLsbD_eq
    intro k inRange
    rw [rdOf_eq, BitVec.getLsbD_extractLsb', field]
    interval_cases k <;> simp
  · rw [immI, sext, immediate]

/-- The fields of the S format. -/
theorem decode_sType {offset : BitVec 12}
    (format : inst = offset.extractLsb' 5 7 ++ rs2 ++ rs1 ++ funct3 ++
      offset.extractLsb' 0 5 ++ opcode) :
    selector inst = (funct3 ++ 0#5 ++ opcode).setWidth 32 ∧ rs1Of inst = rs1 ∧
      rs2Of inst = rs2 ∧ immS inst = offset.signExtend 32 := by
  have field : ∀ k, inst.getLsbD k = _ := fun k =>
    congrArg (BitVec.getLsbD · k) format
  simp only [BitVec.getLsbD_append] at field
  refine ⟨?_, ?_, ?_, ?_⟩
  · apply BitVec.eq_of_getLsbD_eq
    intro k inRange
    simp only [selector, BitVec.getLsbD_and, field, BitVec.getLsbD_setWidth,
      BitVec.getLsbD_append]
    interval_cases k <;> simp
  · apply BitVec.eq_of_getLsbD_eq
    intro k inRange
    rw [rs1Of_eq, BitVec.getLsbD_extractLsb', field]
    interval_cases k <;> simp
  · apply BitVec.eq_of_getLsbD_eq
    intro k inRange
    rw [rs2Of_eq, BitVec.getLsbD_extractLsb', field]
    interval_cases k <;> simp
  · apply BitVec.eq_of_getLsbD_eq
    intro k inRange
    simp only [immS, sext, getLsbD_bits, BitVec.getLsbD_or,
      BitVec.getLsbD_shiftLeft, BitVec.getLsbD_signExtend,
      BitVec.getLsbD_setWidth, BitVec.msb_eq_getLsbD_last, -Nat.reduceAdd,
      -Nat.reduceSub, field]
    interval_cases k <;> simp

end Formats

/-! ## `__am_asm_trap` -/

def sp : BitVec 5 := 2
def t0 : BitVec 5 := 5
def t1 : BitVec 5 := 6
def t2 : BitVec 5 := 7
def a0 : BitVec 5 := 10

def addi (rd rs1 : BitVec 5) (imm : BitVec 12) : Word :=
  imm ++ rs1 ++ 0b000#3 ++ rd ++ 0b0010011#7

def mv (rd rs1 : BitVec 5) : Word := addi rd rs1 0

/-- `STORE rs2, offset(sp)`. -/
def store (rs2 : BitVec 5) (offset : BitVec 12) : Word :=
  offset.extractLsb' 5 7 ++ rs2 ++ sp ++ 0b010#3 ++
    offset.extractLsb' 0 5 ++ 0b0100011#7

/-- `LOAD rd, offset(sp)`. -/
def load (rd : BitVec 5) (offset : BitVec 12) : Word :=
  offset ++ sp ++ 0b010#3 ++ rd ++ 0b0000011#7

def csrr (rd : BitVec 5) (csr : BitVec 12) : Word :=
  csr ++ 0#5 ++ 0b010#3 ++ rd ++ 0b1110011#7

def csrw (csr : BitVec 12) (rs1 : BitVec 5) : Word :=
  csr ++ rs1 ++ 0b001#3 ++ 0#5 ++ 0b1110011#7

def mret : Word := 0x30200073

def XLEN : Nat := 4
def NR_REGS : Nat := 32
def CONTEXT_SIZE : BitVec 12 := BitVec.ofNat 12 ((NR_REGS + 3) * XLEN)
def OFFSET_CAUSE : BitVec 12 := BitVec.ofNat 12 ((NR_REGS + 0) * XLEN)
def OFFSET_STATUS : BitVec 12 := BitVec.ofNat 12 ((NR_REGS + 1) * XLEN)
def OFFSET_EPC : BitVec 12 := BitVec.ofNat 12 ((NR_REGS + 2) * XLEN)

/-- `REGS`: all registers but `$zero` and `sp`. -/
def REGS : List (BitVec 5) :=
  1 :: (List.range 29).map fun index => BitVec.ofNat 5 (index + 3)

def PUSH (n : BitVec 5) : Word :=
  store n (BitVec.ofNat 12 (n.toNat * XLEN))

def POP (n : BitVec 5) : Word :=
  load n (BitVec.ofNat 12 (n.toNat * XLEN))

/-- From `__am_asm_trap` to the call of `__am_irq_handle`. -/
def asmTrapSave : List Word :=
  addi sp sp (-CONTEXT_SIZE) :: REGS.map PUSH ++
    [csrr t0 CSR_MCAUSE, csrr t1 CSR_MSTATUS, csrr t2 CSR_MEPC,
      store t0 OFFSET_CAUSE, store t1 OFFSET_STATUS, store t2 OFFSET_EPC,
      mv a0 sp]

/-- From the return of `__am_irq_handle` to the end. -/
def asmTrapRestore : List Word :=
  [mv sp a0, load t1 OFFSET_STATUS, load t2 OFFSET_EPC,
      csrw CSR_MSTATUS t1, csrw CSR_MEPC t2] ++
    REGS.map POP ++ [addi sp sp CONTEXT_SIZE, mret]

/-- The rows of `sw`, `lw`, `addi`, `csrr` and `csrw`. -/
theorem selects_rows :
    Selects ((0b010#3 ++ 0#5 ++ 0b0100011#7).setWidth 32) 17 ∧
    Selects ((0b010#3 ++ 0#5 ++ 0b0000011#7).setWidth 32) 12 ∧
    Selects ((0b000#3 ++ 0#5 ++ 0b0010011#7).setWidth 32) 18 ∧
    Selects ((0b010#3 ++ 0#5 ++ 0b1110011#7).setWidth 32) 49 ∧
    Selects ((0b001#3 ++ 0#5 ++ 0b1110011#7).setWidth 32) 48 := by
  decide +kernel

section Program

variable (state : State)

theorem offset_signExtend {index : Nat} (inContext : index < 35) :
    (BitVec.ofNat 12 (index * XLEN)).signExtend 32 =
      BitVec.ofNat 32 (index * 4) := by
  have offsets : ∀ index < 35, (BitVec.ofNat 12 (index * XLEN)).signExtend 32 =
      BitVec.ofNat 32 (index * 4) := by
    decide +kernel
  exact offsets index inContext

theorem exec_store (n : BitVec 5) (index : Nat) (inContext : index < 35) :
    exec state (store n (BitVec.ofNat 12 (index * XLEN))) =
      ⟨state.pc + 4, state.cpu,
        hostWrite state.pmem (slot (state.cpu.gpr sp) index) 4
          (state.cpu.gpr n)⟩ := by
  obtain ⟨low, rs1, rs2, imm⟩ := decode_sType
    (rfl : store n (BitVec.ofNat 12 (index * XLEN)) = _)
  have row : rowOf (store n _) = some 17 :=
    rowOf_of_selects (by rw [low]; exact selects_rows.1)
  rw [exec_sw state row, rs1, rs2, imm, offset_signExtend inContext]
  rfl

theorem exec_load (n : BitVec 5) (index : Nat) (inContext : index < 35) :
    exec state (load n (BitVec.ofNat 12 (index * XLEN))) =
      ⟨state.pc + 4, state.cpu.setR n
        (hostRead state.pmem (slot (state.cpu.gpr sp) index) 4),
        state.pmem⟩ := by
  obtain ⟨low, rs1, rd, imm⟩ := decode_iType
    (rfl : load n (BitVec.ofNat 12 (index * XLEN)) = _)
  have row : rowOf (load n _) = some 12 :=
    rowOf_of_selects (by rw [low]; exact selects_rows.2.1)
  rw [exec_lw state row, rs1, rd, imm, offset_signExtend inContext]
  rfl

theorem exec_PUSH (n : BitVec 5) :
    exec state (PUSH n) =
      ⟨state.pc + 4, state.cpu,
        hostWrite state.pmem (slot (state.cpu.gpr sp) n.toNat) 4
          (state.cpu.gpr n)⟩ :=
  exec_store state n n.toNat (by omega)

theorem exec_POP (n : BitVec 5) :
    exec state (POP n) =
      ⟨state.pc + 4, state.cpu.setR n
        (hostRead state.pmem (slot (state.cpu.gpr sp) n.toNat) 4),
        state.pmem⟩ :=
  exec_load state n n.toNat (by omega)

/-- What the pushes leave in each slot. -/
theorem execAll_PUSH (regs : List (BitVec 5)) :
    let after := execAll state (regs.map PUSH)
    after.cpu = state.cpu ∧
      ∀ index, index < 64 →
        hostRead after.pmem (slot (state.cpu.gpr sp) index) 4 =
          if BitVec.ofNat 5 index ∈ regs ∧ index < 32 then
            state.cpu.gpr (BitVec.ofNat 5 index)
          else
            hostRead state.pmem (slot (state.cpu.gpr sp) index) 4 := by
  induction regs generalizing state with
  | nil =>
      simp [execAll]
  | cons n regs inductionHypothesis =>
      obtain ⟨cpu, read⟩ := inductionHypothesis (exec state (PUSH n))
      simp only [exec_PUSH] at cpu read
      simp only [execAll, List.map_cons, List.foldl_cons] at cpu read ⊢
      rw [exec_PUSH]
      refine ⟨cpu, ?_⟩
      intro index inRange
      rw [read index inRange]
      by_cases here : index = n.toNat
      · rw [here, hostRead_hostWrite_self]
        simp [n.isLt]
      · rw [hostRead_hostWrite_slot _ _ _ inRange (by omega) here]
        have other : index < 32 → BitVec.ofNat 5 index ≠ n := by
          rintro isReg rfl
          simp at here
          omega
        simp only [List.mem_cons]
        by_cases isReg : index < 32
        · simp [other isReg]
        · simp [isReg]

/-- What the pops leave in each register. -/
theorem execAll_POP (regs : List (BitVec 5)) (noSp : sp ∉ regs) :
    let after := execAll state (regs.map POP)
    after.cpu.sr = state.cpu.sr ∧ after.pmem = state.pmem ∧
      ∀ index, index ≠ 0 → after.cpu.gpr index =
        if index ∈ regs then
          hostRead state.pmem (slot (state.cpu.gpr sp) index.toNat) 4
        else
          state.cpu.gpr index := by
  induction regs generalizing state with
  | nil =>
      simp [execAll]
  | cons n regs inductionHypothesis =>
      rw [List.mem_cons, not_or] at noSp
      obtain ⟨sr, pmem, read⟩ :=
        inductionHypothesis (exec state (POP n)) noSp.2
      have spKept : (exec state (POP n)).cpu.gpr sp = state.cpu.gpr sp := by
        rw [exec_POP]
        exact setR_gpr_of_ne _ noSp.1 _
      rw [spKept] at read
      simp only [execAll, List.map_cons, List.foldl_cons] at sr pmem read ⊢
      rw [exec_POP] at sr pmem read ⊢
      refine ⟨sr, pmem, ?_⟩
      intro index notZero
      rw [read index notZero]
      simp only [CpuState.setR, if_neg notZero, List.mem_cons]
      by_cases popped : index ∈ regs
      · simp [popped]
      · by_cases here : index = n <;> simp [popped, here]

theorem exec_mv (rd rs1 : BitVec 5) :
    exec state (mv rd rs1) =
      ⟨state.pc + 4, state.cpu.setR rd (state.cpu.gpr rs1),
        state.pmem⟩ := by
  obtain ⟨low, source, target, imm⟩ := decode_iType (rfl : mv rd rs1 = _)
  have row : rowOf (mv rd rs1) = some 18 :=
    rowOf_of_selects (by rw [low]; exact selects_rows.2.2.1)
  have zero : (0 : BitVec 12).signExtend 32 = 0#32 := by decide
  rw [exec_addi state row, source, target, imm, zero, BitVec.add_zero]

theorem exec_lowerSp :
    exec state (addi sp sp (-CONTEXT_SIZE)) =
      ⟨state.pc + 4, state.cpu.setR sp (state.cpu.gpr sp - 140),
        state.pmem⟩ := by
  obtain ⟨low, source, target, imm⟩ := decode_iType
    (rfl : addi sp sp (-CONTEXT_SIZE) = _)
  have row : rowOf (addi sp sp (-CONTEXT_SIZE)) = some 18 :=
    rowOf_of_selects (by rw [low]; exact selects_rows.2.2.1)
  have size : (-CONTEXT_SIZE).signExtend 32 = -140 := by decide
  rw [exec_addi state row, source, target, imm, size, BitVec.sub_eq_add_neg]

theorem exec_raiseSp :
    exec state (addi sp sp CONTEXT_SIZE) =
      ⟨state.pc + 4, state.cpu.setR sp (state.cpu.gpr sp + 140),
        state.pmem⟩ := by
  obtain ⟨low, source, target, imm⟩ := decode_iType
    (rfl : addi sp sp CONTEXT_SIZE = _)
  have row : rowOf (addi sp sp CONTEXT_SIZE) = some 18 :=
    rowOf_of_selects (by rw [low]; exact selects_rows.2.2.1)
  have size : CONTEXT_SIZE.signExtend 32 = 140 := by decide
  rw [exec_addi state row, source, target, imm, size]

/-- The CSRs that `trap.S` reads and writes. -/
def trapCsrs : List (BitVec 12) := [CSR_MCAUSE, CSR_MSTATUS, CSR_MEPC]

theorem csrExists_trap {csr : BitVec 12} (member : csr ∈ trapCsrs) :
    csrExists csr = true := by
  simp only [trapCsrs, List.mem_cons, List.not_mem_nil, or_false] at member
  rcases member with rfl | rfl | rfl <;> rfl

theorem csr_signExtend (csr : BitVec 12) :
    (csr.signExtend 32).setWidth 12 = csr := by
  apply BitVec.eq_of_getLsbD_eq
  intro k inRange
  have inWord : k < 32 := by omega
  simp only [BitVec.getLsbD_setWidth, BitVec.getLsbD_signExtend, inRange,
    inWord, decide_true, Bool.true_and, if_true]

theorem exec_csrr_trap (rd : BitVec 5) (csr : BitVec 12)
    (member : csr ∈ trapCsrs) :
    exec state (csrr rd csr) =
      ⟨state.pc + 4, state.cpu.setR rd (state.cpu.sr csr), state.pmem⟩ := by
  obtain ⟨low, source, target, imm⟩ := decode_iType (rfl : csrr rd csr = _)
  have row : rowOf (csrr rd csr) = some 49 :=
    rowOf_of_selects (by rw [low]; exact selects_rows.2.2.2.1)
  have name : (immI (csrr rd csr)).setWidth 12 = csr := by
    rw [imm, csr_signExtend]
  rw [exec_csrr state row source (by rw [name, csrExists_trap member]), target,
    name]

theorem exec_csrw_trap (csr : BitVec 12) (rs1 : BitVec 5)
    (member : csr ∈ trapCsrs) :
    exec state (csrw csr rs1) =
      ⟨state.pc + 4, state.cpu.setSr csr (state.cpu.gpr rs1),
        state.pmem⟩ := by
  obtain ⟨low, source, target, imm⟩ := decode_iType (rfl : csrw csr rs1 = _)
  have row : rowOf (csrw csr rs1) = some 48 :=
    rowOf_of_selects (by rw [low]; exact selects_rows.2.2.2.2)
  have name : (immI (csrw csr rs1)).setWidth 12 = csr := by
    rw [imm, csr_signExtend]
  rw [exec_csrw state row target (by rw [name, csrExists_trap member]), source,
    name]

theorem temporaries (cpu : CpuState) (cause status epc : Word) :
    let after := ((cpu.setR t0 cause).setR t1 status).setR t2 epc
    after.gpr sp = cpu.gpr sp ∧ after.gpr t0 = cause ∧
      after.gpr t1 = status ∧ after.gpr t2 = epc := by
  refine ⟨?_, ?_, ?_, setR_gpr_self _ (by decide) _⟩
  · rw [setR_gpr_of_ne _ (by decide), setR_gpr_of_ne _ (by decide),
      setR_gpr_of_ne _ (by decide)]
  · rw [setR_gpr_of_ne _ (by decide), setR_gpr_of_ne _ (by decide),
      setR_gpr_self _ (by decide)]
  · rw [setR_gpr_of_ne _ (by decide), setR_gpr_self _ (by decide)]

/-- What the first half leaves: the context below the old stack pointer, and
its address in `a0`. -/
theorem execAll_asmTrapSave :
    let after := execAll state asmTrapSave
    let context := state.cpu.gpr sp - 140
    after.cpu.sr = state.cpu.sr ∧ after.cpu.gpr a0 = context ∧
      (∀ n : BitVec 5, n ≠ 0 → n ≠ sp →
        hostRead after.pmem (slot context n.toNat) 4 = state.cpu.gpr n) ∧
      hostRead after.pmem (slot context 32) 4 = state.cpu.sr CSR_MCAUSE ∧
      hostRead after.pmem (slot context 33) 4 = state.cpu.sr CSR_MSTATUS ∧
      hostRead after.pmem (slot context 34) 4 = state.cpu.sr CSR_MEPC := by
  obtain ⟨cpuKept, pushed⟩ :=
    execAll_PUSH (exec state (addi sp sp (-CONTEXT_SIZE))) REGS
  have spLowered : (exec state (addi sp sp (-CONTEXT_SIZE))).cpu.gpr sp =
      state.cpu.gpr sp - 140 := by
    rw [exec_lowerSp]
    exact setR_gpr_self _ (by decide) _
  have stages : execAll state asmTrapSave =
      execAll (execAll (exec state (addi sp sp (-CONTEXT_SIZE)))
        (REGS.map PUSH))
        [csrr t0 CSR_MCAUSE, csrr t1 CSR_MSTATUS, csrr t2 CSR_MEPC,
          store t0 OFFSET_CAUSE, store t1 OFFSET_STATUS,
          store t2 OFFSET_EPC, mv a0 sp] := by
    simp only [asmTrapSave, execAll, List.cons_append, List.foldl_cons,
      List.foldl_append]
  rw [spLowered] at pushed
  rw [stages]
  generalize execAll (exec state (addi sp sp (-CONTEXT_SIZE)))
    (REGS.map PUSH) = saved at cpuKept pushed ⊢
  have cause : ∀ state, exec state (store t0 OFFSET_CAUSE) = _ :=
    fun state => exec_store state t0 32 (by omega)
  have status : ∀ state, exec state (store t1 OFFSET_STATUS) = _ :=
    fun state => exec_store state t1 33 (by omega)
  have epc : ∀ state, exec state (store t2 OFFSET_EPC) = _ :=
    fun state => exec_store state t2 34 (by omega)
  have savedSp : saved.cpu.gpr sp = state.cpu.gpr sp - 140 := by
    rw [cpuKept, spLowered]
  have savedSr : saved.cpu.sr = state.cpu.sr := by
    rw [cpuKept, exec_lowerSp]
    rfl
  simp only [execAll, List.foldl_cons, List.foldl_nil, cause, status, epc,
    exec_mv]
  rw [exec_csrr_trap _ _ CSR_MCAUSE (by decide),
    exec_csrr_trap _ _ CSR_MSTATUS (by decide),
    exec_csrr_trap _ _ CSR_MEPC (by decide)]
  obtain ⟨atSp, atT0, atT1, atT2⟩ := temporaries saved.cpu
    (state.cpu.sr CSR_MCAUSE) (state.cpu.sr CSR_MSTATUS)
    (state.cpu.sr CSR_MEPC)
  simp only [setR_sr, savedSr, atSp, atT0, atT1, atT2, savedSp]
  have a0NotZero : a0 ≠ 0 := by decide
  refine ⟨trivial, setR_gpr_self _ a0NotZero _, ?_, ?_, ?_, ?_⟩
  · intro n notZero notSp
    have inRegs : ∀ n : BitVec 5, n ≠ 0 → n ≠ sp → n ∈ REGS := by
      decide
    rw [hostRead_hostWrite_slot _ _ _ (by omega) (by omega) (by omega),
      hostRead_hostWrite_slot _ _ _ (by omega) (by omega) (by omega),
      hostRead_hostWrite_slot _ _ _ (by omega) (by omega) (by omega),
      pushed n.toNat (by omega), BitVec.ofNat_toNat, BitVec.setWidth_eq,
      if_pos ⟨inRegs n notZero notSp, n.isLt⟩, exec_lowerSp,
      setR_gpr_of_ne _ notSp]
  · rw [hostRead_hostWrite_slot _ _ _ (by omega) (by omega) (by omega),
      hostRead_hostWrite_slot _ _ _ (by omega) (by omega) (by omega),
      hostRead_hostWrite_self]
  · rw [hostRead_hostWrite_slot _ _ _ (by omega) (by omega) (by omega),
      hostRead_hostWrite_self]
  · rw [hostRead_hostWrite_self]

theorem mret_mie (mstatus : Word) :
    (((mstatus &&& ~~~(1#32 <<< 3)) |||
      (((mstatus >>> 7) &&& 1) <<< 3)) ||| (1#32 <<< 7)).getLsbD 3 =
        mstatus.getLsbD 7 := by
  simp

/-- What the second half leaves: the thread of the context in `a0`. -/
theorem execAll_asmTrapRestore :
    let after := execAll state asmTrapRestore
    let context := state.cpu.gpr a0
    after.pmem = state.pmem ∧
      after.pc = hostRead state.pmem (slot context 34) 4 ∧
      (∀ n : BitVec 5, n ≠ 0 → n ≠ sp → after.cpu.gpr n =
        hostRead state.pmem (slot context n.toNat) 4) ∧
      after.cpu.gpr sp = context + 140 ∧
      (after.cpu.sr CSR_MSTATUS).getLsbD 3 =
        (hostRead state.pmem (slot context 33) 4).getLsbD 7 := by
  have status : ∀ state, exec state (load t1 OFFSET_STATUS) = _ :=
    fun state => exec_load state t1 33 (by omega)
  have epc : ∀ state, exec state (load t2 OFFSET_EPC) = _ :=
    fun state => exec_load state t2 34 (by omega)
  let loaded := execAll state [mv sp a0, load t1 OFFSET_STATUS,
    load t2 OFFSET_EPC, csrw CSR_MSTATUS t1, csrw CSR_MEPC t2]
  have loadedIs : loaded.pmem = state.pmem ∧
      loaded.cpu.gpr sp = state.cpu.gpr a0 ∧
      loaded.cpu.sr CSR_MSTATUS =
        hostRead state.pmem (slot (state.cpu.gpr a0) 33) 4 ∧
      loaded.cpu.sr CSR_MEPC =
        hostRead state.pmem (slot (state.cpu.gpr a0) 34) 4 := by
    simp only [loaded, execAll, List.foldl_cons, List.foldl_nil, exec_mv,
      status, epc]
    rw [exec_csrw_trap _ CSR_MSTATUS t1 (by decide),
      exec_csrw_trap _ CSR_MEPC t2 (by decide)]
    simp (disch := decide) only [setSr_gpr, setR_gpr_self, setR_gpr_of_ne,
      setSr_sr_self, setSr_sr_of_ne, and_self]
  have stages : execAll state asmTrapRestore =
      execAll (execAll loaded (REGS.map POP))
        [addi sp sp CONTEXT_SIZE, mret] := by
    simp only [asmTrapRestore, loaded, execAll, List.foldl_append]
  obtain ⟨sr, pmem, popped⟩ := execAll_POP loaded REGS (by decide)
  rw [stages]
  generalize execAll loaded (REGS.map POP) = restored at sr pmem popped ⊢
  simp only [execAll, List.foldl_cons, List.foldl_nil, exec_raiseSp]
  rw [mret, exec_mret]
  obtain ⟨loadedPmem, loadedSp, loadedStatus, loadedEpc⟩ := loadedIs
  rw [loadedPmem, loadedSp] at popped
  refine ⟨pmem.trans loadedPmem, ?_, ?_, ?_, ?_⟩
  · rw [setR_sr, sr, loadedEpc]
  · intro n notZero notSp
    have inRegs : ∀ n : BitVec 5, n ≠ 0 → n ≠ sp → n ∈ REGS := by
      decide
    rw [setSr_gpr, setR_gpr_of_ne _ notSp, popped n notZero,
      if_pos (inRegs n notZero notSp)]
  · rw [setSr_gpr, setR_gpr_self _ (by decide), popped sp (by decide),
      if_neg (by decide), loadedSp]
  · rw [setSr_sr_self, mret_mie, setR_sr, sr, loadedStatus]

end Program

end Ysyx.Am
