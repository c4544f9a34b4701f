import Ysyx.Rvmini.Assembly
import Ysyx.Nemu.Agreement

/-!
# The lines on NEMU

The words of RV32I that the assembler makes of the lines, and that NEMU executes
every such word like `Inst.exec` says of its line.
-/

namespace Ysyx.Rvmini

open Nemu

/-! ## Formats -/

def rType (funct7 : BitVec 7) (rs2 rs1 : Reg) (funct3 : BitVec 3) (rd : Reg)
    (opcode : BitVec 7) : Word :=
  funct7 ++ rs2 ++ rs1 ++ funct3 ++ rd ++ opcode

def iType (imm : BitVec 12) (rs1 : Reg) (funct3 : BitVec 3) (rd : Reg)
    (opcode : BitVec 7) : Word :=
  imm ++ rs1 ++ funct3 ++ rd ++ opcode

def sType (imm : BitVec 12) (rs2 rs1 : Reg) (funct3 : BitVec 3) : Word :=
  imm.extractLsb' 5 7 ++ rs2 ++ rs1 ++ funct3 ++ imm.extractLsb' 0 5 ++
    0b0100011#7

/-- `imm` is half of the offset. -/
def bType (imm : BitVec 12) (rs2 rs1 : Reg) (funct3 : BitVec 3) : Word :=
  imm.extractLsb' 11 1 ++ imm.extractLsb' 4 6 ++ rs2 ++ rs1 ++ funct3 ++
    imm.extractLsb' 0 4 ++ imm.extractLsb' 10 1 ++ 0b1100011#7

/-- `imm` is half of the offset. -/
def jType (imm : BitVec 20) (rd : Reg) : Word :=
  imm.extractLsb' 19 1 ++ imm.extractLsb' 0 10 ++ imm.extractLsb' 10 1 ++
    imm.extractLsb' 11 8 ++ rd ++ 0b1101111#7

/-! ## Encoding -/

namespace Op

def funct7 : Op → BitVec 7
  | sub | sra => 0b0100000
  | slt | sltu | and | or | xor | sll | srl => 0b0000000

def funct3 : Op → BitVec 3
  | sub => 0b000
  | sll => 0b001
  | slt => 0b010
  | sltu => 0b011
  | xor => 0b100
  | srl | sra => 0b101
  | or => 0b110
  | and => 0b111

end Op

def OpImm.funct3 : OpImm → BitVec 3
  | slti => 0b010
  | sltiu => 0b011
  | xori => 0b100
  | ori => 0b110
  | andi => 0b111

namespace ShiftImm

def funct7 : ShiftImm → BitVec 7
  | slli | srli => 0b0000000
  | srai => 0b0100000

def funct3 : ShiftImm → BitVec 3
  | slli => 0b001
  | srli | srai => 0b101

end ShiftImm

def Load.funct3 : Load → BitVec 3
  | lb => 0b000
  | lh => 0b001
  | lhu => 0b101

def BranchOp.funct3 : BranchOp → BitVec 3
  | beq => 0b000
  | bne => 0b001
  | blt => 0b100
  | bge => 0b101
  | bltu => 0b110
  | bgeu => 0b111

/-- The word at `pc` for a line, if it has one: `tail` and `la` take two words,
and a target can be odd or out of reach. -/
def Inst.encode (pc : Word) : Inst Word → Option Word
  | .base kept => some kept.encode
  | .op kind rd rs1 rs2 =>
      some (rType kind.funct7 rs2 rs1 kind.funct3 rd 0b0110011)
  | .opImm kind rd rs1 imm => some (iType imm rs1 kind.funct3 rd 0b0010011)
  | .shift kind rd rs1 imm =>
      some (rType kind.funct7 imm rs1 kind.funct3 rd 0b0010011)
  -- `xori rd, rs1, -1`, `sltiu rd, rs1, 1` and `slt rd, rs1, x0`
  | .unary .not rd rs1 => some (iType (-1) rs1 0b100 rd 0b0010011)
  | .unary .seqz rd rs1 => some (iType 1 rs1 0b011 rd 0b0010011)
  | .unary .sltz rd rs1 => some (rType 0 x0 rs1 0b010 rd 0b0110011)
  | .load kind rd rs1 imm => some (iType imm rs1 kind.funct3 rd 0b0000011)
  | .sh rs2 rs1 imm => some (sType imm rs2 rs1 0b001)
  | .branch kind rs1 rs2 target =>
      let imm := (target - pc).extractLsb' 1 12
      if (imm ++ 0#1).signExtend 32 = target - pc then
        some (bType imm rs2 rs1 kind.funct3)
      else
        none
  | .jal rd target =>
      let imm := (target - pc).extractLsb' 1 20
      if (imm ++ 0#1).signExtend 32 = target - pc then some (jType imm rd)
      else none
  | .tail _ => none
  | .la _ _ => none

/-! ## Fields -/

section Fields

variable {inst : Word} {rd rs1 rs2 : Reg}

theorem amount_bits (x : Word) : (bits x 4 0).toNat = x.toNat % 32 := by
  rw [Rtl.shiftAmount_eq, BitVec.extractLsb'_toNat, Nat.shiftRight_zero]

theorem amount_rs2Of (inst : Word) :
    (bits (immI inst) 4 0).toNat = (Am.rs2Of inst).toNat := by
  have low : (immI inst).extractLsb' 0 5 = inst.extractLsb' 20 5 := by
    have field : (bits inst 31 20).setWidth 12 = inst.extractLsb' 20 12 :=
      bits_setWidth inst rfl (by decide)
    rw [immI, sext, field]
    apply BitVec.eq_of_getLsbD_eq
    intro k inRange
    simp only [BitVec.getLsbD_extractLsb', BitVec.getLsbD_signExtend]
    simp [inRange, show k < 32 by omega, show k < 12 by omega]
  rw [Rtl.shiftAmount_eq, low, Am.rs2Of_eq]

/-- The fields of the B format. -/
theorem matches_bType {imm : BitVec 12} {funct3 : BitVec 3}
    (format : inst = bType imm rs2 rs1 funct3) :
    inst &&& 0x707f = (funct3 ++ 0#5 ++ 0b1100011#7).setWidth 32 ∧
      Am.rs1Of inst = rs1 ∧ Am.rs2Of inst = rs2 ∧
      immB inst = (imm ++ 0#1).signExtend 32 := by
  have field : ∀ k, inst.getLsbD k = _ := fun k =>
    congrArg (BitVec.getLsbD · k) format
  simp only [bType, BitVec.getLsbD_append, BitVec.getLsbD_extractLsb'] at field
  refine ⟨?_, ?_, ?_, ?_⟩
  · apply BitVec.eq_of_getLsbD_eq
    intro k inRange
    simp only [BitVec.getLsbD_and, field, BitVec.getLsbD_setWidth,
      BitVec.getLsbD_append]
    interval_cases k <;> simp
  · apply BitVec.eq_of_getLsbD_eq
    intro k inRange
    rw [Am.rs1Of_eq, BitVec.getLsbD_extractLsb', field]
    interval_cases k <;> simp
  · apply BitVec.eq_of_getLsbD_eq
    intro k inRange
    rw [Am.rs2Of_eq, BitVec.getLsbD_extractLsb', field]
    interval_cases k <;> simp
  · rw [Rtl.immB_eq]
    have fields : Rtl.imm32 inst 0b011 =
        (inst.extractLsb' 31 1 ++ inst.extractLsb' 7 1 ++
          inst.extractLsb' 25 6 ++ inst.extractLsb' 8 4 ++
          0#1).signExtend 32 := rfl
    have halves : inst.extractLsb' 31 1 ++ inst.extractLsb' 7 1 ++
        inst.extractLsb' 25 6 ++ inst.extractLsb' 8 4 = imm := by
      apply BitVec.eq_of_getLsbD_eq
      intro k inRange
      simp only [BitVec.getLsbD_append, BitVec.getLsbD_extractLsb', field]
      interval_cases k <;> simp
    rw [fields, halves]

/-- The fields of the J format. -/
theorem matches_jType {imm : BitVec 20} (format : inst = jType imm rd) :
    inst &&& 0x7f = 0x6f ∧ Am.rdOf inst = rd ∧
      immJ inst = (imm ++ 0#1).signExtend 32 := by
  have field : ∀ k, inst.getLsbD k = _ := fun k =>
    congrArg (BitVec.getLsbD · k) format
  simp only [jType, BitVec.getLsbD_append, BitVec.getLsbD_extractLsb'] at field
  refine ⟨?_, ?_, ?_⟩
  · apply BitVec.eq_of_getLsbD_eq
    intro k inRange
    simp only [BitVec.getLsbD_and, field]
    interval_cases k <;> simp
  · apply BitVec.eq_of_getLsbD_eq
    intro k inRange
    rw [Am.rdOf_eq, BitVec.getLsbD_extractLsb', field]
    interval_cases k <;> simp
  · rw [Rtl.immJ_eq]
    have fields : Rtl.imm32 inst 0b100 =
        (inst.extractLsb' 31 1 ++ inst.extractLsb' 12 8 ++
          inst.extractLsb' 20 1 ++ inst.extractLsb' 21 10 ++
          0#1).signExtend 32 := rfl
    have halves : inst.extractLsb' 31 1 ++ inst.extractLsb' 12 8 ++
        inst.extractLsb' 20 1 ++ inst.extractLsb' 21 10 = imm := by
      apply BitVec.eq_of_getLsbD_eq
      intro k inRange
      simp only [BitVec.getLsbD_append, BitVec.getLsbD_extractLsb', field]
      interval_cases k <;> simp
    rw [fields, halves]

end Fields

/-! ## Rows -/

/-- The INSTPAT of an instruction. -/
def Op.place : Op → Nat
  | sub => 28
  | sll => 29
  | slt => 30
  | sltu => 31
  | xor => 32
  | srl => 33
  | sra => 34
  | or => 35
  | and => 36

def OpImm.place : OpImm → Nat
  | slti => 19
  | sltiu => 20
  | xori => 21
  | ori => 22
  | andi => 23

def ShiftImm.place : ShiftImm → Nat
  | slli => 24
  | srli => 25
  | srai => 26

def Load.place : Load → Nat
  | lb => 10
  | lh => 11
  | lhu => 14

def BranchOp.place : BranchOp → Nat
  | beq => 4
  | bne => 5
  | blt => 6
  | bge => 7
  | bltu => 8
  | bgeu => 9

section Rows

variable {inst : Word} {rd rs1 rs2 : Reg} (state : State)

/-- How `exec_once` ends. -/
def finish (state : State) : Outcome → State
  | .done cpu dnpc request => ⟨dnpc, cpu, perform request state.pmem⟩
  | _ => state

theorem exec_selected {row : Instpat} (found : selected inst = some row) :
    Am.exec state inst = finish state (row.body state.pc
      (decodeOperand inst state.cpu row.type) state.cpu state.pmem) := by
  rw [Am.exec, decodeExec, found]
  rfl

theorem exec_op (kind : Op)
    (format : inst = rType kind.funct7 rs2 rs1 kind.funct3 rd 0b0110011) :
    Am.exec state inst =
      (Inst.op kind rd rs1 rs2).exec (state.pc + 4) state := by
  obtain ⟨key, rfl, rfl, rfl⟩ := matches_rType format
  have found : selected inst = instpats[kind.place]? := by
    cases kind <;>
      exact selected_at _ (by decide) (by decide) (key.trans (by decide))
  rw [Inst.exec]
  cases kind with
  | sltu =>
      simp only [Op.result, BitVec.ult_iff_lt]
      exact exec_selected state found
  | sll | srl | sra =>
      simp only [Op.result, ← amount_bits]
      exact exec_selected state found
  | _ => exact exec_selected state found

theorem exec_opImm (kind : OpImm) {imm : BitVec 12}
    (format : inst = iType imm rs1 kind.funct3 rd 0b0010011) :
    Am.exec state inst =
      (Inst.opImm kind rd rs1 imm).exec (state.pc + 4) state := by
  obtain ⟨key, rfl, rfl, offset⟩ := Am.decode_iType format
  have found : selected inst = instpats[kind.place]? := by
    cases kind <;>
      exact selected_at _ (by decide) (by decide) (key.trans (by decide))
  rw [Inst.exec, ← offset]
  cases kind with
  | sltiu =>
      simp only [OpImm.op, Op.result, BitVec.ult_iff_lt]
      exact exec_selected state found
  | _ => exact exec_selected state found

theorem exec_shift (kind : ShiftImm)
    (format : inst = rType kind.funct7 rs2 rs1 kind.funct3 rd 0b0010011) :
    Am.exec state inst =
      (Inst.shift kind rd rs1 rs2).exec (state.pc + 4) state := by
  obtain ⟨key, rfl, rfl, rfl⟩ := matches_rType format
  have found : selected inst = instpats[kind.place]? := by
    cases kind <;>
      exact selected_at _ (by decide) (by decide) (key.trans (by decide))
  rw [Inst.exec, ← amount_rs2Of]
  cases kind <;> exact exec_selected state found

theorem exec_load (kind : Load) {imm : BitVec 12}
    (format : inst = iType imm rs1 kind.funct3 rd 0b0000011) :
    Am.exec state inst =
      (Inst.load kind rd rs1 imm).exec (state.pc + 4) state := by
  obtain ⟨key, rfl, rfl, offset⟩ := Am.decode_iType format
  have found : selected inst = instpats[kind.place]? := by
    cases kind <;>
      exact selected_at _ (by decide) (by decide) (key.trans (by decide))
  rw [Inst.exec, addrOf, ← offset]
  cases kind <;> exact exec_selected state found

theorem exec_sh {imm : BitVec 12} (format : inst = sType imm rs2 rs1 0b001) :
    Am.exec state inst =
      (Inst.sh rs2 rs1 imm).exec (state.pc + 4) state := by
  obtain ⟨key, rfl, rfl, offset⟩ := Am.decode_sType format
  have found : selected inst = instpats[16]? :=
    selected_at _ (by decide) (by decide) (key.trans (by decide))
  rw [Inst.exec, addrOf, ← offset]
  exact exec_selected state found

theorem exec_branch (kind : BranchOp) {imm : BitVec 12}
    (format : inst = bType imm rs2 rs1 kind.funct3) :
    Am.exec state inst = (Inst.branch kind rs1 rs2
      (state.pc + (imm ++ 0#1).signExtend 32)).exec (state.pc + 4) state := by
  obtain ⟨key, rfl, rfl, offset⟩ := matches_bType format
  have found : selected inst = instpats[kind.place]? := by
    cases kind <;>
      exact selected_at _ (by decide) (by decide) (key.trans (by decide))
  rw [Inst.exec, ← offset]
  cases kind <;> exact exec_selected state found

theorem exec_jal {imm : BitVec 20} (format : inst = jType imm rd) :
    Am.exec state inst =
      (Inst.jal rd (state.pc + (imm ++ 0#1).signExtend 32)).exec
        (state.pc + 4) state := by
  obtain ⟨key, rfl, offset⟩ := matches_jType format
  have found : selected inst = instpats[2]? :=
    selected_at _ (by decide) (by decide) (key.trans (by decide))
  rw [Inst.exec, ← offset]
  exact exec_selected state found

/-- A pseudo instruction is the instruction that it is written for. -/
theorem exec_unary (kind : Unary)
    (encodes : (Inst.unary kind rd rs1).encode state.pc = some inst) :
    Am.exec state inst =
      (Inst.unary kind rd rs1).exec (state.pc + 4) state := by
  cases kind with
  | not =>
      have format := (Option.some.inj encodes).symm
      rw [exec_opImm state .xori format]
      simp only [Inst.exec, Unary.result, OpImm.op, Op.result]
      rw [show (-1 : BitVec 12).signExtend 32 = BitVec.allOnes 32 by decide,
        BitVec.xor_allOnes]
  | seqz =>
      have format := (Option.some.inj encodes).symm
      rw [exec_opImm state .sltiu format]
      simp only [Inst.exec, Unary.result, OpImm.op, Op.result]
      rw [show (1 : BitVec 12).signExtend 32 = 1 by decide]
      congr 3
      simp [BitVec.ult_iff_lt, BitVec.lt_def, BitVec.toNat_eq]
  | sltz =>
      have format := (Option.some.inj encodes).symm
      rw [exec_op state .slt format]
      simp only [Inst.exec, Unary.result, Op.result]
      rw [show state.cpu.gpr x0 = 0 from state.cpu.gpr_zero]

end Rows

/-- NEMU executes the word of a line like the line. -/
theorem nemu_executes_line (state : State) {line : Inst Word} {inst : Word}
    (encodes : line.encode state.pc = some inst) :
    Am.exec state inst = line.exec (state.pc + 4) state := by
  cases line with
  | base kept =>
      obtain rfl := Option.some.inj encodes
      exact Base.exec_encode state kept
  | op kind rd rs1 rs2 =>
      exact exec_op state kind (Option.some.inj encodes).symm
  | opImm kind rd rs1 imm =>
      exact exec_opImm state kind (Option.some.inj encodes).symm
  | shift kind rd rs1 imm =>
      exact exec_shift state kind (Option.some.inj encodes).symm
  | unary kind rd rs1 => exact exec_unary state kind encodes
  | load kind rd rs1 imm =>
      exact exec_load state kind (Option.some.inj encodes).symm
  | sh rs2 rs1 imm => exact exec_sh state (Option.some.inj encodes).symm
  | branch kind rs1 rs2 target =>
      simp only [Inst.encode] at encodes
      split at encodes
      · rename_i inReach
        rw [exec_branch state kind (Option.some.inj encodes).symm, inReach,
          BitVec.add_comm state.pc (target - state.pc), BitVec.sub_add_cancel]
      · cases encodes
  | jal rd target =>
      simp only [Inst.encode] at encodes
      split at encodes
      · rename_i inReach
        rw [exec_jal state (Option.some.inj encodes).symm, inReach,
          BitVec.add_comm state.pc (target - state.pc), BitVec.sub_add_cancel]
      · cases encodes
  | tail target => cases encodes
  | la rd symbol => cases encodes

/-- `bne a0, x0, 0x80000008` at 0x80000010. -/
theorem nemu_executes_line_bne :
    let state : State := ⟨0x80000010, CpuState.setR ⟨0, 0, rfl⟩ 10 3, fun _ => 0⟩
    Am.exec state 0xfe051ce3 =
      (Inst.branch .bne 10#5 0#5 0x80000008).exec (0x80000010 + 4) state :=
  nemu_executes_line _
    (show (Inst.branch .bne 10#5 0#5 0x80000008).encode 0x80000010 =
      some 0xfe051ce3 by decide)

end Ysyx.Rvmini
