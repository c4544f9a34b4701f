import Ysyx.Nemu.Agreement
import Ysyx.Nemu.Machine
import Ysyx.Lib.AxiMemory

/-!
# User programs

The programs of RV32I without SYSTEM and MISC-MEM instructions, and what the
decoders of the core make of their instructions.
-/

namespace Ysyx.Nemu

/-- `lui`, `auipc`, `jal`, `jalr`, the branches, loads and stores, OP-IMM and
OP. -/
def InstName.isUser (name : InstName) : Bool :=
  name ∈ [lui, auipc, jal, jalr, beq, bne, blt, bge, bltu, bgeu,
    lb, lh, lw, lbu, lhu, sb, sh, sw,
    addi, slti, sltiu, xori, ori, andi, slli, srli, srai,
    add, sub, sll, slt, sltu, xor, srl, sra, or, and]

end Ysyx.Nemu

namespace Ysyx.Rtl

open Nemu hiding Word

/-- A run of user instructions, without return-form `jalr`, with aligned
targets and naturally aligned accesses, that reads no CLINT register and
writes no word it executes. -/
structure UserProgram (rtcAddr : Word) (start : State) : Prop where
  instruction : ∀ index, ∃ row,
    selected (start.run index).inst = some row ∧ row.name.isUser
  noReturn : ∀ index, idIsRet (start.run index).inst = false
  aligned : ∀ index, (start.run index).pc &&& 3 = 0
  reads : ∀ index addr len,
    (start.run index).request = some (.read addr len) →
    addr.toNat % len = 0 ∧ addr ≠ rtcAddr ∧ addr ≠ rtcAddr + 4
  writes : ∀ index addr len data,
    (start.run index).request = some (.write addr len data) →
    addr.toNat % len = 0 ∧
      ∀ executed, Axi.Bytes.align addr ≠ (start.run executed).pc

/-! ## Decoding -/

/-- The opcodes of user instructions. -/
def userOpcodes : List (BitVec 7) :=
  [0b0110111, 0b0010111, 0b1101111, 0b1100111, 0b1100011, 0b0000011,
    0b0100011, 0b0010011, 0b0110011]

section Decoding

variable {inst : Word} {row : Instpat}

theorem opcode_of_user (decoded : selected inst = some row)
    (user : row.name.isUser) :
    Id.opcode inst ∈ userOpcodes ∧
      row.writesRd = (Id.opcode inst != 0b1100011 &&
        Id.opcode inst != 0b0100011) := by
  have table : ∀ row ∈ instpats, row.name.isUser →
      row.pattern.mask.extractLsb' 0 7 = BitVec.allOnes 7 ∧
        row.pattern.key.extractLsb' 0 7 ∈ userOpcodes ∧
        row.writesRd = (row.pattern.key.extractLsb' 0 7 != 0b1100011 &&
          row.pattern.key.extractLsb' 0 7 != 0b0100011) := by
    decide +kernel
  have listed : row ∈ instpats := List.mem_of_find?_eq_some decoded
  have isMatch : row.pattern.Matches inst := by
    simpa using List.find?_some decoded
  obtain ⟨mask, opcode, writes⟩ := table row listed user
  have same : Id.opcode inst = row.pattern.key.extractLsb' 0 7 :=
    extract_of_matches mask isMatch
  rw [same]
  exact ⟨opcode, writes⟩

/-- What the controller does not ask for. -/
structure ControllerOut.Plain (out : ControllerOut) : Prop where
  isCsr : out.isCsr = false
  csrWe : out.csrWe = false
  isMret : out.isMret = false
  isEcall : out.isEcall = false
  excValid : out.excValid = false
  isFenceI : out.isFenceI = false

theorem plain_of_user (opcode : Id.opcode inst ∈ userOpcodes) :
    (control inst).Plain := by
  simp only [userOpcodes, List.mem_cons, List.not_mem_nil, or_false]
    at opcode
  unfold control
  rcases opcode with h | h | h | h | h | h | h | h | h <;> rw [h] <;>
    exact ⟨rfl, rfl, rfl, rfl, rfl, rfl⟩

theorem writeReg_of_user (opcode : Id.opcode inst ∈ userOpcodes)
    (notZero : Id.rd inst ≠ 0#5) :
    (control inst).writeReg = (Id.opcode inst != 0b1100011 &&
      Id.opcode inst != 0b0100011) := by
  simp only [userOpcodes, List.mem_cons, List.not_mem_nil, or_false]
    at opcode
  unfold control
  rcases opcode with h | h | h | h | h | h | h | h | h <;> rw [h] <;>
    simp [controller, notZero]

end Decoding

/-! ## Execution -/

namespace Datapath

/-- The bundle of the next instruction in EX/MEM. -/
def bundle (csr : Csr) (state : State) : ExMemData :=
  execute state.cpu.gpr csr state.pc state.inst

/-- The value written back: the loaded bytes or the ALU result. -/
def result (pmem : Pmem) (data : ExMemData) : Word :=
  if data.ctrlWb.readMem ≠ 0 then
    signExtend (hostRead pmem data.aluResult (readLen data.ctrlMem.readMem))
      data.ctrlMem.readMem 0
  else data.aluResult

theorem retire_of_plain {gpr : Gpr} {pc inst : Word} (csr csr' : Csr)
    (pmem : Pmem) (plain : (control inst).Plain) :
    let data := execute gpr csr' pc inst
    retire gpr csr pc inst pmem =
      { gpr := gpr.write (Gpr.rfWe true data.ctrlWb.writeReg data.rdIdx)
          data.rdIdx (result pmem data)
        csr
        npc := data.npc
        request := request data } := by
  simp only [retire, complete, execute, decode, result, request,
    Core.decodeBundle, Core.executeBundle, Core.memoryBundle,
    Core.finalWdata, Core.wbTrap, Core.wbCsrPort, Csr.next, plain.isCsr,
    plain.csrWe, plain.isMret, plain.isEcall, plain.excValid, Lsu.zeroed]
  simp

end Datapath

/-- One instruction of the reference machine is one pass of the datapath. -/
theorem step_of_user {state : State} {row : Instpat} (csr : Csr)
    (decoded : selected state.inst = some row) (user : row.name.isUser)
    (aligned : state.pc &&& 3 = 0) :
    let data := Datapath.bundle csr state
    state.request = Datapath.request data ∧
      state.step.pc = data.npc ∧
      state.step.pmem = perform (Datapath.request data) state.pmem ∧
      state.step.cpu.gpr =
        Gpr.write state.cpu.gpr
          (Gpr.rfWe true data.ctrlWb.writeReg data.rdIdx) data.rdIdx
          (Datapath.result state.pmem data) := by
  have names : ∀ name : InstName, name.isUser →
      name ≠ .inv ∧ name ≠ .ebreak ∧ name.isMExt = false ∧
        name.isCsr = false := by
    intro name
    cases name <;> decide
  obtain ⟨notInv, notBreak, notM, notCsr⟩ := names _ user
  have inScope : inScope row = true := by
    simp [Rtl.inScope, notInv, notBreak, notM]
  have agrees : Agrees state.cpu state.outcome
      (Datapath.retire state.cpu.gpr (csrOf state.cpu.sr) state.pc
        state.inst state.pmem) :=
    retire_agrees aligned decoded inScope (by simp [notCsr])
  obtain ⟨cpu, npc, request, outcome, retired, -⟩ := agrees
  have plain := plain_of_user (opcode_of_user decoded user).1
  rw [Datapath.retire_of_plain _ csr _ plain] at retired
  simp only [Retired.mk.injEq] at retired
  obtain ⟨gprEq, -, npcEq, requestEq⟩ := retired
  simp only [State.request, State.step, outcome, Datapath.bundle]
  exact ⟨requestEq.symm, npcEq.symm, by rw [requestEq], gprEq.symm⟩

end Ysyx.Rtl
