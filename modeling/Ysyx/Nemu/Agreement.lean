import Ysyx.Rtl.Datapath
import Mathlib.Tactic.IntervalCases

/-!
# The datapath against the reference interpreter

Every instruction that `decode_exec` executes leaves the same registers,
CSRs, next pc and memory request as the datapath of the core.
-/

namespace Ysyx.Rtl

open Nemu hiding Word

/-! ## Field extraction -/

section Fields

variable {inst : Word}

theorem extract_of_matches {pattern : Pattern} {start len : Nat}
    (fixed : pattern.mask.extractLsb' start len = BitVec.allOnes len)
    (isMatch : pattern.Matches inst) :
    inst.extractLsb' start len = pattern.key.extractLsb' start len := by
  have fields := congrArg (BitVec.extractLsb' start len) isMatch
  rwa [BitVec.extractLsb'_and, fixed, BitVec.and_allOnes] at fields

theorem fields_of_opcode {op : BitVec 5}
    (isMatch : (Pattern.opcode op).Matches inst) :
    Id.opcode inst = op ++ 0b11#2 := by
  refine (extract_of_matches ?_ isMatch).trans ?_ <;>
    simp only [Pattern.opcode]
  · decide
  · clear isMatch
    revert op
    decide

theorem fields_of_funct3 {f3 : BitVec 3} {op : BitVec 5}
    (isMatch : (Pattern.funct3 f3 op).Matches inst) :
    Id.opcode inst = op ++ 0b11#2 ∧ Id.func3 inst = f3 := by
  refine ⟨(extract_of_matches ?_ isMatch).trans ?_,
    (extract_of_matches ?_ isMatch).trans ?_⟩ <;>
    simp only [Pattern.funct3]
  any_goals decide
  all_goals
    ext k hk
    simp
    grind

theorem fields_of_funct7 {f7 : BitVec 7} {f3 : BitVec 3} {op : BitVec 5}
    (isMatch : (Pattern.funct7 f7 f3 op).Matches inst) :
    Id.opcode inst = op ++ 0b11#2 ∧ Id.func3 inst = f3 ∧
      Id.func7 inst = f7 := by
  refine ⟨(extract_of_matches ?_ isMatch).trans ?_,
    (extract_of_matches ?_ isMatch).trans ?_,
    (extract_of_matches ?_ isMatch).trans ?_⟩ <;>
    simp only [Pattern.funct7]
  any_goals decide
  all_goals
    ext k hk
    simp
    grind

theorem eq_of_exact {word : Word}
    (isMatch : (Pattern.exact word).Matches inst) : inst = word := by
  exact (BitVec.and_allOnes).symm.trans isMatch

end Fields

/-! ## Operands -/

theorem immI_eq (inst : Word) : immI inst = imm32 inst 0b000 := by
  simp [immI, sext, imm32, bits_setWidth]

theorem immU_eq (inst : Word) : immU inst = imm32 inst 0b001 := by
  have fields : imm32 inst 0b001 = inst.extractLsb' 12 20 ++ 0#12 := rfl
  apply BitVec.eq_of_getLsbD_eq
  intro k inWord
  simp only [fields, immU, sext, getLsbD_bits, BitVec.getLsbD_setWidth,
    BitVec.getLsbD_append, BitVec.getLsbD_shiftLeft,
    BitVec.getLsbD_signExtend, BitVec.msb_eq_getLsbD_last, -Nat.reduceAdd]
  interval_cases k <;> simp

theorem immS_eq (inst : Word) : immS inst = imm32 inst 0b010 := by
  have fields : imm32 inst 0b010 =
      (inst.extractLsb' 25 7 ++ inst.extractLsb' 7 5).signExtend 32 := rfl
  apply BitVec.eq_of_getLsbD_eq
  intro k inWord
  simp only [fields, immS, sext, getLsbD_bits, BitVec.getLsbD_setWidth,
    BitVec.getLsbD_append, BitVec.getLsbD_or, BitVec.getLsbD_shiftLeft,
    BitVec.getLsbD_signExtend, BitVec.msb_eq_getLsbD_last, -Nat.reduceAdd,
    -Nat.reduceSub]
  interval_cases k <;> simp

theorem immB_eq (inst : Word) : immB inst = imm32 inst 0b011 := by
  have fields : imm32 inst 0b011 =
      (inst.extractLsb' 31 1 ++ inst.extractLsb' 7 1 ++
        inst.extractLsb' 25 6 ++ inst.extractLsb' 8 4 ++
        0#1).signExtend 32 := rfl
  apply BitVec.eq_of_getLsbD_eq
  intro k inWord
  simp only [fields, immB, sext, getLsbD_bits, BitVec.getLsbD_setWidth,
    BitVec.getLsbD_append, BitVec.getLsbD_and, BitVec.getLsbD_or,
    BitVec.getLsbD_shiftLeft, BitVec.getLsbD_signExtend,
    BitVec.msb_eq_getLsbD_last, -Nat.reduceAdd, -Nat.reduceSub]
  interval_cases k <;> simp

theorem immJ_eq (inst : Word) : immJ inst = imm32 inst 0b100 := by
  have fields : imm32 inst 0b100 =
      (inst.extractLsb' 31 1 ++ inst.extractLsb' 12 8 ++
        inst.extractLsb' 20 1 ++ inst.extractLsb' 21 10 ++
        0#1).signExtend 32 := rfl
  apply BitVec.eq_of_getLsbD_eq
  intro k inWord
  simp only [fields, immJ, sext, getLsbD_bits, BitVec.getLsbD_setWidth,
    BitVec.getLsbD_append, BitVec.getLsbD_and, BitVec.getLsbD_or,
    BitVec.getLsbD_shiftLeft, BitVec.getLsbD_signExtend,
    BitVec.msb_eq_getLsbD_last, -Nat.reduceAdd, -Nat.reduceSub]
  interval_cases k <;> simp

theorem decodeOperand_eq (inst : Word) (cpu : CpuState)
    (type : OperandType) :
    decodeOperand inst cpu type =
      let rs1 := Id.rs1 inst
      let src1 := cpu.gpr rs1
      let src2 := cpu.gpr (Id.rs2 inst)
      let rd := Id.rd inst
      match type with
      | .typeI => { rd, rs1, src1, imm := imm32 inst 0b000 }
      | .typeII =>
          { rd, rs1, src1 := rs1.setWidth 32, imm := imm32 inst 0b000 }
      | .typeU => { rd, rs1, imm := imm32 inst 0b001 }
      | .typeS => { rd, rs1, src1, src2, imm := imm32 inst 0b010 }
      | .typeJ => { rd, rs1, imm := imm32 inst 0b100 }
      | .typeB => { rd, rs1, src1, src2, imm := imm32 inst 0b011 }
      | .typeR => { rd, rs1, src1, src2 }
      | .typeN => { rd, rs1 } := by
  cases type <;>
    simp [decodeOperand, bits_setWidth, immI_eq, immU_eq, immS_eq, immB_eq,
      immJ_eq, Id.rs1, Id.rs2, Id.rd]

/-! ## Registers -/

theorem read_gpr (cpu : CpuState) (rs : BitVec 5) :
    Gpr.read cpu.gpr rs false 0 0 = cpu.gpr rs := by
  unfold Gpr.read
  by_cases zero : rs = 0
  · rw [if_pos zero, zero, cpu.gpr_zero]
  · rw [if_neg zero, if_neg (by simp)]

theorem write_gpr (cpu : CpuState) (we : Bool) (rd : BitVec 5)
    (value : Word) :
    Gpr.write cpu.gpr (Gpr.rfWe true we rd) rd value =
      if we then (cpu.setR rd value).gpr else cpu.gpr := by
  funext index
  have zero := cpu.gpr_zero
  cases we <;> simp [Gpr.write, Gpr.rfWe, CpuState.setR]
  grind

/-- The registers of the core that stand for NEMU's CSR file. -/
def csrOf (sr : BitVec 12 → Word) : Csr where
  mstatus := sr CSR_MSTATUS
  mtvec := sr CSR_MTVEC
  mepc := sr CSR_MEPC
  mcause := sr CSR_MCAUSE
  mtval := sr CSR_MTVAL
  mscratch := sr CSR_MSCRATCH

/-- The CSRs that both sides implement. -/
def sharedCsrs : List (BitVec 12) :=
  [CSR_MSTATUS, CSR_MTVEC, CSR_MSCRATCH, CSR_MEPC, CSR_MCAUSE, CSR_MTVAL]

section SharedCsrs

variable {addr : BitVec 12}

theorem csrExists_of_shared (shared : addr ∈ sharedCsrs) :
    csrExists addr = true := by
  simp only [sharedCsrs, List.mem_cons, List.not_mem_nil, or_false] at shared
  rcases shared with rfl | rfl | rfl | rfl | rfl | rfl <;> rfl

theorem read_csrOf (shared : addr ∈ sharedCsrs) (sr : BitVec 12 → Word) :
    (csrOf sr).read addr = sr addr := by
  simp only [sharedCsrs, List.mem_cons, List.not_mem_nil, or_false] at shared
  rcases shared with rfl | rfl | rfl | rfl | rfl | rfl <;> rfl

theorem write_csrOf (shared : addr ∈ sharedCsrs) (cpu : CpuState)
    (value : Word) :
    (csrOf cpu.sr).write addr value = csrOf (cpu.setSr addr value).sr := by
  simp only [sharedCsrs, List.mem_cons, List.not_mem_nil, or_false] at shared
  rcases shared with rfl | rfl | rfl | rfl | rfl | rfl <;> rfl

theorem setSr_self (addr : BitVec 12) (cpu : CpuState) :
    cpu.setSr addr (cpu.sr addr) = cpu := by
  have unchanged :
      (fun index => if index = addr then cpu.sr addr else cpu.sr index) =
        cpu.sr := by
    funext index
    by_cases same : index = addr
    · rw [if_pos same, same]
    · rw [if_neg same]
  unfold CpuState.setSr
  rw [unchanged]

end SharedCsrs

/-! ## The datapath without traps -/

section Plain

variable {cpu : CpuState} {csr : Csr} {pc inst : Word} {pmem : Pmem}
  {out : ControllerOut}

theorem retire_plain (decoded : control inst = out)
    (noCsr : out.isCsr = false) (noWrite : out.csrWe = false)
    (noMret : out.isMret = false) (noEcall : out.isEcall = false)
    (noException : out.excValid = false) :
    let rs1 := cpu.gpr (Id.rs1 inst)
    let rs2 := cpu.gpr (Id.rs2 inst)
    let imm := imm32 inst out.extOP
    let a := mux2 out.rs1DataExPc rs1 pc
    let b := mux3 out.rs2DataExImm32_4 rs2 imm 4
    let result := aluOut out.aluc a b
    let len := Datapath.readLen out.readMem
    Datapath.retire cpu.gpr csr pc inst pmem =
      { gpr :=
          if out.writeReg then
            (cpu.setR (Id.rd inst)
              (if out.readMem ≠ 0 then
                signExtend (hostRead pmem result len) out.readMem 0
              else result)).gpr
          else cpu.gpr
        csr
        npc :=
          if out.pcImmNextPcRs1Imm = 0b01 ∨ out.pcImmNextPcRs1Imm = 0b10 ∨
              conditionBranch out.aluc a b then
            if out.pcImmNextPcRs1Imm = 0b10 then (rs1 + imm) &&& 0xfffffffe
            else pc + imm
          else pc + 4
        request :=
          if out.readMem ≠ 0 then some (.read result len)
          else if out.writeMem ≠ 0 then
            some (.write result (Datapath.writeLen out.writeMem) rs2)
          else none } := by
  simp only [Datapath.retire, Datapath.complete, Datapath.execute,
    Datapath.decode, Datapath.request, Core.decodeBundle, decoded,
    Core.executeBundle, Core.memoryBundle, Core.finalWdata, Core.wbTrap,
    Core.wbCsrPort, Csr.next, noCsr, noWrite, noMret, noEcall, noException,
    read_gpr, write_gpr, immediate, Core.exTaken, Core.exTarget,
    Core.exCondition, Core.inAluA, Core.inAluB, Lsu.zeroed]
  simp [or_assoc]

end Plain

/-! ## Agreement of one INSTPAT -/

/-- What NEMU and the core do with an instruction is one and the same
transition of `cpu`. -/
def Agrees (cpu : CpuState) (outcome : Outcome) (retired : Retired) : Prop :=
  ∃ cpu' npc request,
    outcome = .done cpu' npc request ∧
    retired = ⟨cpu'.gpr, csrOf cpu'.sr, npc, request⟩ ∧
    ∀ addr ∉ sharedCsrs, cpu'.sr addr = cpu.sr addr

/-- The two sides agree on every word that takes the INSTPAT. -/
def RowAgrees (row : Instpat) : Prop :=
  ∀ (pc inst : Word) (cpu : CpuState) (pmem : Pmem),
    pc &&& 3 = 0 → row.pattern.Matches inst →
    (row.name.isCsr → inst.extractLsb' 20 12 ∈ sharedCsrs) →
    Agrees cpu (row.body pc (decodeOperand inst cpu row.type) cpu pmem)
      (Datapath.retire cpu.gpr (csrOf cpu.sr) pc inst pmem)

section Rows

variable {pattern : Pattern} {name : InstName} {type : OperandType}
  {f7 : BitVec 7} {f3 : BitVec 3}

theorem rowAgrees_rd {value : Word → Operands → Word} (fromPc : Bool)
    (operandB : BitVec 2) (aluc : BitVec 5) (extOP : BitVec 3)
    (decoded : ∀ inst, pattern.Matches inst →
      control inst =
        { writeReg := true, rs1DataExPc := fromPc,
          rs2DataExImm32_4 := operandB, aluc, extOP })
    (notBranch : ∀ a b, conditionBranch aluc a b = false)
    (sameValue : ∀ pc inst cpu,
      value pc (decodeOperand inst cpu type) =
        aluOut aluc (mux2 fromPc (cpu.gpr (Id.rs1 inst)) pc)
          (mux3 operandB (cpu.gpr (Id.rs2 inst)) (imm32 inst extOP) 4)) :
    RowAgrees ⟨pattern, name, type, rdBody value⟩ := by
  intro pc inst cpu pmem _ isMatch _
  refine ⟨_, _, _, rfl, ?_, fun _ _ => rfl⟩
  rw [retire_plain (decoded inst isMatch) rfl rfl rfl rfl rfl]
  simp only [notBranch, sameValue]
  cases type <;> simp [decodeOperand_eq, CpuState.setR]

theorem rowAgrees_lui :
    RowAgrees ⟨.opcode 0b01101, .lui, .typeU, rdBody fun _ d => d.imm⟩ := by
  refine rowAgrees_rd false 0b01 0b10001 0b001 (fun inst isMatch => ?_)
    (fun _ _ => rfl) fun pc inst cpu => ?_
  · simp [control, controller, fields_of_opcode isMatch]
  · rw [decodeOperand_eq]
    rfl

theorem rowAgrees_auipc :
    RowAgrees
      ⟨.opcode 0b00101, .auipc, .typeU, rdBody fun pc d => pc + d.imm⟩ := by
  refine rowAgrees_rd true 0b01 0b00000 0b001 (fun inst isMatch => ?_)
    (fun _ _ => rfl) fun pc inst cpu => ?_
  · simp [control, controller, fields_of_opcode isMatch]
  · rw [decodeOperand_eq]
    rfl

theorem rowAgrees_op {value : Word → Operands → Word}
    (sameValue : ∀ pc d, value pc d = aluOut (regAluc f3 f7) d.src1 d.src2)
    (notBranch : ∀ a b, conditionBranch (regAluc f3 f7) a b = false) :
    RowAgrees
      ⟨.funct7 f7 f3 0b01100, name, .typeR, rdBody value⟩ := by
  refine rowAgrees_rd false 0b00 (regAluc f3 f7) 0b111
    (fun inst isMatch => ?_) notBranch fun pc inst cpu => ?_
  · obtain ⟨opcode, func3, func7⟩ := fields_of_funct7 isMatch
    simp [control, controller, opcode, func3, func7]
  · rw [sameValue, decodeOperand_eq]
    rfl

theorem immAluc_of_ne (notRight : f3 ≠ 0b101) :
    immAluc f3 f7 = immAluc f3 0 := by
  revert f3 f7
  decide +kernel

theorem rowAgrees_opImm {value : Word → Operands → Word}
    (notRight : f3 ≠ 0b101)
    (sameValue : ∀ pc d, value pc d = aluOut (immAluc f3 0) d.src1 d.imm)
    (notBranch : ∀ a b, conditionBranch (immAluc f3 0) a b = false) :
    RowAgrees
      ⟨.funct3 f3 0b00100, name, .typeI, rdBody value⟩ := by
  refine rowAgrees_rd false 0b01 (immAluc f3 0) 0b000
    (fun inst isMatch => ?_) notBranch fun pc inst cpu => ?_
  · obtain ⟨opcode, func3⟩ := fields_of_funct3 isMatch
    simp [control, controller, opcode, func3, immAluc_of_ne notRight]
    exact fun right => absurd right notRight
  · simp [sameValue, decodeOperand_eq, mux2, mux3]

theorem rowAgrees_shiftImm {value : Word → Operands → Word}
    (sameValue : ∀ pc inst cpu,
      value pc (decodeOperand inst cpu .typeI) =
       aluOut (immAluc f3 f7) (cpu.gpr (Id.rs1 inst)) 
         (imm32 inst (if f3 = 0b101 ∧ f7.getLsbD 5 then 0b101 else 0b000)))
    (notBranch : ∀ a b, conditionBranch (immAluc f3 f7) a b = false) :
    RowAgrees
      ⟨.funct7 f7 f3 0b00100, name, .typeI, rdBody value⟩ := by
  refine rowAgrees_rd false 0b01 (immAluc f3 f7) _
    (fun inst isMatch => ?_) notBranch sameValue
  obtain ⟨opcode, func3, func7⟩ := fields_of_funct7 isMatch
  simp [control, controller, opcode, func3, func7]

/-! ### Jumps and branches -/

/-- The link value of `jalr` leaves the ALU with bit 0 cleared. -/
theorem linkValue_of_aligned {pc : Word} (aligned : pc &&& 3 = 0) :
    (pc + 4) &&& ~~~1#32 = pc + 4 := by
  have multiple : pc.toNat % 4 = 0 := by
    have toNat := congrArg BitVec.toNat aligned
    rwa [BitVec.toNat_and, show (3 : Word).toNat = 2 ^ 2 - 1 from rfl,
      Nat.and_two_pow_sub_one_eq_mod] at toNat
  have even : (pc + 4).getLsbD 0 = false := by
    simp [BitVec.getLsbD, Nat.testBit_zero, BitVec.toNat_add]
    omega
  apply BitVec.eq_of_getLsbD_eq
  intro k inWord
  rw [BitVec.getLsbD_and, BitVec.getLsbD_not, BitVec.getLsbD_one]
  by_cases low : k = 0
  · rw [low, even, Bool.false_and]
  · simp [low, inWord]

theorem link_setR (cpu : CpuState) (rd : BitVec 5) (value : Word) :
    (if (rd != 0) = true then (cpu.setR rd value).gpr else cpu.gpr) =
      (cpu.setR rd value).gpr := by
  have zero := cpu.gpr_zero
  by_cases noLink : rd = 0
  · funext index
    simp [noLink, CpuState.setR]
    grind
  · rw [if_pos (by simpa using noLink)]

theorem rowAgrees_jal :
    RowAgrees
      ⟨.opcode 0b11011, .jal, .typeJ, jumpBody fun pc d => pc + d.imm⟩ := by
  intro pc inst cpu pmem _ isMatch _
  have decoded : control inst =
      { writeReg := Id.rd inst != 0, rs1DataExPc := true,
        rs2DataExImm32_4 := 0b11, pcImmNextPcRs1Imm := 0b01,
        extOP := 0b100 } := by
    simp [control, controller, fields_of_opcode isMatch]
  refine ⟨_, _, _, rfl, ?_, fun _ _ => rfl⟩
  rw [retire_plain decoded rfl rfl rfl rfl rfl]
  simp only [link_setR]
  simp [decodeOperand_eq, mux2, mux3, aluOut, CpuState.setR]

theorem rowAgrees_jalr :
    RowAgrees
      ⟨.funct3 0b000 0b11001, .jalr, .typeI,
        jumpBody fun _ d => (d.src1 + d.imm) &&& ~~~1⟩ := by
  intro pc inst cpu pmem aligned isMatch _
  have decoded : control inst =
      { writeReg := Id.rd inst != 0, rs1DataExPc := true,
        rs2DataExImm32_4 := 0b11, aluc := 0b01010,
        pcImmNextPcRs1Imm := 0b10 } := by
    simp [control, controller, fields_of_funct3 isMatch]
  refine ⟨_, _, _, rfl, ?_, fun _ _ => rfl⟩
  rw [retire_plain decoded rfl rfl rfl rfl rfl]
  have linkValue : (pc + 4#32) &&& 4294967294#32 = pc + 4#32 :=
    linkValue_of_aligned aligned
  simp only [link_setR]
  simp [decodeOperand_eq, mux2, mux3, aluOut, linkValue, CpuState.setR]

theorem rowAgrees_branch {taken : Word → Word → Bool}
    (sameTaken : ∀ a b, taken a b = conditionBranch (branchAluc f3) a b) :
    RowAgrees
      ⟨.funct3 f3 0b11000, name, .typeB, branchBody taken⟩ := by
  intro pc inst cpu pmem _ isMatch _
  have decoded : control inst =
      { aluc := branchAluc f3, extOP := 0b011 } := by
    simp [control, controller, fields_of_funct3 isMatch]
  refine ⟨_, _, _, rfl, ?_, fun _ _ => rfl⟩
  rw [retire_plain decoded rfl rfl rfl rfl rfl]
  simp [decodeOperand_eq, mux2, mux3, sameTaken]

/-! ### Loads and stores -/

theorem rowAgrees_load {extend : Word → Word} {len : Nat}
    (isLoad : loadReadMem f3 ≠ 0#3)
    (sameLen : Datapath.readLen (loadReadMem f3) = len)
    (sameValue : ∀ pmem addr,
      extend (hostRead pmem addr len) =
        signExtend (hostRead pmem addr len) (loadReadMem f3) 0) :
    RowAgrees
      ⟨.funct3 f3 0b00000, name, .typeI, loadBody len extend⟩ := by
  intro pc inst cpu pmem _ isMatch _
  have decoded : control inst =
      { writeReg := true, aluOutWbMemOut := true,
        rs2DataExImm32_4 := 0b01, readMem := loadReadMem f3 } := by
    simp [control, controller, fields_of_funct3 isMatch]
  refine ⟨_, _, _, rfl, ?_, fun _ _ => rfl⟩
  rw [retire_plain decoded rfl rfl rfl rfl rfl]
  simp [decodeOperand_eq, mux2, mux3, aluOut, conditionBranch, isLoad,
    sameLen, sameValue, CpuState.setR]

theorem rowAgrees_store {len : Nat}
    (isStore : storeWriteMem f3 ≠ 0#2)
    (sameLen : Datapath.writeLen (storeWriteMem f3) = len) :
    RowAgrees
      ⟨.funct3 f3 0b01000, name, .typeS, storeBody len⟩ := by
  intro pc inst cpu pmem _ isMatch _
  have decoded : control inst =
      { rs2DataExImm32_4 := 0b01, extOP := 0b010,
        writeMem := storeWriteMem f3 } := by
    simp [control, controller, fields_of_funct3 isMatch]
  refine ⟨_, _, _, rfl, ?_, fun _ _ => rfl⟩
  rw [retire_plain decoded rfl rfl rfl rfl rfl]
  simp [decodeOperand_eq, mux2, mux3, aluOut, conditionBranch, isStore,
    sameLen]

/-! ### CSR instructions -/

theorem retire_csr {cpu : CpuState} {csr : Csr} {pc inst : Word}
    {pmem : Pmem} {csrWe : Bool} {addr : BitVec 12} {useImm : Bool}
    (decoded : control inst =
      { isCsr := true, writeReg := true, csrAddr := addr,
        csrUseImm := useImm, csrWe }) :
    let old := csr.read addr
    let operand :=
      if (Id.func3 inst).getLsbD 2 then (Id.rs1 inst).zeroExtend 32
      else cpu.gpr (Id.rs1 inst)
    Datapath.retire cpu.gpr csr pc inst pmem =
      { gpr := (cpu.setR (Id.rd inst) old).gpr
        csr :=
          if csrWe then
            csr.write addr (Core.csrWdata (Id.func3 inst) old operand)
          else csr
        npc := pc + 4
        request := none } := by
  simp only [Datapath.retire, Datapath.complete, Datapath.execute,
    Datapath.decode, Datapath.request, Core.decodeBundle, decoded,
    Core.executeBundle, Core.memoryBundle, Core.finalWdata, Core.wbTrap,
    Core.wbCsrPort, Csr.next, Core.csrOpData,
    read_gpr, write_gpr, immediate, Core.exTaken, Core.exTarget,
    Core.exCondition, Core.inAluA, Core.inAluB, Lsu.zeroed]
  simp [conditionBranch]

theorem setSr_frame {cpu : CpuState} {shared addr : BitVec 12} {value : Word}
    (isShared : shared ∈ sharedCsrs) (notShared : addr ∉ sharedCsrs) :
    (cpu.setSr shared value).sr addr = cpu.sr addr := by
  have different : addr ≠ shared := fun same => notShared (same ▸ isShared)
  exact if_neg different

theorem csrBody_eq (update : BitVec 5 → Word → Word → Option Word)
    (pc : Word) (d : Operands) (cpu : CpuState) (pmem : Pmem)
    {addr : BitVec 12} (sameAddr : d.imm.setWidth 12 = addr)
    (exist : csrExists addr = true) :
    let old := cpu.sr addr
    csrBody update pc d cpu pmem =
      .done ((cpu.setR d.rd old).setSr addr
        ((update d.rs1 old d.src1).getD old)) (pc + 4) none := by
  simp only [csrBody, sameAddr, exist, if_true]
  cases update d.rs1 (cpu.sr addr) d.src1 with
  | some value => rfl
  | none =>
    have unchanged :=
      setSr_self addr (cpu.setR d.rd (cpu.sr addr))
    exact congrArg (Outcome.done · (pc + 4) none) unchanged.symm

theorem imm32_csrAddr (inst : Word) :
    (imm32 inst 0b000).setWidth 12 = inst.extractLsb' 20 12 := by
  have field : imm32 inst 0b000 = (inst.extractLsb' 20 12).signExtend 32 :=
    rfl
  ext k inAddr
  have inWord : k < 32 := by omega
  rw [field, BitVec.getElem_setWidth, BitVec.getLsbD_signExtend]
  simp [inAddr, inWord]

/-- The register or immediate that a CSR instruction writes or masks with. -/
def csrOperand (f3 : BitVec 3) (cpu : CpuState) (rs1 : BitVec 5) : Word :=
  if f3.getLsbD 2 then rs1.zeroExtend 32 else cpu.gpr rs1

theorem csrOperand_zero (cpu : CpuState) : csrOperand f3 cpu 0 = 0 := by
  unfold csrOperand
  split
  · rfl
  · exact cpu.gpr_zero

theorem decodeOperand_csr (inst : Word) (cpu : CpuState) :
    decodeOperand inst cpu (if f3.getLsbD 2 then .typeII else .typeI) =
      { rd := Id.rd inst, rs1 := Id.rs1 inst,
        src1 := csrOperand f3 cpu (Id.rs1 inst),
        imm := imm32 inst 0b000 } := by
  unfold csrOperand
  split <;> rw [decodeOperand_eq]

theorem rowAgrees_csr {update : BitVec 5 → Word → Word → Option Word}
    (isCsr : name.isCsr) (f3Csr : f3 ≠ 0b000)
    (operandType : type = if f3.getLsbD 2 then .typeII else .typeI)
    (sameUpdate : ∀ rs1 old src1, (rs1 = 0 → src1 = 0) →
      (update rs1 old src1).getD old =
        if systemCsrWe f3 rs1 then Core.csrWdata f3 old src1 else old) :
    RowAgrees
      ⟨.funct3 f3 0b11100, name, type, csrBody update⟩ := by
  intro pc inst cpu pmem _ isMatch shared
  have shared := shared isCsr
  obtain ⟨opcode, func3⟩ := fields_of_funct3 isMatch
  have notEcall : inst ≠ 0x00000073#32 := by
    rintro rfl
    exact f3Csr func3.symm
  have notMret : inst ≠ 0x30200073#32 := by
    rintro rfl
    exact f3Csr func3.symm
  have decoded : control inst =
      { isCsr := true, writeReg := true,
        csrAddr := inst.extractLsb' 20 12, csrUseImm := f3.getLsbD 2,
        csrWe := systemCsrWe f3 (Id.rs1 inst) } := by
    simp [control, controller, opcode, func3, notEcall, notMret]
  have noOperand : Id.rs1 inst = 0 → csrOperand f3 cpu (Id.rs1 inst) = 0 :=
    fun zero => zero ▸ csrOperand_zero cpu
  let addr := inst.extractLsb' 20 12
  let old := cpu.sr addr
  let value :=
    (update (Id.rs1 inst) old (csrOperand f3 cpu (Id.rs1 inst))).getD old
  refine ⟨(cpu.setR (Id.rd inst) old).setSr addr value, pc + 4, none,
    ?_, ?_, ?_⟩
  · simp only [operandType, decodeOperand_csr]
    exact csrBody_eq update pc _ cpu pmem (imm32_csrAddr inst)
      (csrExists_of_shared shared)
  · have sameValue : value = _ := sameUpdate _ _ _ noOperand
    rw [retire_csr decoded, func3, read_csrOf shared, ← write_csrOf shared,
      sameValue]
    split
    · rfl
    · have unchanged := write_csrOf shared cpu old
      rw [setSr_self] at unchanged
      exact congrArg (Retired.mk _ · _ _) unchanged.symm
  · exact fun other notShared => setSr_frame shared notShared

/-! ### Traps -/

theorem trapMstatus_eq (mstatus : Word) :
    (((mstatus &&& ~~~(1#32 <<< 7)) ||| (((mstatus >>> 3) &&& 1) <<< 7)) &&&
        ~~~(1#32 <<< 3)) ||| (3#32 <<< 11) =
      Csr.trapMstatus mstatus := by
  unfold Csr.trapMstatus
  apply BitVec.eq_of_getLsbD_eq
  intro k inWord
  cases mie : mstatus.getLsbD 3 <;> interval_cases k <;> simp_all

theorem mretMstatus_eq (mstatus : Word) :
    ((mstatus &&& ~~~(1#32 <<< 3)) ||| (((mstatus >>> 7) &&& 1) <<< 3)) |||
        (1#32 <<< 7) =
      Csr.mretMstatus mstatus := by
  unfold Csr.mretMstatus
  apply BitVec.eq_of_getLsbD_eq
  intro k inWord
  cases mpie : mstatus.getLsbD 7 <;> interval_cases k <;> simp_all

theorem isaRaiseIntr_frame {cpu : CpuState} {no epc : Word}
    {addr : BitVec 12} (notShared : addr ∉ sharedCsrs) :
    (isaRaiseIntr cpu no epc).sr addr = cpu.sr addr := by
  unfold isaRaiseIntr
  rw [setSr_frame (by decide) notShared, setSr_frame (by decide) notShared,
    setSr_frame (by decide) notShared, setSr_frame (by decide) notShared]

theorem isaRaiseIntr_ecall (cpu : CpuState) (pc : Word) :
    csrOf (isaRaiseIntr cpu MCA_ENV_CAL_MMO pc).sr =
      { csrOf cpu.sr with
        mepc := pc
        mtval := 0
        mcause := 11
        mstatus := Csr.trapMstatus (cpu.sr CSR_MSTATUS) } := by
  rw [← trapMstatus_eq]
  rfl

theorem rowAgrees_ecall :
    RowAgrees ⟨.exact 0x00000073, .ecall, .typeN, ecallBody⟩ := by
  intro pc inst cpu pmem _ isMatch _
  obtain rfl := eq_of_exact isMatch
  refine ⟨_, _, _, rfl, ?_, ?_⟩
  · rw [isaRaiseIntr_ecall]
    have decoded : control 0x00000073 =
        { isCsr := true, excValid := true, excCause := 11,
          isEcall := true } := rfl
    simp only [Datapath.retire, Datapath.complete, Datapath.execute,
      Datapath.decode, Datapath.request, Core.decodeBundle, decoded,
      Core.executeBundle, Core.memoryBundle, Core.wbTrap, Core.wbCsrPort,
      Csr.next, write_gpr, Lsu.zeroed]
    rfl
  · exact fun addr notShared => isaRaiseIntr_frame notShared

theorem rowAgrees_mret :
    RowAgrees ⟨.exact 0x30200073, .mret, .typeN, mretBody⟩ := by
  intro pc inst cpu pmem _ isMatch _
  obtain rfl := eq_of_exact isMatch
  refine ⟨_, _, _, rfl, ?_, ?_⟩
  · have decoded : control 0x30200073 = { isCsr := true, isMret := true } :=
      rfl
    simp only [Datapath.retire, Datapath.complete, Datapath.execute,
      Datapath.decode, Datapath.request, Core.decodeBundle, decoded,
      Core.executeBundle, Core.memoryBundle, Core.wbTrap, Core.wbCsrPort,
      Csr.next, write_gpr, Lsu.zeroed]
    have mstatus := mretMstatus_eq (cpu.sr CSR_MSTATUS)
    exact congrArg
      (fun mstatus => Retired.mk cpu.gpr { csrOf cpu.sr with mstatus }
        (cpu.sr CSR_MEPC) none) mstatus.symm
  · exact fun addr notShared => setSr_frame (by decide) notShared

end Rows

/-! ## The whole table -/

/-- Shift amounts are the low five bits on both sides. -/
theorem shiftAmount_eq (x : Word) :
    (bits x 4 0).toNat = (x.extractLsb' 0 5).toNat := by
  have low : (bits x 4 0).setWidth 5 = x.extractLsb' 0 5 :=
    bits_setWidth x rfl (by decide)
  rw [← low, BitVec.toNat_setWidth]
  have mask : (bits x 4 0).toNat = x.toNat % 2 ^ 5 := by
    rw [bits, BitVec.toNat_and]
    exact Nat.and_two_pow_sub_one_eq_mod x.toNat 5
  omega

theorem shiftLeft_bits (a b : Word) :
    a <<< bits b 4 0 = a <<< b.extractLsb' 0 5 :=
  congrArg (BitVec.shiftLeft a) (shiftAmount_eq b)

theorem ushiftRight_bits (a b : Word) :
    a >>> bits b 4 0 = a >>> b.extractLsb' 0 5 :=
  congrArg (BitVec.ushiftRight a) (shiftAmount_eq b)

theorem sshiftRight_bits (a b : Word) :
    a.sshiftRight' (bits b 4 0) = a.sshiftRight' (b.extractLsb' 0 5) :=
  congrArg (BitVec.sshiftRight a) (shiftAmount_eq b)

/-- `srai` clears bit 10 of the immediate, which is no part of the shift
amount. -/
theorem srai_amount (inst : Word) :
    (imm32 inst 0b101).extractLsb' 0 5 =
      (imm32 inst 0b000).extractLsb' 0 5 := by
  have fields : imm32 inst 0b101 = imm32 inst 0b000 &&& ~~~0x400#32 := rfl
  have kept : (~~~0x400#32).extractLsb' 0 5 = BitVec.allOnes 5 := by decide
  rw [fields, BitVec.extractLsb'_and, kept, BitVec.and_allOnes]

theorem rowAgrees_shifts :
    RowAgrees ⟨.funct7 0b0000000 0b001 0b00100, .slli, .typeI,
      rdBody fun _ d => d.src1 <<< bits d.imm 4 0⟩ ∧
    RowAgrees ⟨.funct7 0b0000000 0b101 0b00100, .srli, .typeI,
      rdBody fun _ d => d.src1 >>> bits d.imm 4 0⟩ ∧
    RowAgrees ⟨.funct7 0b0100000 0b101 0b00100, .srai, .typeI,
      rdBody fun _ d => d.src1.sshiftRight' (bits d.imm 4 0)⟩ := by
  refine ⟨rowAgrees_shiftImm (fun _ inst cpu => ?_) fun _ _ => rfl,
    rowAgrees_shiftImm (fun _ inst cpu => ?_) fun _ _ => rfl,
    rowAgrees_shiftImm (fun _ inst cpu => ?_) fun _ _ => rfl⟩ <;>
    simp only [decodeOperand_eq]
  · exact shiftLeft_bits _ _
  · exact ushiftRight_bits _ _
  · rw [sshiftRight_bits, ← srai_amount]
    rfl

theorem zeroExtend_extract {len : Nat} (small : len ≤ 32) (x : BitVec len) :
    ((x.zeroExtend 32).extractLsb' 0 len).zeroExtend 32 =
      x.zeroExtend 32 := by
  rw [BitVec.extractLsb'_setWidth_of_le (by omega), BitVec.extractLsb'_eq_self]

theorem rowAgrees_loads :
    RowAgrees ⟨.funct3 0b000 0b00000, .lb, .typeI,
      loadBody 1 fun x => (x.setWidth 8).signExtend 32⟩ ∧
    RowAgrees ⟨.funct3 0b001 0b00000, .lh, .typeI,
      loadBody 2 fun x => (x.setWidth 16).signExtend 32⟩ ∧
    RowAgrees ⟨.funct3 0b010 0b00000, .lw, .typeI, loadBody 4 id⟩ ∧
    RowAgrees ⟨.funct3 0b100 0b00000, .lbu, .typeI, loadBody 1 id⟩ ∧
    RowAgrees ⟨.funct3 0b101 0b00000, .lhu, .typeI, loadBody 2 id⟩ := by
  refine ⟨rowAgrees_load (by decide) rfl fun pmem addr => ?_,
    rowAgrees_load (by decide) rfl fun pmem addr => ?_,
    rowAgrees_load (by decide) rfl fun _ _ => rfl,
    rowAgrees_load (by decide) rfl fun pmem addr => ?_,
    rowAgrees_load (by decide) rfl fun pmem addr => ?_⟩
  · exact congrArg (BitVec.signExtend 32)
      (BitVec.setWidth_eq_extractLsb' (by decide))
  · exact congrArg (BitVec.signExtend 32)
      (BitVec.setWidth_eq_extractLsb' (by decide))
  · exact (zeroExtend_extract (by decide) (pmem addr)).symm
  · exact (zeroExtend_extract (by decide)
      (pmem (addr + 1) ++ pmem addr)).symm

theorem rowAgrees_csrs :
    RowAgrees ⟨.funct3 0b001 0b11100, .csrrw, .typeI,
      csrBody fun _ _ src1 => some src1⟩ ∧
    RowAgrees ⟨.funct3 0b010 0b11100, .csrrs, .typeI,
      csrBody fun rs1 old src1 =>
        if rs1 ≠ 0 then some (old ||| src1) else none⟩ ∧
    RowAgrees ⟨.funct3 0b011 0b11100, .csrrc, .typeI,
      csrBody fun rs1 old src1 =>
        if rs1 ≠ 0 then some (old &&& ~~~src1) else none⟩ ∧
    RowAgrees ⟨.funct3 0b101 0b11100, .csrrwi, .typeII,
      csrBody fun _ _ src1 => some src1⟩ ∧
    RowAgrees ⟨.funct3 0b110 0b11100, .csrrsi, .typeII,
      csrBody fun rs1 old src1 =>
        if rs1 ≠ 0 then some (old ||| src1) else none⟩ ∧
    RowAgrees ⟨.funct3 0b111 0b11100, .csrrci, .typeII,
      csrBody fun rs1 old src1 =>
        if rs1 ≠ 0 then some (old &&& ~~~src1) else none⟩ := by
  refine ⟨rowAgrees_csr rfl (by decide) rfl fun _ _ _ _ => rfl,
    rowAgrees_csr rfl (by decide) rfl fun rs1 old src1 _ => ?_,
    rowAgrees_csr rfl (by decide) rfl fun rs1 old src1 noOperand => ?_,
    rowAgrees_csr rfl (by decide) rfl fun _ _ _ _ => rfl,
    rowAgrees_csr rfl (by decide) rfl fun rs1 old src1 _ => ?_,
    rowAgrees_csr rfl (by decide) rfl fun rs1 old src1 noOperand => ?_⟩
  all_goals
    by_cases zero : rs1 = 0 <;> simp_all [systemCsrWe, Core.csrWdata]
  -- a clear with no bits selected is still written by the core
  all_goals exact BitVec.and_allOnes.symm

/-- The base ISA and the privileged instructions. -/
def inScope (row : Instpat) : Bool :=
  row.name != .inv && row.name != .ebreak && !row.name.isMExt

theorem rowAgrees_of_mem :
    ∀ row ∈ instpats, inScope row → RowAgrees row := by
  obtain ⟨lb, lh, lw, lbu, lhu⟩ := rowAgrees_loads
  obtain ⟨slli, srli, srai⟩ := rowAgrees_shifts
  obtain ⟨csrrw, csrrs, csrrc, csrrwi, csrrsi, csrrci⟩ := rowAgrees_csrs
  simp only [instpats, List.forall_mem_cons]
  refine ⟨fun _ => rowAgrees_lui, fun _ => rowAgrees_auipc,
    fun _ => rowAgrees_jal, fun _ => rowAgrees_jalr,
    fun _ => rowAgrees_branch fun _ _ => rfl,
    fun _ => rowAgrees_branch fun _ _ => rfl,
    fun _ => rowAgrees_branch fun _ _ => rfl,
    fun _ => rowAgrees_branch fun _ _ => rfl,
    fun _ => rowAgrees_branch fun _ _ => rfl,
    fun _ => rowAgrees_branch fun _ _ => rfl,
    fun _ => lb, fun _ => lh, fun _ => lw, fun _ => lbu, fun _ => lhu,
    fun _ => rowAgrees_store (by decide) rfl,
    fun _ => rowAgrees_store (by decide) rfl,
    fun _ => rowAgrees_store (by decide) rfl,
    -- OP-IMM
    fun _ => rowAgrees_opImm (by decide) (fun _ _ => rfl) fun _ _ => rfl,
    fun _ => rowAgrees_opImm (by decide) (fun _ _ => rfl) fun _ _ => rfl,
    fun _ => rowAgrees_opImm (by decide) (fun _ _ => rfl) fun _ _ => rfl,
    fun _ => rowAgrees_opImm (by decide) (fun _ _ => rfl) fun _ _ => rfl,
    fun _ => rowAgrees_opImm (by decide) (fun _ _ => rfl) fun _ _ => rfl,
    fun _ => rowAgrees_opImm (by decide) (fun _ _ => rfl) fun _ _ => rfl,
    fun _ => slli, fun _ => srli, fun _ => srai,
    -- OP
    fun _ => rowAgrees_op (fun _ _ => rfl) fun _ _ => rfl,
    fun _ => rowAgrees_op (fun _ _ => rfl) fun _ _ => rfl,
    fun _ => rowAgrees_op (fun _ d => shiftLeft_bits d.src1 d.src2)
      fun _ _ => rfl,
    fun _ => rowAgrees_op (fun _ _ => rfl) fun _ _ => rfl,
    fun _ => rowAgrees_op (fun _ _ => rfl) fun _ _ => rfl,
    fun _ => rowAgrees_op (fun _ _ => rfl) fun _ _ => rfl,
    fun _ => rowAgrees_op (fun _ d => ushiftRight_bits d.src1 d.src2)
      fun _ _ => rfl,
    fun _ => rowAgrees_op (fun _ d => sshiftRight_bits d.src1 d.src2)
      fun _ _ => rfl,
    fun _ => rowAgrees_op (fun _ _ => rfl) fun _ _ => rfl,
    fun _ => rowAgrees_op (fun _ _ => rfl) fun _ _ => rfl,
    -- the M extension is out of scope
    nofun, nofun, nofun, nofun, nofun, nofun, nofun, nofun,
    -- SYSTEM
    fun _ => rowAgrees_ecall, nofun, fun _ => rowAgrees_mret,
    fun _ => csrrw, fun _ => csrrs, fun _ => csrrc,
    fun _ => csrrwi, fun _ => csrrsi, fun _ => csrrci, nofun, nofun⟩

/-- RTL and reference interpreter agree on every word that `decode_exec`
accepts, outside the M extension and `ebreak`. -/
theorem retire_agrees {pc inst : Word} {cpu : CpuState} {pmem : Pmem}
    {row : Instpat} (aligned : pc &&& 3 = 0)
    (decoded : selected inst = some row) (inScope : inScope row)
    (csrAddr : row.name.isCsr → inst.extractLsb' 20 12 ∈ sharedCsrs) :
    Agrees cpu (decodeExec pc inst cpu pmem)
      (Datapath.retire cpu.gpr (csrOf cpu.sr) pc inst pmem) := by
  have listed : row ∈ instpats := List.mem_of_find?_eq_some decoded
  have isMatch : row.pattern.Matches inst := by
    simpa using List.find?_some decoded
  have agrees := rowAgrees_of_mem row listed inScope pc inst cpu pmem
    aligned isMatch csrAddr
  unfold decodeExec
  rw [decoded]
  exact agrees

/-- `addi x1, x2, -1`, with `x2 = 7`. -/
theorem retire_agrees_addi :
    let cpu : CpuState :=
      { gpr := fun index => if index = 2 then 7 else 0
        sr := fun _ => 0
        gpr_zero := rfl }
    Agrees cpu (decodeExec 0x80000000 0xfff10093 cpu fun _ => 0)
      (Datapath.retire cpu.gpr (csrOf cpu.sr) 0x80000000 0xfff10093
        fun _ => 0) :=
  retire_agrees (by decide) rfl (by decide) (by decide)

end Ysyx.Rtl
