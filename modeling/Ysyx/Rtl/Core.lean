import Ysyx.Rtl.Decode
import Ysyx.Rtl.Execute
import Ysyx.Rtl.RegFiles
import Ysyx.Rtl.Frontend
import Ysyx.Rtl.ICache
import Ysyx.Rtl.Lsu
import Ysyx.Rtl.Bus

/-!
# The five-stage core

`ysyx_25040131`: the pipeline registers, the hazard, forwarding and redirect
logic, and the instances of the units, as one synchronous machine.
-/

namespace Ysyx.Rtl

/-- The ICache instance of the core: 16 sets, 8-byte lines. -/
def Platform.icacheParams (platform : Platform) : ICacheParams where
  indexWidth := 4
  blockWidth := 3
  burstAddrLo := platform.burstAddrLo
  burstAddrHi := platform.burstAddrHi
  one_le_indexWidth := by decide
  three_le_blockWidth := by decide
  width_lt := by decide

/-- The latch that keeps forwarded operands while EX is stalled. -/
structure ExLatch where
  exRs1Latched : Word := 0
  exRs2Latched : Word := 0
  exDataLatched : Bool := false
  deriving DecidableEq, Repr

/-- All registers of `ysyx_25040131`. -/
structure Core (platform : Platform) where
  ifu : Ifu
  icache : ICache platform.icacheParams
  btb : Btb
  ras : Ras 3
  ifId : Pipcon IfIdData
  idEx : Pipcon IdExData
  exLatch : ExLatch
  exMem : Pipcon ExMemData
  lsu : Lsu
  memWb : Pipcon MemWbData
  gpr : Gpr
  csr : Csr
  bus : Bus

namespace Core

variable {platform : Platform}

/-! ## WB stage -/

/-- `wbu_trap_fire`. -/
def wbuTrapFire (core : Core platform) : Bool :=
  core.memWb.validOut && core.memWb.dataOut.excValid

/-- `wbu_mret_fire`. -/
def wbuMretFire (core : Core platform) : Bool :=
  core.memWb.validOut && core.memWb.dataOut.ctrlWb.isMret

/-- `global_trap_flush`. -/
def globalTrapFlush (core : Core platform) : Bool :=
  core.wbuTrapFire || core.wbuMretFire

/-- `wbu_valid`: an instruction commits in this cycle. -/
def wbuValid (core : Core platform) : Bool := core.memWb.validOut

/-- `wb_final_wdata`, the value written back to the register file. -/
def finalWdata (data : MemWbData) : Word :=
  if data.ctrlWb.isCsr then data.csrRdata
  else if data.ctrlWb.readMem ≠ 0 then data.memRdata
  else data.aluResult

def wbFinalWdata (core : Core platform) : Word :=
  finalWdata core.memWb.dataOut

/-- `rf_we` of the register file. -/
def rfWe (core : Core platform) : Bool :=
  Gpr.rfWe core.memWb.validOut core.memWb.dataOut.ctrlWb.writeReg
    core.memWb.dataOut.rdIdx

/-- `ysyx_25040131_next_pc`: `trap_taken` and `trap_target_pc`. -/
def wbTrap (data : MemWbData) (mepc mtvec : Word) : Option Word :=
  if data.accessFault then some 0
  else if data.ctrlWb.isMret then some mepc
  else if data.excValid then some mtvec
  else none

/-- `final_wbu_npc`, the next pc reported with a commit. -/
def finalWbuNpc (core : Core platform) : Word :=
  (wbTrap core.memWb.dataOut core.csr.mepc core.csr.mtvec).getD
    core.memWb.dataOut.npc

/-- The CSR write port of `u_csr`, as MEM/WB drives it. -/
def wbCsrPort (memWb : Pipcon MemWbData) : Csr.WritePort :=
  let valid := memWb.validOut
  let data := memWb.dataOut
  { prevValid := valid
    csrWaddr := data.csrAddr
    csrWe := data.ctrlWb.csrWe && !data.excValid && valid
    csrWdata := data.csrWdata
    excValid := data.excValid && valid
    excPc := data.pc
    excCause := data.excCause
    excTval := data.excTval
    isEcall := data.ctrlWb.isEcall && valid
    isMret := data.ctrlWb.isMret && valid }

def csrPort (core : Core platform) : Csr.WritePort := wbCsrPort core.memWb

/-! ## Handshakes -/

/-- `mem_wb_ready_out`; WB is always ready. -/
def memWbReadyOut (core : Core platform) : Bool :=
  core.memWb.readyOut true

/-- `mem_valid`, the `out_valid` of the LSU. -/
def memValid (core : Core platform) : Bool :=
  core.lsu.outValid core.exMem.validOut core.memWbReadyOut
    core.exMem.dataOut.ctrlMem.readMem core.exMem.dataOut.ctrlMem.writeMem

/-- `mem_ready`, the `out_ready` of the LSU. -/
def memReady (core : Core platform) : Bool :=
  core.lsu.outReady core.exMem.validOut core.memWbReadyOut
    core.exMem.dataOut.ctrlMem.readMem core.exMem.dataOut.ctrlMem.writeMem

/-- `ex_mem_ready_out`, which is also `exu_ready`. -/
def exMemReadyOut (core : Core platform) : Bool :=
  core.exMem.readyOut core.memReady

/-- `id_ex_ready_out`, which is also `idu_ready`. -/
def idExReadyOut (core : Core platform) : Bool :=
  core.idEx.readyOut core.exMemReadyOut

/-! ## ID stage -/

/-- The instruction held in IF/ID. -/
def idInst (core : Core platform) : Word := core.ifId.dataOut.inst

/-- `hazard_stall` and `hazard_flush`. -/
def hazardStall (core : Core platform) : Bool :=
  hazard (Id.rs1 core.idInst) (Id.rs2 core.idInst)
    core.idEx.dataOut.rdIdx (core.idEx.dataOut.ctrlMem.readMem != 0)
    core.exMem.dataOut.rdIdx (core.exMem.dataOut.ctrlMem.readMem != 0)
    core.exMemReadyOut

/-- `if_id_ready_hazard`. -/
def ifIdReadyHazard (core : Core platform) : Bool :=
  core.idExReadyOut && !core.hazardStall

/-- `if_id_ready_out`. -/
def ifIdReadyOut (core : Core platform) : Bool :=
  core.ifId.readyOut core.ifIdReadyHazard

/-- `id_ex_flush_hazard`: the load-use bubble. -/
def idExFlushHazard (core : Core platform) : Bool :=
  core.hazardStall && core.idExReadyOut

/-- `ras_hit`. -/
def rasHit (core : Core platform) : Bool :=
  core.ras.hit core.ifId.validOut (idIsRet core.idInst)

/-- `ras_target`. -/
def rasTarget (core : Core platform) : Word := core.ras.target

/-- `idu_is_fence_i`. -/
def isFenceI (core : Core platform) : Bool := iduIsFenceI core.idInst

/-- A read port of the register file. -/
def readReg (core : Core platform) (rs : BitVec 5) : Word :=
  core.gpr.read rs core.rfWe core.memWb.dataOut.rdIdx core.wbFinalWdata

/-- The bundle IDU builds from an IF/ID bundle, its register operands and
the RAS answer. -/
def decodeBundle (data : IfIdData) (rs1Data rs2Data : Word)
    (rasHit : Bool) (rasTarget : Word) : IdExData :=
  let out := control data.inst
  { pc := data.pc
    rs1Data
    rs2Data
    imm := immediate data.inst
    rs1Idx := Id.rs1 data.inst
    rs2Idx := Id.rs2 data.inst
    rdIdx := Id.rd data.inst
    func3 := Id.func3 data.inst
    csrAddr := out.csrAddr
    excValid := if data.excValid then true else out.excValid
    excCause := if data.excValid then data.excCause else out.excCause
    excTval := if data.excValid then data.excTval else out.excTval
    btbPredicted := data.btbPredicted
    btbTarget := data.btbTarget
    rasPredicted := rasHit
    rasPredTarget := rasTarget
    ctrlEx :=
      { aluc := out.aluc
        aluOutWbMemOut := out.aluOutWbMemOut
        rs1DataExPc := out.rs1DataExPc
        rs2DataExImm32_4 := out.rs2DataExImm32_4
        csrUseImm := out.csrUseImm }
    ctrlMem := { writeMem := out.writeMem, readMem := out.readMem }
    ctrlWb :=
      { writeReg := out.writeReg
        csrWe := out.csrWe
        isMret := out.isMret
        isEcall := out.isEcall
        isCsr := out.isCsr
        readMem := out.readMem
        pcImmNextPcRs1Imm := out.pcImmNextPcRs1Imm } }

/-- `id_ex_in`. -/
def idExIn (core : Core platform) : IdExData :=
  decodeBundle core.ifId.dataOut
    (core.readReg (Id.rs1 core.idInst)) (core.readReg (Id.rs2 core.idInst))
    core.rasHit core.rasTarget

/-! ## EX stage -/

/-- `mem_forward_data`. -/
def memForwardData (core : Core platform) : Word :=
  if core.exMem.dataOut.ctrlWb.isCsr then core.exMem.dataOut.csrRdata
  else core.exMem.dataOut.aluResult

/-- `forward_rs1_data` and `forward_rs2_data`, by source index and the value
read in ID. -/
def forwardData (core : Core platform) (rsIdx : BitVec 5)
    (rsData : Word) : Word :=
  match forwardSel rsIdx core.exMem.dataOut.rdIdx
      (core.exMem.dataOut.ctrlWb.writeReg && core.exMem.validOut)
      core.exMem.validOut core.memWb.dataOut.rdIdx
      (core.memWb.dataOut.ctrlWb.writeReg && core.memWb.validOut) with
  | .exMem => core.memForwardData
  | .memWb => core.wbFinalWdata
  | .regFile => rsData

def forwardRs1Data (core : Core platform) : Word :=
  core.forwardData core.idEx.dataOut.rs1Idx core.idEx.dataOut.rs1Data

def forwardRs2Data (core : Core platform) : Word :=
  core.forwardData core.idEx.dataOut.rs2Idx core.idEx.dataOut.rs2Data

/-- `ex_rs1_final`. -/
def exRs1Final (core : Core platform) : Word :=
  if core.exLatch.exDataLatched then core.exLatch.exRs1Latched
  else core.forwardRs1Data

/-- `ex_rs2_final`. -/
def exRs2Final (core : Core platform) : Word :=
  if core.exLatch.exDataLatched then core.exLatch.exRs2Latched
  else core.forwardRs2Data

/-- `in_alu_a`. -/
def inAluA (data : IdExData) (rs1Final : Word) : Word :=
  mux2 data.ctrlEx.rs1DataExPc rs1Final data.pc

/-- `in_alu_b`. -/
def inAluB (data : IdExData) (rs2Final : Word) : Word :=
  mux3 data.ctrlEx.rs2DataExImm32_4 rs2Final data.imm 4

/-- The ALU's `condition_branch` for a bundle and its operands. -/
def exCondition (data : IdExData) (rs1Final rs2Final : Word) : Bool :=
  conditionBranch data.ctrlEx.aluc (inAluA data rs1Final)
    (inAluB data rs2Final)

/-- `ex_is_jal || ex_is_jalr || condition_branch`. -/
def exTaken (data : IdExData) (rs1Final rs2Final : Word) : Bool :=
  data.ctrlWb.pcImmNextPcRs1Imm == 0b01 ||
    data.ctrlWb.pcImmNextPcRs1Imm == 0b10 ||
    exCondition data rs1Final rs2Final

/-- `ex_branch_target`. -/
def exTarget (data : IdExData) (rs1Final : Word) : Word :=
  if data.ctrlWb.pcImmNextPcRs1Imm = 0b10 then
    (rs1Final + data.imm) &&& 0xfffffffe
  else
    data.pc + data.imm

/-- `ex_branch_taken`. -/
def exBranchTaken (core : Core platform) : Bool :=
  core.idEx.validOut &&
    exTaken core.idEx.dataOut core.exRs1Final core.exRs2Final

def exBranchTarget (core : Core platform) : Word :=
  exTarget core.idEx.dataOut core.exRs1Final

/-- `ex_wnpc`. -/
def exWnpc (core : Core platform) : Word :=
  if core.exBranchTaken then core.exBranchTarget
  else core.idEx.dataOut.pc + 4

/-- `ex_is_branch`. -/
def exIsBranch (core : Core platform) : Bool :=
  let data := core.idEx.dataOut
  core.idEx.validOut && (data.ctrlWb.pcImmNextPcRs1Imm != 0 ||
    (0b01011 ≤ data.ctrlEx.aluc && data.ctrlEx.aluc ≤ 0b10000))

/-- `ex_ras_correct`. -/
def exRasCorrect (core : Core platform) : Bool :=
  core.idEx.dataOut.rasPredicted && core.exBranchTaken &&
    core.idEx.dataOut.rasPredTarget == core.exBranchTarget

/-- `ex_mispredict`. -/
def exMispredict (core : Core platform) : Bool :=
  core.idEx.validOut && !core.exRasCorrect &&
    ((core.exBranchTaken && (!core.idEx.dataOut.btbPredicted ||
        core.idEx.dataOut.btbTarget != core.exBranchTarget)) ||
      (!core.exBranchTaken && core.idEx.dataOut.btbPredicted))

/-- `csr_rdata`, read in EX. -/
def csrRdata (core : Core platform) : Word :=
  core.csr.read core.idEx.dataOut.csrAddr

/-- `csr_op_data`. -/
def csrOpData (data : IdExData) (rs1Final : Word) : Word :=
  if data.func3.getLsbD 2 then data.rs1Idx.zeroExtend 32 else rs1Final

/-- `ex_mem_in.csr_wdata`. -/
def csrWdata (func3 : BitVec 3) (csrRdata csrOpData : Word) : Word :=
  let op := func3.extractLsb' 0 2
  if op = 0b01 then csrOpData
  else if op = 0b10 then csrRdata ||| csrOpData
  else if op = 0b11 then csrRdata &&& ~~~csrOpData
  else csrOpData

/-- The bundle EXU builds.  `exc_cause` and `exc_tval` are driven nowhere. -/
def executeBundle (data : IdExData) (rs1Final rs2Final csrRdata : Word) :
    ExMemData where
  pc := data.pc
  npc :=
    if exTaken data rs1Final rs2Final then exTarget data rs1Final
    else data.pc + 4
  aluResult := aluOut data.ctrlEx.aluc (inAluA data rs1Final)
    (inAluB data rs2Final)
  memWdata := rs2Final
  rdIdx := data.rdIdx
  csrWdata := csrWdata data.func3 csrRdata (csrOpData data rs1Final)
  csrAddr := data.csrAddr
  csrRdata
  excValid := data.excValid
  excCause := undriven
  excTval := undriven
  conditionBranch := exCondition data rs1Final rs2Final
  imm := data.imm
  rs1Data := rs1Final
  ctrlMem := data.ctrlMem
  ctrlWb := data.ctrlWb

/-- `ex_mem_in` of a valid ID/EX; a bubble is never captured. -/
def exMemIn (core : Core platform) : ExMemData :=
  executeBundle core.idEx.dataOut core.exRs1Final core.exRs2Final
    core.csrRdata

/-- The operand latch. -/
def nextExLatch (core : Core platform) : ExLatch :=
  if ¬ core.idEx.validOut then
    {}
  else if ¬ core.exMemReadyOut then
    if ¬ core.exLatch.exDataLatched then
      { exRs1Latched := core.forwardRs1Data
        exRs2Latched := core.forwardRs2Data
        exDataLatched := true }
    else
      core.exLatch
  else
    { core.exLatch with exDataLatched := false }

/-! ## MEM stage -/

/-- The bundle built from EX/MEM and the registers of the LSU. -/
def memoryBundle (data : ExMemData) (lsu : Lsu) : MemWbData where
  pc := data.pc
  npc := data.npc
  aluResult := data.aluResult
  memRdata := lsu.readData
  rdIdx := data.rdIdx
  csrRdata := data.csrRdata
  csrWdata := data.csrWdata
  csrAddr := data.csrAddr
  conditionBranch := data.conditionBranch
  imm := data.imm
  rs1Data := data.rs1Data
  accessFault := lsu.accessFault
  excValid := if data.excValid then true else lsu.excValid
  excCause := if data.excValid then data.excCause else lsu.excCause
  excTval := if data.excValid then data.excTval else lsu.excTval
  ctrlWb := data.ctrlWb
  memWdata := lsu.lsuWdata
  wstrb := lsu.lsuWstrb

/-- `mem_wb_in`. -/
def memWbIn (core : Core platform) : MemWbData :=
  memoryBundle core.exMem.dataOut core.lsu

/-! ## Redirects -/

/-- `jump_req`, which is also `flush_if_id`. -/
def jumpReq (core : Core platform) : Bool :=
  core.globalTrapFlush || core.exMispredict

/-- `ifu_flush_req`. -/
def ifuFlushReq (core : Core platform) : Bool :=
  core.jumpReq || core.rasHit

def btbHit (core : Core platform) : Bool := core.btb.hit core.ifu.pcReg

/-- `next_pc`. -/
def nextPc (core : Core platform) : Word :=
  if core.wbuTrapFire then core.csr.mtvec
  else if core.wbuMretFire then core.csr.mepc
  else if core.exMispredict then
    if core.exBranchTaken then core.exBranchTarget
    else core.idEx.dataOut.pc + 4
  else if core.rasHit then core.rasTarget
  else if core.btbHit then core.btb.target core.ifu.pcReg
  else core.ifu.pcReg + 4

/-! ## Ports of the units -/

/-- The bundle handed to IF/ID. -/
def ifIdIn (core : Core platform) : IfIdData :=
  { pc := core.ifu.pcReg
    inst := core.ifu.instReg
    excValid := core.ifu.excValid
    excCause := core.ifu.excCause
    excTval := core.ifu.excTval
    btbPredicted := core.btbHit
    btbTarget := core.btb.target core.ifu.pcReg }

def busPort (core : Core platform) : Bus.In where
  ifuArvalid := core.icache.busArvalid
  ifuAraddr := core.icache.busAraddr
  ifuArlen := core.icache.busArlen
  lsuArvalid := core.lsu.lsuArvalid
  lsuAraddr := core.lsu.lsuAraddr
  lsuRready := core.lsu.lsuRready
  lsuAwvalid := core.lsu.lsuAwvalid
  lsuAwaddr := core.lsu.lsuAwaddr
  lsuWvalid := core.lsu.lsuWvalid
  lsuWdata := core.lsu.lsuWdata
  lsuWstrb := core.lsu.lsuWstrb
  lsuBready := core.lsu.lsuBready

def icachePort (core : Core platform) (axi : AxiIn) : ICache.In where
  ifuAraddr := core.ifu.pcReg
  ifuArvalid := core.ifu.ifuArvalid
  ifuRready := core.ifu.ifuRready
  busArready := core.bus.ifuArready core.lsu.lsuArvalid
  busRdata := core.bus.ifuRdata axi
  busRlast := axi.rlast
  busRvalid := core.bus.ifuRvalid axi
  flush := core.jumpReq
  isFenceI := core.isFenceI

/-- The fetch port; `ifu_rresp` is tied to OKAY. -/
def ifuPort (core : Core platform) (axi : AxiIn) : Ifu.In where
  nextPc := core.nextPc
  flushReq := core.ifuFlushReq
  nextReady := core.ifIdReadyOut
  ifuArready := core.icache.ifuArready
  ifuRdata := core.icache.ifuRdata (core.bus.ifuRdata axi)
  ifuRresp := 0
  ifuRvalid := core.icache.ifuRvalid (core.bus.ifuRvalid axi)

def lsuPort (core : Core platform) : Lsu.In where
  addr := core.exMem.dataOut.aluResult
  data := core.exMem.dataOut.memWdata
  readMem := core.exMem.dataOut.ctrlMem.readMem
  writeMem := core.exMem.dataOut.ctrlMem.writeMem
  prevValid := core.exMem.validOut
  nextReady := core.memWbReadyOut
  lsuArready := core.bus.lsuArready
  lsuRdata := core.bus.read.lsuRdataReg
  lsuRresp := core.bus.read.lsuRrespReg
  lsuRvalid := core.bus.read.lsuRvalidReg
  lsuAwready :=
    core.bus.lsuAwready core.lsu.lsuArvalid core.icache.busArvalid
  lsuWready :=
    core.bus.lsuAwready core.lsu.lsuArvalid core.icache.busArvalid
  lsuBvalid := core.bus.write.lsuBvalidReg
  lsuBresp := core.bus.write.lsuBrespReg

/-! ## The clock edge -/

/-- The first clock edge under `reset`.  Registers outside every reset block
keep the value they have, but for the register file and the request address of
the ICache, whose blocks do not look at `reset`. -/
def reset (core : Core platform) : Core platform where
  ifu := Ifu.reset platform.pcInit
  icache :=
    { core.icache with
      reqAddrReg :=
        if core.icache.state = .idle ∧ core.ifu.ifuArvalid then
          core.ifu.pcReg
        else core.icache.reqAddrReg : ICache platform.icacheParams }.reset
  btb := core.btb.reset
  ras := core.ras.reset
  ifId := .empty
  idEx := .empty
  exLatch := {}
  exMem := .empty
  lsu := core.lsu.reset
  memWb := .empty
  gpr := core.gpr.write core.rfWe core.memWb.dataOut.rdIdx
    core.wbFinalWdata
  csr := core.csr.reset
  bus := core.bus.reset

/-- One clock edge outside reset. -/
def step (axi : AxiIn) (core : Core platform) : Core platform where
  ifu := core.ifu.next (core.ifuPort axi)
  icache := core.icache.next (core.icachePort axi)
  btb := core.btb.next (core.exIsBranch && core.exMemReadyOut)
    core.idEx.dataOut.pc core.exBranchTarget core.exBranchTaken
  ras := core.ras.next core.jumpReq core.ifId.validOut
    (idIsCall core.idInst) (idIsRet core.idInst) core.ifId.dataOut.pc
  ifId := core.ifId.next core.jumpReq core.ifIdIn core.ifu.outValid
    core.ifIdReadyHazard
  idEx := core.idEx.next (core.idExFlushHazard || core.globalTrapFlush)
    core.idExIn core.ifId.validOut core.exMemReadyOut
  exLatch := core.nextExLatch
  exMem := core.exMem.next core.globalTrapFlush core.exMemIn
    core.idEx.validOut core.memReady
  lsu := core.lsu.next core.lsuPort
  memWb := core.memWb.next core.globalTrapFlush core.memWbIn
    core.memValid true
  gpr := core.gpr.write core.rfWe core.memWb.dataOut.rdIdx
    core.wbFinalWdata
  csr := core.csr.next core.csrPort
  bus := core.bus.next platform core.busPort axi

end Core

end Ysyx.Rtl
