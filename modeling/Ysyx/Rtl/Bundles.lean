import Mathlib.Data.BitVec

/-!
# Pipeline bundles

The packed structures of `ysyx_25040131_pipeline_pkg.svh`.  Every field has
the default `0`, so that `0` is the bundle the source writes as `'0`.
-/

namespace Ysyx.Rtl

/-- A machine word of the core (`XLEN = 32`). -/
abbrev Word := BitVec 32

/-- The value of a bundle field that no `always` block drives. -/
def undriven : Word := 0

/-- `ctrl_ex_t`: the control signals used in EX. -/
structure CtrlEx where
  aluc : BitVec 5 := 0
  aluOutWbMemOut : Bool := false
  rs1DataExPc : Bool := false
  rs2DataExImm32_4 : BitVec 2 := 0
  csrUseImm : Bool := false
  deriving DecidableEq, Repr

/-- `ctrl_mem_t`: kind and width of the memory access. -/
structure CtrlMem where
  writeMem : BitVec 2 := 0
  readMem : BitVec 3 := 0
  deriving DecidableEq, Repr

/-- `ctrl_wb_t`: the control signals used in WB. -/
structure CtrlWb where
  writeReg : Bool := false
  csrWe : Bool := false
  isMret : Bool := false
  isEcall : Bool := false
  isCsr : Bool := false
  readMem : BitVec 3 := 0
  pcImmNextPcRs1Imm : BitVec 2 := 0
  deriving DecidableEq, Repr

/-- `if_id_data_t`: what the fetch unit hands to decode. -/
structure IfIdData where
  pc : Word := 0
  inst : Word := 0
  excValid : Bool := false
  excCause : Word := 0
  excTval : Word := 0
  btbPredicted : Bool := false
  btbTarget : Word := 0
  rasPredicted : Bool := false
  rasPredTarget : Word := 0
  deriving DecidableEq, Repr

/-- `id_ex_data_t`: a decoded instruction with its register operands. -/
structure IdExData where
  pc : Word := 0
  rs1Data : Word := 0
  rs2Data : Word := 0
  imm : Word := 0
  func3 : BitVec 3 := 0
  rs1Idx : BitVec 5 := 0
  rs2Idx : BitVec 5 := 0
  rdIdx : BitVec 5 := 0
  csrAddr : BitVec 12 := 0
  excValid : Bool := false
  excCause : Word := 0
  excTval : Word := 0
  btbPredicted : Bool := false
  btbTarget : Word := 0
  rasPredicted : Bool := false
  rasPredTarget : Word := 0
  ctrlEx : CtrlEx := {}
  ctrlMem : CtrlMem := {}
  ctrlWb : CtrlWb := {}
  deriving DecidableEq, Repr

/-- `ex_mem_data_t`: an executed instruction before its memory access. -/
structure ExMemData where
  pc : Word := 0
  npc : Word := 0
  aluResult : Word := 0
  memWdata : Word := 0
  rdIdx : BitVec 5 := 0
  csrWdata : Word := 0
  csrAddr : BitVec 12 := 0
  csrRdata : Word := 0
  excValid : Bool := false
  excCause : Word := 0
  excTval : Word := 0
  conditionBranch : Bool := false
  imm : Word := 0
  rs1Data : Word := 0
  ctrlMem : CtrlMem := {}
  ctrlWb : CtrlWb := {}
  deriving DecidableEq, Repr

/-- `mem_wb_data_t`: a completed instruction before it is written back. -/
structure MemWbData where
  pc : Word := 0
  npc : Word := 0
  aluResult : Word := 0
  memRdata : Word := 0
  rdIdx : BitVec 5 := 0
  csrRdata : Word := 0
  csrWdata : Word := 0
  csrAddr : BitVec 12 := 0
  conditionBranch : Bool := false
  imm : Word := 0
  rs1Data : Word := 0
  excValid : Bool := false
  excCause : Word := 0
  excTval : Word := 0
  accessFault : Bool := false
  memWdata : Word := 0
  wstrb : BitVec 8 := 0
  ctrlWb : CtrlWb := {}
  deriving DecidableEq, Repr

instance : Zero IfIdData := ⟨{}⟩
instance : Zero IdExData := ⟨{}⟩
instance : Zero ExMemData := ⟨{}⟩
instance : Zero MemWbData := ⟨{}⟩

/-! ## The handshaking register -/

/-- `ysyx_25040131_pipcon`: a pipeline register with a valid bit. -/
structure Pipcon (α : Type) where
  dataOut : α
  validOut : Bool

namespace Pipcon

variable {α : Type}

/-- The register after `reset` or `flush`. -/
def empty [Zero α] : Pipcon α := ⟨0, false⟩

/-- `ready_out`: the register can take a new bundle. -/
def readyOut (register : Pipcon α) (readyIn : Bool) : Bool :=
  readyIn || !register.validOut

/-- One clock edge outside reset.  A bubble keeps the old bundle. -/
def next [Zero α] (register : Pipcon α) (flush : Bool)
    (dataIn : α) (validIn readyIn : Bool) : Pipcon α :=
  if flush then
    empty
  else if register.readyOut readyIn then
    ⟨if validIn then dataIn else register.dataOut, validIn⟩
  else
    register

end Pipcon

end Ysyx.Rtl
