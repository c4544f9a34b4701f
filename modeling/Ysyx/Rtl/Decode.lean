import Ysyx.Rtl.Bundles

/-!
# The decode stage

`ysyx_25040131_id`, `ysyx_25040131_controller` and `ysyx_25040131_imm`: the
combinational decoders of the instruction held in IF/ID.
-/

namespace Ysyx.Rtl

/-! ## Instruction fields -/

namespace Id

def opcode (instr : Word) : BitVec 7 := instr.extractLsb' 0 7
def rd (instr : Word) : BitVec 5 := instr.extractLsb' 7 5
def func3 (instr : Word) : BitVec 3 := instr.extractLsb' 12 3
def rs1 (instr : Word) : BitVec 5 := instr.extractLsb' 15 5
def rs2 (instr : Word) : BitVec 5 := instr.extractLsb' 20 5
def func7 (instr : Word) : BitVec 7 := instr.extractLsb' 25 7

end Id

/-! ## Controller -/

/-- The outputs of `ysyx_25040131_controller`, with the defaults that open
its `always` block. -/
structure ControllerOut where
  aluc : BitVec 5 := 0b00000
  aluOutWbMemOut : Bool := false
  rs1DataExPc : Bool := false
  rs2DataExImm32_4 : BitVec 2 := 0b00
  writeReg : Bool := false
  writeMem : BitVec 2 := 0b00
  readMem : BitVec 3 := 0b000
  extOP : BitVec 3 := 0b000
  pcImmNextPcRs1Imm : BitVec 2 := 0b00
  isCsr : Bool := false
  csrWe : Bool := false
  csrAddr : BitVec 12 := 0
  csrUseImm : Bool := false
  isEcall : Bool := false
  excValid : Bool := false
  excCause : Word := 0
  excTval : Word := 0
  isMret : Bool := false
  isFenceI : Bool := false
  deriving DecidableEq, Repr

/-- `aluc` of the B-type branch; the other two `func3` keep the default. -/
def branchAluc (func3 : BitVec 3) : BitVec 5 :=
  if func3 = 0b000 then 0b01011
  else if func3 = 0b001 then 0b01100
  else if func3 = 0b100 then 0b01101
  else if func3 = 0b101 then 0b01110
  else if func3 = 0b110 then 0b01111
  else if func3 = 0b111 then 0b10000
  else 0b00000

/-- `read_mem` of the L-type branch. -/
def loadReadMem (func3 : BitVec 3) : BitVec 3 :=
  if func3 = 0b010 then 0b001
  else if func3 = 0b001 then 0b110
  else if func3 = 0b000 then 0b111
  else if func3 = 0b100 then 0b011
  else if func3 = 0b101 then 0b010
  else 0b000

/-- `write_mem` of the S-type branch. -/
def storeWriteMem (func3 : BitVec 3) : BitVec 2 :=
  if func3 = 0b010 then 0b01
  else if func3 = 0b001 then 0b10
  else if func3 = 0b000 then 0b11
  else 0b00

/-- `aluc` of the I-type branch. -/
def immAluc (func3 : BitVec 3) (func7 : BitVec 7) : BitVec 5 :=
  if func3 = 0b000 then 0b00000
  else if func3 = 0b010 then 0b00110
  else if func3 = 0b011 then 0b00111
  else if func3 = 0b100 then 0b00100
  else if func3 = 0b110 then 0b00011
  else if func3 = 0b111 then 0b00010
  else if func3 = 0b001 then 0b00101
  else if func7.getLsbD 5 then 0b01001 else 0b01000

/-- `aluc` of the R-type branch. -/
def regAluc (func3 : BitVec 3) (func7 : BitVec 7) : BitVec 5 :=
  if func3 = 0b000 then if func7.getLsbD 5 then 0b00001 else 0b00000
  else if func3 = 0b110 then 0b00011
  else if func3 = 0b111 then 0b00010
  else if func3 = 0b100 then 0b00100
  else if func3 = 0b001 then 0b00101
  else if func3 = 0b010 then 0b00110
  else if func3 = 0b011 then 0b00111
  else if func7.getLsbD 5 then 0b01001 else 0b01000

/-- `csr_we` of the SYSTEM branch; it is chosen after the `ecall`/`mret`
tests and independently of them. -/
def systemCsrWe (func3 : BitVec 3) (rs1 : BitVec 5) : Bool :=
  if func3 = 0b010 then rs1 != 0
  else if func3 = 0b110 then rs1 != 0
  else if func3 = 0b001 ∨ func3 = 0b011 ∨ func3 = 0b101 ∨ func3 = 0b111 then
    true
  else false

/-- `ysyx_25040131_controller`. -/
def controller (opcode : BitVec 7) (func3 : BitVec 3) (func7 : BitVec 7)
    (instr : Word) : ControllerOut :=
  if opcode = 0b0001111 then
    { isFenceI := func3 == 0b001 }
  else if opcode = 0b0110111 then
    { writeReg := true, rs2DataExImm32_4 := 0b01, aluc := 0b10001,
      extOP := 0b001 }
  else if opcode = 0b0010111 then
    { writeReg := true, rs1DataExPc := true, rs2DataExImm32_4 := 0b01,
      extOP := 0b001 }
  else if opcode = 0b1101111 then
    { writeReg := Id.rd instr != 0, rs1DataExPc := true,
      rs2DataExImm32_4 := 0b11, pcImmNextPcRs1Imm := 0b01, extOP := 0b100 }
  else if opcode = 0b1100111 then
    { writeReg := Id.rd instr != 0, rs1DataExPc := true,
      rs2DataExImm32_4 := 0b11, aluc := 0b01010,
      pcImmNextPcRs1Imm := 0b10 }
  else if opcode = 0b1100011 then
    { aluc := branchAluc func3, extOP := 0b011 }
  else if opcode = 0b0000011 then
    { writeReg := true, aluOutWbMemOut := true, rs2DataExImm32_4 := 0b01,
      readMem := loadReadMem func3 }
  else if opcode = 0b0100011 then
    { rs2DataExImm32_4 := 0b01, extOP := 0b010,
      writeMem := storeWriteMem func3 }
  else if opcode = 0b0010011 then
    { writeReg := true, rs2DataExImm32_4 := 0b01,
      extOP := if func3 = 0b101 ∧ func7.getLsbD 5 then 0b101 else 0b000,
      aluc := immAluc func3 func7 }
  else if opcode = 0b0110011 then
    { writeReg := true, extOP := 0b111, aluc := regAluc func3 func7 }
  else if opcode = 0b1110011 then
    let csrWe := systemCsrWe func3 (Id.rs1 instr)
    if instr = 0x00000073 then
      { isCsr := true, excValid := true, excCause := 11, isEcall := true,
        csrWe }
    else if instr = 0x30200073 then
      { isCsr := true, isMret := true, csrWe }
    else
      { isCsr := true, writeReg := true, csrAddr := instr.extractLsb' 20 12,
        csrUseImm := func3.getLsbD 2, csrWe }
  else
    { excValid := true, excCause := 2, excTval := instr }

/-- Case analysis on the outputs of the controller, one case for each branch
of its `case` statement. -/
theorem controller_cases (Holds : ControllerOut → Prop)
    {opcode : BitVec 7} {func3 : BitVec 3} {func7 : BitVec 7} {instr : Word}
    (fence : opcode = 0b0001111 → Holds { isFenceI := func3 == 0b001 })
    (lui : opcode = 0b0110111 →
      Holds { writeReg := true, rs2DataExImm32_4 := 0b01, aluc := 0b10001,
              extOP := 0b001 })
    (auipc : opcode = 0b0010111 →
      Holds { writeReg := true, rs1DataExPc := true,
              rs2DataExImm32_4 := 0b01, extOP := 0b001 })
    (jal : opcode = 0b1101111 →
      Holds { writeReg := Id.rd instr != 0, rs1DataExPc := true,
              rs2DataExImm32_4 := 0b11, pcImmNextPcRs1Imm := 0b01,
              extOP := 0b100 })
    (jalr : opcode = 0b1100111 →
      Holds { writeReg := Id.rd instr != 0, rs1DataExPc := true,
              rs2DataExImm32_4 := 0b11, aluc := 0b01010,
              pcImmNextPcRs1Imm := 0b10 })
    (branch : opcode = 0b1100011 →
      Holds { aluc := branchAluc func3, extOP := 0b011 })
    (load : opcode = 0b0000011 →
      Holds { writeReg := true, aluOutWbMemOut := true,
              rs2DataExImm32_4 := 0b01, readMem := loadReadMem func3 })
    (store : opcode = 0b0100011 →
      Holds { rs2DataExImm32_4 := 0b01, extOP := 0b010,
              writeMem := storeWriteMem func3 })
    (opImm : opcode = 0b0010011 →
      Holds { writeReg := true, rs2DataExImm32_4 := 0b01,
              extOP := if func3 = 0b101 ∧ func7.getLsbD 5 then 0b101
                else 0b000,
              aluc := immAluc func3 func7 })
    (op : opcode = 0b0110011 →
      Holds { writeReg := true, extOP := 0b111, aluc := regAluc func3 func7 })
    (ecall : opcode = 0b1110011 → instr = 0x00000073 →
      Holds { isCsr := true, excValid := true, excCause := 11,
              isEcall := true, csrWe := systemCsrWe func3 (Id.rs1 instr) })
    (mret : opcode = 0b1110011 → instr = 0x30200073 →
      Holds { isCsr := true, isMret := true,
              csrWe := systemCsrWe func3 (Id.rs1 instr) })
    (csr : opcode = 0b1110011 → instr ≠ 0x00000073 → instr ≠ 0x30200073 →
      Holds { isCsr := true, writeReg := true,
              csrAddr := instr.extractLsb' 20 12,
              csrUseImm := func3.getLsbD 2,
              csrWe := systemCsrWe func3 (Id.rs1 instr) })
    (other : Holds { excValid := true, excCause := 2, excTval := instr }) :
    Holds (controller opcode func3 func7 instr) := by
  unfold controller
  exact iteInduction fence fun _ => iteInduction lui fun _ =>
    iteInduction auipc fun _ => iteInduction jal fun _ =>
    iteInduction jalr fun _ => iteInduction branch fun _ =>
    iteInduction load fun _ => iteInduction store fun _ =>
    iteInduction opImm fun _ => iteInduction op fun _ =>
    iteInduction
      (fun system => iteInduction (ecall system) fun notEcall =>
        iteInduction (mret system) fun notMret =>
          csr system notEcall notMret)
      fun _ => other

/-- The controller on the fields that `ysyx_25040131_id` extracts. -/
def control (instr : Word) : ControllerOut :=
  controller (Id.opcode instr) (Id.func3 instr) (Id.func7 instr) instr

/-! ## Immediates -/

/-- `ysyx_25040131_imm`. -/
def imm32 (instr : Word) (extOP : BitVec 3) : Word :=
  if extOP = 0b000 then
    (instr.extractLsb' 20 12).signExtend 32
  else if extOP = 0b001 then
    instr.extractLsb' 12 20 ++ 0#12
  else if extOP = 0b010 then
    (instr.extractLsb' 25 7 ++ instr.extractLsb' 7 5).signExtend 32
  else if extOP = 0b011 then
    (instr.extractLsb' 31 1 ++ instr.extractLsb' 7 1 ++
      instr.extractLsb' 25 6 ++ instr.extractLsb' 8 4 ++ 0#1).signExtend 32
  else if extOP = 0b100 then
    (instr.extractLsb' 31 1 ++ instr.extractLsb' 12 8 ++
      instr.extractLsb' 20 1 ++ instr.extractLsb' 21 10 ++ 0#1).signExtend 32
  else if extOP = 0b101 then
    (instr.extractLsb' 20 12).signExtend 32 &&& ~~~0x400#32
  else
    0

/-- The immediate IDU attaches to an instruction. -/
def immediate (instr : Word) : Word :=
  imm32 instr (control instr).extOP

/-! ## Call and return recognition -/

/-- `id_is_call`: `jal`/`jalr` that writes a link register. -/
def idIsCall (instr : Word) : Bool :=
  (Id.opcode instr == 0b1101111 || Id.opcode instr == 0b1100111) &&
    (Id.rd instr == 1 || Id.rd instr == 5)

/-- `id_is_ret`: `jalr x0` through a link register. -/
def idIsRet (instr : Word) : Bool :=
  Id.opcode instr == 0b1100111 && Id.rd instr == 0 &&
    (Id.rs1 instr == 1 || Id.rs1 instr == 5)

/-- `idu_is_fence_i`: a decode of the IF/ID contents, valid or not. -/
def iduIsFenceI (instr : Word) : Bool :=
  (control instr).isFenceI

end Ysyx.Rtl
