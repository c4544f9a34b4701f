import Ysyx.Nemu.Inst
import Ysyx.Rtl.Core

/-!
# The combinational datapath

One instruction through the decoders, the operand selection, the ALU, the
CSR and write-back selection and the next-pc selection, with no other
instruction around it.
-/

namespace Ysyx.Rtl

/-- What one instruction leaves behind. -/
structure Retired where
  gpr : Gpr
  csr : Csr
  npc : Word
  request : Option Nemu.MemRequest

namespace Datapath

/-- The number of bytes of a `read_mem` code. -/
def readLen (readMem : BitVec 3) : Nat :=
  if readMem = 0b001 then 4
  else if readMem = 0b010 ∨ readMem = 0b110 then 2
  else 1

/-- The number of bytes of a `write_mem` code. -/
def writeLen (writeMem : BitVec 2) : Nat :=
  if writeMem = 0b01 then 4 else if writeMem = 0b10 then 2 else 1

/-- The access an EX/MEM bundle asks for. -/
def request (data : ExMemData) : Option Nemu.MemRequest :=
  if data.ctrlMem.readMem ≠ 0 then
    some (.read data.aluResult (readLen data.ctrlMem.readMem))
  else if data.ctrlMem.writeMem ≠ 0 then
    some (.write data.aluResult (writeLen data.ctrlMem.writeMem)
      data.memWdata)
  else
    none

/-- The ID/EX bundle of an instruction alone in the pipeline. -/
def decode (gpr : Gpr) (pc inst : Word) : IdExData :=
  Core.decodeBundle { pc, inst } (gpr.read (Id.rs1 inst) false 0 0)
    (gpr.read (Id.rs2 inst) false 0 0) false 0

/-- Its EX/MEM bundle. -/
def execute (gpr : Gpr) (csr : Csr) (pc inst : Word) : ExMemData :=
  let data := decode gpr pc inst
  Core.executeBundle data data.rs1Data data.rs2Data (csr.read data.csrAddr)

/-- Its MEM/WB register.  The memory returns the addressed bytes in the low
lanes, where `sign_extend` finds them. -/
def complete (gpr : Gpr) (csr : Csr) (pc inst : Word) (pmem : Nemu.Pmem) :
    Pipcon MemWbData :=
  let data := execute gpr csr pc inst
  let readMem := data.ctrlMem.readMem
  let raw := Nemu.hostRead pmem data.aluResult (readLen readMem)
  ⟨Core.memoryBundle data
    { Lsu.zeroed with readData := signExtend raw readMem 0 }, true⟩

/-- The whole datapath. -/
def retire (gpr : Gpr) (csr : Csr) (pc inst : Word) (pmem : Nemu.Pmem) :
    Retired :=
  let memWb := complete gpr csr pc inst pmem
  let data := memWb.dataOut
  { gpr := gpr.write (Gpr.rfWe true data.ctrlWb.writeReg data.rdIdx)
      data.rdIdx (Core.finalWdata data)
    csr := csr.next (Core.wbCsrPort memWb)
    npc := (Core.wbTrap data csr.mepc csr.mtvec).getD data.npc
    request := request (execute gpr csr pc inst) }

end Datapath

end Ysyx.Rtl
