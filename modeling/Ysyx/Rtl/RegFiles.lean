import Ysyx.Rtl.Bundles

/-!
# Register files

`ysyx_25040131_gpr` and `ysyx_25040131_csr`.
-/

namespace Ysyx.Rtl

/-! ## General-purpose registers -/

/-- The 32 registers of `ysyx_25040131_gpr`.  Index `0` exists in the array
but is neither written nor read. -/
abbrev Gpr := BitVec 5 → Word

namespace Gpr

/-- `rf_we`. -/
def rfWe (prevValid writeReg : Bool) (targetReg : BitVec 5) : Bool :=
  prevValid && writeReg && targetReg != 0

/-- The write port, used from WB. -/
def write (regs : Gpr) (rfWe : Bool) (targetReg : BitVec 5)
    (writeRdData : Word) : Gpr :=
  fun index =>
    if rfWe ∧ index = targetReg then writeRdData else regs index

/-- A read port, used from ID, with its bypass of the write port. -/
def read (regs : Gpr) (rs : BitVec 5) (rfWe : Bool) (targetReg : BitVec 5)
    (writeRdData : Word) : Word :=
  if rs = 0 then 0
  else if rs = targetReg ∧ rfWe then writeRdData
  else regs rs

end Gpr

/-! ## Control and status registers -/

/-- The registers of `ysyx_25040131_csr`. -/
structure Csr where
  mstatus : Word
  mtvec : Word
  mepc : Word
  mcause : Word
  mtval : Word
  mscratch : Word
  deriving DecidableEq, Repr

namespace Csr

/-- The reset branch; `mscratch` is not in it. -/
def reset (csr : Csr) : Csr :=
  { csr with
    mstatus := 0x1800
    mtvec := 0
    mepc := 0
    mcause := 0
    mtval := 0 }

/-- The combinational read port. -/
def read (csr : Csr) (csrAddr : BitVec 12) : Word :=
  if csrAddr = 0x300 then csr.mstatus
  else if csrAddr = 0x305 then csr.mtvec
  else if csrAddr = 0x341 then csr.mepc
  else if csrAddr = 0x342 then csr.mcause
  else if csrAddr = 0x340 then csr.mscratch
  else if csrAddr = 0x343 then csr.mtval
  else if csrAddr = 0xF11 then 0x79737978
  else if csrAddr = 0xF12 then 25040131
  else 0

/-- The `case (csr_waddr)` of an ordinary CSR write. -/
def write (csr : Csr) (csrWaddr : BitVec 12) (csrWdata : Word) : Csr :=
  if csrWaddr = 0x300 then { csr with mstatus := csrWdata }
  else if csrWaddr = 0x305 then { csr with mtvec := csrWdata }
  else if csrWaddr = 0x341 then { csr with mepc := csrWdata }
  else if csrWaddr = 0x340 then { csr with mscratch := csrWdata }
  else if csrWaddr = 0x342 then { csr with mcause := csrWdata }
  else if csrWaddr = 0x343 then { csr with mtval := csrWdata }
  else csr

/-- `mstatus` after a trap: `MPIE = MIE`, `MIE = 0`, `MPP = 11`. -/
def trapMstatus (mstatus : Word) : Word :=
  (mstatus &&& ~~~0x1888#32) ||| 0x1800#32 |||
    (if mstatus.getLsbD 3 then 0x80#32 else 0#32)

/-- `mstatus` after `mret`: `MIE = MPIE`, `MPIE = 1`. -/
def mretMstatus (mstatus : Word) : Word :=
  (mstatus &&& ~~~0x88#32) ||| 0x80#32 |||
    (if mstatus.getLsbD 7 then 0x8#32 else 0#32)

/-- The write port and trap logic of WB. -/
structure WritePort where
  prevValid : Bool
  csrWaddr : BitVec 12
  csrWe : Bool
  csrWdata : Word
  excValid : Bool
  excPc : Word
  excCause : Word
  excTval : Word
  isEcall : Bool
  isMret : Bool
  deriving DecidableEq, Repr

/-- One clock edge outside reset: trap entry, else `mret`, else a write. -/
def next (csr : Csr) (port : WritePort) : Csr :=
  if port.prevValid then
    if port.excValid ∨ port.isEcall then
      { csr with
        mepc := port.excPc
        mtval := port.excTval
        mcause := if port.isEcall then 11 else port.excCause
        mstatus := trapMstatus csr.mstatus }
    else if port.isMret then
      { csr with mstatus := mretMstatus csr.mstatus }
    else if port.csrWe then
      csr.write port.csrWaddr port.csrWdata
    else
      csr
  else
    csr

end Csr

end Ysyx.Rtl
