import Ysyx.Lib.AxiWrites
import Ysyx.Rtl.Bundles
import Mathlib.Data.Nat.Log

/-!
# Memory and UART of the NPC platform

`ysyx_25040131_sram` and the write channels of `ysyx_25040131_uart`. The read
and the write `always` block of the SRAM share no register.
-/

namespace Ysyx.Rtl

/-- `AXI_RESP_OKAY`. -/
def axiRespOkay : BitVec 2 := 0b00

namespace Sram

/-- A counter of `$clog2(YSYX_SRAM_DELAY + 1)` bits. -/
abbrev Counter (delay : Nat) := BitVec (Nat.clog 2 (delay + 1))

/-- The test that ends a delay. -/
def delayDone (delay : Nat) (counter : Counter delay) : Bool :=
  delay == 1 || decide (counter.toNat ≥ delay - 1)

/-! ## Read state machine -/

/-- `state_read_t`. -/
inductive StateRead where
  | ar | d | r
  deriving DecidableEq, Repr

/-- The registers of the read block. -/
structure Read (delay : Nat) where
  stateRead : StateRead
  readBaseAddr : Word
  burstLen : BitVec 8
  beatCnt : BitVec 8
  delayCounter : Counter delay
  rdataReg : Word
  rrespReg : BitVec 2

/-- The inputs of the read block in one cycle. `npcRead` is what `npc_read`
returns for an address in this cycle. -/
structure ReadIn where
  araddr : Word
  arlen : BitVec 8
  arvalid : Bool
  rready : Bool
  npcRead : Word → Word

namespace Read

variable {delay : Nat}

def beatAddr (sram : Read delay) : Word :=
  sram.readBaseAddr + (sram.beatCnt ++ 0b00#2).setWidth 32

def arready (sram : Read delay) : Bool := sram.stateRead == .ar

def rvalid (sram : Read delay) : Bool := sram.stateRead == .r

def rlast (sram : Read delay) : Bool :=
  sram.stateRead == .r && sram.beatCnt == sram.burstLen

/-- `npc_read` is called in this cycle. -/
def fetches (sram : Read delay) : Bool :=
  sram.stateRead == .d && delayDone delay sram.delayCounter

/-- One clock edge outside reset. -/
def next (port : ReadIn) (sram : Read delay) : Read delay :=
  match sram.stateRead with
  | .ar =>
      if port.arvalid && sram.arready then
        { sram with
          readBaseAddr := port.araddr
          burstLen := port.arlen
          beatCnt := 0
          delayCounter := 0
          stateRead := .d }
      else
        sram
  | .d =>
      if delayDone delay sram.delayCounter then
        { sram with
          rdataReg := port.npcRead sram.beatAddr
          rrespReg := axiRespOkay
          stateRead := .r
          delayCounter := 0 }
      else
        { sram with delayCounter := sram.delayCounter + 1 }
  | .r =>
      if port.rready && sram.rvalid then
        if sram.beatCnt == sram.burstLen then
          { sram with
            stateRead := .ar
            beatCnt := 0 }
        else
          { sram with
            beatCnt := sram.beatCnt + 1
            delayCounter := 0
            stateRead := .d }
      else
        sram

end Read

/-! ## Write state machine -/

/-- `state_write_t`. -/
inductive StateWrite where
  | aw | w | b
  deriving DecidableEq, Repr

/-- The registers of the write block. -/
structure Write (delay : Nat) where
  stateWrite : StateWrite
  awReceived : Bool
  wReceived : Bool
  writeAddrReg : Word
  writeDataReg : Word
  writeStrbReg : BitVec 4
  writeDelayCounter : Counter delay

/-- The write channels of a slave; the data comes with its strobe. -/
abbrev WriteIn := Axi.Offer Word (Word × BitVec 4)

namespace Write

variable {delay : Nat}

/-- The reset branch. -/
def reset (delay : Nat) : Write delay where
  stateWrite := .aw
  awReceived := false
  wReceived := false
  writeAddrReg := 0
  writeDataReg := 0
  writeStrbReg := 0
  writeDelayCounter := 0

def awready (sram : Write delay) : Bool :=
  sram.stateWrite == .aw && !sram.awReceived

def wready (sram : Write delay) : Bool :=
  sram.stateWrite == .aw && !sram.wReceived

def bvalid (sram : Write delay) : Bool := sram.stateWrite == .b

/-- The arguments of `npc_write` if it is called in this cycle: address, data
and the four bits of the strobe. -/
def npcWrite (sram : Write delay) : Option (Word × Word × BitVec 4) :=
  if sram.stateWrite == .w && delayDone delay sram.writeDelayCounter then
    some (sram.writeAddrReg, sram.writeDataReg, sram.writeStrbReg)
  else
    none

/-- One clock edge outside reset. -/
def next (port : WriteIn) (sram : Write delay) : Write delay :=
  match sram.stateWrite with
  | .aw =>
      let takesAw := port.awvalid && sram.awready && !sram.awReceived
      let takesW := port.wvalid && sram.wready && !sram.wReceived
      let both := sram.awReceived && sram.wReceived
      { stateWrite := if both then .w else .aw
        awReceived := if both then false else sram.awReceived || takesAw
        wReceived := if both then false else sram.wReceived || takesW
        writeAddrReg := if takesAw then port.awaddr else sram.writeAddrReg
        writeDataReg := if takesW then port.wdata.1 else sram.writeDataReg
        writeStrbReg := if takesW then port.wdata.2 else sram.writeStrbReg
        writeDelayCounter := if both then 0 else sram.writeDelayCounter }
  | .w =>
      if delayDone delay sram.writeDelayCounter then
        { sram with
          stateWrite := .b
          writeDelayCounter := 0 }
      else
        { sram with writeDelayCounter := sram.writeDelayCounter + 1 }
  | .b =>
      if port.bready && sram.bvalid then
        { sram with
          awReceived := false
          wReceived := false
          stateWrite := .aw }
      else
        sram

end Write

end Sram

namespace Uart

/-- `write_state_t`. -/
inductive WriteState where
  | awIdle | awReady | wReady | bValid
  deriving DecidableEq, Repr

/-- The registers of the write block; its ready and valid outputs are
registers. -/
structure Write where
  writeState : WriteState
  awready : Bool
  wready : Bool
  bvalid : Bool
  bresp : BitVec 2
  wdataReg : Word

namespace Write

/-- The reset branch. -/
def reset : Write where
  writeState := .awIdle
  awready := false
  wready := false
  bvalid := false
  bresp := axiRespOkay
  wdataReg := 0

/-- The character that `$write` prints in this cycle. -/
def char (uart : Write) (port : Sram.WriteIn) : Option (BitVec 8) :=
  if uart.writeState == .wReady && (uart.wready && port.wvalid) then
    some (port.wdata.1.extractLsb' 0 8)
  else
    none

/-- One clock edge outside reset. -/
def next (port : Sram.WriteIn) (uart : Write) : Write :=
  match uart.writeState with
  | .awIdle =>
      if port.awvalid then
        { uart with
          awready := true
          writeState := .awReady }
      else
        uart
  | .awReady =>
      if uart.awready && port.awvalid then
        { uart with
          awready := false
          writeState := .wReady }
      else
        uart
  | .wReady =>
      if port.wvalid then
        if uart.wready && port.wvalid then
          { uart with
            wdataReg := port.wdata.1
            wready := false
            bresp := axiRespOkay
            bvalid := true
            writeState := .bValid }
        else
          { uart with wready := true }
      else
        uart
  | .bValid =>
      if port.bready && uart.bvalid then
        { uart with
          bvalid := false
          writeState := .awIdle }
      else
        uart

end Write

end Uart

end Ysyx.Rtl
