import Ysyx.Lib.AxiMemory
import Ysyx.Rtl.Bundles

/-!
# Bus arbiter

`ysyx_25040131_bus` with its CLINT bypass: one read and one write state
machine share the AXI master port between the instruction cache and the
load-store unit.
-/

namespace Ysyx.Rtl

/-- What differs between the `CONFIG_SYS_SOC` and `CONFIG_SYS_NPC` builds. -/
structure Platform where
  pcInit : Word
  burstAddrLo : Word
  burstAddrHi : Word
  rtcAddr : Word
  /-- `CONFIG_SYS_SOC` clears the write data after its handshake. -/
  clearWdata : Bool

/-- The `CONFIG_SYS_SOC` build. -/
def Platform.soc : Platform where
  pcInit := 0x30000000
  burstAddrLo := 0xa0000000
  burstAddrHi := 0xbfffffff
  rtcAddr := 0x02000048
  clearWdata := true

/-- The `CONFIG_SYS_NPC` build. -/
def Platform.npc : Platform where
  pcInit := 0x80000000
  burstAddrLo := 0x80000000
  burstAddrHi := 0x87ffffff
  rtcAddr := 0xa0000048
  clearWdata := false

/-! ## AXI port -/

/-- The AXI inputs of the core in one cycle. -/
abbrev AxiIn := Axi.MasterIn

/-- The AXI outputs of the core in one cycle.  The ids, sizes and burst types
are constants of the source. -/
abbrev AxiOut := Axi.MasterOut

/-! ## CLINT -/

/-- `ysyx_25040131_clint`. -/
structure Clint where
  mtime : BitVec 64
  rvalid : Bool
  deriving DecidableEq, Repr

namespace Clint

def rdata (clint : Clint) (rtcAddr araddr : Word) : Word :=
  (if araddr = rtcAddr then clint.mtime.extractLsb' 0 32 else 0) |||
    (if araddr = rtcAddr + 4 then clint.mtime.extractLsb' 32 32 else 0)

/-- The reset branch; `rvalid` is not in it. -/
def reset (clint : Clint) : Clint := { clint with mtime := 0 }

def next (clint : Clint) (arvalid : Bool) : Clint where
  mtime := clint.mtime + 1
  rvalid := arvalid

end Clint

/-! ## Registers -/

inductive BusLoadState where
  | busIdle
  | ifuReqAr
  | ifuWaitR
  | lsuReqAr
  | lsuWaitR
  | lsuDone
  deriving DecidableEq, Repr

inductive BusStoreState where
  | busWriteIdle
  | busSync
  | busWriteB
  | busWriteDone
  deriving DecidableEq, Repr

/-- The registers of the read state machine. -/
structure BusRead where
  stateLoad : BusLoadState
  lsuRdataReg : Word
  lsuRvalidReg : Bool
  lsuRrespReg : BitVec 2
  ifuRdataReg : Word
  ifuRvalidReg : Bool
  araddrReg : Word
  arlenReg : BitVec 8
  arvalidReg : Bool
  rreadyReg : Bool
  deriving DecidableEq, Repr

/-- The registers of the write state machine. -/
structure BusWrite where
  stateStore : BusStoreState
  awaddrReg : Word
  wdataReg : Word
  wstrbReg : BitVec 8
  awvalidReg : Bool
  wvalidReg : Bool
  wlastReg : Bool
  breadyReg : Bool
  lsuBrespReg : BitVec 2
  lsuBvalidReg : Bool
  lsuAwDone : Bool
  lsuWDone : Bool
  slaveAwDone : Bool
  slaveWDone : Bool
  deriving DecidableEq, Repr

/-- The registers of `ysyx_25040131_bus`. -/
structure Bus where
  read : BusRead
  write : BusWrite
  clint : Clint
  deriving DecidableEq, Repr

namespace Bus

/-- A power-up state with every register at zero. -/
def zeroed : Bus where
  read :=
    { stateLoad := .busIdle
      lsuRdataReg := 0
      lsuRvalidReg := false
      lsuRrespReg := 0
      ifuRdataReg := 0
      ifuRvalidReg := false
      araddrReg := 0
      arlenReg := 0
      arvalidReg := false
      rreadyReg := false }
  write :=
    { stateStore := .busWriteIdle
      awaddrReg := 0
      wdataReg := 0
      wstrbReg := 0
      awvalidReg := false
      wvalidReg := false
      wlastReg := false
      breadyReg := false
      lsuBrespReg := 0
      lsuBvalidReg := false
      lsuAwDone := false
      lsuWDone := false
      slaveAwDone := false
      slaveWDone := false }
  clint := { mtime := 0, rvalid := false }

/-- The reset blocks: `zeroed`, but `lsu_bvalid_reg` and the `rvalid` of the
CLINT are not in them. -/
def reset (bus : Bus) : Bus where
  read := zeroed.read
  write := { zeroed.write with lsuBvalidReg := bus.write.lsuBvalidReg }
  clint := bus.clint.reset

/-- The requests of the ICache and the LSU in one cycle. -/
structure In where
  ifuArvalid : Bool
  ifuAraddr : Word
  ifuArlen : BitVec 8
  lsuArvalid : Bool
  lsuAraddr : Word
  lsuRready : Bool
  lsuAwvalid : Bool
  lsuAwaddr : Word
  lsuWvalid : Bool
  lsuWdata : Word
  lsuWstrb : BitVec 8
  lsuBready : Bool

/-! ## Wires -/

def busReadIdle (bus : Bus) : Bool := bus.read.stateLoad == .busIdle

def busWriteIdle (bus : Bus) : Bool := bus.write.stateStore == .busWriteIdle

def lsuArready (bus : Bus) : Bool := bus.busReadIdle && bus.busWriteIdle

def ifuArready (bus : Bus) (lsuArvalid : Bool) : Bool :=
  bus.busReadIdle && bus.busWriteIdle && !lsuArvalid

/-- `lsu_awready` and `lsu_wready` are the same expression. -/
def lsuAwready (bus : Bus) (lsuArvalid ifuArvalid : Bool) : Bool :=
  bus.busWriteIdle && bus.busReadIdle && !(lsuArvalid || ifuArvalid)

def ifuRvalid (bus : Bus) (axi : AxiIn) : Bool :=
  if bus.read.stateLoad = .ifuWaitR then axi.rvalid
  else bus.read.ifuRvalidReg

def ifuRdata (bus : Bus) (axi : AxiIn) : Word :=
  if bus.read.stateLoad = .ifuWaitR then axi.rdata
  else bus.read.ifuRdataReg

/-- `clint_en`. -/
def clintEn (platform : Platform) (lsuAraddr : Word) : Bool :=
  lsuAraddr == platform.rtcAddr || lsuAraddr == platform.rtcAddr + 4

/-- The AXI outputs outside reset. -/
def axiOut (bus : Bus) : AxiOut where
  araddr := bus.read.araddrReg
  arlen := bus.read.arlenReg
  arvalid := bus.read.arvalidReg
  rready := bus.read.rreadyReg
  awaddr := bus.write.awaddrReg
  awvalid := bus.write.awvalidReg
  wdata := bus.write.wdataReg
  wstrb := bus.write.wstrbReg.extractLsb' 0 4
  wvalid := bus.write.wvalidReg
  wlast := bus.write.wlastReg
  bready := bus.write.breadyReg

/-! ## State machines -/

/-- The read state machine. -/
def nextRead (platform : Platform) (bus : Bus) (port : In) (axi : AxiIn) :
    BusRead :=
  let read := bus.read
  match read.stateLoad with
  | .busIdle =>
      if port.lsuArvalid ∧ bus.busWriteIdle then
        if clintEn platform port.lsuAraddr then
          { read with
            lsuRdataReg := bus.clint.rdata platform.rtcAddr port.lsuAraddr
            lsuRrespReg := 0
            lsuRvalidReg := true
            stateLoad := .lsuDone }
        else
          { read with
            araddrReg := port.lsuAraddr
            arlenReg := 0
            arvalidReg := true
            stateLoad := .lsuReqAr }
      else if port.ifuArvalid ∧ bus.busWriteIdle then
        { read with
          araddrReg := port.ifuAraddr
          arlenReg := port.ifuArlen
          arvalidReg := true
          stateLoad := .ifuReqAr }
      else
        read
  | .ifuReqAr =>
      if read.arvalidReg ∧ axi.arready then
        { read with
          rreadyReg := true, arvalidReg := false, stateLoad := .ifuWaitR }
      else
        read
  | .ifuWaitR =>
      if read.rreadyReg ∧ axi.rvalid ∧ axi.rlast then
        { read with rreadyReg := false, stateLoad := .busIdle }
      else
        read
  | .lsuReqAr =>
      if read.arvalidReg ∧ axi.arready then
        { read with
          rreadyReg := true, arvalidReg := false, stateLoad := .lsuWaitR }
      else
        read
  | .lsuWaitR =>
      if axi.rvalid ∧ read.rreadyReg then
        { read with
          lsuRdataReg := axi.rdata
          lsuRrespReg := axi.rresp
          rreadyReg := false
          lsuRvalidReg := true
          stateLoad := .lsuDone }
      else
        read
  | .lsuDone =>
      if read.lsuRvalidReg ∧ port.lsuRready then
        { read with lsuRvalidReg := false, stateLoad := .busIdle }
      else
        read

/-- The write state machine. -/
def nextWrite (platform : Platform) (bus : Bus) (port : In) (axi : AxiIn) :
    BusWrite :=
  let write := bus.write
  let ready := bus.lsuAwready port.lsuArvalid port.ifuArvalid
  match write.stateStore with
  | .busWriteIdle =>
      let awTaken := port.lsuAwvalid ∧ ready
      let wTaken := port.lsuWvalid ∧ ready
      let both := write.lsuWDone ∧ write.lsuAwDone
      { write with
        awaddrReg := if awTaken then port.lsuAwaddr else write.awaddrReg
        wdataReg := if wTaken then port.lsuWdata else write.wdataReg
        wstrbReg := if wTaken then port.lsuWstrb else write.wstrbReg
        wlastReg := if wTaken then true else write.wlastReg
        lsuAwDone := if both then false
          else if awTaken then true else write.lsuAwDone
        lsuWDone := if both then false
          else if wTaken then true else write.lsuWDone
        stateStore := if both then .busSync else .busWriteIdle
        wvalidReg := if both then true else write.wvalidReg
        awvalidReg := if both then true else write.awvalidReg }
  | .busSync =>
      let awTaken := write.awvalidReg ∧ axi.awready
      let wTaken := write.wvalidReg ∧ axi.wready
      let both := write.slaveAwDone ∧ write.slaveWDone
      { write with
        awvalidReg := if awTaken then false else write.awvalidReg
        wvalidReg := if wTaken then false else write.wvalidReg
        wdataReg :=
          if wTaken ∧ platform.clearWdata then 0 else write.wdataReg
        wstrbReg :=
          if wTaken ∧ platform.clearWdata then 0 else write.wstrbReg
        wlastReg := if wTaken then false else write.wlastReg
        slaveAwDone := if both then false
          else if awTaken then true else write.slaveAwDone
        slaveWDone := if both then false
          else if wTaken then true else write.slaveWDone
        breadyReg := if both then true else write.breadyReg
        stateStore := if both then .busWriteB else .busSync }
  | .busWriteB =>
      if axi.bvalid ∧ write.breadyReg then
        { write with
          wlastReg := false
          lsuBrespReg := axi.bresp
          lsuBvalidReg := true
          stateStore := .busWriteDone
          breadyReg := false }
      else
        write
  | .busWriteDone =>
      if write.lsuBvalidReg ∧ port.lsuBready then
        { write with lsuBvalidReg := false, stateStore := .busWriteIdle }
      else
        write

/-- One clock edge outside reset. -/
def next (platform : Platform) (bus : Bus) (port : In) (axi : AxiIn) :
    Bus where
  read := bus.nextRead platform port axi
  write := bus.nextWrite platform port axi
  clint := bus.clint.next (port.lsuArvalid && clintEn platform port.lsuAraddr)

end Bus

end Ysyx.Rtl
