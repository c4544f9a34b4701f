import Ysyx.Rtl.Bus

/-!
# The crossbar of the NPC platform

`ysyx_25040131_xbar` between the bus, the SRAM and the UART, with
`YSYX_AM_DEVICE`.  The bus does not look at the ids that it latches.
-/

namespace Ysyx.Rtl.Xbar

def sramBase : Word := 0x80000000
def sramEnd : Word := 0x88000000
def virtualBase : Word := 0xa0000000
def virtualEnd : Word := 0xa1200000
/-- `YSYX_BUS_SERIAL_PORT`. -/
def uartBase : Word := 0x10000000
def uartEnd : Word := 0x10000fff

/-- `AXI_RESP_DECERR`. -/
def axiRespDecerr : BitVec 2 := 0b11

/-- `read_addr_is_sram` and `write_addr_is_sram`. -/
def addrIsSram (addr : Word) : Bool :=
  (sramBase ≤ addr && addr ≤ sramEnd) ||
    (virtualBase ≤ addr && addr ≤ virtualEnd)

/-- `read_addr_is_uart` and `write_addr_is_uart`. -/
def addrIsUart (addr : Word) : Bool :=
  uartBase ≤ addr && addr ≤ uartEnd

/-- The crossbar has a slave for the address. -/
def maps (addr : Word) : Bool := addrIsSram addr || addrIsUart addr

/-- A signal of the slave that the address selects. -/
def select {α : Type} (addr : Word) (sram uart none : α) : α :=
  if addrIsSram addr then sram else if addrIsUart addr then uart else none

/-- What the crossbar drives to the bus.  An address without slave gets no
`arready`, no `rvalid`, no `awready`, no `wready` and no `bvalid`. -/
def toMaster (out : AxiOut) (sram uart : AxiIn) : AxiIn :=
  let rvalid := select out.araddr sram.rvalid uart.rvalid false
  { arready := select out.araddr sram.arready uart.arready false
    rdata := select out.araddr sram.rdata uart.rdata 0
    rresp := select out.araddr sram.rresp uart.rresp axiRespDecerr
    rvalid
    -- the UART answers with one beat
    rlast := if addrIsSram out.araddr then sram.rlast else rvalid
    awready := select out.awaddr sram.awready uart.awready false
    wready := select out.awaddr sram.wready uart.wready false
    bresp := select out.awaddr sram.bresp uart.bresp axiRespDecerr
    bvalid := select out.awaddr sram.bvalid uart.bvalid false }

/-- What the crossbar drives to a slave with these addresses. -/
def toSlave (selects : Word → Bool) (out : AxiOut) : AxiOut :=
  { out with
    arvalid := out.arvalid && selects out.araddr
    rready := out.rready && selects out.araddr
    awvalid := out.awvalid && selects out.awaddr
    wvalid := out.wvalid && selects out.awaddr
    bready := out.bready && selects out.awaddr }

def toSram (out : AxiOut) : AxiOut := toSlave addrIsSram out

/-- The port of the UART has no `arlen`: a read has one beat. -/
def toUart (out : AxiOut) : AxiOut :=
  { toSlave addrIsUart out with arlen := 0 }

/-! ## The address map -/

theorem addrIsSram_eq_false {addr : Word} (isUart : addrIsUart addr = true) :
    addrIsSram addr = false := by
  simp only [addrIsUart, uartBase, uartEnd, Bool.and_eq_true,
    decide_eq_true_eq, BitVec.le_def, BitVec.reduceToNat] at isUart
  simp only [addrIsSram, sramBase, sramEnd, virtualBase, virtualEnd,
    Bool.or_eq_false_iff, Bool.and_eq_false_iff, decide_eq_false_iff_not,
    BitVec.le_def, BitVec.reduceToNat]
  omega

theorem addrIsUart_eq_false {addr : Word} (isSram : addrIsSram addr = true) :
    addrIsUart addr = false := by
  by_contra isUart
  rw [addrIsSram_eq_false (Bool.eq_true_of_not_eq_false isUart)] at isSram
  contradiction

/-- The timer registers lie among the devices. -/
theorem maps_of_clintEn {addr : Word}
    (clint : Bus.clintEn .npc addr = true) : maps addr = true := by
  simp only [Bus.clintEn, Bool.or_eq_true, beq_iff_eq] at clint
  rcases clint with rfl | rfl <;> decide

section Select

variable {α : Type} {addr : Word} {sram uart none : α}

theorem select_sram (isSram : addrIsSram addr = true) :
    select addr sram uart none = sram :=
  if_pos isSram

theorem select_uart (isUart : addrIsUart addr = true) :
    select addr sram uart none = uart := by
  rw [select, if_neg (by simp [addrIsSram_eq_false isUart]), if_pos isUart]

theorem select_none (unmapped : maps addr = false) :
    select addr sram uart none = none := by
  obtain ⟨notSram, notUart⟩ := Bool.or_eq_false_iff.mp unmapped
  simp [select, notSram, notUart]

end Select

end Ysyx.Rtl.Xbar
