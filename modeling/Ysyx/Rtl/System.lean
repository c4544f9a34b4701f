import Ysyx.Lib.Machine
import Ysyx.Rtl.Core

/-!
# The core and its memory

Runs of the core of `ysyx_25040131`, alone and connected to an AXI memory
slave.
-/

namespace Ysyx.Rtl

variable {platform : Platform}

/-- The core after `cycle` cycles of the given AXI inputs. -/
def Core.run (inputs : Nat → AxiIn) (core : Core platform) (cycle : Nat) :
    Core platform :=
  Machine.run Core.step inputs core cycle

/-- A power-up state with every register at zero. -/
def Core.zeroed (platform : Platform) : Core platform where
  ifu := Ifu.reset 0
  icache :=
    { tagArray := fun _ _ => 0
      dataArray := fun _ _ _ => 0
      validArray := fun _ _ => false
      lruBit := fun _ => false
      state := .idle
      reqAddrReg := 0
      missAddrReg := 0
      missIndexReg := 0
      missTagReg := 0
      missWayReg := false
      refillCnt := 0
      refillComplete := false }
  btb :=
    { tagArr := fun _ => 0
      tgtArr := fun _ => 0
      validArr := fun _ => false
      cntArr := fun _ => 0 }
  ras := { stack := fun _ => 0, sp := 0 }
  ifId := .empty
  idEx := .empty
  exLatch := {}
  exMem := .empty
  lsu := Lsu.zeroed
  memWb := .empty
  gpr := fun _ => 0
  csr :=
    { mstatus := 0, mtvec := 0, mepc := 0, mcause := 0, mtval := 0,
      mscratch := 0 }
  bus := Bus.zeroed

/-- The core and the memory behind its AXI port. -/
structure System (platform : Platform) where
  core : Core platform
  memory : Axi.Memory

namespace System

/-- One clock cycle, with the slave's choices. -/
def step (choice : Axi.Choice) (system : System platform) :
    System platform where
  core := system.core.step (system.memory.drive choice)
  memory := system.memory.step choice system.core.bus.axiOut

/-- The system after `cycle` cycles of the given choices. -/
def run (choices : Nat → Axi.Choice) (system : System platform)
    (cycle : Nat) : System platform :=
  Machine.run System.step choices system cycle

/-- What the memory drives in each cycle of a system run. -/
def inputs (choices : Nat → Axi.Choice) (system : System platform)
    (cycle : Nat) : AxiIn :=
  (system.run choices cycle).memory.drive (choices cycle)

/-- A zeroed core leaving reset in front of a program. -/
def boot (platform : Platform) (program : List (Word × Word)) :
    System platform where
  core := (Core.zeroed platform).reset
  memory := { bytes := Axi.Bytes.ofWords program }

/-- The core of a system run is a run of the core on what the memory
drives. -/
theorem run_core (choices : Nat → Axi.Choice) (system : System platform)
    (cycle : Nat) :
    (system.run choices cycle).core =
      system.core.run (system.inputs choices) cycle := by
  induction cycle with
  | zero =>
      rfl
  | succ cycle inductionHypothesis =>
      change (System.step _ _).core = Core.step _ (Core.run _ _ _)
      rw [← inductionHypothesis]
      rfl

end System

end Ysyx.Rtl
