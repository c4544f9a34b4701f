import Ysyx.Rtl.System

/-!
# Reads against writes on the bus

The bus means to have one transaction in flight: it takes a store only while
no read is asked for, and a read only while the write machine is idle.
-/

namespace Ysyx.Rtl

namespace Bus

/-- A read is in flight, from its acceptance to its last beat. -/
def readInFlight (bus : Bus) : Bool := !bus.busReadIdle

/-- A store is in flight, from the acceptance of its address or data to the
delivery of its response. -/
def writeInFlight (bus : Bus) : Bool :=
  bus.write.lsuAwDone || bus.write.lsuWDone || !bus.busWriteIdle

def readAccepted (bus : Bus) (port : In) : Bool :=
  (port.lsuArvalid && bus.lsuArready) ||
    (port.ifuArvalid && bus.ifuArready port.lsuArvalid)

def storeAccepted (bus : Bus) (port : In) : Bool :=
  bus.lsuAwready port.lsuArvalid port.ifuArvalid &&
    (port.lsuAwvalid || port.lsuWvalid)

/-- Reads and writes keep apart in a cycle. -/
structure Exclusive (bus : Bus) (port : In) : Prop where
  inFlight : (bus.readInFlight && bus.writeInFlight) = false
  duringWrite : bus.writeInFlight = true → bus.readAccepted port = false
  duringRead : bus.readInFlight = true → bus.storeAccepted port = false
  accepted : (bus.readAccepted port && bus.storeAccepted port) = false

/-- A read is asked for in the one cycle in which a store is recorded in the
done bits only: the bus is still idle in both state machines. -/
def ReadBehindStore (bus : Bus) (port : In) : Prop :=
  bus.busReadIdle = true ∧ bus.busWriteIdle = true ∧
    (bus.write.lsuAwDone || bus.write.lsuWDone) = true ∧
    (port.lsuArvalid || port.ifuArvalid) = true

theorem readAccepted_eq (bus : Bus) (port : In) :
    bus.readAccepted port = (bus.busReadIdle && bus.busWriteIdle &&
      (port.lsuArvalid || port.ifuArvalid)) := by
  simp only [readAccepted, lsuArready, ifuArready]
  cases port.lsuArvalid <;> cases port.ifuArvalid <;> simp

/-- The other parts of the discipline hold by the ready signals alone. -/
theorem exclusive_of_inFlight {bus : Bus} {port : In}
    (inFlight : (bus.readInFlight && bus.writeInFlight) = false)
    (notBehind : ¬ bus.ReadBehindStore port) :
    bus.Exclusive port := by
  refine ⟨inFlight, ?_, ?_, ?_⟩
  · intro writing
    rw [readAccepted_eq]
    by_contra accepted
    apply notBehind
    simp only [writeInFlight, ReadBehindStore] at writing ⊢
    grind
  · intro reading
    simp only [readInFlight, storeAccepted, lsuAwready] at reading ⊢
    grind
  · rw [readAccepted_eq]
    simp only [storeAccepted, lsuAwready]
    grind

theorem not_exclusive_of_behind {bus : Bus} {port : In}
    (behind : bus.ReadBehindStore port) : ¬ bus.Exclusive port := by
  intro exclusive
  obtain ⟨readIdle, writeIdle, recorded, asked⟩ := behind
  have writing : bus.writeInFlight = true := by
    simp only [writeInFlight, recorded, Bool.true_or]
  have accepted := exclusive.duringWrite writing
  rw [readAccepted_eq, readIdle, writeIdle, asked] at accepted
  contradiction

section Step

variable {platform : Platform} {bus : Bus} {port : In} {axi : AxiIn}

theorem readInFlight_next (reading : (bus.next platform port axi).readInFlight =
    true) : bus.readInFlight = true ∨ bus.readAccepted port = true := by
  rw [readAccepted_eq]
  by_contra quiet
  obtain ⟨notReading, notAccepted⟩ := not_or.mp quiet
  have idle : bus.read.stateLoad = .busIdle := by
    simpa [readInFlight, busReadIdle] using notReading
  simp only [readInFlight, busReadIdle, next, nextRead, idle] at reading
  simp only [busReadIdle, idle] at notAccepted
  grind

theorem writeInFlight_next
    (writing : (bus.next platform port axi).writeInFlight = true) :
    bus.writeInFlight = true ∨ bus.storeAccepted port = true := by
  by_contra quiet
  obtain ⟨notWriting, notAccepted⟩ := not_or.mp quiet
  simp only [writeInFlight, busWriteIdle] at notWriting
  have idle : bus.write.stateStore = .busWriteIdle := by
    grind
  simp only [writeInFlight, busWriteIdle, next, nextWrite, idle] at writing
  simp only [storeAccepted] at notAccepted
  grind

theorem inFlight_next (exclusive : bus.Exclusive port) :
    ((bus.next platform port axi).readInFlight &&
      (bus.next platform port axi).writeInFlight) = false := by
  by_contra both
  rw [Bool.not_eq_false, Bool.and_eq_true] at both
  obtain ⟨inFlight, duringWrite, duringRead, accepted⟩ := exclusive
  rcases readInFlight_next both.1 with reading | readTaken <;>
    rcases writeInFlight_next both.2 with writing | storeTaken
  · rw [reading, writing] at inFlight
    contradiction
  · rw [duringRead reading] at storeTaken
    contradiction
  · rw [duringWrite writing] at readTaken
    contradiction
  · rw [readTaken, storeTaken] at accepted
    contradiction

end Step

/-! ## Runs -/

/-- One clock edge, as a machine that reads the requests and the slave. -/
def step (platform : Platform) (input : In × AxiIn) (bus : Bus) : Bus :=
  bus.next platform input.1 input.2

/-- The bus after `cycle` cycles of the given requests and answers, from
reset. -/
def run (platform : Platform) (inputs : Nat → In × AxiIn) (power : Bus)
    (cycle : Nat) : Bus :=
  Machine.run (step platform) inputs power.reset cycle

/-- Under every sequence of requests and every timing of the slave, reads and
writes have kept apart up to a cycle exactly if up to then no read was asked
for behind a store. -/
theorem run_exclusive_iff (platform : Platform) (inputs : Nat → In × AxiIn)
    (power : Bus) (cycle : Nat) :
    (∀ upTo, upTo ≤ cycle →
      (run platform inputs power upTo).Exclusive (inputs upTo).1) ↔
      ∀ upTo, upTo ≤ cycle →
        ¬ (run platform inputs power upTo).ReadBehindStore
          (inputs upTo).1 := by
  constructor
  · intro exclusive upTo before behind
    exact not_exclusive_of_behind behind (exclusive upTo before)
  · intro notBehind upTo
    induction upTo with
    | zero =>
        intro before
        exact exclusive_of_inFlight rfl (notBehind 0 before)
    | succ upTo inductionHypothesis =>
        intro before
        have earlier := inductionHypothesis (by omega)
        exact exclusive_of_inFlight (inFlight_next earlier)
          (notBehind (upTo + 1) before)

end Bus

/-! ## A fetch behind a store -/

/-- The bus of a core is a run of the bus on the requests of its core. -/
theorem Core.run_bus {platform : Platform} (inputs : Nat → AxiIn)
    (power : Core platform) (cycle : Nat) :
    (power.reset.run inputs cycle).bus =
      Bus.run platform (fun earlier =>
        ((power.reset.run inputs earlier).busPort, inputs earlier))
        power.bus cycle := by
  induction cycle with
  | zero =>
      rfl
  | succ cycle inductionHypothesis =>
      change Bus.next _ _ _ _ = Bus.next _ _ _ _
      rw [← Bus.run, ← inductionHypothesis]
      rfl

/-- `lui x5, 0x80000`, `sw x0, 64(x5)` twice and a `nop`. -/
def twoStores : System .npc :=
  System.boot .npc
    [(0x80000000, 0x800002b7), (0x80000004, 0x0402a023),
      (0x80000008, 0x0402a023), (0x8000000c, 0x00000013)]

/-- The requests of its core, with the answers of a slave that is never
late. -/
def twoStoresInputs (cycle : Nat) : Bus.In × AxiIn :=
  let inputs := twoStores.inputs fun _ => Axi.Choice.prompt
  (((Core.zeroed .npc).reset.run inputs cycle).busPort, inputs cycle)

/-- The cache asks for the line behind the stores in the cycle after the first
store was accepted, and gets it. -/
theorem twoStores_notExclusive :
    ¬ ∀ (platform : Platform) (inputs : Nat → Bus.In × AxiIn) (power : Bus)
      (cycle : Nat),
      (Bus.run platform inputs power cycle).Exclusive (inputs cycle).1 := by
  intro claimed
  have kept := (claimed .npc twoStoresInputs Bus.zeroed 30).inFlight
  have both : ((twoStores.run (fun _ => Axi.Choice.prompt)
      30).core.bus.readInFlight &&
      (twoStores.run (fun _ => Axi.Choice.prompt)
        30).core.bus.writeInFlight) = true := by
    decide +kernel
  have sameBus : (twoStores.run (fun _ => Axi.Choice.prompt) 30).core.bus =
      Bus.run .npc twoStoresInputs Bus.zeroed 30 := by
    rw [System.run_core]
    exact Core.run_bus _ _ _
  rw [sameBus, kept] at both
  contradiction

end Ysyx.Rtl
