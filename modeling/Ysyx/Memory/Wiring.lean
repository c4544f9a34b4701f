import Ysyx.Rtl.System

/-!
# The wires between the LSU, the bus and the memory

In every state of a run the handshake registers of the load-store unit and of
the bus are functions of their states, the read burst and the write in the
memory are the ones of the bus, and the two machines wait for each other.
-/

namespace Ysyx.Rtl

/-! ## The registers of the load machines -/

namespace BusLoadState

/-- `arvalid` is high. -/
def asks : BusLoadState → Bool
  | .ifuReqAr | .lsuReqAr => true
  | _ => false

/-- `rready` is high. -/
def receives : BusLoadState → Bool
  | .ifuWaitR | .lsuWaitR => true
  | _ => false

/-- The bus works on a load. -/
def forLsu : BusLoadState → Bool
  | .lsuReqAr | .lsuWaitR | .lsuDone => true
  | _ => false

end BusLoadState

/-- The handshake registers of the read machine, by its state. -/
structure BusRead.Encoded (read : BusRead) : Prop where
  ifuRvalid : read.ifuRvalidReg = false
  arvalid : read.arvalidReg = read.stateLoad.asks
  rready : read.rreadyReg = read.stateLoad.receives
  lsuRvalid : read.lsuRvalidReg = decide (read.stateLoad = .lsuDone)
  arlen : read.stateLoad = .lsuReqAr ∨ read.stateLoad = .lsuWaitR →
    read.arlenReg = 0

/-- The handshake registers of the load machine, by its state. -/
structure Lsu.LoadEncoded (lsu : Lsu) : Prop where
  arvalid : lsu.lsuArvalid = decide (lsu.stateLoad = .addr)
  rready : lsu.lsuRready = decide (lsu.stateLoad = .data)

theorem Bus.encoded_nextRead {platform : Platform} {bus : Bus}
    (encoded : bus.read.Encoded) (port : Bus.In) (axi : AxiIn) :
    (bus.nextRead platform port axi).Encoded := by
  obtain ⟨ifuRvalid, arvalid, rready, lsuRvalid, arlen⟩ := encoded
  unfold Bus.nextRead
  cases state : bus.read.stateLoad <;>
    simp only [state, BusLoadState.asks, BusLoadState.receives]
      at arvalid rready lsuRvalid arlen ⊢ <;>
    split_ifs <;> constructor <;>
    simp_all [BusLoadState.asks, BusLoadState.receives]

/-- A read machine that does not receive starts to when the slave accepts
its request. -/
theorem Bus.nextRead_of_notReceiving (platform : Platform) {bus : Bus}
    (encoded : bus.read.Encoded) (port : Bus.In) (axi : AxiIn)
    (idle : bus.read.stateLoad.receives = false) :
    (bus.nextRead platform port axi).stateLoad.receives =
        (bus.read.stateLoad.asks && axi.arready) ∧
      (bus.read.stateLoad.asks = true →
        (bus.nextRead platform port axi).araddrReg = bus.read.araddrReg ∧
          (bus.nextRead platform port axi).arlenReg = bus.read.arlenReg) := by
  have arvalid := encoded.arvalid
  unfold Bus.nextRead
  cases state : bus.read.stateLoad <;>
    simp only [state, BusLoadState.asks, BusLoadState.receives,
      Bool.true_eq_false] at arvalid idle ⊢ <;>
    split_ifs <;> simp_all

/-- A read machine that receives goes on to the last beat of a fetch, or to
the only beat of a load. -/
theorem Bus.nextRead_of_receiving (platform : Platform) {bus : Bus}
    (encoded : bus.read.Encoded) (port : Bus.In) (axi : AxiIn)
    (busy : bus.read.stateLoad.receives = true) :
    (bus.nextRead platform port axi).stateLoad =
        (if axi.rvalid then
          if bus.read.stateLoad = .lsuWaitR then .lsuDone
          else if axi.rlast then .busIdle
          else .ifuWaitR
        else bus.read.stateLoad) ∧
      (bus.nextRead platform port axi).araddrReg = bus.read.araddrReg ∧
      (bus.nextRead platform port axi).arlenReg = bus.read.arlenReg := by
  have rready := encoded.rready
  unfold Bus.nextRead
  cases state : bus.read.stateLoad <;>
    simp only [state, BusLoadState.receives, Bool.false_eq_true]
      at rready busy ⊢ <;>
    split_ifs <;> simp_all

theorem Lsu.next_loadRegs (lsu : Lsu) (port : Lsu.In) :
    (lsu.next port).lsuArvalid = (lsu.nextLoad port).lsuArvalid ∧
      (lsu.next port).lsuAraddr = (lsu.nextLoad port).lsuAraddr ∧
      (lsu.next port).lsuRready = (lsu.nextLoad port).lsuRready ∧
      (lsu.next port).readMemReg = (lsu.nextLoad port).readMemReg ∧
      (lsu.next port).readData = (lsu.nextLoad port).readData := by
  unfold Lsu.next Lsu.nextStore
  split
  · split_ifs <;> exact ⟨rfl, rfl, rfl, rfl, rfl⟩
  · exact ⟨rfl, rfl, rfl, rfl, rfl⟩
  · split_ifs <;> exact ⟨rfl, rfl, rfl, rfl, rfl⟩
  · split_ifs <;> exact ⟨rfl, rfl, rfl, rfl, rfl⟩

theorem Lsu.loadEncoded_next {lsu : Lsu} (encoded : lsu.LoadEncoded)
    (port : Lsu.In) : (lsu.next port).LoadEncoded := by
  obtain ⟨arvalid, rready⟩ := encoded
  obtain ⟨sameArvalid, -, sameRready, -⟩ := lsu.next_loadRegs port
  constructor
  · rw [sameArvalid, Lsu.next_stateLoad]
    unfold Lsu.nextLoad
    cases state : lsu.stateLoad <;> simp only [state] at arvalid ⊢ <;>
      split_ifs <;> simp_all
  · rw [sameRready, Lsu.next_stateLoad]
    unfold Lsu.nextLoad
    cases state : lsu.stateLoad <;> simp only [state] at rready ⊢ <;>
      split_ifs <;> simp_all

/-! ## Loads on the bus -/

/-- The load machine waits for data exactly while the bus works on a load. -/
theorem Core.loading_step {platform : Platform} {core : Core platform}
    (bus : core.bus.read.Encoded) (lsu : core.lsu.LoadEncoded)
    (loading : decide (core.lsu.stateLoad = .data) =
      core.bus.read.stateLoad.forLsu) (axi : AxiIn) :
    decide ((core.step axi).lsu.stateLoad = .data) =
      (core.step axi).bus.read.stateLoad.forLsu := by
  have lsuRvalid := bus.lsuRvalid
  obtain ⟨arvalid, rready⟩ := lsu
  change decide ((core.lsu.next core.lsuPort).stateLoad = .data) =
    (core.bus.nextRead platform core.busPort axi).stateLoad.forLsu
  rw [Lsu.next_stateLoad]
  unfold Bus.nextRead Lsu.nextLoad
  cases busState : core.bus.read.stateLoad <;>
    cases lsuState : core.lsu.stateLoad <;>
    simp [busState, lsuState, BusLoadState.forLsu] at loading <;>
    simp only [busState, lsuState, Core.busPort, Core.lsuPort,
      Bus.lsuArready, Bus.busReadIdle, arvalid, rready] <;>
    split_ifs <;>
    simp_all [BusLoadState.forLsu]

/-- The load machine, the bus and the burst in the memory. -/
structure ReadWired {platform : Platform} (system : System platform) :
    Prop where
  bus : system.core.bus.read.Encoded
  lsu : system.core.lsu.LoadEncoded
  loading : decide (system.core.lsu.stateLoad = .data) =
    system.core.bus.read.stateLoad.forLsu
  inFlight : system.memory.burst.isSome =
    system.core.bus.read.stateLoad.receives
  burst : ∀ burst, system.memory.burst = some burst →
    burst.addr = system.core.bus.read.araddrReg ∧
      burst.len = system.core.bus.read.arlenReg ∧
      (system.core.bus.read.stateLoad = .lsuWaitR → burst.beat = 0)

namespace ReadWired

variable {platform : Platform} {system : System platform}

theorem reset (power : Core platform) (bytes : Axi.Bytes) :
    ReadWired ⟨power.reset, { bytes }⟩ where
  bus := ⟨rfl, rfl, rfl, rfl, fun _ => rfl⟩
  lsu := ⟨rfl, rfl⟩
  loading := rfl
  inFlight := rfl
  burst := fun _ impossible => by simp at impossible

theorem loading_step (wired : ReadWired system) (choice : Axi.Choice) :
    decide ((system.step choice).core.lsu.stateLoad = .data) =
      (system.step choice).core.bus.read.stateLoad.forLsu :=
  Core.loading_step wired.bus wired.lsu wired.loading _

theorem burst_step (wired : ReadWired system) (choice : Axi.Choice) :
    (system.step choice).memory.burst.isSome =
        (system.step choice).core.bus.read.stateLoad.receives ∧
      ∀ burst, (system.step choice).memory.burst = some burst →
        burst.addr = (system.step choice).core.bus.read.araddrReg ∧
          burst.len = (system.step choice).core.bus.read.arlenReg ∧
          ((system.step choice).core.bus.read.stateLoad = .lsuWaitR →
            burst.beat = 0) := by
  have inFlight := wired.inFlight
  have nextMemory : (system.step choice).memory.burst =
      system.memory.nextBurst choice system.core.bus.axiOut := rfl
  rw [nextMemory]
  cases held : system.memory.burst with
  | none =>
      have idle : system.core.bus.read.stateLoad.receives = false := by
        rw [← inFlight, held]
        rfl
      obtain ⟨receives, kept⟩ := Bus.nextRead_of_notReceiving platform
        wired.bus system.core.busPort (system.memory.drive choice) idle
      rw [Axi.Memory.nextBurst_of_none held]
      simp only [Bus.axiOut, wired.bus.arvalid]
      refine ⟨?_, ?_⟩
      · refine Eq.trans ?_ receives.symm
        cases system.core.bus.read.stateLoad.asks <;>
          cases (system.memory.drive choice).arready <;> rfl
      · intro burst accepted
        split_ifs at accepted with asked
        obtain ⟨addr, len⟩ := kept asked.1
        rw [← Option.some.inj accepted]
        exact ⟨addr.symm, len.symm, fun _ => rfl⟩
  | some burst =>
      have busy : system.core.bus.read.stateLoad.receives = true := by
        rw [← inFlight, held]
        rfl
      obtain ⟨state, addr, len⟩ := Bus.nextRead_of_receiving platform
        wired.bus system.core.busPort (system.memory.drive choice) busy
      obtain ⟨sameAddr, sameLen, first⟩ := wired.burst burst held
      change (system.step choice).core.bus.read.stateLoad = _ at state
      change (system.step choice).core.bus.read.araddrReg = _ at addr
      change (system.step choice).core.bus.read.arlenReg = _ at len
      rw [Axi.Memory.nextBurst_of_some held, state, addr, len]
      simp only [Bus.axiOut, wired.bus.rready, busy, and_true]
      cases valid : (system.memory.drive choice).rvalid with
      | false =>
          simp only [Bool.false_eq_true, if_false]
          refine ⟨busy.symm, ?_⟩
          rintro burst ⟨rfl⟩
          exact ⟨sameAddr, sameLen, first⟩
      | true =>
          -- the only beat of a load is its last
          have last (load : system.core.bus.read.stateLoad = .lsuWaitR) :
              (system.memory.drive choice).rlast = true := by
            rw [(Axi.Memory.drive_of_some held).2, Axi.Burst.isLast,
              first load, sameLen, wired.bus.arlen (.inr load)]
            rfl
          by_cases load : system.core.bus.read.stateLoad = .lsuWaitR
          · simp [last load, load, BusLoadState.receives]
          · cases ended : (system.memory.drive choice).rlast with
            | true => simp [load, BusLoadState.receives]
            | false =>
                simp only [load, if_true, if_false, Bool.false_eq_true]
                refine ⟨rfl, ?_⟩
                rintro burst ⟨rfl⟩
                exact ⟨sameAddr, sameLen, nofun⟩

theorem step (wired : ReadWired system) (choice : Axi.Choice) :
    ReadWired (system.step choice) where
  bus := Bus.encoded_nextRead wired.bus _ _
  lsu := Lsu.loadEncoded_next wired.lsu _
  loading := wired.loading_step choice
  inFlight := (wired.burst_step choice).1
  burst := (wired.burst_step choice).2

end ReadWired

/-! ## The registers of the store machines -/

/-- The handshake registers of the store machine, by its state. -/
structure Lsu.StoreEncoded (lsu : Lsu) : Prop where
  awvalid : lsu.lsuAwvalid = decide (lsu.stateStore = .sync)
  wvalid : lsu.lsuWvalid = decide (lsu.stateStore = .sync)
  bready : lsu.lsuBready = decide (lsu.stateStore = .resp)
  awDone : lsu.awDone = false
  wDone : lsu.wDone = false

/-- The handshake registers of the write machine, by its state. -/
structure BusWrite.Encoded (write : BusWrite) : Prop where
  lsuDone : write.lsuWDone = write.lsuAwDone
  accepted : write.lsuAwDone = true → write.stateStore = .busWriteIdle
  awvalid : write.awvalidReg =
    (decide (write.stateStore = .busSync) && !write.slaveAwDone)
  wvalid : write.wvalidReg =
    (decide (write.stateStore = .busSync) && !write.slaveWDone)
  slaveAwDone : write.slaveAwDone = true → write.stateStore = .busSync
  slaveWDone : write.slaveWDone = true → write.stateStore = .busSync
  bready : write.breadyReg = decide (write.stateStore = .busWriteB)
  bvalid : write.lsuBvalidReg = decide (write.stateStore = .busWriteDone)

/-- A store has been accepted and not yet been answered. -/
def BusWrite.busy (write : BusWrite) : Bool :=
  write.lsuAwDone || decide (write.stateStore ≠ .busWriteIdle)

theorem Bus.encoded_nextWrite (platform : Platform) {bus : Bus}
    (encoded : bus.write.Encoded) {port : Bus.In} (axi : AxiIn)
    (together : port.lsuWvalid = port.lsuAwvalid) :
    (bus.nextWrite platform port axi).Encoded := by
  obtain ⟨lsuDone, accepted, awvalid, wvalid, slaveAwDone, slaveWDone,
    bready, bvalid⟩ := encoded
  cases state : bus.write.stateStore <;>
    simp only [state, reduceCtorEq, decide_true, decide_false, imp_false,
      Bool.not_eq_true, Bool.true_and, Bool.false_and]
      at accepted awvalid wvalid slaveAwDone slaveWDone bready bvalid <;>
    simp only [Bus.nextWrite, state] <;>
    constructor <;> grind

namespace Lsu

variable {lsu : Lsu} {port : In}

theorem nextLoad_storeRegs (lsu : Lsu) (port : In) :
    (lsu.nextLoad port).lsuAwvalid = lsu.lsuAwvalid ∧
      (lsu.nextLoad port).lsuWvalid = lsu.lsuWvalid ∧
      (lsu.nextLoad port).lsuBready = lsu.lsuBready ∧
      (lsu.nextLoad port).awDone = lsu.awDone ∧
      (lsu.nextLoad port).wDone = lsu.wDone ∧
      (lsu.nextLoad port).lsuAwaddr = lsu.lsuAwaddr ∧
      (lsu.nextLoad port).lsuWdata = lsu.lsuWdata ∧
      (lsu.nextLoad port).lsuWstrb = lsu.lsuWstrb := by
  unfold nextLoad
  split <;> split_ifs <;> exact ⟨rfl, rfl, rfl, rfl, rfl, rfl, rfl, rfl⟩

theorem storeStart_nextLoad (lsu : Lsu) (port : In) :
    (lsu.nextLoad port).storeStart port = lsu.storeStart port := by
  simp [storeStart, nextLoad_stateStore]

theorem storeEncoded_next (encoded : lsu.StoreEncoded)
    (together : port.lsuWready = port.lsuAwready) :
    (lsu.next port).StoreEncoded := by
  obtain ⟨awvalid, wvalid, bready, awDone, wDone⟩ := encoded
  obtain ⟨sameAwvalid, sameWvalid, sameBready, sameAwDone, sameWDone, -⟩ :=
    lsu.nextLoad_storeRegs port
  have same := lsu.nextLoad_stateStore port
  cases state : lsu.stateStore <;>
    simp only [state, reduceCtorEq, decide_true, decide_false]
      at awvalid wvalid bready <;>
    simp only [next, nextStore, same, state] <;>
    constructor <;> grind

theorem next_stateStore_eq (encoded : lsu.StoreEncoded)
    (together : port.lsuWready = port.lsuAwready) :
    (lsu.next port).stateStore =
      match lsu.stateStore with
      | .idle => if lsu.storeStart port then .sync else .idle
      | .sync => if port.lsuAwready then .resp else .sync
      | .resp => if port.lsuBvalid then .done else .resp
      | .done => if port.nextReady then .idle else .done := by
  obtain ⟨-, -, bready, awDone, wDone⟩ := encoded
  obtain ⟨-, -, sameBready, sameAwDone, sameWDone, -⟩ :=
    lsu.nextLoad_storeRegs port
  have same := lsu.nextLoad_stateStore port
  have sameStart := lsu.storeStart_nextLoad port
  cases state : lsu.stateStore <;>
    simp only [state, reduceCtorEq, decide_true, decide_false] at bready <;>
    simp only [next, nextStore, same, state] <;>
    grind

theorem next_stateStore (encoded : lsu.StoreEncoded)
    (together : port.lsuWready = port.lsuAwready)
    (ready : port.nextReady = true) :
    (lsu.next port).stateStore =
      match lsu.stateStore with
      | .idle => if lsu.storeStart port then .sync else .idle
      | .sync => if port.lsuAwready then .resp else .sync
      | .resp => if port.lsuBvalid then .done else .resp
      | .done => .idle := by
  rw [next_stateStore_eq encoded together, ready]
  rfl

theorem next_payload (lsu : Lsu) (port : In) (active : lsu.stateStore = .sync ∨
      lsu.stateStore = .resp) :
    (lsu.next port).lsuAwaddr = lsu.lsuAwaddr ∧
      (lsu.next port).lsuWdata = lsu.lsuWdata ∧
      (lsu.next port).lsuWstrb = lsu.lsuWstrb := by
  obtain ⟨-, -, -, -, -, awaddr, wdata, wstrb⟩ :=
    lsu.nextLoad_storeRegs port
  have same := lsu.nextLoad_stateStore port
  rcases active with state | state <;>
    simp only [next, nextStore, same, state] <;>
    grind

end Lsu

/-! ## Stores on the bus -/

/-- The slave holds the address of the store. -/
def BusWrite.awSent (write : BusWrite) : Bool :=
  write.slaveAwDone || decide (write.stateStore = .busWriteB)

/-- The slave holds the data of the store. -/
def BusWrite.wSent (write : BusWrite) : Bool :=
  write.slaveWDone || decide (write.stateStore = .busWriteB)

theorem BusWrite.busy_of_awSent {write : BusWrite} (encoded : write.Encoded)
    (sent : write.awSent = true) : write.busy = true := by
  have slaveAwDone := encoded.slaveAwDone
  simp only [awSent, busy] at sent ⊢
  grind

theorem BusWrite.busy_of_wSent {write : BusWrite} (encoded : write.Encoded)
    (sent : write.wSent = true) : write.busy = true := by
  have slaveWDone := encoded.slaveWDone
  simp only [wSent, busy] at sent ⊢
  grind

/-- The two state machines meet when a store is accepted and when it is
answered. -/
theorem Core.storing_step {platform : Platform} {core : Core platform}
    (bus : core.bus.write.Encoded) (lsu : core.lsu.StoreEncoded)
    (storing : decide (core.lsu.stateStore = .resp) =
      core.bus.write.busy) (axi : AxiIn) :
    decide ((core.step axi).lsu.stateStore = .resp) =
      (core.step axi).bus.write.busy := by
  obtain ⟨lsuDone, accepted, -, -, -, -, -, bvalid⟩ := bus
  change decide ((core.lsu.next core.lsuPort).stateStore = .resp) =
    (core.bus.nextWrite platform core.busPort axi).busy
  rw [Lsu.next_stateStore lsu rfl rfl]
  obtain ⟨awvalid, wvalid, bready, -, -⟩ := lsu
  cases busState : core.bus.write.stateStore <;>
    cases lsuState : core.lsu.stateStore <;>
    simp only [busState, lsuState, BusWrite.busy, ne_eq, reduceCtorEq,
      not_true_eq_false, not_false_eq_true, decide_true, decide_false,
      Bool.or_true, Bool.or_false, Bool.false_eq_true]
      at storing accepted awvalid wvalid bready bvalid <;>
    simp only [Bus.nextWrite, BusWrite.busy, busState, Core.busPort,
      Core.lsuPort] <;>
    grind

/-- The store machine, the bus and the write in the memory. -/
structure WriteWired {platform : Platform} (system : System platform) :
    Prop where
  bus : system.core.bus.write.Encoded
  lsu : system.core.lsu.StoreEncoded
  storing : decide (system.core.lsu.stateStore = .resp) =
    system.core.bus.write.busy
  awaddrReg : system.core.bus.write.busy = true →
    system.core.bus.write.awSent = false →
    system.core.bus.write.stateStore ≠ .busWriteDone →
    system.core.bus.write.awaddrReg = system.core.lsu.lsuAwaddr
  wdataReg : system.core.bus.write.busy = true →
    system.core.bus.write.wSent = false →
    system.core.bus.write.stateStore ≠ .busWriteDone →
    system.core.bus.write.wdataReg = system.core.lsu.lsuWdata ∧
      system.core.bus.write.wstrbReg = system.core.lsu.lsuWstrb
  awaddr : system.memory.awaddr =
    if system.core.bus.write.awSent then some system.core.lsu.lsuAwaddr
    else none
  wdata : system.memory.wdata =
    if system.core.bus.write.wSent then
      some (system.core.lsu.lsuWdata,
        system.core.lsu.lsuWstrb.extractLsb' 0 4)
    else none
  performed : system.memory.performed = true →
    system.core.bus.write.awSent = true ∧
      system.core.bus.write.wSent = true

namespace WriteWired

variable {platform : Platform} {system : System platform}

theorem reset {power : Core platform}
    (quiet : power.bus.write.lsuBvalidReg = false) (bytes : Axi.Bytes) :
    WriteWired ⟨power.reset, { bytes }⟩ where
  bus := ⟨rfl, nofun, rfl, rfl, nofun, nofun, rfl, quiet⟩
  lsu := ⟨rfl, rfl, rfl, rfl, rfl⟩
  storing := rfl
  awaddrReg := nofun
  wdataReg := nofun
  awaddr := rfl
  wdata := rfl
  performed := nofun

theorem together (wired : WriteWired system) :
    system.core.busPort.lsuWvalid = system.core.busPort.lsuAwvalid :=
  wired.lsu.wvalid.trans wired.lsu.awvalid.symm

theorem storing_step (wired : WriteWired system) (choice : Axi.Choice) :
    decide ((system.step choice).core.lsu.stateStore = .resp) =
      (system.step choice).core.bus.write.busy :=
  Core.storing_step wired.bus wired.lsu wired.storing _

theorem payload_step (wired : WriteWired system) (choice : Axi.Choice)
    (busy : (system.step choice).core.bus.write.busy = true) :
    (system.step choice).core.lsu.lsuAwaddr = system.core.lsu.lsuAwaddr ∧
      (system.step choice).core.lsu.lsuWdata = system.core.lsu.lsuWdata ∧
      (system.step choice).core.lsu.lsuWstrb =
        system.core.lsu.lsuWstrb := by
  have resp : (system.core.lsu.next system.core.lsuPort).stateStore =
      .resp := by
    have storing := wired.storing_step choice
    rw [busy] at storing
    exact of_decide_eq_true storing
  rw [Lsu.next_stateStore wired.lsu rfl rfl] at resp
  refine Lsu.next_payload _ _ ?_
  cases state : system.core.lsu.stateStore <;> simp only [state] at resp ⊢
  · split_ifs at resp
  · simp
  · simp
  · contradiction

theorem regs_step (wired : WriteWired system) (choice : Axi.Choice)
    (busy : (system.step choice).core.bus.write.busy = true)
    (notDone : (system.step choice).core.bus.write.stateStore ≠
      .busWriteDone) :
    ((system.step choice).core.bus.write.awSent = false →
      (system.step choice).core.bus.write.awaddrReg =
        system.core.lsu.lsuAwaddr) ∧
    ((system.step choice).core.bus.write.wSent = false →
      (system.step choice).core.bus.write.wdataReg =
          system.core.lsu.lsuWdata ∧
        (system.step choice).core.bus.write.wstrbReg =
          system.core.lsu.lsuWstrb) := by
  obtain ⟨awvalid, wvalid, -, -, -⟩ := wired.lsu
  obtain ⟨lsuDone, accepted, busAwvalid, busWvalid, slaveAw, slaveW, -, -⟩ :=
    wired.bus
  have awaddrReg := wired.awaddrReg
  have wdataReg := wired.wdataReg
  have nextWrite : (system.step choice).core.bus.write =
      system.core.bus.nextWrite platform system.core.busPort
        (system.memory.drive choice) := rfl
  rw [nextWrite] at busy notDone ⊢
  cases busState : system.core.bus.write.stateStore <;>
    simp only [busState, BusWrite.busy, BusWrite.awSent, BusWrite.wSent,
      ne_eq, reduceCtorEq, not_true_eq_false, not_false_eq_true,
      decide_true, decide_false, Bool.or_true, Bool.or_false]
      at accepted busAwvalid busWvalid slaveAw slaveW awaddrReg wdataReg <;>
    simp only [Bus.nextWrite, BusWrite.busy, BusWrite.awSent,
      BusWrite.wSent, busState, Core.busPort] at busy notDone ⊢ <;>
    grind

theorem memory_step (wired : WriteWired system) (choice : Axi.Choice) :
    (system.step choice).memory.awaddr =
        (if (system.step choice).core.bus.write.awSent then
          some system.core.lsu.lsuAwaddr
        else none) ∧
      (system.step choice).memory.wdata =
        (if (system.step choice).core.bus.write.wSent then
          some (system.core.lsu.lsuWdata,
            system.core.lsu.lsuWstrb.extractLsb' 0 4)
        else none) ∧
      ((system.step choice).memory.performed = true →
        (system.step choice).core.bus.write.awSent = true ∧
          (system.step choice).core.bus.write.wSent = true) := by
  obtain ⟨-, -, busAwvalid, busWvalid, slaveAw, slaveW, bready, -⟩ :=
    wired.bus
  have awaddrReg := wired.awaddrReg
  have wdataReg := wired.wdataReg
  have awaddr := wired.awaddr
  have wdata := wired.wdata
  have performed := wired.performed
  have nextWrite : (system.step choice).core.bus.write =
      system.core.bus.nextWrite platform system.core.busPort
        (system.memory.drive choice) := rfl
  have nextMemory : (system.step choice).memory =
      system.memory.step choice system.core.bus.axiOut := rfl
  rw [nextWrite, nextMemory]
  cases busState : system.core.bus.write.stateStore <;>
    simp only [busState, BusWrite.busy, BusWrite.awSent, BusWrite.wSent,
      ne_eq, reduceCtorEq, not_true_eq_false, not_false_eq_true,
      decide_true, decide_false, Bool.or_true, Bool.or_false]
      at busAwvalid busWvalid slaveAw slaveW bready awaddrReg wdataReg
        awaddr wdata performed <;>
    simp only [Bus.nextWrite, BusWrite.awSent, BusWrite.wSent, busState,
      Axi.Memory.step, Axi.Memory.request, Axi.Memory.drive, Bus.axiOut,
      awaddr, wdata] <;>
    grind

theorem step (wired : WriteWired system) (choice : Axi.Choice) :
    WriteWired (system.step choice) where
  bus := Bus.encoded_nextWrite platform wired.bus _ wired.together
  lsu := Lsu.storeEncoded_next wired.lsu rfl
  storing := wired.storing_step choice
  awaddrReg := by
    intro busy notSent notDone
    rw [(wired.payload_step choice busy).1]
    exact (wired.regs_step choice busy notDone).1 notSent
  wdataReg := by
    intro busy notSent notDone
    obtain ⟨-, wdata, wstrb⟩ := wired.payload_step choice busy
    rw [wdata, wstrb]
    exact (wired.regs_step choice busy notDone).2 notSent
  awaddr := by
    rw [(wired.memory_step choice).1]
    cases sent : (system.step choice).core.bus.write.awSent with
    | false => rfl
    | true =>
        have busy := BusWrite.busy_of_awSent
          (Bus.encoded_nextWrite platform wired.bus _ wired.together) sent
        rw [if_pos rfl, if_pos rfl, (wired.payload_step choice busy).1]
  wdata := by
    rw [(wired.memory_step choice).2.1]
    cases sent : (system.step choice).core.bus.write.wSent with
    | false => rfl
    | true =>
        have busy := BusWrite.busy_of_wSent
          (Bus.encoded_nextWrite platform wired.bus _ wired.together) sent
        obtain ⟨-, wdata, wstrb⟩ := wired.payload_step choice busy
        rw [if_pos rfl, if_pos rfl, wdata, wstrb]
  performed := (wired.memory_step choice).2.2

end WriteWired

end Ysyx.Rtl
