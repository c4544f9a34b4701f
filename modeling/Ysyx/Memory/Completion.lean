import Ysyx.Lib.AxiHandshakes
import Ysyx.Memory.Wiring
import Ysyx.Pipeline.FrontEnd
import Ysyx.Pipeline.Occupancy

/-!
# Every access completes

A load or a store in EX/MEM stalls the pipeline until the LSU has completed
it.  It waits for the bus, and the bus for the slave: a store even for the
refills of the ICache, which come to an end while EX is stalled.
-/

namespace Ysyx.Rtl

variable {platform : Platform}

/-! ## One clock edge of the load machines -/

theorem Lsu.next_stateLoad_eq {lsu : Lsu} (encoded : lsu.LoadEncoded)
    (port : Lsu.In) :
    (lsu.next port).stateLoad =
      match lsu.stateLoad with
      | .idle => if lsu.loadStart port then .addr else .idle
      | .addr => if port.lsuArready then .data else .addr
      | .data => if port.lsuRvalid then .done else .data
      | .done => if port.nextReady then .idle else .done := by
  obtain ⟨arvalid, rready⟩ := encoded
  rw [Lsu.next_stateLoad]
  unfold Lsu.nextLoad
  cases state : lsu.stateLoad <;> simp only [state] at arvalid rready ⊢ <;>
    split_ifs <;> simp_all

theorem Bus.nextRead_stateLoad (platform : Platform) {bus : Bus}
    (encoded : bus.read.Encoded) (port : Bus.In) (axi : AxiIn) :
    (bus.nextRead platform port axi).stateLoad =
      match bus.read.stateLoad with
      | .busIdle =>
          if port.lsuArvalid && bus.busWriteIdle then
            if clintEn platform port.lsuAraddr then .lsuDone else .lsuReqAr
          else if port.ifuArvalid && bus.busWriteIdle then .ifuReqAr
          else .busIdle
      | .ifuReqAr => if axi.arready then .ifuWaitR else .ifuReqAr
      | .ifuWaitR =>
          if axi.rvalid && axi.rlast then .busIdle else .ifuWaitR
      | .lsuReqAr => if axi.arready then .lsuWaitR else .lsuReqAr
      | .lsuWaitR => if axi.rvalid then .lsuDone else .lsuWaitR
      | .lsuDone => if port.lsuRready then .busIdle else .lsuDone := by
  have arvalid := encoded.arvalid
  have rready := encoded.rready
  have lsuRvalid := encoded.lsuRvalid
  unfold Bus.nextRead
  cases state : bus.read.stateLoad <;>
    simp only [state, BusLoadState.asks, BusLoadState.receives]
      at arvalid rready lsuRvalid ⊢ <;>
    split_ifs <;> simp_all

/-! ## Machines that agree -/

namespace Core

/-- The registers of the LSU and of the bus agree with their states, and the
two machines meet while the bus works on a load or a store. -/
structure Meshed (core : Core platform) : Prop where
  read : core.bus.read.Encoded
  write : core.bus.write.Encoded
  load : core.lsu.LoadEncoded
  store : core.lsu.StoreEncoded
  loading : decide (core.lsu.stateLoad = .data) =
    core.bus.read.stateLoad.forLsu
  storing : decide (core.lsu.stateStore = .resp) = core.bus.write.busy

theorem meshed_reset {power : Core platform}
    (quiet : power.bus.write.lsuBvalidReg = false) :
    Meshed power.reset where
  read := ⟨rfl, rfl, rfl, rfl, fun _ => rfl⟩
  write := ⟨rfl, nofun, rfl, rfl, nofun, nofun, rfl, quiet⟩
  load := ⟨rfl, rfl⟩
  store := ⟨rfl, rfl, rfl, rfl, rfl⟩
  loading := rfl
  storing := rfl

theorem meshed_step (axi : AxiIn) (core : Core platform)
    (meshed : Meshed core) : Meshed (core.step axi) where
  read := Bus.encoded_nextRead meshed.read _ _
  write := Bus.encoded_nextWrite platform meshed.write _
    (meshed.store.wvalid.trans meshed.store.awvalid.symm)
  load := Lsu.loadEncoded_next meshed.load _
  store := Lsu.storeEncoded_next meshed.store rfl
  loading := Core.loading_step meshed.read meshed.load meshed.loading axi
  storing := Core.storing_step meshed.write meshed.store meshed.storing axi

/-- The bus holds no store that the LSU does not wait for. -/
theorem Meshed.busWriteIdle {core : Core platform} (meshed : Meshed core)
    (notWaiting : core.lsu.stateStore ≠ .resp) :
    core.bus.busWriteIdle = true := by
  have notBusy : core.bus.write.busy = false := by
    rw [← meshed.storing, decide_eq_false_iff_not]
    exact notWaiting
  simp only [BusWrite.busy, Bool.or_eq_false_iff, decide_eq_false_iff_not,
    not_not] at notBusy
  simp [Bus.busWriteIdle, notBusy]

end Core

/-! ## Distances -/

/-- Clock edges, apart from waiting, until the read machine is idle. -/
def BusLoadState.distance : BusLoadState → Nat
  | .busIdle => 0
  | .ifuReqAr => 2
  | .ifuWaitR => 1
  | .lsuReqAr => 3
  | .lsuWaitR => 2
  | .lsuDone => 1

/-- What the read machine waits for. -/
def BusLoadState.awaits : BusLoadState → Option Axi.Handshake
  | .ifuReqAr | .lsuReqAr => some .ar
  | .ifuWaitR | .lsuWaitR => some .r
  | .busIdle | .lsuDone => none

/-- The same for an accepted store and the end of the write. -/
def BusWrite.distance (write : BusWrite) : Nat :=
  match write.stateStore with
  | .busWriteIdle => 5
  | .busSync => 2 + (!write.slaveAwDone).toNat + (!write.slaveWDone).toNat
  | .busWriteB => 1
  | .busWriteDone => 0

def BusWrite.awaits (write : BusWrite) : Option Axi.Handshake :=
  match write.stateStore with
  | .busSync =>
      if !write.slaveAwDone then some .aw
      else if !write.slaveWDone then some .w
      else none
  | .busWriteB => some .b
  | .busWriteIdle | .busWriteDone => none

/-- The same for the fetches in front of a store.  A wrong prediction in EX
keeps the ICache idle; otherwise the burst of an abandoned fetch may be
followed by one more refill. -/
def fetchDistance (mispredict : Bool) (icache : ICacheState)
    (bus : BusLoadState) : Nat :=
  if mispredict then (if icache = .idle then 0 else 3) + bus.distance
  else if bus = .busIdle then if icache = .missAr then 3 else 0
  else if icache = .missR then bus.distance
  else 3 + bus.distance

theorem BusLoadState.distance_le (state : BusLoadState) :
    state.distance ≤ 3 := by
  cases state <;> decide

theorem BusWrite.distance_le (write : BusWrite) : write.distance ≤ 5 := by
  have aw := Bool.toNat_le (!write.slaveAwDone)
  have w := Bool.toNat_le (!write.slaveWDone)
  unfold distance
  cases write.stateStore <;> simp only <;> omega

theorem fetchDistance_le (mispredict : Bool) (icache : ICacheState)
    (bus : BusLoadState) : fetchDistance mispredict icache bus ≤ 6 := by
  cases mispredict <;> cases icache <;> cases bus <;> decide

namespace Core

/-- The same while the store in EX/MEM waits for the bus.  The instruction in
EX, if there is none, may still arrive. -/
def frontDistance (core : Core platform) : Nat :=
  (if core.idEx.validOut then 0 else 7) +
    fetchDistance core.exMispredict core.icache.state
      core.bus.read.stateLoad

/-- The same for the load in EX/MEM. -/
def loadDistance (core : Core platform) : Nat :=
  match core.lsu.stateLoad with
  | .idle => 8
  | .addr => 4 + core.bus.read.stateLoad.distance
  | .data => core.bus.read.stateLoad.distance
  | .done => 0

def loadAwaits (core : Core platform) : Option Axi.Handshake :=
  match core.lsu.stateLoad with
  | .addr | .data => core.bus.read.stateLoad.awaits
  | .idle | .done => none

/-- The same for the store in EX/MEM. -/
def storeDistance (core : Core platform) : Nat :=
  match core.lsu.stateStore with
  | .idle => 20
  | .sync => 6 + core.frontDistance
  | .resp => core.bus.write.distance
  | .done => 0

def storeAwaits (core : Core platform) : Option Axi.Handshake :=
  match core.lsu.stateStore with
  | .sync => core.bus.read.stateLoad.awaits
  | .resp => core.bus.write.awaits
  | .idle | .done => none

end Core

/-! ## One clock edge nearer -/

/-- A write that the bus works on is answered, or comes nearer to its end with
the handshake it waits for. -/
theorem Bus.writeDistance_step (platform : Platform) {bus : Bus}
    (encoded : bus.write.Encoded) (busy : bus.write.busy = true)
    (unanswered : bus.write.lsuBvalidReg = false) (port : Bus.In)
    (axi : AxiIn) :
    (bus.nextWrite platform port axi).distance < bus.write.distance ∨
      (bus.nextWrite platform port axi).distance = bus.write.distance ∧
        (bus.nextWrite platform port axi).awaits = bus.write.awaits ∧
        ¬ Axi.Taken bus.write.awaits axi := by
  obtain ⟨lsuDone, accepted, awvalid, wvalid, -, -, bready, bvalid⟩ := encoded
  cases state : bus.write.stateStore <;>
    simp only [state, BusWrite.busy, BusWrite.distance, BusWrite.awaits,
      Bus.nextWrite, unanswered, reduceCtorEq, decide_true, decide_false,
      Bool.false_eq_true, Bool.true_and, Bool.or_false, Bool.or_true, ne_eq,
      not_true_eq_false, not_false_eq_true]
      at accepted awvalid wvalid bready bvalid busy ⊢
  case busWriteIdle =>
    left
    have aw := Bool.toNat_le (!bus.write.slaveAwDone)
    have w := Bool.toNat_le (!bus.write.slaveWDone)
    simp only [lsuDone, busy, and_self, if_true]
    omega
  case busSync =>
    cases awDone : bus.write.slaveAwDone <;>
      cases wDone : bus.write.slaveWDone <;>
      cases awready : axi.awready <;> cases wready : axi.wready <;>
      simp [awDone, wDone, awvalid, wvalid, awready, wready, Axi.Taken,
        Axi.Handshake.taken]
  case busWriteB =>
    cases valid : axi.bvalid <;>
      simp [bready, valid, state, Axi.Taken, Axi.Handshake.taken]

/-- A read machine that waits for the slave comes nearer to its end with the
handshake it waits for. -/
theorem Bus.readDistance_step (platform : Platform) {bus : Bus}
    (encoded : bus.read.Encoded)
    (waits : (bus.read.stateLoad.asks || bus.read.stateLoad.receives) = true)
    (port : Bus.In) (axi : AxiIn) :
    (bus.nextRead platform port axi).stateLoad.distance <
        bus.read.stateLoad.distance ∨
      (bus.nextRead platform port axi).stateLoad = bus.read.stateLoad ∧
        ¬ Axi.Taken bus.read.stateLoad.awaits axi := by
  rw [Bus.nextRead_stateLoad platform encoded]
  cases state : bus.read.stateLoad <;>
    simp only [state, BusLoadState.asks, BusLoadState.receives, Bool.or_self,
      Bool.false_eq_true] at waits ⊢
  case ifuReqAr | lsuReqAr =>
    cases ready : axi.arready <;>
      simp [BusLoadState.distance, BusLoadState.awaits, Axi.Taken,
        Axi.Handshake.taken, ready]
  case ifuWaitR =>
    cases ends : axi.rvalid && axi.rlast <;>
      simp [BusLoadState.distance, BusLoadState.awaits, Axi.Taken,
        Axi.Handshake.taken, ends]
  case lsuWaitR =>
    cases valid : axi.rvalid <;>
      simp [BusLoadState.distance, BusLoadState.awaits, Axi.Taken,
        Axi.Handshake.taken, valid]

/-- While a store waits for the bus, a fetch comes nearer to its end, whether
its instruction is still wanted or not. -/
theorem Core.fetchDistance_step {core : Core platform}
    (read : core.bus.read.Encoded)
    (notForLsu : core.bus.read.stateLoad.forLsu = false)
    (writeIdle : core.bus.busWriteIdle = true)
    (noLoad : core.lsu.lsuArvalid = false)
    (noFlush : core.globalTrapFlush = false)
    (refused : core.bus.read.stateLoad = .busIdle →
      core.icache.state = .missAr) (axi : AxiIn) :
    let distance := fetchDistance core.exMispredict
    let state := core.bus.read.stateLoad
    let next := (core.step axi).bus.read.stateLoad
    distance (core.step axi).icache.state next <
        distance core.icache.state state ∨
      distance (core.step axi).icache.state next =
          distance core.icache.state state ∧
        next.awaits = state.awaits ∧ ¬ Axi.Taken state.awaits axi := by
  have nextBus := Bus.nextRead_stateLoad platform read core.busPort axi
  have ifuRvalid := read.ifuRvalid
  have nextICache : (core.step axi).icache.state =
      if core.exMispredict then .idle
      else core.icache.nextState (core.icachePort axi) := by
    simp [Core.step, ICache.next, Core.icachePort, Core.jumpReq, noFlush]
  change (core.step axi).bus.read.stateLoad = _ at nextBus
  intro distance state next
  simp only [distance, next, state, nextBus, nextICache]
  cases busState : core.bus.read.stateLoad <;>
    simp only [busState, BusLoadState.forLsu, Bool.true_eq_false,
      forall_true_left, reduceCtorEq, false_implies] at notForLsu refused ⊢
  case busIdle =>
    cases wrong : core.exMispredict <;>
      simp [fetchDistance, refused, Core.busPort, noLoad, writeIdle,
        ICache.busArvalid, ICache.nextState, Core.icachePort,
        Bus.ifuArready, Bus.busReadIdle, busState, BusLoadState.distance]
  case ifuReqAr =>
    cases wrong : core.exMispredict <;> cases ready : axi.arready <;>
      cases cacheState : core.icache.state <;>
      simp [fetchDistance, ICache.nextState, cacheState, Core.icachePort,
        Bus.ifuArready, Bus.ifuRvalid, Bus.busReadIdle, busState,
        BusLoadState.distance, BusLoadState.awaits, ifuRvalid, Axi.Taken,
        Axi.Handshake.taken, ready] <;>
      split_ifs <;> simp
  case ifuWaitR =>
    cases wrong : core.exMispredict <;> cases valid : axi.rvalid <;>
      cases last : axi.rlast <;> cases cacheState : core.icache.state <;>
      simp [fetchDistance, ICache.nextState, cacheState, Core.icachePort,
        Bus.ifuArready, Bus.ifuRvalid, Bus.busReadIdle, busState,
        ICache.busRready, BusLoadState.distance, BusLoadState.awaits,
        Axi.Taken, Axi.Handshake.taken, valid, last] <;>
      split_ifs <;> simp

theorem Core.frontDistance_step {core : Core platform}
    (meshed : core.Meshed) (stalled : core.exMemReadyOut = false)
    (noFlush : core.globalTrapFlush = false)
    (loadIdle : core.lsu.stateLoad = .idle)
    (sync : core.lsu.stateStore = .sync)
    (refused : core.lsuPort.lsuAwready = false) (axi : AxiIn) :
    (core.step axi).frontDistance < core.frontDistance ∨
      (core.step axi).frontDistance = core.frontDistance ∧
        (core.step axi).bus.read.stateLoad.awaits =
          core.bus.read.stateLoad.awaits ∧
        ¬ Axi.Taken core.bus.read.stateLoad.awaits axi := by
  have notForLsu : core.bus.read.stateLoad.forLsu = false := by
    simp [← meshed.loading, loadIdle]
  have writeIdle := meshed.busWriteIdle (by simp [sync])
  have noLoad : core.lsu.lsuArvalid = false := by
    simp [meshed.load.arvalid, loadIdle]
  have fetching : core.bus.read.stateLoad = .busIdle →
      core.icache.state = .missAr := by
    intro idle
    simpa [lsuPort, Bus.lsuAwready, writeIdle, Bus.busReadIdle, idle, noLoad,
      ICache.busArvalid] using refused
  have fetch := fetchDistance_step meshed.read notForLsu writeIdle noLoad
    noFlush fetching axi
  unfold frontDistance
  cases valid : core.idEx.validOut with
  | true =>
      have idEx : (core.step axi).idEx = core.idEx :=
        step_idEx_of_stall core axi
          ((idEx_stalled_iff core).mpr ⟨stalled, valid⟩) noFlush
      rw [idEx, valid, exMispredict_step axi valid stalled noFlush]
      simpa using fetch
  | false =>
      cases arrives : (core.step axi).idEx.validOut with
      | true =>
          left
          have bound := fetchDistance_le (core.step axi).exMispredict
            (core.step axi).icache.state
            (core.step axi).bus.read.stateLoad
          simp only [if_true, if_false, Bool.false_eq_true]
          omega
      | false =>
          rw [exMispredict_of_invalid valid] at fetch
          rw [exMispredict_of_invalid valid,
            exMispredict_of_invalid arrives]
          simpa using fetch

theorem BusLoadState.waits_of_fetch {state : BusLoadState}
    (busy : state ≠ .busIdle) (notForLsu : state.forLsu = false) :
    (state.asks || state.receives) = true := by
  cases state <;> simp_all [BusLoadState.asks, BusLoadState.receives,
    BusLoadState.forLsu]

theorem Bus.waits_of_load {bus : Bus} (encoded : bus.read.Encoded)
    (unanswered : bus.read.lsuRvalidReg = false)
    (forLsu : bus.read.stateLoad.forLsu = true) :
    (bus.read.stateLoad.asks || bus.read.stateLoad.receives) = true := by
  have lsuRvalid := encoded.lsuRvalid
  cases state : bus.read.stateLoad <;>
    simp_all [BusLoadState.asks, BusLoadState.receives, BusLoadState.forLsu]

theorem Core.loadDistance_step {core : Core platform}
    (meshed : core.Meshed) (owned : core.LsuOwned)
    (loads : core.exMemLoads) (incomplete : core.memValid = false)
    (axi : AxiIn) :
    (core.step axi).memValid = true ∨
      ((core.step axi).loadDistance < core.loadDistance ∨
        (core.step axi).loadDistance = core.loadDistance ∧
          (core.step axi).loadAwaits = core.loadAwaits ∧
          ¬ Axi.Taken core.loadAwaits axi) := by
  have notDone : core.lsu.stateLoad ≠ .done := by
    intro done
    simp [memValid, Lsu.outValid, done] at incomplete
  have storeIdle := (owned.memValid_of_loads loads notDone).2
  have writeIdle := meshed.busWriteIdle (by simp [storeIdle])
  have nextLoad := Lsu.next_stateLoad_eq meshed.load core.lsuPort
  change (core.step axi).lsu.stateLoad = _ at nextLoad
  cases state : core.lsu.stateLoad <;> simp only [state] at nextLoad
  case idle =>
    have starts : core.lsu.loadStart core.lsuPort = true := by
      simpa [Lsu.loadStart, lsuPort, state, loads.1] using loads.2
    have bound := (core.step axi).bus.read.stateLoad.distance_le
    rw [starts, if_pos rfl] at nextLoad
    simp only [loadDistance, nextLoad, state]
    omega
  case done =>
    exact absurd state notDone
  case addr =>
    have notForLsu : core.bus.read.stateLoad.forLsu = false := by
      rw [← meshed.loading, state]
      rfl
    by_cases busIdle : core.bus.read.stateLoad = .busIdle
    · have accepted : core.lsuPort.lsuArready = true := by
        simp [lsuPort, Bus.lsuArready, Bus.busReadIdle, busIdle, writeIdle]
      have bound := (core.step axi).bus.read.stateLoad.distance_le
      rw [accepted, if_pos rfl] at nextLoad
      simp only [loadDistance, nextLoad, state]
      omega
    · have refused : core.lsuPort.lsuArready = false := by
        simp [lsuPort, Bus.lsuArready, Bus.busReadIdle, busIdle]
      have read := Bus.readDistance_step platform meshed.read
        (BusLoadState.waits_of_fetch busIdle notForLsu) core.busPort axi
      rw [refused, if_neg Bool.false_ne_true] at nextLoad
      simp only [loadDistance, loadAwaits, nextLoad, state]
      rcases read with lower | ⟨same, notTaken⟩
      · exact Or.inr (Or.inl (Nat.add_lt_add_left lower 4))
      · exact Or.inr (Or.inr
          ⟨congrArg (4 + BusLoadState.distance ·) same,
            congrArg BusLoadState.awaits same, notTaken⟩)
  case data =>
    cases valid : core.bus.read.lsuRvalidReg with
    | true =>
        left
        simp [memValid, Lsu.outValid, nextLoad, lsuPort, valid]
    | false =>
        have stays : (core.step axi).lsu.stateLoad = .data := by
          simpa [lsuPort, valid] using nextLoad
        have forLsu : core.bus.read.stateLoad.forLsu = true := by
          rw [← meshed.loading, state]
          rfl
        have read := Bus.readDistance_step platform meshed.read
          (Bus.waits_of_load meshed.read valid forLsu) core.busPort axi
        simp only [loadDistance, loadAwaits, stays, state]
        rcases read with lower | ⟨same, notTaken⟩
        · exact Or.inr (Or.inl lower)
        · exact Or.inr (Or.inr ⟨congrArg BusLoadState.distance same,
            congrArg BusLoadState.awaits same, notTaken⟩)

theorem Core.storeDistance_step {core : Core platform}
    (meshed : core.Meshed) (owned : core.LsuOwned)
    (stores : core.exMemStores) (incomplete : core.memValid = false)
    (noFlush : core.globalTrapFlush = false) (axi : AxiIn) :
    (core.step axi).memValid = true ∨
      ((core.step axi).storeDistance < core.storeDistance ∨
        (core.step axi).storeDistance = core.storeDistance ∧
          (core.step axi).storeAwaits = core.storeAwaits ∧
          ¬ Axi.Taken core.storeAwaits axi) := by
  have notDone : core.lsu.stateStore ≠ .done := by
    intro done
    simp [memValid, Lsu.outValid, done] at incomplete
  have loadIdle := (owned.memValid_of_stores stores notDone).2
  have nextStore : (core.lsu.next core.lsuPort).stateStore = _ :=
    Lsu.next_stateStore meshed.store rfl rfl
  change (core.step axi).lsu.stateStore = _ at nextStore
  cases state : core.lsu.stateStore <;> simp only [state] at nextStore
  case idle =>
    have starts : core.lsu.storeStart core.lsuPort = true := by
      simpa [Lsu.storeStart, lsuPort, state, stores.1] using stores.2
    have bound := fetchDistance_le (core.step axi).exMispredict
      (core.step axi).icache.state (core.step axi).bus.read.stateLoad
    rw [starts, if_pos rfl] at nextStore
    simp only [storeDistance, nextStore, state, frontDistance]
    split_ifs <;> omega
  case sync =>
    cases accepted : core.lsuPort.lsuAwready with
    | true =>
        have bound := (core.step axi).bus.write.distance_le
        rw [accepted, if_pos rfl] at nextStore
        simp only [storeDistance, nextStore, state]
        omega
    | false =>
        have stalled := (stalled_iff core).mpr ⟨incomplete, stores.1⟩
        have front := frontDistance_step meshed stalled noFlush loadIdle
          state accepted axi
        rw [accepted, if_neg (by simp)] at nextStore
        simp only [storeDistance, storeAwaits, nextStore, state]
        rcases front with lower | ⟨same, sameSignal, notTaken⟩
        · exact Or.inr (Or.inl (Nat.add_lt_add_left lower 6))
        · exact Or.inr (Or.inr ⟨by rw [same], sameSignal, notTaken⟩)
  case resp =>
    have busy : core.bus.write.busy = true := by
      simp [← meshed.storing, state]
    cases answered : core.bus.write.lsuBvalidReg with
    | true =>
        left
        simp [memValid, Lsu.outValid, nextStore, lsuPort, answered]
    | false =>
        have write := Bus.writeDistance_step platform meshed.write busy
          answered core.busPort axi
        have resp : (core.step axi).lsu.stateStore = .resp := by
          simpa [lsuPort, answered] using nextStore
        simp only [storeDistance, storeAwaits, resp, state]
        exact Or.inr write
  case done =>
    exact absurd state notDone

/-! ## Offers -/

theorem Bus.offered_of_read {bus : Bus} (encoded : bus.read.Encoded)
    {handshake : Axi.Handshake}
    (awaited : handshake ∈ bus.read.stateLoad.awaits) :
    handshake.offered bus.axiOut = true := by
  have arvalid := encoded.arvalid
  have rready := encoded.rready
  cases state : bus.read.stateLoad <;>
    simp only [state, BusLoadState.awaits, Option.mem_def, reduceCtorEq,
      Option.some.injEq] at awaited <;>
    subst awaited <;>
    simp [Axi.Handshake.offered, axiOut, arvalid, rready, state,
      BusLoadState.asks, BusLoadState.receives]

theorem Bus.offered_of_write {bus : Bus} (encoded : bus.write.Encoded)
    {handshake : Axi.Handshake} (awaited : handshake ∈ bus.write.awaits) :
    handshake.offered bus.axiOut = true := by
  have awvalid := encoded.awvalid
  have wvalid := encoded.wvalid
  have bready := encoded.bready
  unfold BusWrite.awaits at awaited
  cases state : bus.write.stateStore <;> simp only [state] at awaited
  case busSync =>
    split_ifs at awaited with awMissing wMissing
    · obtain rfl := Option.some.inj awaited
      simpa [Axi.Handshake.offered, axiOut, awvalid, state] using awMissing
    · obtain rfl := Option.some.inj awaited
      simpa [Axi.Handshake.offered, axiOut, wvalid, state] using wMissing
    · contradiction
  case busWriteB =>
    obtain rfl := Option.some.inj awaited
    simp [Axi.Handshake.offered, axiOut, bready, state]
  all_goals contradiction

/-! ## Runs -/

namespace Core

/-- EX/MEM holds an access that the LSU has not completed. -/
def Waits (core : Core platform) : Prop :=
  core.exMemAccess = true ∧ core.memValid = false

/-- Clock edges, apart from waiting, until the access in EX/MEM is
complete. -/
def distance (core : Core platform) : Nat :=
  if core.exMem.dataOut.ctrlMem.readMem ≠ 0 then core.loadDistance
  else core.storeDistance

/-- The handshake that the access in EX/MEM waits for. -/
def awaits (core : Core platform) : Option Axi.Handshake :=
  if core.exMem.dataOut.ctrlMem.readMem ≠ 0 then core.loadAwaits
  else core.storeAwaits

theorem waits_step {core : Core platform} (meshed : core.Meshed)
    (owned : core.LsuOwned) (noEscape : core.trapEscape = false)
    (waits : core.Waits) (axi : AxiIn) :
    Machine.Advances Waits (fun core => core.memValid = true) distance
      awaits Axi.Taken axi core (core.step axi) := by
  obtain ⟨access, incomplete⟩ := waits
  have noFlush := owned.noFlush_of_busy noEscape (Or.inl access)
  have valid := valid_of_access access
  have stays := LsuOwned.exMem_step_eq noFlush valid incomplete axi
  have waitsNext (notDone : (core.step axi).memValid = false) :
      (core.step axi).Waits := by
    refine ⟨?_, notDone⟩
    unfold exMemAccess
    rw [stays]
    exact access
  have nearer : (core.step axi).memValid = true ∨
      ((core.step axi).distance < core.distance ∨
        (core.step axi).distance = core.distance ∧
          (core.step axi).awaits = core.awaits ∧
          ¬ Axi.Taken core.awaits axi) := by
    unfold distance awaits
    rw [stays]
    split_ifs with isLoad
    · exact loadDistance_step meshed owned ⟨valid, isLoad⟩ incomplete axi
    · have stores := (core.exMemAccess_iff.mp access).resolve_left
        fun loads => isLoad loads.2
      exact storeDistance_step meshed owned stores incomplete noFlush axi
  cases done : (core.step axi).memValid with
  | true => exact Or.inl done
  | false =>
      exact Or.inr ⟨waitsNext done, nearer.resolve_left (by simp [done])⟩

/-- The bus offers the handshake that the access waits for. -/
theorem offered_of_awaits {core : Core platform} (meshed : core.Meshed)
    {handshake : Axi.Handshake} (awaited : handshake ∈ core.awaits) :
    handshake.offered core.bus.axiOut = true := by
  unfold awaits loadAwaits storeAwaits at awaited
  split_ifs at awaited
  · cases state : core.lsu.stateLoad <;> simp only [state] at awaited
    case addr => exact Bus.offered_of_read meshed.read awaited
    case data => exact Bus.offered_of_read meshed.read awaited
    all_goals contradiction
  · cases state : core.lsu.stateStore <;> simp only [state] at awaited
    case sync => exact Bus.offered_of_read meshed.read awaited
    case resp => exact Bus.offered_of_write meshed.write awaited
    all_goals contradiction

variable {inputs : Nat → AxiIn} {power : Core platform}

theorem run_meshed (quiet : power.bus.write.lsuBvalidReg = false)
    (cycle : Nat) : Meshed (power.reset.run inputs cycle) :=
  Machine.run_invariant (meshed_reset quiet) meshed_step cycle

theorem run_lsuOwned (cycle : Nat)
    (noEscape : ∀ earlier, earlier < cycle →
      (power.reset.run inputs earlier).trapEscape = false) :
    LsuOwned (power.reset.run inputs cycle) :=
  Machine.run_invariant_until (lsuOwned_reset power) lsuOwned_step cycle
    noEscape

/-- Behind a responsive slave the LSU completes every access in EX/MEM, as
long as no trap catches one there. -/
theorem run_completes (quiet : power.bus.write.lsuBvalidReg = false)
    (noEscape : ∀ cycle, (power.reset.run inputs cycle).trapEscape = false)
    (responsive : Axi.Responsive inputs
      fun cycle => (power.reset.run inputs cycle).bus.axiOut)
    {cycle : Nat}
    (access : (power.reset.run inputs cycle).exMemAccess = true) :
    ∃ later, cycle ≤ later ∧
      (power.reset.run inputs later).memValid = true := by
  cases complete : (power.reset.run inputs cycle).memValid with
  | true => exact ⟨cycle, le_rfl, complete⟩
  | false =>
      refine Machine.run_leadsTo_rank Waits
        (fun core => core.memValid = true) distance awaits Axi.Taken
        (fun now waits => waits_step (run_meshed quiet now)
          (run_lsuOwned now fun _ _ => noEscape _) (noEscape now) waits _)
        (fun awaited start always => ?_) ⟨access, complete⟩
      refine responsive.taken fun now later handshake isAwaited => ?_
      refine offered_of_awaits (run_meshed quiet now) ?_
      exact (always now later).2 ▸ isAwaited

end Core

end Ysyx.Rtl
