import Ysyx.Refine.Stages
import Ysyx.Memory.Fetches
import Ysyx.Memory.Landing
import Ysyx.Memory.Lanes
import Ysyx.Pipeline.Faults

/-!
# The accesses of the pipeline

What the load-store unit, the bus and the memory do for the instruction in
MEM: a load returns the bytes of the memory as older stores have left it, and
a store takes effect once, before its instruction leaves MEM.
-/

namespace Ysyx.Rtl

open Nemu hiding Word

variable {platform : Platform}

/-- The write machine is done when the slave has responded, until the LSU has
taken the response. -/
theorem Bus.nextWrite_done_iff (platform : Platform) (bus : Bus)
    (port : Bus.In) (axi : AxiIn) :
    (bus.nextWrite platform port axi).stateStore = .busWriteDone ↔
      bus.write.stateStore = .busWriteB ∧ axi.bvalid = true ∧
          bus.write.breadyReg = true ∨
        bus.write.stateStore = .busWriteDone ∧
          ¬ (bus.write.lsuBvalidReg = true ∧ port.lsuBready = true) := by
  cases state : bus.write.stateStore with
  | busWriteIdle =>
      simp only [Bus.nextWrite, state, reduceCtorEq, false_and, or_false,
        iff_false]
      split_ifs <;> simp
  | busSync =>
      simp only [Bus.nextWrite, state, reduceCtorEq, false_and, or_false,
        iff_false]
      split_ifs <;> simp
  | busWriteB =>
      simp only [Bus.nextWrite, state, reduceCtorEq, true_and, false_and,
        or_false]
      split_ifs with responds
      · simpa using responds
      · simp [state, responds]
  | busWriteDone =>
      simp only [Bus.nextWrite, state, reduceCtorEq, true_and, false_and,
        false_or]
      split_ifs with taken
      · simp [taken]
      · simp [state, taken]

namespace System

/-- The store in MEM has taken effect. -/
def landed (system : System platform) : Bool :=
  system.memory.performed ||
    decide (system.core.bus.write.stateStore = .busWriteDone) ||
    decide (system.core.lsu.stateStore = .done)

section Step

variable {system : System platform} {choice : Axi.Choice}

/-- Without a store under way the memory has no write. -/
theorem request_eq_none (wired : WriteWired system)
    (notResp : system.core.lsu.stateStore ≠ .resp) :
    system.memory.request = none ∧ system.memory.performed = false := by
  have storing := wired.storing
  rw [decide_eq_false notResp] at storing
  have notSent : system.core.bus.write.awSent = false := by
    by_contra sent
    have busy := BusWrite.busy_of_awSent wired.bus (by simpa using sent)
    rw [← storing] at busy
    contradiction
  have awaddr := wired.awaddr
  rw [notSent] at awaddr
  constructor
  · simp [Axi.Memory.request, awaddr]
  · by_contra performed
    have sent := (wired.performed (by simpa using performed)).1
    rw [notSent] at sent
    contradiction

/-- The write in the memory is the one that the LSU asks for. -/
theorem request_of_isSome (wired : WriteWired system)
    (asked : system.memory.request.isSome = true) :
    system.memory.request =
        some (system.core.lsu.lsuAwaddr, system.core.lsu.lsuWdata,
          system.core.lsu.lsuWstrb.extractLsb' 0 4) ∧
      system.core.lsu.stateStore = .resp ∧ system.landed = false := by
  have resp : system.core.lsu.stateStore = .resp := by
    by_contra notResp
    rw [(request_eq_none wired notResp).1] at asked
    contradiction
  have awaddr := wired.awaddr
  have wdata := wired.wdata
  have slaveAw := wired.bus.slaveAwDone
  simp only [Axi.Memory.request, awaddr, wdata] at asked ⊢
  refine ⟨?_, resp, ?_⟩
  · split_ifs at asked ⊢ <;> simp_all
  · simp only [landed, resp, BusWrite.awSent] at *
    split_ifs at asked <;> simp_all
    grind

theorem landed_of_notResp (wired : WriteWired system)
    (notResp : system.core.lsu.stateStore ≠ .resp) :
    system.landed = decide (system.core.lsu.stateStore = .done) := by
  have storing := wired.storing
  rw [decide_eq_false notResp] at storing
  have notDone : system.core.bus.write.stateStore ≠ .busWriteDone := by
    intro done
    simp [BusWrite.busy, done] at storing
  simp [landed, (request_eq_none wired notResp).2, notDone]

/-- While the LSU waits for the response, its store takes effect when the
memory performs the write. -/
theorem landed_step_of_resp (wired : WriteWired system)
    (resp : system.core.lsu.stateStore = .resp) :
    (system.step choice).landed =
      (system.landed || system.memory.request.isSome && choice.perform) := by
  have storing := wired.storing
  have bready := wired.bus.bready
  have bvalid := wired.bus.bvalid
  have performed := wired.performed
  have slaveAwDone := wired.bus.slaveAwDone
  have lsuBready : system.core.busPort.lsuBready = true := by
    change system.core.lsu.lsuBready = true
    rw [wired.lsu.bready, resp]
    rfl
  have nextState : (system.step choice).core.lsu.stateStore =
      if system.core.bus.write.lsuBvalidReg then .done else .resp := by
    change (system.core.lsu.next system.core.lsuPort).stateStore = _
    rw [Lsu.next_stateStore wired.lsu rfl rfl, resp]
    rfl
  have nextWrite := Bus.nextWrite_done_iff platform system.core.bus
    system.core.busPort (system.memory.drive choice)
  change (system.step choice).core.bus.write.stateStore = _ ↔ _ at nextWrite
  have nextPerformed : (system.step choice).memory.performed =
      if (choice.bvalid && system.memory.performed) = true ∧
          system.core.bus.write.breadyReg = true then false
      else system.memory.performed ||
        (system.memory.request.isSome && choice.perform) := rfl
  simp only [landed, nextPerformed, nextState, nextWrite, resp, lsuBready,
    bready, bvalid, Axi.Memory.drive]
  cases state : system.core.bus.write.stateStore <;>
    simp only [state, BusWrite.awSent] at performed slaveAwDone ⊢ <;>
    grind

/-- A store takes effect when the memory performs it, until its instruction
leaves MEM. -/
theorem landed_step (wired : WriteWired system) :
    (system.step choice).landed =
      (decide (system.core.lsu.stateStore = .resp) &&
        (system.landed ||
          system.memory.request.isSome && choice.perform)) := by
  by_cases resp : system.core.lsu.stateStore = .resp
  · simp [landed_step_of_resp wired resp, resp]
  · have storing := wired.storing
    rw [decide_eq_false resp] at storing
    obtain ⟨noRequest, notPerformed⟩ := request_eq_none wired resp
    have nextPerformed : (system.step choice).memory.performed = false := by
      simp [System.step, Axi.Memory.step, noRequest, notPerformed]
    have busIdle : (system.step choice).core.bus.write.stateStore ≠
        .busWriteDone := by
      intro done
      rcases (Bus.nextWrite_done_iff platform _ _ _).mp done with
        ⟨waiting, -⟩ | ⟨wasDone, -⟩
      · simp [BusWrite.busy, waiting] at storing
      · simp [BusWrite.busy, wasDone] at storing
    have lsuBusy : (system.step choice).core.lsu.stateStore ≠ .done := by
      change (system.core.lsu.next system.core.lsuPort).stateStore ≠ _
      rw [Lsu.next_stateStore wired.lsu rfl rfl]
      cases state : system.core.lsu.stateStore with
      | idle => simp only; split_ifs <;> simp
      | sync => simp only; split_ifs <;> simp
      | resp => exact absurd state resp
      | done => simp
    rw [landed, nextPerformed, decide_eq_false busIdle,
      decide_eq_false lsuBusy, decide_eq_false resp]
    rfl

end Step

/-! ## Faults -/

/-- Nothing has failed. -/
structure NoFault (system : System platform) : Prop where
  accessFault : system.core.lsu.accessFault = false
  excValid : system.core.lsu.excValid = false
  bresp : system.core.bus.write.lsuBrespReg = 0
  rresp : system.core.bus.read.lsuRrespReg = 0

theorem NoFault.reset {power : Core platform}
    (clear : power.lsu.excValid = false) (bytes : Axi.Bytes) :
    NoFault ⟨power.reset, { bytes }⟩ :=
  ⟨rfl, clear, rfl, rfl⟩

theorem NoFault.step {system : System platform} (noFault : NoFault system)
    (choice : Axi.Choice) : NoFault (system.step choice) where
  accessFault := by
    have noLoadError : Lsu.isError
        (system.core.lsu.loadResponse system.core.lsuPort) = false := by
      rw [Lsu.loadResponse]
      split_ifs
      · simp [Lsu.isError, Core.lsuPort, noFault.rresp]
      · rfl
    have noStoreError : Lsu.isError
        (system.core.lsu.storeResponse system.core.lsuPort) = false := by
      rw [Lsu.storeResponse]
      split_ifs
      · simp [Lsu.isError, Core.lsuPort, noFault.bresp]
      · rfl
    change (system.core.lsu.next system.core.lsuPort).accessFault = false
    rw [Lsu.next_accessFault, noLoadError, noStoreError]
    simp [noFault.accessFault]
  excValid := by
    by_contra raised
    rw [Bool.not_eq_false] at raised
    have before := (Lsu.next_excValid raised).1
    rw [noFault.excValid] at before
    contradiction
  bresp := by
    change (system.core.bus.nextWrite platform _ _).lsuBrespReg = 0
    have okay : (system.memory.drive choice).bresp = 0 := rfl
    cases state : system.core.bus.write.stateStore with
    | busWriteIdle | busSync =>
        simp only [Bus.nextWrite, state, noFault.bresp]
    | busWriteB | busWriteDone =>
        simp only [Bus.nextWrite, state, okay]
        split_ifs <;> simp [noFault.bresp]
  rresp := by
    change (system.core.bus.nextRead platform _ _).lsuRrespReg = 0
    have okay : (system.memory.drive choice).rresp = 0 := rfl
    cases state : system.core.bus.read.stateLoad <;>
      simp only [Bus.nextRead, state, okay] <;> split_ifs <;>
      simp [noFault.rresp]

end System

/-! ## Stores -/

/-- The lanes are cleared with the store. -/
theorem Lsu.next_noStrobe {lsu : Lsu} {port : In}
    (noStrobe : lsu.stateStore = .idle → lsu.lsuWstrb = 0)
    (idle : (lsu.next port).stateStore = .idle) :
    (lsu.next port).lsuWstrb = 0 := by
  obtain ⟨-, -, -, -, -, -, -, sameWstrb⟩ := lsu.nextLoad_storeRegs port
  have same := lsu.nextLoad_stateStore port
  cases state : lsu.stateStore with
  | idle =>
      simp only [next, nextStore, same, state] at idle ⊢
      split_ifs at idle ⊢
      rw [sameWstrb, noStrobe state]
  | sync =>
      simp only [next, nextStore, same, state] at idle
      split_ifs at idle
  | resp =>
      simp only [next, nextStore, same, state] at idle
      split_ifs at idle
      rw [same, state] at idle
      contradiction
  | done =>
      simp only [next, nextStore, same, state] at idle ⊢
      split_ifs at idle ⊢
      · rfl
      · rw [same, state] at idle
        contradiction

namespace Core

/-- The LSU works on the store in EX/MEM. -/
structure StoreHeld (core : Core platform) : Prop where
  payload : core.lsu.stateStore ≠ .idle →
    core.lsu.lsuAwaddr = core.lsuPort.addr ∧
      core.lsu.lsuWdata = genWdataAligned core.lsuPort.writeMem
        core.lsuPort.addr core.lsuPort.data ∧
      core.lsu.lsuWstrb = genWstrb core.lsuPort.writeMem core.lsuPort.addr
  noStrobe : core.lsu.stateStore = .idle → core.lsu.lsuWstrb = 0

theorem StoreHeld.reset (power : Core platform) : power.reset.StoreHeld where
  payload := fun busy => absurd rfl busy
  noStrobe := fun _ => rfl

theorem StoreHeld.step {core : Core platform} (held : core.StoreHeld)
    (owned : core.LsuOwned) (noFlush : core.globalTrapFlush = false)
    (axi : AxiIn) : (core.step axi).StoreHeld where
  payload := by
    intro busy
    obtain ⟨stores, notDone⟩ := owned.stores_of_busy busy
    have incomplete := (owned.memValid_of_stores stores notDone).1
    have same := LsuOwned.exMem_step_eq noFlush stores.1 incomplete axi
    simp only [lsuPort, same]
    rcases Lsu.busyStore_cases busy rfl with starts | ⟨wasBusy, -⟩
    · exact Lsu.next_of_storeStart starts
    · have active : core.lsu.stateStore = .sync ∨
          core.lsu.stateStore = .resp := by
        cases state : core.lsu.stateStore <;> simp_all
      obtain ⟨addr, data, strb⟩ := Lsu.next_payload _ core.lsuPort active
      change (core.lsu.next core.lsuPort).lsuAwaddr = _ ∧
        (core.lsu.next core.lsuPort).lsuWdata = _ ∧
        (core.lsu.next core.lsuPort).lsuWstrb = _
      rw [addr, data, strb]
      exact held.payload wasBusy
  noStrobe := Lsu.next_noStrobe held.noStrobe

end Core

/-! ## Loads -/

theorem Lsu.next_of_noStore {lsu : Lsu} {port : In}
    (idle : lsu.stateStore = .idle) (noStore : port.writeMem = 0) :
    lsu.next port = lsu.nextLoad port := by
  have same := lsu.nextLoad_stateStore port
  simp [next, nextStore, same, idle, storeStart, noStore]

/-- A load on the bus has just been asked for, or was on it. -/
theorem Bus.nextRead_forLsu {platform : Platform} {bus : Bus} {port : In}
    {axi : AxiIn}
    (asks : (bus.nextRead platform port axi).stateLoad = .lsuReqAr ∨
      (bus.nextRead platform port axi).stateLoad = .lsuWaitR) :
    port.lsuArvalid = true ∧
        (bus.nextRead platform port axi).araddrReg = port.lsuAraddr ∨
      (bus.read.stateLoad = .lsuReqAr ∨ bus.read.stateLoad = .lsuWaitR) ∧
        (bus.nextRead platform port axi).araddrReg =
          bus.read.araddrReg := by
  revert asks
  cases state : bus.read.stateLoad <;> simp only [nextRead, state] <;>
    split_ifs <;> simp_all

/-- The only beat of a load has just come, or the CLINT has answered. -/
theorem Bus.nextRead_lsuDone {platform : Platform} {bus : Bus} {port : In}
    {axi : AxiIn}
    (done : (bus.nextRead platform port axi).stateLoad = .lsuDone) :
    port.lsuArvalid = true ∧ clintEn platform port.lsuAraddr = true ∨
      bus.read.stateLoad = .lsuWaitR ∧ axi.rvalid = true ∧
        (bus.nextRead platform port axi).lsuRdataReg = axi.rdata ∨
      bus.read.stateLoad = .lsuDone ∧
        (bus.nextRead platform port axi).lsuRdataReg =
          bus.read.lsuRdataReg := by
  revert done
  cases state : bus.read.stateLoad <;> simp only [nextRead, state] <;>
    split_ifs <;> simp_all

namespace System

/-- The LSU, the bus and the memory work on the load in EX/MEM. -/
structure LoadHeld (system : System platform) : Prop where
  registers : system.core.lsu.stateLoad ≠ .idle →
    system.core.lsu.addrReg = system.core.lsuPort.addr ∧
      system.core.lsu.readMemReg = system.core.lsuPort.readMem
  lsuAraddr : system.core.lsu.stateLoad = .addr →
    system.core.lsu.lsuAraddr = system.core.lsuPort.addr
  araddrReg : system.core.bus.read.stateLoad = .lsuReqAr ∨
      system.core.bus.read.stateLoad = .lsuWaitR →
    system.core.bus.read.araddrReg = system.core.lsuPort.addr
  sampled : system.core.bus.read.stateLoad = .lsuWaitR → ∀ burst,
    system.memory.burst = some burst → ∀ data,
      burst.sampled 0 = some data →
      data = system.memory.bytes.word system.core.lsuPort.addr
  arrived : system.core.bus.read.stateLoad = .lsuDone →
    system.core.bus.read.lsuRdataReg =
      system.memory.bytes.word system.core.lsuPort.addr
  loaded : system.core.lsu.stateLoad = .done →
    system.core.lsu.readData =
      signExtend (system.memory.bytes.word system.core.lsuPort.addr)
        system.core.lsuPort.readMem system.core.lsuPort.addr

theorem LoadHeld.reset (power : Core platform) (bytes : Axi.Bytes) :
    LoadHeld ⟨power.reset, { bytes }⟩ where
  registers := fun busy => absurd rfl busy
  lsuAraddr := fun asks => by simp [Core.reset, Lsu.reset] at asks
  araddrReg := fun asks => by simp [Core.reset, Bus.reset, Bus.zeroed] at asks
  sampled := fun waits => by simp [Core.reset, Bus.reset, Bus.zeroed] at waits
  arrived := fun done => by simp [Core.reset, Bus.reset, Bus.zeroed] at done
  loaded := fun done => by simp [Core.reset, Lsu.reset] at done

namespace LoadHeld

variable {system : System platform} {choice : Axi.Choice}

/-- While a load is under way its instruction stays in MEM, and the memory does
not change. -/
theorem frame (owned : system.core.LsuOwned)
    (noFlush : system.core.globalTrapFlush = false)
    (wired : WriteWired system)
    (busy : (system.step choice).core.lsu.stateLoad ≠ .idle) :
    (system.step choice).core.lsuPort.addr = system.core.lsuPort.addr ∧
      (system.step choice).core.lsuPort.readMem =
        system.core.lsuPort.readMem ∧
      (system.step choice).memory.bytes = system.memory.bytes ∧
      (system.step choice).core.lsu =
        system.core.lsu.nextLoad system.core.lsuPort := by
  obtain ⟨loads, notDone⟩ := owned.loads_of_busy busy
  obtain ⟨incomplete, storeIdle⟩ := owned.memValid_of_loads loads notDone
  have same : (system.step choice).core.exMem = system.core.exMem :=
    Core.LsuOwned.exMem_step_eq noFlush loads.1 incomplete _
  have noStore : system.core.lsuPort.writeMem = 0 :=
    owned.exMemKind.resolve_left loads.2
  have noRequest := (request_eq_none wired (by simp [storeIdle])).1
  refine ⟨?_, ?_, ?_, Lsu.next_of_noStore storeIdle noStore⟩
  · simp only [Core.lsuPort, same]
  · simp only [Core.lsuPort, same]
  · change system.memory.nextBytes choice = _
    simp [Axi.Memory.nextBytes, noRequest]

theorem registers_step (held : LoadHeld system) (owned : system.core.LsuOwned)
    (noFlush : system.core.globalTrapFlush = false)
    (wired : WriteWired system)
    (busy : (system.step choice).core.lsu.stateLoad ≠ .idle) :
    (system.step choice).core.lsu.addrReg =
        (system.step choice).core.lsuPort.addr ∧
      (system.step choice).core.lsu.readMemReg =
        (system.step choice).core.lsuPort.readMem := by
  obtain ⟨addr, readMem, -, next⟩ := frame owned noFlush wired busy
  rw [addr, readMem, next]
  rw [next] at busy
  have registers := held.registers
  cases state : system.core.lsu.stateLoad <;>
    simp only [Lsu.nextLoad, state] at busy registers ⊢ <;>
    split_ifs at busy ⊢ <;> simp_all

theorem lsuAraddr_step (held : LoadHeld system)
    (owned : system.core.LsuOwned)
    (noFlush : system.core.globalTrapFlush = false)
    (wired : WriteWired system)
    (asks : (system.step choice).core.lsu.stateLoad = .addr) :
    (system.step choice).core.lsu.lsuAraddr =
      (system.step choice).core.lsuPort.addr := by
  have busy : (system.step choice).core.lsu.stateLoad ≠ .idle := by
    simp [asks]
  obtain ⟨addr, -, -, next⟩ := frame owned noFlush wired busy
  rw [addr, next]
  rw [next] at asks
  have lsuAraddr := held.lsuAraddr
  cases state : system.core.lsu.stateLoad <;>
    simp only [Lsu.nextLoad, state] at asks lsuAraddr ⊢ <;>
    split_ifs at asks ⊢ <;> simp_all

/-- The bus works for the load in EX/MEM. -/
theorem busy_of_forLsu (readWired : ReadWired system)
    (forLsu : (system.step choice).core.bus.read.stateLoad.forLsu = true) :
    (system.step choice).core.lsu.stateLoad ≠ .idle := by
  have loading := readWired.loading_step choice
  rw [forLsu] at loading
  simp [of_decide_eq_true loading]

/-- The request that the bus takes is the one of the load. -/
theorem lsuAraddr_of_arvalid (held : LoadHeld system)
    (readWired : ReadWired system)
    (asks : system.core.lsu.lsuArvalid = true) :
    system.core.lsu.lsuAraddr = system.core.lsuPort.addr := by
  apply held.lsuAraddr
  rw [readWired.lsu.arvalid] at asks
  exact of_decide_eq_true asks

theorem araddrReg_step (held : LoadHeld system)
    (owned : system.core.LsuOwned)
    (noFlush : system.core.globalTrapFlush = false)
    (wired : WriteWired system) (readWired : ReadWired system)
    (asks : (system.step choice).core.bus.read.stateLoad = .lsuReqAr ∨
      (system.step choice).core.bus.read.stateLoad = .lsuWaitR) :
    (system.step choice).core.bus.read.araddrReg =
      (system.step choice).core.lsuPort.addr := by
  have busy : (system.step choice).core.lsu.stateLoad ≠ .idle := by
    apply busy_of_forLsu readWired
    rcases asks with asks | waits
    · simp [asks, BusLoadState.forLsu]
    · simp [waits, BusLoadState.forLsu]
  obtain ⟨addr, -, -, -⟩ := frame owned noFlush wired busy
  rw [addr]
  have next : (system.step choice).core.bus.read =
      system.core.bus.nextRead platform system.core.busPort _ := rfl
  rw [next] at asks ⊢
  rcases Bus.nextRead_forLsu asks with ⟨arvalid, sent⟩ | ⟨held', same⟩
  · exact sent.trans (held.lsuAraddr_of_arvalid readWired arvalid)
  · exact same.trans (held.araddrReg held')

/-- What the memory samples for the load is what it holds. -/
theorem sampled_step (held : LoadHeld system)
    (owned : system.core.LsuOwned)
    (noFlush : system.core.globalTrapFlush = false)
    (wired : WriteWired system) (readWired : ReadWired system)
    (waits : (system.step choice).core.bus.read.stateLoad = .lsuWaitR)
    (burst : Axi.Burst)
    (inMemory : (system.step choice).memory.burst = some burst)
    (data : Word) (isSampled : burst.sampled 0 = some data) :
    data = (system.step choice).memory.bytes.word
      (system.step choice).core.lsuPort.addr := by
  have busy : (system.step choice).core.lsu.stateLoad ≠ .idle :=
    busy_of_forLsu readWired (by simp [waits, BusLoadState.forLsu])
  obtain ⟨addr, -, bytes, -⟩ := frame owned noFlush wired busy
  have isAraddr := held.araddrReg_step owned noFlush wired readWired
    (Or.inr waits)
  have first : burst.beatAddr 0 = system.core.lsuPort.addr := by
    rw [← addr, ← isAraddr, ← ((readWired.step choice).burst _ inMemory).1]
    simp [Axi.Burst.beatAddr]
  rw [bytes, addr]
  rcases Fetches.sampled_cases inMemory 0 data isSampled with
    now | ⟨before, wasInMemory, wasSampled, -⟩
  · rw [now, first]
  · have waited : system.core.bus.read.stateLoad = .lsuWaitR := by
      have receives := readWired.inFlight
      rw [wasInMemory] at receives
      have next := (Bus.nextRead_of_receiving platform readWired.bus
        system.core.busPort (system.memory.drive choice) receives.symm).1
      change (system.step choice).core.bus.read.stateLoad = _ at next
      rw [waits] at next
      split_ifs at next
      exact next.symm
    exact held.sampled waited before wasInMemory data wasSampled

theorem arrived_step (held : LoadHeld system)
    (owned : system.core.LsuOwned)
    (noFlush : system.core.globalTrapFlush = false)
    (wired : WriteWired system) (readWired : ReadWired system)
    (noClint : system.core.exMemLoads →
      Bus.clintEn platform system.core.lsuPort.addr = false)
    (done : (system.step choice).core.bus.read.stateLoad = .lsuDone) :
    (system.step choice).core.bus.read.lsuRdataReg =
      (system.step choice).memory.bytes.word
        (system.step choice).core.lsuPort.addr := by
  have busy : (system.step choice).core.lsu.stateLoad ≠ .idle :=
    busy_of_forLsu readWired (by simp [done, BusLoadState.forLsu])
  obtain ⟨addr, -, bytes, -⟩ := frame owned noFlush wired busy
  rw [bytes, addr]
  rcases Bus.nextRead_lsuDone done with ⟨arvalid, isClint⟩ |
    ⟨waited, valid, same⟩ | ⟨wasDone, same⟩
  · change system.core.lsu.lsuArvalid = true at arvalid
    change Bus.clintEn platform system.core.lsu.lsuAraddr = true at isClint
    have asks := held.lsuAraddr_of_arvalid readWired arvalid
    rw [readWired.lsu.arvalid] at arvalid
    have loads := (owned.load (by simp [of_decide_eq_true arvalid])).1
    rw [asks, noClint loads] at isClint
    contradiction
  · have inFlight := readWired.inFlight
    rw [waited] at inFlight
    obtain ⟨burst, inMemory⟩ := Option.isSome_iff_exists.mp inFlight
    have first := (readWired.burst burst inMemory).2.2 waited
    have isSampled := Axi.Memory.sampled_of_rvalid inMemory valid
    rw [first] at isSampled
    exact same.trans (held.sampled waited burst inMemory _ isSampled)
  · exact same.trans (held.arrived wasDone)

theorem loaded_step (held : LoadHeld system)
    (owned : system.core.LsuOwned)
    (noFlush : system.core.globalTrapFlush = false)
    (wired : WriteWired system) (readWired : ReadWired system)
    (done : (system.step choice).core.lsu.stateLoad = .done) :
    (system.step choice).core.lsu.readData =
      signExtend ((system.step choice).memory.bytes.word
          (system.step choice).core.lsuPort.addr)
        (system.step choice).core.lsuPort.readMem
        (system.step choice).core.lsuPort.addr := by
  have busy : (system.step choice).core.lsu.stateLoad ≠ .idle := by
    simp [done]
  obtain ⟨addr, readMem, bytes, next⟩ := frame owned noFlush wired busy
  have notDone := (owned.loads_of_busy busy).2
  rw [addr, readMem, bytes, next]
  rw [next] at done
  have arrived : system.core.lsuPort.lsuRvalid = true →
      system.core.lsuPort.lsuRdata =
        system.memory.bytes.word system.core.lsuPort.addr := by
    intro valid
    apply held.arrived
    change system.core.bus.read.lsuRvalidReg = true at valid
    rw [readWired.bus.lsuRvalid] at valid
    exact of_decide_eq_true valid
  have registers := held.registers
  revert done
  cases state : system.core.lsu.stateLoad <;>
    simp only [Lsu.nextLoad, state] <;> split_ifs <;> simp_all

theorem step (held : LoadHeld system) (owned : system.core.LsuOwned)
    (noFlush : system.core.globalTrapFlush = false)
    (wired : WriteWired system) (readWired : ReadWired system)
    (noClint : system.core.exMemLoads →
      Bus.clintEn platform system.core.lsuPort.addr = false)
    (choice : Axi.Choice) : LoadHeld (system.step choice) where
  registers := held.registers_step owned noFlush wired
  lsuAraddr := held.lsuAraddr_step owned noFlush wired
  araddrReg := held.araddrReg_step owned noFlush wired readWired
  sampled := held.sampled_step owned noFlush wired readWired
  arrived := held.arrived_step owned noFlush wired readWired noClint
  loaded := held.loaded_step owned noFlush wired readWired

end LoadHeld

end System

end Ysyx.Rtl
