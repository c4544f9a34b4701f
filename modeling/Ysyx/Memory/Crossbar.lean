import Ysyx.Memory.Routing
import Ysyx.Rtl.Xbar

/-!
# Read responses behind the crossbar

The core of the NPC platform with the crossbar and two conforming slaves: for
the observer they are one conforming slave, which never accepts a request for
an address that the crossbar does not map.
-/

namespace Ysyx.Rtl

/-- The core of the NPC platform and the bursts that the SRAM and the UART
serve. -/
structure Npc where
  core : Core .npc
  sram : Option Axi.Serving := none
  uart : Option Axi.Serving := none

namespace Npc

/-- What the slaves wish to drive in one cycle. -/
structure Wishes where
  sram : AxiIn
  uart : AxiIn

def sramIn (wishes : Wishes) (npc : Npc) : AxiIn :=
  Axi.conforming npc.sram wishes.sram

def uartIn (wishes : Wishes) (npc : Npc) : AxiIn :=
  Axi.conforming npc.uart wishes.uart

/-- What the bus sees. -/
def axi (wishes : Wishes) (npc : Npc) : AxiIn :=
  Xbar.toMaster npc.core.bus.axiOut (npc.sramIn wishes) (npc.uartIn wishes)

/-- One clock cycle. -/
def step (wishes : Wishes) (npc : Npc) : Npc where
  core := npc.core.step (npc.axi wishes)
  sram := Axi.nextServing npc.sram (npc.sramIn wishes)
    (Xbar.toSram npc.core.bus.axiOut)
  uart := Axi.nextServing npc.uart (npc.uartIn wishes)
    (Xbar.toUart npc.core.bus.axiOut)

/-- The run from reset. -/
def run (wishes : Nat → Wishes) (power : Core .npc) (cycle : Nat) : Npc :=
  Machine.run step wishes { core := power.reset } cycle

/-- What the bus sees in each cycle of the run. -/
def inputs (wishes : Nat → Wishes) (power : Core .npc) (cycle : Nat) : AxiIn :=
  (run wishes power cycle).axi (wishes cycle)

/-- The lines of the cache lie in memory. -/
theorem not_uart_of_cacheable {cache : ICache Platform.npc.icacheParams}
    (cacheable : cache.isCacheable = true) :
    Xbar.addrIsUart cache.busAraddr = false := by
  have base : cache.busAraddr.toNat = cache.missAddrReg.toNat / 8 * 8 := by
    rw [ICache.busAraddr, if_pos cacheable, ICacheParams.lineBase,
      show Platform.npc.icacheParams.blockWidth = 3 from rfl,
      BitVec.toNat_shiftLeft, BitVec.toNat_ushiftRight,
      Nat.shiftLeft_eq, Nat.shiftRight_eq_div_pow]
    omega
  simp only [ICache.isCacheable, ICacheParams.inWindow,
    Platform.icacheParams, Platform.npc, Bool.and_eq_true, decide_eq_true_eq,
    BitVec.le_def, BitVec.reduceToNat] at cacheable
  simp only [Xbar.addrIsUart, Xbar.uartBase, Xbar.uartEnd,
    Bool.and_eq_false_iff, decide_eq_false_iff_not, BitVec.le_def,
    BitVec.reduceToNat, base]
  omega

/-- Only a fetch from memory is a burst. -/
theorem len_of_acceptedRead {core : Core .npc} {accepted : Outstanding}
    (taken : core.acceptedRead = some accepted)
    (isUart : Xbar.addrIsUart accepted.request.addr = true) :
    accepted.request.len = 0 := by
  rw [Core.acceptedRead] at taken
  split_ifs at taken with load clint fetch
  · rw [← Option.some.inj taken]
  · rw [← Option.some.inj taken]
  · rw [← Option.some.inj taken] at isUart ⊢
    by_cases cacheable : core.icache.isCacheable = true
    · rw [not_uart_of_cacheable cacheable] at isUart
      contradiction
    · show core.icache.busArlen = 0
      rw [ICache.busArlen, if_neg cacheable]

/-! ## One slave -/

/-- The observer watches the core, and its slave serves what the SRAM or the
UART serves. -/
structure Wired (npc : Npc) (routing : Routing .npc) : Prop where
  core : routing.core = npc.core
  serving : routing.serving = npc.sram.or npc.uart
  sram : ∀ burst, npc.sram = some burst →
    Xbar.addrIsSram burst.addr = true ∧ npc.uart = none
  uart : ∀ burst, npc.uart = some burst →
    Xbar.addrIsUart burst.addr = true ∧ npc.sram = none
  len : ∀ held, routing.outstanding = some held →
    Xbar.addrIsUart held.request.addr = true → held.request.len = 0

section Wired

variable {npc : Npc} {routing : Routing .npc} {wishes : Wishes}

/-- The bus drives the address of the request until its burst is over. -/
theorem araddr_of_serving {burst : Axi.Serving} (stands : routing.Stands)
    (served : routing.serving = some burst) :
    routing.core.bus.axiOut.araddr = burst.addr := by
  simp only [Routing.Stands, served] at stands
  cases state : routing.core.bus.read.stateLoad <;>
    cases outstanding : routing.outstanding <;>
    simp only [state, outstanding] at stands
  case ifuWaitR.some => rw [stands.2.1]; rfl
  case lsuWaitR.some => rw [stands.2.2]; rfl

/-- The request that the bus drives while it asks. -/
theorem request_of_asks (routed : Routing.Routed routing)
    (asks : routing.core.bus.read.stateLoad.asks = true) :
    ∃ held, routing.outstanding = some held ∧
      held.request.addr = routing.core.bus.axiOut.araddr ∧
      held.request.len = routing.core.bus.axiOut.arlen := by
  have stands := routed.stands
  have arlen := routed.bus.arlen
  simp only [Routing.Stands] at stands
  cases state : routing.core.bus.read.stateLoad <;>
    cases outstanding : routing.outstanding <;>
    cases served : routing.serving <;>
    simp only [state, outstanding, served, BusLoadState.asks] at stands asks <;>
    try contradiction
  case ifuReqAr.some.none held =>
    exact ⟨held, rfl, by rw [stands.1]; rfl, by rw [stands.1]; rfl⟩
  case lsuReqAr.some.none held =>
    refine ⟨held, rfl, by rw [stands.1]; rfl, ?_⟩
    rw [stands.1]
    exact (arlen (.inl state)).symm

/-- The UART delivers the only beat of its burst. -/
theorem Wired.isLast_of_uart (wired : Wired npc routing)
    (routed : Routing.Routed routing) {burst : Axi.Serving}
    (served : npc.uart = some burst) : burst.isLast = true := by
  obtain ⟨isUart, noSram⟩ := wired.uart burst served
  have serving : routing.serving = some burst := by
    rw [wired.serving, noSram, served]
    rfl
  obtain ⟨receives, held, outstanding, rfl⟩ := routed.stands.serving serving
  have noBurst := wired.len held outstanding isUart
  have inBurst := routed.stands.inBurst outstanding receives
  rw [noBurst] at inBurst
  simp only [Axi.Serving.isLast, noBurst, beq_iff_eq]
  exact Nat.le_zero.mp inBurst

/-- The crossbar and the slaves behind it are a conforming slave. -/
theorem Wired.axi_eq (wired : Wired npc routing)
    (routed : Routing.Routed routing) (wishes : Wishes) :
    routing.axi (npc.axi wishes) = npc.axi wishes := by
  have serving := wired.serving
  cases sram : npc.sram with
  | some burst =>
      obtain ⟨isSram, noUart⟩ := wired.sram burst sram
      rw [sram, noUart] at serving
      have araddr := araddr_of_serving routed.stands serving
      rw [wired.core] at araddr
      rw [← araddr] at isSram
      simp only [Routing.axi, Axi.conforming, serving, axi, Xbar.toMaster,
        sramIn, sram, Xbar.select_sram isSram, if_pos isSram]
      cases wishes.sram.rvalid <;> simp
  | none =>
      cases uart : npc.uart with
      | some burst =>
          obtain ⟨isUart, -⟩ := wired.uart burst uart
          have isLast := wired.isLast_of_uart routed uart
          rw [sram, uart] at serving
          have araddr := araddr_of_serving routed.stands serving
          rw [wired.core] at araddr
          rw [← araddr] at isUart
          have notSram := Xbar.addrIsSram_eq_false isUart
          simp only [Routing.axi, Axi.conforming, serving, axi, Xbar.toMaster,
            uartIn, uart, Xbar.select_uart isUart, notSram]
          cases wishes.uart.rvalid <;> simp [isLast]
      | none =>
          have noBeat : (npc.axi wishes).rvalid = false := by
            simp [axi, Xbar.toMaster, Xbar.select, sramIn, uartIn,
              Axi.conforming, sram, uart]
          have noServing : routing.serving = none := by
            rw [serving, sram, uart]
            rfl
          simp only [Routing.axi, Axi.conforming, noServing]
          rw [← noBeat]

/-- The slaves that are served take up the bursts of the one slave. -/
theorem Wired.serving_step (wired : Wired npc routing)
    (routed : Routing.Routed routing) (wishes : Wishes) :
    Axi.nextServing routing.serving (npc.axi wishes) npc.core.bus.axiOut =
        (npc.step wishes).sram.or (npc.step wishes).uart ∧
      (∀ burst, (npc.step wishes).sram = some burst →
        Xbar.addrIsSram burst.addr = true ∧ (npc.step wishes).uart = none) ∧
      (∀ burst, (npc.step wishes).uart = some burst →
        Xbar.addrIsUart burst.addr = true ∧
          (npc.step wishes).sram = none) := by
  have serving := wired.serving
  cases sram : npc.sram with
  | some burst =>
      obtain ⟨isSram, noUart⟩ := wired.sram burst sram
      rw [sram, noUart] at serving
      have araddr := araddr_of_serving routed.stands serving
      rw [wired.core] at araddr
      have selected := isSram
      rw [← araddr] at selected
      have notUart := Xbar.addrIsUart_eq_false selected
      simp only [step, axi, Xbar.toMaster, Xbar.toSram, Xbar.toUart,
        Xbar.toSlave, Axi.nextServing, serving, sram, noUart,
        Xbar.select_sram selected, selected, notUart]
      cases (npc.sramIn wishes).rvalid <;>
        cases npc.core.bus.axiOut.rready <;>
        cases (npc.sramIn wishes).rlast <;> simp [isSram]
  | none =>
      cases uart : npc.uart with
      | some burst =>
          obtain ⟨isUart, -⟩ := wired.uart burst uart
          have isLast := wired.isLast_of_uart routed uart
          rw [sram, uart] at serving
          have araddr := araddr_of_serving routed.stands serving
          rw [wired.core] at araddr
          have selected := isUart
          rw [← araddr] at selected
          have notSram := Xbar.addrIsSram_eq_false selected
          simp only [step, axi, Xbar.toMaster, Xbar.toSram, Xbar.toUart,
            Xbar.toSlave, Axi.nextServing, serving, sram, uart,
            Xbar.select_uart selected, selected, notSram]
          cases valid : (npc.uartIn wishes).rvalid <;>
            cases npc.core.bus.axiOut.rready <;>
            cases last : (npc.uartIn wishes).rlast <;>
            simp_all [uartIn, Axi.conforming]
      | none =>
          have noServing : routing.serving = none := by
            rw [serving, sram, uart]
            rfl
          have arlen : npc.core.bus.axiOut.arvalid = true →
              Xbar.addrIsUart npc.core.bus.axiOut.araddr = true →
                npc.core.bus.axiOut.arlen = 0 := by
            rw [← wired.core]
            intro arvalid isUart
            obtain ⟨held, outstanding, addr, len⟩ :=
              request_of_asks routed (routed.bus.arvalid.symm.trans arvalid)
            rw [← len]
            exact wired.len held outstanding (by rw [addr, isUart])
          simp only [step, axi, Xbar.toMaster, Xbar.toSram, Xbar.toUart,
            Xbar.toSlave, Axi.nextServing, noServing, sram, uart]
          by_cases isSram :
              Xbar.addrIsSram npc.core.bus.axiOut.araddr = true
          · simp only [Xbar.select_sram isSram, isSram,
              Xbar.addrIsUart_eq_false isSram]
            cases npc.core.bus.axiOut.arvalid <;>
              cases (npc.sramIn wishes).arready <;> simp [isSram]
          · by_cases isUart :
                Xbar.addrIsUart npc.core.bus.axiOut.araddr = true
            · simp only [Xbar.select_uart isUart, isUart, isSram]
              cases arvalid : npc.core.bus.axiOut.arvalid <;>
                cases (npc.uartIn wishes).arready <;>
                simp_all
            · simp [Xbar.select, isSram, isUart]

theorem Wired.len_step (wired : Wired npc routing)
    (routed : Routing.Routed routing) (wish : AxiIn) :
    ∀ held, (routing.step wish).outstanding = some held →
      Xbar.addrIsUart held.request.addr = true → held.request.len = 0 := by
  intro held next isUart
  cases outstanding : routing.outstanding with
  | none =>
      have accepted : routing.core.acceptedRead = some held := by
        simpa [Routing.step, outstanding] using next
      exact len_of_acceptedRead accepted isUart
  | some before =>
      rw [Routing.outstanding_step_of_busy
        (routed.stands.busy outstanding) outstanding] at next
      split_ifs at next
      rw [← Option.some.inj next] at isUart ⊢
      exact wired.len before outstanding isUart

theorem Wired.step (wired : Wired npc routing)
    (routed : Routing.Routed routing) (wishes : Wishes) :
    Wired (npc.step wishes) (routing.step (npc.axi wishes)) := by
  obtain ⟨serving, sram, uart⟩ := wired.serving_step routed wishes
  refine ⟨?_, ?_, sram, uart, wired.len_step routed _⟩
  · show routing.core.step (routing.axi (npc.axi wishes)) = _
    rw [wired.axi_eq routed, wired.core]
    rfl
  · show Axi.nextServing routing.serving (routing.axi (npc.axi wishes))
      routing.core.bus.axiOut = _
    rw [wired.axi_eq routed, wired.core, serving]

end Wired

/-! ## Mapped addresses -/

/-- What is answered is mapped, and so is a request that the bus has passed
on. -/
structure Mapped (routing : Routing .npc) : Prop where
  answered : ∀ answer ∈ routing.answered,
    Xbar.maps answer.1.addr = true
  passed : ∀ held, routing.outstanding = some held →
    routing.core.bus.read.stateLoad.asks = false →
      Xbar.maps held.request.addr = true

section Mapped

variable {npc : Npc} {routing : Routing .npc} {wish : AxiIn}

/-- The bus asks for what it has accepted, but for a timer register. -/
theorem asks_of_acceptedRead {accepted : Outstanding}
    (taken : routing.core.acceptedRead = some accepted)
    (unmapped : Xbar.maps accepted.request.addr = false) :
    (routing.step wish).core.bus.read.stateLoad.asks = true := by
  have idle : routing.core.bus.read.stateLoad = .busIdle := by
    by_contra busy
    rw [Routing.acceptedRead_of_busy busy] at taken
    contradiction
  show (routing.core.bus.nextRead .npc routing.core.busPort
    (routing.axi wish)).stateLoad.asks = true
  rw [Core.acceptedRead] at taken
  split_ifs at taken with load clint fetch
  · rw [← Option.some.inj taken] at unmapped
    rw [Xbar.maps_of_clintEn clint] at unmapped
    contradiction
  · simp only [Bus.lsuArready, Bus.busReadIdle, Bool.and_eq_true] at load
    simp [Bus.nextRead, idle, Core.busPort, load, clint, BusLoadState.asks]
  · simp only [Bus.ifuArready, Bus.busReadIdle, Bool.and_eq_true,
      Bool.not_eq_true'] at fetch
    simp [Bus.nextRead, idle, Core.busPort, fetch, BusLoadState.asks]

/-- A request that finishes has been passed on. -/
theorem not_asks_of_finishes (routed : Routing.Routed routing)
    {held : Outstanding} (ends : routing.finishes wish held = true) :
    routing.core.bus.read.stateLoad.asks = false := by
  cases client : held.request.client with
  | icache =>
      rw [Routing.finishes_of_client.1 client, Bool.and_eq_true] at ends
      have receives := (routed.moves_of_beat ends.1).2
      cases state : routing.core.bus.read.stateLoad <;>
        simp [state, BusLoadState.receives, BusLoadState.asks] at receives ⊢
  | lsu =>
      rw [Routing.finishes_of_client.2 client, Core.consumesLoad,
        Bool.and_eq_true, routed.bus.lsuRvalid, decide_eq_true_eq] at ends
      rw [ends.2]
      rfl

/-- The crossbar does not accept an address that it does not map. -/
theorem asks_step (routed : Routing.Routed routing)
    (asks : routing.core.bus.read.stateLoad.asks = true)
    (unmapped : Xbar.maps routing.core.bus.axiOut.araddr = false)
    (wired : Wired npc routing) (wishes : Wishes) :
    (routing.step (npc.axi wishes)).core.bus.read.stateLoad.asks = true := by
  have notReady : (npc.axi wishes).arready = false := by
    rw [wired.core] at unmapped
    exact Xbar.select_none unmapped
  show (routing.core.bus.nextRead .npc routing.core.busPort
    (routing.axi (npc.axi wishes))).stateLoad.asks = true
  rw [wired.axi_eq routed]
  cases state : routing.core.bus.read.stateLoad <;>
    simp [state, BusLoadState.asks] at asks <;>
    simp [Bus.nextRead, state, notReady, BusLoadState.asks]

theorem Mapped.step (mapped : Mapped routing)
    (routed : Routing.Routed routing) (wired : Wired npc routing)
    (wishes : Wishes) : Mapped (routing.step (npc.axi wishes)) where
  answered := by
    intro answer member
    simp only [Routing.step, List.mem_append, Option.mem_toList] at member
    rcases member with earlier | new
    · exact mapped.answered answer earlier
    · simp only [Routing.answer, Option.map_eq_some_iff,
        Option.filter_eq_some_iff] at new
      obtain ⟨held, ⟨outstanding, ends⟩, rfl⟩ := new
      exact mapped.passed held outstanding (not_asks_of_finishes routed ends)
  passed := by
    intro held next passed
    by_contra unmapped
    rw [Bool.not_eq_true] at unmapped
    cases outstanding : routing.outstanding with
    | none =>
        have accepted : routing.core.acceptedRead = some held := by
          simpa [Routing.step, outstanding] using next
        rw [asks_of_acceptedRead accepted unmapped] at passed
        contradiction
    | some before =>
        rw [Routing.outstanding_step_of_busy
          (routed.stands.busy outstanding) outstanding] at next
        split_ifs at next
        rw [← Option.some.inj next] at unmapped
        have same : Xbar.maps before.request.addr = false := unmapped
        by_cases asks : routing.core.bus.read.stateLoad.asks = true
        · obtain ⟨now, isNow, addr, -⟩ := request_of_asks routed asks
          obtain rfl : now = before :=
            Option.some.inj (isNow.symm.trans outstanding)
          rw [addr] at same
          rw [asks_step routed asks same wired] at passed
          contradiction
        · rw [mapped.passed before outstanding (by simpa using asks)] at same
          contradiction

end Mapped

section Run

variable {wishes : Nat → Wishes} {power : Core .npc}
variable {request : ReadRequest} {cycle later index : Nat}

end Run

end Npc

/-! ## The routing -/

namespace Routing

variable {platform : Platform}

end Routing

end Ysyx.Rtl
