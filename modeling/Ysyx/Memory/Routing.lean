import Ysyx.Lib.AxiReads
import Ysyx.Memory.Wiring
import Ysyx.Cache.Integrity

/-!
# Who a read beat is for

The R channel carries no ids.  An observer records every read request the bus
accepts and the data it gets, and every beat goes to the client it was asked
for, whatever the cache abandons on the way.
-/

namespace Ysyx.Rtl

inductive ReadClient where
  | icache
  | lsu
  deriving DecidableEq, Repr

/-- A read request as the bus accepts it. -/
structure ReadRequest where
  client : ReadClient
  addr : Word
  len : BitVec 8
  deriving DecidableEq, Repr

/-- An accepted request that has not got its whole response. -/
structure Outstanding where
  request : ReadRequest
  /-- The cache was flushed after it had asked. -/
  flushed : Bool
  beats : List Word
  deriving DecidableEq, Repr

/-- The core, a conforming slave, the address of the load that the LSU works
on, and what the observer has recorded. -/
structure Routing (platform : Platform) where
  core : Core platform
  serving : Option Axi.Serving := none
  load : Option Word := none
  outstanding : Option Outstanding := none
  accepted : List ReadRequest := []
  answered : List (ReadRequest × List Word) := []

namespace Core

variable {platform : Platform}

/-- The LSU consumes a read response. -/
def consumesLoad (core : Core platform) : Bool :=
  core.lsu.lsuRready && core.bus.read.lsuRvalidReg

/-- The cache takes a beat. -/
def takesBeat (core : Core platform) (axi : AxiIn) : Bool :=
  core.icache.busRready && core.bus.ifuRvalid axi

/-- The request that the bus accepts in this cycle.  The CLINT answers at
once. -/
def acceptedRead (core : Core platform) : Option Outstanding :=
  if core.lsu.lsuArvalid && core.bus.lsuArready then
    some
      { request := ⟨.lsu, core.lsu.lsuAraddr, 0⟩
        flushed := false
        beats :=
          if Bus.clintEn platform core.lsu.lsuAraddr then
            [core.bus.clint.rdata platform.rtcAddr core.lsu.lsuAraddr]
          else [] }
  else if core.icache.busArvalid &&
      core.bus.ifuArready core.lsu.lsuArvalid then
    some
      { request := ⟨.icache, core.icache.busAraddr, core.icache.busArlen⟩
        flushed := core.jumpReq
        beats := [] }
  else none

end Core

namespace Routing

variable {platform : Platform}

/-- What the slave drives. -/
def axi (wish : AxiIn) (routing : Routing platform) : AxiIn :=
  Axi.conforming routing.serving wish

/-- The beat that the bus and the slave transfer in this cycle. -/
def beat (wish : AxiIn) (routing : Routing platform) : Option Word :=
  if (routing.axi wish).rvalid && routing.core.bus.read.rreadyReg then
    some (routing.axi wish).rdata
  else none

/-- The request has its whole response: the LSU has consumed it, or its burst
has come to its end. -/
def finishes (wish : AxiIn) (routing : Routing platform)
    (outstanding : Outstanding) : Bool :=
  match outstanding.request.client with
  | .lsu => routing.core.consumesLoad
  | .icache => (routing.beat wish).isSome && (routing.axi wish).rlast

/-- The request with what this cycle adds to it. -/
def advance (wish : AxiIn) (routing : Routing platform)
    (outstanding : Outstanding) : Outstanding :=
  { outstanding with
    flushed := outstanding.flushed || routing.core.jumpReq
    beats := outstanding.beats ++ (routing.beat wish).toList }

/-- The response that this cycle completes. -/
def answer (wish : AxiIn) (routing : Routing platform) :
    Option (ReadRequest × List Word) :=
  (routing.outstanding.filter (routing.finishes wish)).map fun outstanding =>
    (outstanding.request, (routing.advance wish outstanding).beats)

/-- One clock cycle of the core, the slave and the observer. -/
def step (wish : AxiIn) (routing : Routing platform) : Routing platform where
  core := routing.core.step (routing.axi wish)
  serving := Axi.nextServing routing.serving (routing.axi wish)
    routing.core.bus.axiOut
  load :=
    if routing.core.lsu.loadStart routing.core.lsuPort then
      some routing.core.lsuPort.addr
    else if routing.core.consumesLoad then none
    else routing.load
  outstanding :=
    routing.core.acceptedRead.or
      ((routing.outstanding.filter fun outstanding =>
        !routing.finishes wish outstanding).map (routing.advance wish))
  accepted := routing.accepted ++
    (routing.core.acceptedRead.map Outstanding.request).toList
  answered := routing.answered ++ (routing.answer wish).toList

/-- The run from reset under the wishes of a slave. -/
def run (wishes : Nat → AxiIn) (power : Core platform) (cycle : Nat) :
    Routing platform :=
  Machine.run step wishes { core := power.reset } cycle

/-! ## The invariant -/

/-- The request the observer holds and the burst the slave serves, by the
state of the read machine. -/
def Stands (routing : Routing platform) : Prop :=
  let read := routing.core.bus.read
  match read.stateLoad, routing.outstanding, routing.serving with
  | .busIdle, none, none => True
  | .ifuReqAr, some held, none =>
      held.request = ⟨.icache, read.araddrReg, read.arlenReg⟩ ∧
        held.beats = []
  | .ifuWaitR, some held, some burst =>
      held.request = ⟨.icache, read.araddrReg, read.arlenReg⟩ ∧
        burst = ⟨read.araddrReg, read.arlenReg, held.beats.length⟩ ∧
        held.beats.length ≤ read.arlenReg.toNat
  | .lsuReqAr, some held, none =>
      held.request = ⟨.lsu, read.araddrReg, 0⟩ ∧ held.beats = []
  | .lsuWaitR, some held, some burst =>
      held.request = ⟨.lsu, read.araddrReg, 0⟩ ∧ held.beats = [] ∧
        burst = ⟨read.araddrReg, 0, 0⟩
  | .lsuDone, some held, none =>
      held.request = ⟨.lsu, held.request.addr, 0⟩ ∧
        held.beats = [read.lsuRdataReg]
  | _, _, _ => False

/-- What the observer knows of the run so far. -/
structure Routed (routing : Routing platform) : Prop where
  bus : routing.core.bus.read.Encoded
  lsu : routing.core.lsu.LoadEncoded
  loading : decide (routing.core.lsu.stateLoad = .data) =
    routing.core.bus.read.stateLoad.forLsu
  stands : routing.Stands
  asked : routing.core.lsu.stateLoad = .addr →
    routing.load = some routing.core.lsu.lsuAraddr
  waited : routing.core.lsu.stateLoad = .data →
    ∃ held, routing.outstanding = some held ∧
      routing.load = some held.request.addr
  cleared : routing.core.icache.state = .missAr →
    routing.core.icache.refillCnt = 0
  missing : routing.core.icache.state = .missR ↔
    ∃ held, routing.outstanding = some held ∧
      held.request.client = .icache ∧ held.flushed = false
  refilling : routing.core.icache.state = .missR →
    ∃ held, routing.outstanding = some held ∧
      held.request = ⟨.icache, routing.core.icache.busAraddr,
        routing.core.icache.busArlen⟩ ∧
      (routing.core.icache.isCacheable = true →
        routing.core.icache.refillCnt = BitVec.ofNat _ held.beats.length)
  log : routing.accepted = routing.answered.map Prod.fst ++
    (routing.outstanding.map Outstanding.request).toList
  complete : ∀ answer ∈ routing.answered,
    answer.2.length = answer.1.len.toNat + 1

section Step

variable {routing : Routing platform} {wish : AxiIn}

/-- Nothing is accepted before the earlier request has its response. -/
theorem acceptedRead_of_busy {core : Core platform}
    (busy : core.bus.read.stateLoad ≠ .busIdle) :
    core.acceptedRead = none := by
  simp [Core.acceptedRead, Bus.lsuArready, Bus.ifuArready, Bus.busReadIdle,
    busy]

theorem rlast_of_serving {burst : Axi.Serving}
    (served : routing.serving = some burst)
    (valid : (routing.axi wish).rvalid = true) :
    (routing.axi wish).rlast = burst.isLast := by
  simp only [axi, Axi.conforming, served] at valid ⊢
  rw [if_pos valid]

theorem outstanding_step_of_accepted {accepted : Outstanding}
    (taken : routing.core.acceptedRead = some accepted) :
    (routing.step wish).outstanding = some accepted := by
  simp [step, taken]

theorem outstanding_step_of_busy {held : Outstanding}
    (busy : routing.core.bus.read.stateLoad ≠ .busIdle)
    (outstanding : routing.outstanding = some held) :
    (routing.step wish).outstanding =
      if routing.finishes wish held then none
      else some (routing.advance wish held) := by
  rw [step, acceptedRead_of_busy busy, outstanding]
  cases ends : routing.finishes wish held <;> simp [Option.filter, ends]

theorem finishes_of_client {held : Outstanding} :
    (held.request.client = .icache → routing.finishes wish held =
      ((routing.beat wish).isSome && (routing.axi wish).rlast)) ∧
    (held.request.client = .lsu →
      routing.finishes wish held = routing.core.consumesLoad) := by
  constructor <;> intro client <;> rw [finishes, client]

theorem Routed.beat_eq (routed : Routed routing) (wish : AxiIn) :
    routing.beat wish =
      if (routing.axi wish).rvalid &&
          routing.core.bus.read.stateLoad.receives then
        some (routing.axi wish).rdata
      else none := by
  rw [beat, routed.bus.rready]

theorem stands_step (routed : Routed routing) :
    (routing.step wish).Stands := by
  have stands := routed.stands
  have arvalid := routed.bus.arvalid
  have rready := routed.bus.rready
  have lsuRvalid := routed.bus.lsuRvalid
  have lsuRready := routed.lsu.rready
  have loading := routed.loading
  have beat := routed.beat_eq wish
  have read : (routing.step wish).core.bus.read =
      routing.core.bus.nextRead platform routing.core.busPort
        (routing.axi wish) := rfl
  have serving : (routing.step wish).serving = Axi.nextServing
      routing.serving (routing.axi wish) routing.core.bus.axiOut := rfl
  simp only [Stands] at stands ⊢
  rw [read, serving]
  cases state : routing.core.bus.read.stateLoad <;>
    cases outstanding : routing.outstanding <;>
    cases served : routing.serving <;>
    simp only [state, outstanding, served] at stands <;>
    simp only [state, BusLoadState.asks, BusLoadState.receives,
      BusLoadState.forLsu, reduceCtorEq, decide_true, decide_false,
      Bool.and_true, Bool.and_false, decide_eq_true_eq]
      at arvalid rready lsuRvalid loading beat
  · -- a request may be accepted
    cases writeIdle : routing.core.bus.busWriteIdle <;>
      cases lsuAsks : routing.core.lsu.lsuArvalid <;>
      cases clint : Bus.clintEn platform routing.core.lsu.lsuAraddr <;>
      cases ifuAsks : routing.core.icache.busArvalid <;>
      simp [Bus.nextRead, state, step, outstanding, Core.acceptedRead,
        Bus.lsuArready, Bus.ifuArready, Bus.busReadIdle, Axi.nextServing,
        Core.busPort, Bus.axiOut, arvalid, writeIdle, lsuAsks, clint, ifuAsks]
  case ifuReqAr.some.none held =>
    obtain ⟨request, beats⟩ := stands
    rw [outstanding_step_of_busy (by simp [state]) outstanding,
      finishes_of_client.1 (by rw [request]), beat]
    cases ready : (routing.axi wish).arready <;>
      simp [Bus.nextRead, state, Axi.nextServing, Bus.axiOut, arvalid, ready,
        advance, request, beats, beat]
  case ifuWaitR.some.some held burst =>
    obtain ⟨request, rfl, inBurst⟩ := stands
    rw [outstanding_step_of_busy (by simp [state]) outstanding,
      finishes_of_client.1 (by rw [request]), beat]
    cases valid : (routing.axi wish).rvalid with
    | false =>
        simp [Bus.nextRead, state, Axi.nextServing, valid, advance, request,
          beat, inBurst]
    | true =>
        have isLast := rlast_of_serving served valid
        cases last : (routing.axi wish).rlast with
        | true =>
            simp [Bus.nextRead, state, Axi.nextServing, Bus.axiOut, rready,
              valid, last]
        | false =>
            have notLast : held.beats.length ≠
                routing.core.bus.read.arlenReg.toNat := by
              simpa [last, Axi.Serving.isLast] using isLast
            simp [Bus.nextRead, state, Axi.nextServing, Bus.axiOut, rready,
              valid, last, advance, request, beat]
            omega
  case lsuReqAr.some.none held =>
    obtain ⟨request, beats⟩ := stands
    rw [outstanding_step_of_busy (by simp [state]) outstanding,
      finishes_of_client.2 (by rw [request]), Core.consumesLoad, lsuRvalid]
    cases ready : (routing.axi wish).arready <;>
      simp [Bus.nextRead, state, Axi.nextServing, Bus.axiOut, arvalid, ready,
        advance, request, beats, beat, routed.bus.arlen (.inl state)]
  case lsuWaitR.some.some held burst =>
    obtain ⟨request, beats, rfl⟩ := stands
    rw [outstanding_step_of_busy (by simp [state]) outstanding,
      finishes_of_client.2 (by rw [request]), Core.consumesLoad, lsuRvalid]
    cases valid : (routing.axi wish).rvalid with
    | false =>
        simp [Bus.nextRead, state, Axi.nextServing, valid, advance, request,
          beats, beat]
    | true =>
        have last : (routing.axi wish).rlast = true :=
          rlast_of_serving served valid
        simp [Bus.nextRead, state, Axi.nextServing, Bus.axiOut, rready,
          valid, last, advance, request, beats, beat]
  case lsuDone.some.none held =>
    obtain ⟨request, beats⟩ := stands
    rw [outstanding_step_of_busy (by simp [state]) outstanding,
      finishes_of_client.2 (by rw [request]), Core.consumesLoad, lsuRready,
      lsuRvalid]
    simp [Bus.nextRead, state, Axi.nextServing, Bus.axiOut, arvalid,
      Core.busPort, lsuRvalid, lsuRready, loading]

/-! ### The parts of `Stands` -/

theorem Stands.idle_iff (stands : routing.Stands) :
    routing.outstanding = none ↔
      routing.core.bus.read.stateLoad = .busIdle := by
  simp only [Stands] at stands
  cases state : routing.core.bus.read.stateLoad <;>
    cases outstanding : routing.outstanding <;>
    cases served : routing.serving <;>
    simp [state, outstanding, served] at stands ⊢

theorem Stands.busy {held : Outstanding} (stands : routing.Stands)
    (outstanding : routing.outstanding = some held) :
    routing.core.bus.read.stateLoad ≠ .busIdle := by
  intro idle
  rw [stands.idle_iff.mpr idle] at outstanding
  contradiction

theorem Stands.client {held : Outstanding} (stands : routing.Stands)
    (outstanding : routing.outstanding = some held) :
    held.request.client =
      if routing.core.bus.read.stateLoad.forLsu then .lsu else .icache := by
  simp only [Stands, outstanding] at stands
  cases state : routing.core.bus.read.stateLoad <;>
    cases served : routing.serving <;>
    simp only [state, served] at stands <;>
    exact congrArg ReadRequest.client stands.1

theorem Stands.serving {burst : Axi.Serving} (stands : routing.Stands)
    (served : routing.serving = some burst) :
    routing.core.bus.read.stateLoad.receives = true ∧
      ∃ held, routing.outstanding = some held ∧
        burst = ⟨held.request.addr, held.request.len, held.beats.length⟩ := by
  simp only [Stands, served] at stands
  cases state : routing.core.bus.read.stateLoad <;>
    cases outstanding : routing.outstanding <;>
    simp only [state, outstanding] at stands
  case ifuWaitR.some held =>
    obtain ⟨request, rfl, -⟩ := stands
    exact ⟨rfl, held, rfl, by rw [request]⟩
  case lsuWaitR.some held =>
    obtain ⟨request, beats, rfl⟩ := stands
    exact ⟨rfl, held, rfl, by rw [request, beats]; rfl⟩

theorem Stands.serving_of_receives (stands : routing.Stands)
    (receives : routing.core.bus.read.stateLoad.receives = true) :
    ∃ burst, routing.serving = some burst := by
  simp only [Stands] at stands
  cases state : routing.core.bus.read.stateLoad <;>
    cases outstanding : routing.outstanding <;>
    cases served : routing.serving <;>
    simp [state, outstanding, served, BusLoadState.receives]
      at stands receives ⊢

theorem Stands.inBurst {held : Outstanding} (stands : routing.Stands)
    (outstanding : routing.outstanding = some held)
    (receives : routing.core.bus.read.stateLoad.receives = true) :
    held.beats.length ≤ held.request.len.toNat := by
  simp only [Stands, outstanding] at stands
  cases state : routing.core.bus.read.stateLoad <;>
    cases served : routing.serving <;>
    simp only [state, served, BusLoadState.receives] at stands receives <;>
    try contradiction
  case ifuWaitR.some =>
    rw [stands.1]
    exact stands.2.2
  case lsuWaitR.some =>
    simp [stands.2.1]

theorem Stands.done {held : Outstanding} (stands : routing.Stands)
    (outstanding : routing.outstanding = some held)
    (done : routing.core.bus.read.stateLoad = .lsuDone) :
    held.request = ⟨.lsu, held.request.addr, 0⟩ ∧
      held.beats = [routing.core.bus.read.lsuRdataReg] := by
  simp only [Stands, outstanding, done] at stands
  cases served : routing.serving <;> simp only [served] at stands
  exact stands

/-! ### Loads -/

theorem asked_step (routed : Routed routing)
    (addr : (routing.step wish).core.lsu.stateLoad = .addr) :
    (routing.step wish).load =
      some (routing.step wish).core.lsu.lsuAraddr := by
  have asked := routed.asked
  have rready := routed.lsu.rready
  obtain ⟨-, sameAraddr, -⟩ :=
    routing.core.lsu.next_loadRegs routing.core.lsuPort
  change (routing.core.lsu.next routing.core.lsuPort).stateLoad = _ at addr
  change _ = some (routing.core.lsu.next routing.core.lsuPort).lsuAraddr
  rw [Lsu.next_stateLoad] at addr
  rw [sameAraddr]
  simp only [step, Core.consumesLoad]
  simp only [Lsu.nextLoad] at addr ⊢
  cases state : routing.core.lsu.stateLoad <;>
    simp only [state] at addr asked rready ⊢ <;>
    grind [Lsu.loadStart]

theorem acceptedRead_of_lsu {core : Core platform}
    (taken : (core.lsu.lsuArvalid && core.bus.lsuArready) = true) :
    ∃ accepted, core.acceptedRead = some accepted ∧
      accepted.request = ⟨.lsu, core.lsu.lsuAraddr, 0⟩ := by
  rw [Core.acceptedRead, if_pos taken]
  exact ⟨_, rfl, rfl⟩

theorem load_step_of_busy
    (busy : routing.core.lsu.stateLoad ≠ .idle) :
    (routing.step wish).load =
      if routing.core.consumesLoad then none else routing.load := by
  have noStart : routing.core.lsu.loadStart routing.core.lsuPort = false := by
    simp [Lsu.loadStart, busy]
  simp [step, noStart]

theorem waited_step (routed : Routed routing)
    (data : (routing.step wish).core.lsu.stateLoad = .data) :
    ∃ held, (routing.step wish).outstanding = some held ∧
      (routing.step wish).load = some held.request.addr := by
  change (routing.core.lsu.next routing.core.lsuPort).stateLoad = _ at data
  rw [Lsu.next_stateLoad] at data
  have rready := routed.lsu.rready
  cases state : routing.core.lsu.stateLoad with
  | idle =>
      simp only [Lsu.nextLoad, state] at data
      grind
  | done =>
      simp only [Lsu.nextLoad, state] at data
      grind
  | addr =>
      simp only [Lsu.nextLoad, state] at data
      have taken : (routing.core.lsu.lsuArvalid &&
          routing.core.bus.lsuArready) = true := by
        change (if routing.core.lsu.lsuArvalid = true ∧
          routing.core.bus.lsuArready = true then _ else _ : Lsu).stateLoad =
            _ at data
        grind
      obtain ⟨accepted, isAccepted, request⟩ := acceptedRead_of_lsu taken
      have consumes : routing.core.consumesLoad = false := by
        simp [Core.consumesLoad, rready, state]
      refine ⟨accepted, ?_, ?_⟩
      · simp [step, isAccepted]
      · rw [load_step_of_busy (by simp [state]), consumes,
          routed.asked state, request]
        rfl
  | data =>
      obtain ⟨held, outstanding, load⟩ := routed.waited state
      have busy := routed.stands.busy outstanding
      have forLsu : routing.core.bus.read.stateLoad.forLsu = true := by
        rw [← routed.loading, state]
        rfl
      have client : held.request.client = .lsu := by
        rw [routed.stands.client outstanding, forLsu]
        rfl
      have consumes : routing.core.consumesLoad = false := by
        by_contra consumes
        rw [Bool.not_eq_false, Core.consumesLoad, Bool.and_eq_true]
          at consumes
        simp only [Lsu.nextLoad, state] at data
        change (if routing.core.lsu.lsuRready = true ∧
          routing.core.bus.read.lsuRvalidReg = true then _
          else _ : Lsu).stateLoad = _ at data
        rw [if_pos consumes] at data
        contradiction
      refine ⟨routing.advance wish held, ?_, ?_⟩
      · rw [outstanding_step_of_busy busy outstanding,
          finishes_of_client.2 client, consumes]
        rfl
      · rw [load_step_of_busy (by simp [state]), consumes, load]
        rfl

/-! ### Refills -/

section Refill

variable {held : Outstanding}

theorem Routed.ifuRvalid_eq (routed : Routed routing) (wish : AxiIn)
    (outstanding : routing.outstanding = some held)
    (client : held.request.client = .icache) :
    routing.core.bus.ifuRvalid (routing.axi wish) =
      (routing.beat wish).isSome := by
  have sameClient := routed.stands.client outstanding
  have busy := routed.stands.busy outstanding
  have ifuRvalid := routed.bus.ifuRvalid
  rw [client] at sameClient
  rw [routed.beat_eq, Bus.ifuRvalid]
  cases state : routing.core.bus.read.stateLoad <;>
    simp only [state, BusLoadState.forLsu, BusLoadState.receives]
      at sameClient busy ⊢ <;>
    grind

theorem acceptedRead_of_icache {core : Core platform}
    (asks : core.icache.state = .missAr)
    (ready : core.bus.ifuArready core.lsu.lsuArvalid = true) :
    core.acceptedRead = some
      { request := ⟨.icache, core.icache.busAraddr, core.icache.busArlen⟩
        flushed := core.jumpReq
        beats := [] } := by
  have noLoad : core.lsu.lsuArvalid = false := by
    simp only [Bus.ifuArready, Bool.and_eq_true, Bool.not_eq_true'] at ready
    exact ready.2
  rw [Core.acceptedRead, if_neg (by simp [noLoad]),
    if_pos (by simp [ICache.busArvalid, asks, ready])]

theorem icache_of_acceptedRead {core : Core platform}
    {accepted : Outstanding} (taken : core.acceptedRead = some accepted)
    (client : accepted.request.client = .icache) :
    core.icache.state = .missAr ∧
      core.bus.ifuArready core.lsu.lsuArvalid = true := by
  by_cases load : (core.lsu.lsuArvalid && core.bus.lsuArready) = true
  · rw [Core.acceptedRead, if_pos load] at taken
    rw [← Option.some.inj taken] at client
    contradiction
  · rw [Core.acceptedRead, if_neg load] at taken
    split_ifs at taken with fetch
    simpa [ICache.busArvalid] using fetch

theorem cleared_step (routed : Routed routing)
    (missAr : (routing.step wish).core.icache.state = .missAr) :
    (routing.step wish).core.icache.refillCnt = 0 := by
  change (routing.core.icache.next (routing.core.icachePort
    (routing.axi wish))).state = _ at missAr
  change (routing.core.icache.next (routing.core.icachePort
    (routing.axi wish))).refillCnt = 0
  rcases (ICache.next_state_missAr missAr).2 with ⟨lookup, miss⟩ | before
  · simp [ICache.next, ICache.refillBeat, lookup, miss]
  · simp [ICache.next, ICache.refillBeat, before, routed.cleared before]

/-- A request of the cache that is not flushed is still held after a cycle
exactly if the cache goes on to wait. -/
theorem Routed.missR_step_iff (routed : Routed routing)
    (outstanding : routing.outstanding = some held)
    (missR : routing.core.icache.state = .missR)
    (client : held.request.client = .icache) :
    (routing.step wish).core.icache.state = .missR ↔
      routing.core.jumpReq = false ∧ routing.finishes wish held = false := by
  have beat := routed.ifuRvalid_eq wish outstanding client
  rw [finishes_of_client.1 client, ← beat]
  change (routing.core.icache.next (routing.core.icachePort
    (routing.axi wish))).state = _ ↔ _
  simp only [ICache.next, ICache.nextState, missR, ICache.busRready,
    Core.icachePort]
  grind

theorem missing_step (routed : Routed routing) :
    (routing.step wish).core.icache.state = .missR ↔
      ∃ held, (routing.step wish).outstanding = some held ∧
        held.request.client = .icache ∧ held.flushed = false := by
  constructor
  · intro missR
    obtain ⟨noFlush, ⟨missAr, ready⟩ | ⟨before, -⟩⟩ :=
      ICache.next_state_missR missR
    · have accepted := acceptedRead_of_icache missAr ready
      exact ⟨_, outstanding_step_of_accepted accepted, rfl, noFlush⟩
    · obtain ⟨held, outstanding, client, notFlushed⟩ :=
        routed.missing.mp before
      obtain ⟨-, goesOn⟩ :=
        (routed.missR_step_iff outstanding before client).mp missR
      refine ⟨routing.advance wish held, ?_, client, ?_⟩
      · rw [outstanding_step_of_busy (routed.stands.busy outstanding)
          outstanding, goesOn]
        rfl
      · simp only [advance, notFlushed, Bool.false_or]
        exact noFlush
  · rintro ⟨held', outstanding', client', notFlushed'⟩
    cases outstanding : routing.outstanding with
    | none =>
        have accepted : routing.core.acceptedRead = some held' := by
          simpa [step, outstanding] using outstanding'
        obtain ⟨missAr, ready⟩ := icache_of_acceptedRead accepted client'
        rw [acceptedRead_of_icache missAr ready] at accepted
        have noFlush : routing.core.jumpReq = false := by
          rw [← Option.some.inj accepted] at notFlushed'
          exact notFlushed'
        change (routing.core.icache.next (routing.core.icachePort
          (routing.axi wish))).state = _
        simp [ICache.next, ICache.nextState, missAr, Core.icachePort, ready,
          noFlush]
    | some held =>
        rw [outstanding_step_of_busy (routed.stands.busy outstanding)
          outstanding] at outstanding'
        split_ifs at outstanding' with ends
        rw [← Option.some.inj outstanding'] at client' notFlushed'
        simp only [advance, Bool.or_eq_false_iff] at client' notFlushed'
        have before := routed.missing.mpr
          ⟨held, outstanding, client', notFlushed'.1⟩
        rw [routed.missR_step_iff outstanding before client']
        exact ⟨notFlushed'.2, by simpa using ends⟩

theorem refilling_step (routed : Routed routing)
    (missR : (routing.step wish).core.icache.state = .missR) :
    ∃ held, (routing.step wish).outstanding = some held ∧
      held.request = ⟨.icache, (routing.step wish).core.icache.busAraddr,
        (routing.step wish).core.icache.busArlen⟩ ∧
      ((routing.step wish).core.icache.isCacheable = true →
        (routing.step wish).core.icache.refillCnt =
          BitVec.ofNat _ held.beats.length) := by
  obtain ⟨-, before⟩ := ICache.next_state_missR missR
  have notLookup : routing.core.icache.state ≠ .lookup := by
    rcases before with ⟨state, -⟩ | ⟨state, -⟩ <;> simp [state]
  obtain ⟨sameCacheable, sameAddr, sameLen⟩ := ICache.next_request
    (routing.core.icachePort (routing.axi wish)) notLookup
  change (routing.step wish).core.icache.isCacheable = _ at sameCacheable
  change (routing.step wish).core.icache.busAraddr = _ at sameAddr
  change (routing.step wish).core.icache.busArlen = _ at sameLen
  have nextCnt : (routing.step wish).core.icache.refillCnt =
      (routing.core.icache.next (routing.core.icachePort
        (routing.axi wish))).refillCnt := rfl
  rw [sameCacheable, sameAddr, sameLen, nextCnt]
  rcases before with ⟨missAr, ready⟩ | ⟨before, notLast⟩
  · have accepted := acceptedRead_of_icache missAr ready
    refine ⟨_, outstanding_step_of_accepted accepted, rfl, ?_⟩
    intro cacheable
    simp [ICache.next, ICache.refillBeat, missAr, routed.cleared missAr]
  · obtain ⟨held, outstanding, request, count⟩ := routed.refilling before
    have client : held.request.client = .icache := by rw [request]
    have rvalid := routed.ifuRvalid_eq wish outstanding client
    have goesOn :=
      ((routed.missR_step_iff outstanding before client).mp missR).2
    refine ⟨routing.advance wish held, ?_, request, ?_⟩
    · rw [outstanding_step_of_busy (routed.stands.busy outstanding)
        outstanding, goesOn]
      rfl
    · intro cacheable
      have port : (routing.core.icachePort (routing.axi wish)).busRvalid =
        (routing.beat wish).isSome := rvalid
      rw [port] at notLast
      simp only [ICache.next, ICache.refillBeat, ICache.busRready, before,
        cacheable, port, advance, count cacheable]
      cases beat : routing.beat wish with
      | none => simp
      | some data =>
          rw [beat] at notLast
          simp [notLast rfl, BitVec.ofNat_add]

end Refill

/-! ### The records -/

theorem log_step (routed : Routed routing) :
    (routing.step wish).accepted =
      (routing.step wish).answered.map Prod.fst ++
        ((routing.step wish).outstanding.map Outstanding.request).toList := by
  have log := routed.log
  cases outstanding : routing.outstanding with
  | none =>
      rw [outstanding] at log
      simp only [step, answer, outstanding, log]
      cases routing.core.acceptedRead <;> simp
  | some held =>
      have none := acceptedRead_of_busy (routed.stands.busy outstanding)
      rw [outstanding] at log
      simp only [step, answer, outstanding, log, none]
      cases ends : routing.finishes wish held <;>
        simp [Option.filter, ends, advance]

theorem length_of_finishes (routed : Routed routing) {held : Outstanding}
    (outstanding : routing.outstanding = some held)
    (ends : routing.finishes wish held = true) :
    (routing.advance wish held).beats.length =
      held.request.len.toNat + 1 := by
  have beat := routed.beat_eq wish
  cases client : held.request.client with
  | icache =>
      rw [finishes_of_client.1 client, beat] at ends
      obtain ⟨delivered, last⟩ := Bool.and_eq_true_iff.mp ends
      have moves : ((routing.axi wish).rvalid &&
          routing.core.bus.read.stateLoad.receives) = true := by
        by_contra rests
        simp [rests] at delivered
      rw [if_pos moves] at beat
      rw [Bool.and_eq_true] at moves
      obtain ⟨burst, served⟩ := routed.stands.serving_of_receives moves.2
      obtain ⟨-, held', outstanding', rfl⟩ := routed.stands.serving served
      obtain rfl : held' = held := Option.some.inj
        (outstanding'.symm.trans outstanding)
      rw [rlast_of_serving served moves.1, Axi.Serving.isLast,
        beq_iff_eq] at last
      have count : held'.beats.length = held'.request.len.toNat := last
      simp [advance, beat, count]
  | lsu =>
      rw [finishes_of_client.2 client, Core.consumesLoad,
        Bool.and_eq_true, routed.bus.lsuRvalid, decide_eq_true_eq] at ends
      obtain ⟨request, beats⟩ := routed.stands.done outstanding ends.2
      rw [ends.2] at beat
      rw [request]
      simp [advance, beats, beat, BusLoadState.receives]

theorem complete_step (routed : Routed routing) :
    ∀ answer ∈ (routing.step wish).answered,
      answer.2.length = answer.1.len.toNat + 1 := by
  intro answer member
  simp only [step, List.mem_append, Option.mem_toList] at member
  rcases member with earlier | new
  · exact routed.complete answer earlier
  · simp only [Routing.answer, Option.map_eq_some_iff,
      Option.filter_eq_some_iff] at new
    obtain ⟨held, ⟨outstanding, ends⟩, rfl⟩ := new
    exact length_of_finishes routed outstanding ends

theorem Routed.step (routed : Routed routing) (wish : AxiIn) :
    Routed (routing.step wish) where
  bus := Bus.encoded_nextRead routed.bus _ _
  lsu := Lsu.loadEncoded_next routed.lsu _
  loading := Core.loading_step routed.bus routed.lsu routed.loading _
  stands := stands_step routed
  asked := asked_step routed
  waited := waited_step routed
  cleared := cleared_step routed
  missing := missing_step routed
  refilling := refilling_step routed
  log := log_step routed
  complete := complete_step routed

end Step

theorem routed_reset (power : Core platform) :
    Routed { core := power.reset } where
  bus := ⟨rfl, rfl, rfl, rfl, fun _ => rfl⟩
  lsu := ⟨rfl, rfl⟩
  loading := rfl
  stands := trivial
  asked := nofun
  waited := nofun
  cleared := nofun
  missing := by simp [Core.reset, ICache.reset]
  refilling := nofun
  log := rfl
  complete := nofun

theorem run_routed (wishes : Nat → AxiIn) (power : Core platform) :
    ∀ cycle, Routed (run wishes power cycle) :=
  Machine.run_invariant (routed_reset power) fun wish _ routed =>
    routed.step wish

/-! ## The routing -/

namespace Routed

variable {routing : Routing platform}

theorem moves_of_beat (routed : Routed routing) {wish : AxiIn}
    (delivered : (routing.beat wish).isSome = true) :
    (routing.axi wish).rvalid = true ∧
      routing.core.bus.read.stateLoad.receives = true := by
  by_contra rests
  rw [routed.beat_eq, if_neg (by simpa using rests)] at delivered
  contradiction

theorem delivered (routed : Routed routing) {wish : AxiIn}
    (beat : (routing.beat wish).isSome = true) : ∃ held,
    routing.outstanding = some held ∧ routing.serving =
      some ⟨held.request.addr, held.request.len, held.beats.length⟩ := by
  obtain ⟨-, receives⟩ := routed.moves_of_beat beat
  obtain ⟨burst, served⟩ := routed.stands.serving_of_receives receives
  obtain ⟨-, held, outstanding, same⟩ := routed.stands.serving served
  exact ⟨held, outstanding, by rw [served, same]⟩

theorem consumed (routed : Routed routing)
    (consumes : routing.core.consumesLoad = true) : ∃ held,
    routing.outstanding = some held ∧ held.request.client = .lsu ∧
      routing.load = some held.request.addr ∧
      held.beats = [routing.core.bus.read.lsuRdataReg] := by
  rw [Core.consumesLoad, Bool.and_eq_true, routed.lsu.rready,
    routed.bus.lsuRvalid, decide_eq_true_eq, decide_eq_true_eq] at consumes
  obtain ⟨held, outstanding, load⟩ := routed.waited consumes.1
  obtain ⟨request, beats⟩ := routed.stands.done outstanding consumes.2
  exact ⟨held, outstanding, by rw [request], load, beats⟩

theorem taken (routed : Routed routing) {wish : AxiIn}
    (takes : routing.core.takesBeat (routing.axi wish) = true) : ∃ held,
    routing.outstanding = some held ∧ held.flushed = false ∧
      held.request = ⟨.icache, routing.core.icache.busAraddr,
        routing.core.icache.busArlen⟩ ∧
      (routing.core.icache.isCacheable = true →
        routing.core.icache.refillCnt.toNat = held.beats.length) ∧
      routing.beat wish =
        some (routing.core.bus.ifuRdata (routing.axi wish)) := by
  rw [Core.takesBeat, Bool.and_eq_true, ICache.busRready, beq_iff_eq] at takes
  obtain ⟨missR, valid⟩ := takes
  obtain ⟨held, outstanding, client, notFlushed⟩ := routed.missing.mp missR
  obtain ⟨held', outstanding', request, count⟩ := routed.refilling missR
  obtain rfl : held' = held :=
    Option.some.inj (outstanding'.symm.trans outstanding)
  rw [routed.ifuRvalid_eq wish outstanding client] at valid
  obtain ⟨rvalid, receives⟩ := routed.moves_of_beat valid
  have waits : routing.core.bus.read.stateLoad = .ifuWaitR := by
    have sameClient := routed.stands.client outstanding
    rw [client] at sameClient
    cases state : routing.core.bus.read.stateLoad <;>
      simp [state, BusLoadState.receives, BusLoadState.forLsu]
        at receives sameClient ⊢
  refine ⟨held', outstanding, notFlushed, request, ?_, ?_⟩
  · intro cacheable
    have inBurst : held'.beats.length ≤
        routing.core.icache.busArlen.toNat := by
      have inBurst := routed.stands.inBurst outstanding receives
      rwa [request] at inBurst
    have twoWords : routing.core.icache.busArlen.toNat = 1 := by
      rw [ICache.busArlen, if_pos cacheable]
      rfl
    rw [count cacheable, BitVec.toNat_ofNat]
    refine Nat.mod_eq_of_lt ?_
    change held'.beats.length < 2
    omega
  · rw [routed.beat_eq, if_pos (by rw [rvalid, receives]; rfl), Bus.ifuRdata,
      if_pos waits]

theorem reaches (routed : Routed routing) {held : Outstanding}
    (outstanding : routing.outstanding = some held)
    (client : held.request.client = .icache)
    (notFlushed : held.flushed = false) (wish : AxiIn) :
    routing.core.takesBeat (routing.axi wish) =
      (routing.beat wish).isSome := by
  have missR := routed.missing.mpr ⟨held, outstanding, client, notFlushed⟩
  rw [Core.takesBeat, routed.ifuRvalid_eq wish outstanding client,
    ICache.busRready, missR]
  rfl

/-- The beats of an abandoned burst are taken by nobody. -/
theorem drained (routed : Routed routing) {held : Outstanding}
    (outstanding : routing.outstanding = some held)
    (client : held.request.client = .icache)
    (flushed : held.flushed = true) (wish : AxiIn) :
    routing.core.takesBeat (routing.axi wish) = false ∧
      routing.core.consumesLoad = false := by
  constructor
  · by_contra takes
    obtain ⟨held', outstanding', notFlushed, -⟩ :=
      routed.taken (by simpa using takes)
    obtain rfl : held' = held :=
      Option.some.inj (outstanding'.symm.trans outstanding)
    rw [flushed] at notFlushed
    contradiction
  · by_contra consumes
    obtain ⟨held', outstanding', isLsu, -⟩ :=
      routed.consumed (by simpa using consumes)
    obtain rfl : held' = held :=
      Option.some.inj (outstanding'.symm.trans outstanding)
    rw [client] at isLsu
    contradiction

theorem accepts (routed : Routed routing)
    (serves : routing.serving.isSome = true) :
    routing.core.bus.read.rreadyReg = true := by
  obtain ⟨burst, served⟩ := Option.isSome_iff_exists.mp serves
  rw [routed.bus.rready, (routed.stands.serving served).1]

end Routed

/-! ## Progress -/

/-- What a request waits for: the acceptance of its address, a beat, or nothing
but the LSU. -/
inductive ReadSignal where
  | arready
  | rvalid
  | none
  deriving DecidableEq, Repr

def ReadSignal.raised (signal : ReadSignal) (wish : AxiIn) : Prop :=
  match signal with
  | .arready => wish.arready = true
  | .rvalid => wish.rvalid = true
  | .none => True

def awaitedSignal (routing : Routing platform) : ReadSignal :=
  if routing.core.bus.read.stateLoad.asks then .arready
  else if routing.core.bus.read.stateLoad.receives then .rvalid
  else .none

/-- An upper bound of the signals a request still waits for. -/
def distance (routing : Routing platform) : Nat :=
  match routing.outstanding with
  | none => 0
  | some held =>
      if routing.core.bus.read.stateLoad.asks then held.request.len.toNat + 3
      else if routing.core.bus.read.stateLoad.receives then
        held.request.len.toNat + 2 - held.beats.length
      else 1

/-- The request waits for its response. -/
def Holds (request : ReadRequest) (routing : Routing platform) : Prop :=
  ∃ held, routing.outstanding = some held ∧ held.request = request

/-- The request is under way after `count` answers. -/
def Pending (request : ReadRequest) (count : Nat)
    (routing : Routing platform) : Prop :=
  Routed routing ∧ routing.Holds request ∧ routing.answered.length = count

theorem answered_step_of_finishes {routing : Routing platform}
    (wish : AxiIn) {held : Outstanding}
    (outstanding : routing.outstanding = some held) :
    (routing.step wish).answered.length =
      routing.answered.length +
        if routing.finishes wish held then 1 else 0 := by
  cases ends : routing.finishes wish held <;>
    simp [step, answer, outstanding, Option.filter, ends]

/-- Nothing is served while a request asks. -/
theorem Stands.serving_of_asks {routing : Routing platform}
    (stands : routing.Stands)
    (asks : routing.core.bus.read.stateLoad.asks = true) :
    routing.serving = none := by
  cases served : routing.serving with
  | none => rfl
  | some burst =>
      have receives := (stands.serving served).1
      cases state : routing.core.bus.read.stateLoad <;>
        simp [state, BusLoadState.asks, BusLoadState.receives]
          at asks receives

theorem arready_of_asks {routing : Routing platform}
    (stands : routing.Stands) (wish : AxiIn)
    (asks : routing.core.bus.read.stateLoad.asks = true) :
    (routing.axi wish).arready = wish.arready := by
  simp [axi, Axi.conforming, stands.serving_of_asks asks]

theorem rvalid_of_receives {routing : Routing platform}
    (stands : routing.Stands) (wish : AxiIn)
    (receives : routing.core.bus.read.stateLoad.receives = true) :
    (routing.axi wish).rvalid = wish.rvalid := by
  obtain ⟨burst, served⟩ := stands.serving_of_receives receives
  simp [axi, Axi.conforming, served]

/-- A request comes nearer to its response with the signal it waits for. -/
theorem distance_step {routing : Routing platform} {wish : AxiIn}
    {held : Outstanding} (routed : Routed routing)
    (outstanding : routing.outstanding = some held)
    (goesOn : routing.finishes wish held = false) :
    (routing.step wish).distance < routing.distance ∨
      (routing.step wish).distance = routing.distance ∧
        (routing.step wish).awaitedSignal = routing.awaitedSignal ∧
        ¬ routing.awaitedSignal.raised wish := by
  have next : (routing.step wish).outstanding =
      some (routing.advance wish held) := by
    rw [outstanding_step_of_busy (routed.stands.busy outstanding)
      outstanding, goesOn]
    rfl
  have read : (routing.step wish).core.bus.read =
      routing.core.bus.nextRead platform routing.core.busPort
        (routing.axi wish) := rfl
  have arvalid := routed.bus.arvalid
  have rready := routed.bus.rready
  have beat := routed.beat_eq wish
  have client := routed.stands.client outstanding
  have inBurst := routed.stands.inBurst outstanding
  have arready := arready_of_asks routed.stands wish
  have rvalid := rvalid_of_receives routed.stands wish
  simp only [distance, awaitedSignal, next, outstanding, read]
  cases state : routing.core.bus.read.stateLoad <;>
    simp only [state, BusLoadState.asks, BusLoadState.receives,
      BusLoadState.forLsu, Bool.and_true, Bool.and_false,
      Bool.false_eq_true, if_true, if_false, forall_true_left]
      at arvalid rready beat client inBurst arready rvalid ⊢
  case busIdle =>
    exact absurd state (routed.stands.busy outstanding)
  case ifuReqAr =>
    cases ready : wish.arready
    · simp [Bus.nextRead, state, arvalid, arready, ready, advance,
        ReadSignal.raised]
    · simp [Bus.nextRead, state, arvalid, arready, ready, advance, beat]
      omega
  case lsuReqAr =>
    cases ready : wish.arready
    · simp [Bus.nextRead, state, arvalid, arready, ready, advance,
        ReadSignal.raised]
    · simp [Bus.nextRead, state, arvalid, arready, ready, advance, beat]
      omega
  case ifuWaitR =>
    rw [finishes_of_client.1 client, beat] at goesOn
    cases valid : wish.rvalid
    · simp [Bus.nextRead, state, rvalid, valid, advance, beat,
        ReadSignal.raised]
    · have notLast : (routing.axi wish).rlast = false := by
        simpa [rvalid, valid] using goesOn
      simp [Bus.nextRead, state, rready, rvalid, valid, notLast, advance,
        beat]
      omega
  case lsuWaitR =>
    cases valid : wish.rvalid
    · simp [Bus.nextRead, state, rvalid, valid, advance, beat,
        ReadSignal.raised]
    · simp [Bus.nextRead, state, rready, rvalid, valid]
      omega
  case lsuDone =>
    rw [finishes_of_client.2 client, Core.consumesLoad, routed.lsu.rready,
      routed.loading, routed.bus.lsuRvalid, state] at goesOn
    contradiction

theorem progress (request : ReadRequest) (count : Nat) (wish : AxiIn)
    (routing : Routing platform) (pending : Pending request count routing) :
    count < (routing.step wish).answered.length ∨
      Pending request count (routing.step wish) ∧
        ((routing.step wish).distance < routing.distance ∨
          (routing.step wish).distance = routing.distance ∧
            (routing.step wish).awaitedSignal = routing.awaitedSignal ∧
            ¬ routing.awaitedSignal.raised wish) := by
  obtain ⟨routed, ⟨held, outstanding, isRequest⟩, answers⟩ := pending
  have count_step := answered_step_of_finishes wish outstanding
  cases ends : routing.finishes wish held with
  | true =>
      left
      simp [count_step, ends, answers]
  | false =>
      right
      have next : (routing.step wish).outstanding =
          some (routing.advance wish held) := by
        rw [outstanding_step_of_busy (routed.stands.busy outstanding)
          outstanding, ends]
        rfl
      refine ⟨⟨routed.step wish, ⟨_, next, isRequest⟩, ?_⟩,
        distance_step routed outstanding ends⟩
      simp [count_step, ends, answers]

section Run

variable {wishes : Nat → AxiIn} {power : Core platform}
variable {request : ReadRequest} {cycle later index : Nat}

end Run

end Routing

end Ysyx.Rtl
