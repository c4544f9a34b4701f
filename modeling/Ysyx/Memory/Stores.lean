import Ysyx.Memory.Wiring

/-!
# Stores on the AXI port

The load-store unit and the bus under every sequence of requests and every
timing of the slave: what is raised stays until its handshake, and every store
is handed over once before its response.
-/

namespace Ysyx.Rtl

/-- The load-store unit in front of the bus. -/
structure LsuBus where
  lsu : Lsu
  bus : Bus
  deriving DecidableEq, Repr

namespace LsuBus

/-- The requests of the pipeline and of the cache, and the slave, in one
cycle. -/
structure In where
  addr : Word := 0
  data : Word := 0
  readMem : BitVec 3 := 0
  writeMem : BitVec 2 := 0
  prevValid : Bool := false
  nextReady : Bool := true
  ifuArvalid : Bool := false
  ifuAraddr : Word := 0
  ifuArlen : BitVec 8 := 0
  axi : AxiIn := {}

variable (input : In) (units : LsuBus)

def awready : Bool :=
  units.bus.lsuAwready units.lsu.lsuArvalid input.ifuArvalid

def lsuPort : Lsu.In where
  addr := input.addr
  data := input.data
  readMem := input.readMem
  writeMem := input.writeMem
  prevValid := input.prevValid
  nextReady := input.nextReady
  lsuArready := units.bus.lsuArready
  lsuRdata := units.bus.read.lsuRdataReg
  lsuRresp := units.bus.read.lsuRrespReg
  lsuRvalid := units.bus.read.lsuRvalidReg
  lsuAwready := units.awready input
  lsuWready := units.awready input
  lsuBvalid := units.bus.write.lsuBvalidReg
  lsuBresp := units.bus.write.lsuBrespReg

def busPort : Bus.In where
  ifuArvalid := input.ifuArvalid
  ifuAraddr := input.ifuAraddr
  ifuArlen := input.ifuArlen
  lsuArvalid := units.lsu.lsuArvalid
  lsuAraddr := units.lsu.lsuAraddr
  lsuRready := units.lsu.lsuRready
  lsuAwvalid := units.lsu.lsuAwvalid
  lsuAwaddr := units.lsu.lsuAwaddr
  lsuWvalid := units.lsu.lsuWvalid
  lsuWdata := units.lsu.lsuWdata
  lsuWstrb := units.lsu.lsuWstrb
  lsuBready := units.lsu.lsuBready

/-- One clock edge outside reset. -/
def next (platform : Platform) (input : In) (units : LsuBus) : LsuBus where
  lsu := units.lsu.next (units.lsuPort input)
  bus := units.bus.next platform (units.busPort input) input.axi

def reset (power : LsuBus) : LsuBus where
  lsu := power.lsu.reset
  bus := power.bus.reset

/-- The LSU hands a store over to the bus. -/
def storeTaken : Bool := units.lsu.lsuAwvalid && units.awready input

/-- The LSU receives the response of its store. -/
def storeAnswered : Bool :=
  units.lsu.lsuBready && units.bus.write.lsuBvalidReg

def awShake : Bool := units.bus.axiOut.awvalid && input.axi.awready

def wShake : Bool := units.bus.axiOut.wvalid && input.axi.wready

def bShake : Bool := units.bus.axiOut.bready && input.axi.bvalid

end LsuBus

/-- What a store carries. -/
structure Payload where
  addr : Word
  data : Word
  strb : BitVec 4
  deriving DecidableEq, Repr

/-- The data and strobe of a payload. -/
def Payload.lanes (payload : Payload) : Word × BitVec 4 :=
  (payload.data, payload.strb)

/-- The units with the stores the LSU has started, the handshakes of the slave
and the number of responses the LSU has received. -/
structure Storing where
  units : LsuBus
  started : List Payload := []
  aws : List Word := []
  ws : List (Word × BitVec 4) := []
  bs : Nat := 0
  answers : Nat := 0
  deriving DecidableEq, Repr

namespace Storing

/-- The store that the LSU starts in this cycle. -/
def starts (input : LsuBus.In) (storing : Storing) : Option Payload :=
  if storing.units.lsu.storeStart (storing.units.lsuPort input) then
    some
      { addr := input.addr
        data := genWdataAligned input.writeMem input.addr input.data
        strb := (genWstrb input.writeMem input.addr).extractLsb' 0 4 }
  else none

/-- One clock cycle. -/
def step (platform : Platform) (input : LsuBus.In) (storing : Storing) :
    Storing where
  units := storing.units.next platform input
  started := storing.started ++ (storing.starts input).toList
  aws := storing.aws ++
    if storing.units.awShake input then [storing.units.bus.axiOut.awaddr]
    else []
  ws := storing.ws ++
    if storing.units.wShake input then
      [(storing.units.bus.axiOut.wdata, storing.units.bus.axiOut.wstrb)]
    else []
  bs := storing.bs + if storing.units.bShake input then 1 else 0
  answers := storing.answers +
    if storing.units.storeAnswered then 1 else 0

/-- The run from reset. -/
def run (platform : Platform) (inputs : Nat → LsuBus.In) (power : LsuBus)
    (cycle : Nat) : Storing :=
  Machine.run (step platform) inputs { units := power.reset } cycle

/-- What is raised stays with its payload until its handshake. -/
structure Keeps (platform : Platform) (input : LsuBus.In)
    (units : LsuBus) : Prop where
  ar : units.bus.axiOut.arvalid = true → input.axi.arready = false →
    (units.next platform input).bus.axiOut.arvalid = true ∧
      (units.next platform input).bus.axiOut.araddr =
        units.bus.axiOut.araddr ∧
      (units.next platform input).bus.axiOut.arlen = units.bus.axiOut.arlen
  aw : units.bus.axiOut.awvalid = true → input.axi.awready = false →
    (units.next platform input).bus.axiOut.awvalid = true ∧
      (units.next platform input).bus.axiOut.awaddr =
        units.bus.axiOut.awaddr
  w : units.bus.axiOut.wvalid = true → input.axi.wready = false →
    (units.next platform input).bus.axiOut.wvalid = true ∧
      (units.next platform input).bus.axiOut.wdata =
        units.bus.axiOut.wdata ∧
      (units.next platform input).bus.axiOut.wstrb =
        units.bus.axiOut.wstrb ∧
      (units.next platform input).bus.axiOut.wlast = units.bus.axiOut.wlast

/-- The handshakes so far are those of the stores in their order, and when
the LSU receives a response they are those of all its stores. -/
structure Disciplined (platform : Platform) (input : LsuBus.In)
    (storing : Storing) : Prop where
  keeps : Keeps platform input storing.units
  aws : storing.aws <+: storing.started.map Payload.addr
  ws : storing.ws <+: storing.started.map Payload.lanes
  bs : storing.bs ≤ storing.started.length
  answered : storing.units.storeAnswered = true →
    storing.aws = storing.started.map Payload.addr ∧
      storing.ws = storing.started.map Payload.lanes ∧
      storing.bs = storing.started.length ∧
      storing.answers + 1 = storing.started.length

/-! ## The invariant -/

/-- The slave has the address of the store. -/
def awGone (write : BusWrite) : Bool :=
  write.slaveAwDone || write.stateStore == .busWriteB ||
    write.stateStore == .busWriteDone

/-- The slave has the data of the store. -/
def wGone (write : BusWrite) : Bool :=
  write.slaveWDone || write.stateStore == .busWriteB ||
    write.stateStore == .busWriteDone

/-- The store that waits for its response. -/
def current (lsu : Lsu) : Option Payload :=
  if lsu.stateStore = .sync ∨ lsu.stateStore = .resp then
    some
      { addr := lsu.lsuAwaddr
        data := lsu.lsuWdata
        strb := lsu.lsuWstrb.extractLsb' 0 4 }
  else none

/-- The records are those of the `settled` stores and of the handshakes of the
current one. -/
structure Settled (settled : List Payload) (storing : Storing) : Prop where
  started : storing.started =
    settled ++ (current storing.units.lsu).toList
  aws : storing.aws = settled.map Payload.addr ++
    if awGone storing.units.bus.write then
      (current storing.units.lsu).toList.map Payload.addr
    else []
  ws : storing.ws = settled.map Payload.lanes ++
    if wGone storing.units.bus.write then
      (current storing.units.lsu).toList.map Payload.lanes
    else []
  bs : storing.bs = settled.length +
    if storing.units.bus.write.stateStore = .busWriteDone then 1 else 0
  answers : storing.answers = settled.length

/-- What the observer knows of a run that starts without a response. -/
structure Recorded (storing : Storing) : Prop where
  bus : storing.units.bus.write.Encoded
  lsu : storing.units.lsu.StoreEncoded
  handed : decide (storing.units.lsu.stateStore = .resp) =
    storing.units.bus.write.busy
  awaddrReg : storing.units.bus.write.busy = true →
    awGone storing.units.bus.write = false →
    storing.units.bus.write.awaddrReg = storing.units.lsu.lsuAwaddr
  wdataReg : storing.units.bus.write.busy = true →
    wGone storing.units.bus.write = false →
    storing.units.bus.write.wdataReg = storing.units.lsu.lsuWdata ∧
      storing.units.bus.write.wstrbReg = storing.units.lsu.lsuWstrb
  settled : ∃ settled, Settled settled storing

section Step

variable {platform : Platform} {storing : Storing} {input : LsuBus.In}

theorem Recorded.rests (recorded : Recorded storing)
    (notResp : storing.units.lsu.stateStore ≠ .resp) :
    storing.units.bus.write.stateStore = .busWriteIdle ∧
      storing.units.bus.write.lsuAwDone = false := by
  have handed := recorded.handed
  rw [decide_eq_false notResp, BusWrite.busy] at handed
  simpa [and_comm] using handed.symm

theorem handed_step (platform : Platform) (input : LsuBus.In)
    (recorded : Recorded storing) :
    decide ((storing.step platform input).units.lsu.stateStore = .resp) =
      (storing.step platform input).units.bus.write.busy := by
  have handed := recorded.handed
  obtain ⟨awvalid, wvalid, bready, -, -⟩ := recorded.lsu
  obtain ⟨lsuDone, accepted, -, -, -, -, -, bvalid⟩ := recorded.bus
  change decide ((storing.units.lsu.next
      (storing.units.lsuPort input)).stateStore = .resp) =
    (storing.units.bus.nextWrite platform (storing.units.busPort input)
      input.axi).busy
  rw [Lsu.next_stateStore_eq recorded.lsu rfl]
  cases busState : storing.units.bus.write.stateStore <;>
    cases lsuState : storing.units.lsu.stateStore <;>
    simp only [busState, lsuState, BusWrite.busy, ne_eq, reduceCtorEq,
      not_true_eq_false, not_false_eq_true, decide_true, decide_false,
      Bool.or_true, Bool.or_false, Bool.false_eq_true]
      at handed accepted awvalid wvalid bready bvalid <;>
    simp only [Bus.nextWrite, BusWrite.busy, busState, LsuBus.busPort,
      LsuBus.lsuPort, LsuBus.awready] <;>
    grind

theorem payload_step (recorded : Recorded storing)
    (busy : (storing.step platform input).units.bus.write.busy = true) :
    (storing.step platform input).units.lsu.lsuAwaddr =
        storing.units.lsu.lsuAwaddr ∧
      (storing.step platform input).units.lsu.lsuWdata =
        storing.units.lsu.lsuWdata ∧
      (storing.step platform input).units.lsu.lsuWstrb =
        storing.units.lsu.lsuWstrb := by
  have resp : (storing.units.lsu.next
      (storing.units.lsuPort input)).stateStore = .resp := by
    have handed := handed_step platform input recorded
    rw [busy] at handed
    exact of_decide_eq_true handed
  rw [Lsu.next_stateStore_eq recorded.lsu rfl] at resp
  refine Lsu.next_payload _ _ ?_
  cases state : storing.units.lsu.stateStore <;> simp only [state] at resp ⊢
  · split_ifs at resp
  · simp
  · simp
  · split_ifs at resp

theorem regs_step (recorded : Recorded storing)
    (busy : (storing.step platform input).units.bus.write.busy = true) :
    (awGone (storing.step platform input).units.bus.write = false →
      (storing.step platform input).units.bus.write.awaddrReg =
        storing.units.lsu.lsuAwaddr) ∧
    (wGone (storing.step platform input).units.bus.write = false →
      (storing.step platform input).units.bus.write.wdataReg =
          storing.units.lsu.lsuWdata ∧
        (storing.step platform input).units.bus.write.wstrbReg =
          storing.units.lsu.lsuWstrb) := by
  obtain ⟨awvalid, wvalid, -, -, -⟩ := recorded.lsu
  obtain ⟨lsuDone, accepted, busAwvalid, busWvalid, slaveAw, slaveW, -, -⟩ :=
    recorded.bus
  have awaddrReg := recorded.awaddrReg
  have wdataReg := recorded.wdataReg
  have nextWrite : (storing.step platform input).units.bus.write =
      storing.units.bus.nextWrite platform (storing.units.busPort input)
        input.axi := rfl
  rw [nextWrite] at busy ⊢
  cases busState : storing.units.bus.write.stateStore <;>
    simp only [busState, BusWrite.busy, awGone, wGone,
      ne_eq, reduceCtorEq, not_true_eq_false, not_false_eq_true,
      decide_true, decide_false, Bool.or_true, Bool.or_false]
      at accepted busAwvalid busWvalid slaveAw slaveW awaddrReg wdataReg <;>
    simp only [Bus.nextWrite, BusWrite.busy, awGone, wGone, busState,
      LsuBus.busPort] at busy ⊢ <;>
    grind

theorem noShake (input : LsuBus.In) (recorded : Recorded storing)
    (notResp : storing.units.lsu.stateStore ≠ .resp) :
    storing.units.awShake input = false ∧
      storing.units.wShake input = false ∧
      storing.units.bShake input = false ∧
      storing.units.storeAnswered = false ∧
      awGone storing.units.bus.write = false ∧
      wGone storing.units.bus.write = false := by
  obtain ⟨rests, -⟩ := recorded.rests notResp
  obtain ⟨-, -, awvalid, wvalid, slaveAw, slaveW, bready, -⟩ := recorded.bus
  have lsuBready := recorded.lsu.bready
  rw [rests] at awvalid wvalid slaveAw slaveW bready
  simp only [LsuBus.awShake, LsuBus.wShake, LsuBus.bShake,
    LsuBus.storeAnswered, Bus.axiOut, awGone, wGone, rests, awvalid, wvalid,
    bready, lsuBready, notResp]
  grind

/-- The bus takes a store over, and hands nothing to the slave yet. -/
theorem rests_step (platform : Platform) (input : LsuBus.In)
    (recorded : Recorded storing)
    (notResp : storing.units.lsu.stateStore ≠ .resp) :
    (storing.step platform input).units.bus.write.stateStore =
        .busWriteIdle ∧
      awGone (storing.step platform input).units.bus.write = false ∧
      wGone (storing.step platform input).units.bus.write = false := by
  obtain ⟨rests, free⟩ := recorded.rests notResp
  obtain ⟨lsuDone, -, -, -, slaveAw, slaveW, -, -⟩ := recorded.bus
  have nextWrite : (storing.step platform input).units.bus.write =
      storing.units.bus.nextWrite platform (storing.units.busPort input)
        input.axi := rfl
  rw [nextWrite]
  simp only [Bus.nextWrite, awGone, wGone, rests]
  rw [rests] at slaveAw slaveW
  grind

theorem settled_step_of_notResp (recorded : Recorded storing)
    {settled : List Payload} (before : Settled settled storing)
    (notResp : storing.units.lsu.stateStore ≠ .resp)
    (current_step : current (storing.step platform input).units.lsu =
      (storing.starts input).or (current storing.units.lsu))
    (alone : storing.starts input = none ∨ current storing.units.lsu = none) :
    Settled settled (storing.step platform input) := by
  obtain ⟨aw, w, b, answered, awHere, wHere⟩ :=
    noShake input recorded notResp
  obtain ⟨restsHere, -⟩ := recorded.rests notResp
  obtain ⟨rests, awNext, wNext⟩ :=
    rests_step platform input recorded notResp
  obtain ⟨started, aws, ws, bs, answers⟩ := before
  constructor
  · rw [current_step]
    simp only [step, started]
    rcases alone with none | none <;> simp [none]
  · rw [awNext]
    simp [step, aw, aws, awHere]
  · rw [wNext]
    simp [step, w, ws, wHere]
  · rw [rests]
    simp [step, b, bs, restsHere]
  · simp [step, answered, answers]

theorem starts_of_busy (busy : storing.units.lsu.stateStore ≠ .idle) :
    storing.starts input = none := by
  simp [starts, Lsu.storeStart, busy]

theorem current_step_of_notResp (recorded : Recorded storing)
    (notResp : storing.units.lsu.stateStore ≠ .resp) :
    current (storing.step platform input).units.lsu =
        (storing.starts input).or (current storing.units.lsu) ∧
      (storing.starts input = none ∨ current storing.units.lsu = none) := by
  have next : (storing.step platform input).units.lsu =
      storing.units.lsu.next (storing.units.lsuPort input) := rfl
  have nextState : (storing.units.lsu.next
      (storing.units.lsuPort input)).stateStore = _ :=
    Lsu.next_stateStore_eq recorded.lsu rfl
  cases state : storing.units.lsu.stateStore with
  | idle =>
      have rests : current storing.units.lsu = none := by
        simp [current, state]
      refine ⟨?_, Or.inr rests⟩
      rw [next, current, nextState, rests, Option.or_none]
      have same := storing.units.lsu.nextLoad_stateStore
        (storing.units.lsuPort input)
      have sameStart := storing.units.lsu.storeStart_nextLoad
        (storing.units.lsuPort input)
      cases asked : storing.units.lsu.storeStart (storing.units.lsuPort input)
      · simp [state, asked, starts]
      · simp only [state, asked, starts, Lsu.next, Lsu.nextStore, same,
          sameStart, if_true]
        rfl
  | sync =>
      have noStart : storing.starts input = none :=
        starts_of_busy (by simp [state])
      refine ⟨?_, Or.inl noStart⟩
      obtain ⟨addr, data, strb⟩ :=
        storing.units.lsu.next_payload (storing.units.lsuPort input)
          (Or.inl state)
      rw [next, current, nextState, noStart, Option.none_or, current, state,
        addr, data, strb]
      cases (storing.units.lsuPort input).lsuAwready <;> rfl
  | resp =>
      exact absurd state notResp
  | done =>
      have noStart : storing.starts input = none :=
        starts_of_busy (by simp [state])
      refine ⟨?_, Or.inl noStart⟩
      rw [next, current, nextState, noStart, Option.none_or, current, state]
      cases (storing.units.lsuPort input).nextReady <;> rfl

/-- The write machine with a store on its way to the slave. -/
theorem settled_step_of_resp (recorded : Recorded storing)
    {settled : List Payload} (before : Settled settled storing)
    (resp : storing.units.lsu.stateStore = .resp) :
    ∃ settled', Settled settled' (storing.step platform input) := by
  have noStart : storing.starts input = none :=
    starts_of_busy (by simp [resp])
  have busy : storing.units.bus.write.busy = true := by
    rw [← recorded.handed, resp]
    rfl
  obtain ⟨started, aws, ws, bs, answers⟩ := before
  obtain ⟨addr, data, strb⟩ :=
    storing.units.lsu.next_payload (storing.units.lsuPort input) (Or.inr resp)
  have nextState : (storing.units.lsu.next
      (storing.units.lsuPort input)).stateStore =
      if storing.units.bus.write.lsuBvalidReg then .done else .resp := by
    rw [Lsu.next_stateStore_eq recorded.lsu rfl, resp]
    rfl
  have current_next : current (storing.step platform input).units.lsu =
      if storing.units.bus.write.lsuBvalidReg then none
      else current storing.units.lsu := by
    change current (storing.units.lsu.next (storing.units.lsuPort input)) = _
    cases valid : storing.units.bus.write.lsuBvalidReg <;>
      simp [current, nextState, valid, resp, addr, data, strb]
  obtain ⟨payload, held⟩ : ∃ payload,
      current storing.units.lsu = some payload := by
    simp [current, resp]
  have awaddr : storing.units.lsu.lsuAwaddr = payload.addr := by
    simp only [current, resp, or_true, if_true, Option.some.injEq] at held
    rw [← held]
  have lanes : (storing.units.lsu.lsuWdata,
      storing.units.lsu.lsuWstrb.extractLsb' 0 4) = payload.lanes := by
    simp only [current, resp, or_true, if_true, Option.some.injEq] at held
    rw [← held]
    rfl
  obtain ⟨-, accepted, awvalid, wvalid, slaveAw, slaveW, bready, bvalid⟩ :=
    recorded.bus
  have awaddrReg := recorded.awaddrReg busy
  have wdataReg := recorded.wdataReg busy
  have lsuBready := recorded.lsu.bready
  have nextWrite : (storing.step platform input).units.bus.write =
      storing.units.bus.nextWrite platform (storing.units.busPort input)
        input.axi := rfl
  cases state : storing.units.bus.write.stateStore with
  | busWriteDone =>
      refine ⟨settled ++ [payload], ?_⟩
      simp only [state, reduceCtorEq, decide_true, decide_false, resp]
        at awvalid wvalid bready bvalid lsuBready
      rw [held] at started aws ws
      constructor
      · rw [current_next, bvalid]
        simp [step, noStart, started]
      · rw [current_next, bvalid]
        simp [step, LsuBus.awShake, Bus.axiOut, awvalid, aws, awGone, state]
      · rw [current_next, bvalid]
        simp [step, LsuBus.wShake, Bus.axiOut, wvalid, ws, wGone, state]
      · rw [nextWrite]
        simp [step, LsuBus.bShake, Bus.axiOut, bready, bs, state,
          Bus.nextWrite, LsuBus.busPort, bvalid, lsuBready]
      · simp [step, LsuBus.storeAnswered, bvalid, lsuBready, answers]
  | _ =>
      refine ⟨settled, ?_⟩
      simp only [state, reduceCtorEq, decide_true, decide_false, resp,
        Bool.true_and, Bool.false_and]
        at awvalid wvalid bready bvalid lsuBready slaveAw slaveW bs
      simp only [awGone, wGone, state] at awaddrReg wdataReg
      rw [held] at started aws ws
      constructor
      · rw [current_next, bvalid]
        simp [step, noStart, started, held]
      · rw [current_next, bvalid, nextWrite]
        simp only [step, LsuBus.awShake, Bus.axiOut, awvalid, aws, held,
          Bus.nextWrite, state, awGone]
        grind
      · rw [current_next, bvalid, nextWrite]
        simp only [step, LsuBus.wShake, Bus.axiOut, wvalid, ws, held,
          Bus.nextWrite, state, wGone]
        grind
      · rw [nextWrite]
        simp only [step, LsuBus.bShake, Bus.axiOut, bready, bs, state,
          Bus.nextWrite]
        grind
      · simp [step, LsuBus.storeAnswered, bvalid, answers]

theorem Recorded.step (recorded : Recorded storing) (platform : Platform)
    (input : LsuBus.In) : Recorded (storing.step platform input) where
  bus := Bus.encoded_nextWrite platform recorded.bus _
    (recorded.lsu.wvalid.trans recorded.lsu.awvalid.symm)
  lsu := Lsu.storeEncoded_next recorded.lsu rfl
  handed := handed_step platform input recorded
  awaddrReg := by
    intro busy notGone
    rw [(payload_step recorded busy).1]
    exact (regs_step recorded busy).1 notGone
  wdataReg := by
    intro busy notGone
    obtain ⟨-, data, strb⟩ := payload_step recorded busy
    rw [data, strb]
    exact (regs_step recorded busy).2 notGone
  settled := by
    obtain ⟨settled, before⟩ := recorded.settled
    by_cases resp : storing.units.lsu.stateStore = .resp
    · exact settled_step_of_resp recorded before resp
    · obtain ⟨next, alone⟩ := current_step_of_notResp recorded resp
      exact ⟨settled,
        settled_step_of_notResp recorded before resp next alone⟩

end Step

theorem recorded_reset {power : LsuBus}
    (quiet : power.bus.write.lsuBvalidReg = false) :
    Recorded { units := power.reset } where
  bus := ⟨rfl, nofun, rfl, rfl, nofun, nofun, rfl, quiet⟩
  lsu := ⟨rfl, rfl, rfl, rfl, rfl⟩
  handed := rfl
  awaddrReg := nofun
  wdataReg := nofun
  settled := ⟨[], rfl, rfl, rfl, rfl, rfl⟩

/-! ## The discipline -/

theorem run_read_encoded (platform : Platform) (inputs : Nat → LsuBus.In)
    (power : LsuBus) : ∀ cycle,
    (run platform inputs power cycle).units.bus.read.Encoded := by
  intro cycle
  induction cycle with
  | zero =>
      exact ⟨rfl, rfl, rfl, rfl, fun _ => rfl⟩
  | succ cycle inductionHypothesis =>
      exact Bus.encoded_nextRead inductionHypothesis _ _

theorem keeps_of_encoded {platform : Platform} {input : LsuBus.In}
    {units : LsuBus} (read : units.bus.read.Encoded)
    (aw : units.bus.write.awvalidReg = true →
      units.bus.write.stateStore = .busSync ∧
        units.bus.write.slaveAwDone = false)
    (w : units.bus.write.wvalidReg = true →
      units.bus.write.stateStore = .busSync ∧
        units.bus.write.slaveWDone = false) :
    Keeps platform input units := by
  have nextRead : (units.next platform input).bus.read =
      units.bus.nextRead platform (units.busPort input) input.axi := rfl
  have nextWrite : (units.next platform input).bus.write =
      units.bus.nextWrite platform (units.busPort input) input.axi := rfl
  constructor
  · intro raised notReady
    simp only [Bus.axiOut, nextRead] at raised ⊢
    have arvalid := read.arvalid
    cases state : units.bus.read.stateLoad <;>
      simp [state, raised, BusLoadState.asks] at arvalid <;>
      simp [Bus.nextRead, state, raised, notReady]
  · intro raised notReady
    obtain ⟨state, notDone⟩ := aw raised
    simp only [Bus.axiOut] at raised
    simp [Bus.axiOut, nextWrite, Bus.nextWrite, state, notDone, notReady,
      raised]
  · intro raised notReady
    obtain ⟨state, notDone⟩ := w raised
    simp only [Bus.axiOut] at raised
    simp [Bus.axiOut, nextWrite, Bus.nextWrite, state, notDone, notReady,
      raised]

theorem Recorded.disciplined {storing : Storing} (recorded : Recorded storing)
    (read : storing.units.bus.read.Encoded) (platform : Platform)
    (input : LsuBus.In) : Disciplined platform input storing := by
  obtain ⟨settled, started, aws, ws, bs, answers⟩ := recorded.settled
  have awvalid := recorded.bus.awvalid
  have wvalid := recorded.bus.wvalid
  have waits : storing.units.bus.write.stateStore = .busWriteDone →
      storing.units.lsu.stateStore = .resp := by
    intro done
    have handed := recorded.handed
    simpa [BusWrite.busy, done] using handed
  refine ⟨keeps_of_encoded read ?_ ?_, ?_, ?_, ?_, ?_⟩
  · intro raised
    simpa [raised] using awvalid
  · intro raised
    simpa [raised] using wvalid
  · rw [aws, started, List.map_append, List.prefix_append_right_inj]
    split_ifs
    · exact List.prefix_rfl
    · exact List.nil_prefix
  · rw [ws, started, List.map_append, List.prefix_append_right_inj]
    split_ifs
    · exact List.prefix_rfl
    · exact List.nil_prefix
  · rw [bs, started, List.length_append]
    split_ifs with done
    · simp [current, waits done]
    · exact Nat.le_add_right _ _
  · intro answered
    rw [LsuBus.storeAnswered, Bool.and_eq_true, recorded.lsu.bready,
      recorded.bus.bvalid, decide_eq_true_eq, decide_eq_true_eq] at answered
    obtain ⟨resp, done⟩ := answered
    simp [aws, ws, bs, answers, started, awGone, wGone, done, current, resp]

/-! ## Before the first store -/

/-- No store has been handed over to the bus. -/
structure Untouched (storing : Storing) : Prop where
  lsu : storing.units.lsu.StoreEncoded
  idle : storing.units.bus.write.stateStore = .busWriteIdle
  awvalid : storing.units.bus.write.awvalidReg = false
  wvalid : storing.units.bus.write.wvalidReg = false
  bready : storing.units.bus.write.breadyReg = false
  free : storing.units.bus.write.lsuAwDone = false
  waits : storing.units.lsu.stateStore = .idle ∨
    storing.units.lsu.stateStore = .sync ∧ storing.started ≠ []
  aws : storing.aws = []
  ws : storing.ws = []
  bs : storing.bs = 0

namespace Untouched

variable {platform : Platform} {storing : Storing} {input : LsuBus.In}

theorem reset (power : LsuBus) : Untouched { units := power.reset } where
  lsu := ⟨rfl, rfl, rfl, rfl, rfl⟩
  idle := rfl
  awvalid := rfl
  wvalid := rfl
  bready := rfl
  free := rfl
  waits := Or.inl rfl
  aws := rfl
  ws := rfl
  bs := rfl

theorem noAnswer (untouched : Untouched storing) :
    storing.units.storeAnswered = false := by
  have bready := untouched.lsu.bready
  rcases untouched.waits with state | ⟨state, -⟩ <;>
    simp [LsuBus.storeAnswered, bready, state]

theorem disciplined (untouched : Untouched storing)
    (read : storing.units.bus.read.Encoded) (platform : Platform)
    (input : LsuBus.In) : Disciplined platform input storing where
  keeps := by
    refine keeps_of_encoded read ?_ ?_
    · simp [untouched.awvalid]
    · simp [untouched.wvalid]
  aws := by
    rw [untouched.aws]
    exact List.nil_prefix
  ws := by
    rw [untouched.ws]
    exact List.nil_prefix
  bs := by
    rw [untouched.bs]
    exact Nat.zero_le _
  answered := by
    simp [untouched.noAnswer]

theorem records_step (untouched : Untouched storing) (platform : Platform)
    (input : LsuBus.In) :
    (storing.step platform input).aws = [] ∧
      (storing.step platform input).ws = [] ∧
      (storing.step platform input).bs = 0 := by
  simp [Storing.step, LsuBus.awShake, LsuBus.wShake, LsuBus.bShake,
    Bus.axiOut, untouched.awvalid, untouched.wvalid, untouched.bready,
    untouched.aws, untouched.ws, untouched.bs]

theorem write_step (untouched : Untouched storing) (platform : Platform)
    (input : LsuBus.In) :
    let write := storing.units.bus.write
    let after := (storing.step platform input).units.bus.write
    after.stateStore = .busWriteIdle ∧ after.awvalidReg = false ∧
      after.wvalidReg = false ∧ after.breadyReg = false ∧
      after.lsuBvalidReg = write.lsuBvalidReg ∧
      after.lsuAwDone = storing.units.storeTaken input := by
  obtain ⟨-, idle, awvalid, wvalid, bready, free, -, -, -, -⟩ := untouched
  have nextWrite : (storing.step platform input).units.bus.write =
      storing.units.bus.nextWrite platform (storing.units.busPort input)
        input.axi := rfl
  simp only [nextWrite, Bus.nextWrite, idle, free, LsuBus.storeTaken,
    LsuBus.busPort, LsuBus.awready]
  grind

theorem waits_step (untouched : Untouched storing)
    (notTaken : storing.units.storeTaken input = false) :
    (storing.step platform input).units.lsu.stateStore = .idle ∨
      (storing.step platform input).units.lsu.stateStore = .sync ∧
        (storing.step platform input).started ≠ [] := by
  have nextState : (storing.step platform input).units.lsu.stateStore = _ :=
    Lsu.next_stateStore_eq untouched.lsu rfl
  have awvalid := untouched.lsu.awvalid
  rcases untouched.waits with state | ⟨state, started⟩
  · rw [nextState, state]
    cases asked : storing.units.lsu.storeStart (storing.units.lsuPort input)
    · simp
    · simp [Storing.step, starts, asked]
  · rw [state] at awvalid
    have notReady : (storing.units.lsuPort input).lsuAwready = false := by
      rw [LsuBus.storeTaken, awvalid] at notTaken
      exact notTaken
    rw [nextState, state]
    simp [Storing.step, notReady, started]

theorem step (untouched : Untouched storing)
    (notTaken : storing.units.storeTaken input = false) :
    Untouched (storing.step platform input) := by
  obtain ⟨idle, awvalid, wvalid, bready, -, free⟩ := untouched.write_step platform input
  obtain ⟨aws, ws, bs⟩ := untouched.records_step platform input
  exact
    { lsu := Lsu.storeEncoded_next untouched.lsu rfl
      idle
      awvalid
      wvalid
      bready
      free := free.trans notTaken
      waits := untouched.waits_step notTaken
      aws
      ws
      bs }

/-- A response that is there from the start is taken for the one of the first
store. -/
theorem answered_of_taken (untouched : Untouched storing)
    (platform : Platform)
    (response : storing.units.bus.write.lsuBvalidReg = true)
    (taken : storing.units.storeTaken input = true) :
    (storing.step platform input).units.storeAnswered = true ∧
      (storing.step platform input).aws = [] ∧
      (storing.step platform input).started ≠ [] := by
  obtain ⟨-, -, -, -, stays, -⟩ := untouched.write_step platform input
  obtain ⟨aws, -, -⟩ := untouched.records_step platform input
  obtain ⟨asked, ready⟩ := Bool.and_eq_true_iff.mp taken
  have sync : storing.units.lsu.stateStore = .sync := by
    rw [untouched.lsu.awvalid] at asked
    exact of_decide_eq_true asked
  have started : storing.started ≠ [] := by
    rcases untouched.waits with state | ⟨-, started⟩
    · rw [sync] at state
      contradiction
    · exact started
  have resp : (storing.step platform input).units.lsu.stateStore = .resp := by
    have nextState : (storing.step platform input).units.lsu.stateStore = _ :=
      Lsu.next_stateStore_eq untouched.lsu rfl
    rw [nextState, sync]
    exact if_pos ready
  have encoded : (storing.step platform input).units.lsu.StoreEncoded :=
    Lsu.storeEncoded_next untouched.lsu rfl
  refine ⟨?_, aws, ?_⟩
  · rw [LsuBus.storeAnswered, encoded.bready, resp, stays, response]
    rfl
  · simp [Storing.step, started]

end Untouched

/-! ## Runs -/

section Run

variable (platform : Platform) (inputs : Nat → LsuBus.In) (power : LsuBus)

/-- Until a store is handed over nothing has happened. -/
theorem run_untouched (cycle : Nat)
    (notTaken : ∀ earlier, earlier < cycle →
      (run platform inputs power earlier).units.storeTaken
        (inputs earlier) = false) :
    Untouched (run platform inputs power cycle) ∧
      (run platform inputs power cycle).units.bus.write.lsuBvalidReg =
        power.bus.write.lsuBvalidReg := by
  induction cycle with
  | zero =>
      exact ⟨Untouched.reset power, rfl⟩
  | succ cycle inductionHypothesis =>
      obtain ⟨untouched, same⟩ := inductionHypothesis fun earlier before =>
        notTaken earlier (Nat.lt_succ_of_lt before)
      obtain ⟨-, -, -, -, stays, -⟩ :=
        untouched.write_step platform (inputs cycle)
      exact ⟨untouched.step (notTaken cycle (Nat.lt_succ_self cycle)),
        stays.trans same⟩

/-- The master keeps the AXI discipline and hands every store over once, in
all cycles of a run from reset, exactly if `lsu_bvalid_reg` is low at power-up
or no store is handed over at all. -/
theorem run_disciplined_iff :
    (∀ cycle, Disciplined platform (inputs cycle)
      (run platform inputs power cycle)) ↔
      power.bus.write.lsuBvalidReg = false ∨
        ∀ cycle, (run platform inputs power cycle).units.storeTaken
          (inputs cycle) = false := by
  have read := run_read_encoded platform inputs power
  constructor
  · intro disciplined
    by_contra neither
    obtain ⟨response, taken⟩ := not_or.mp neither
    rw [Bool.not_eq_false] at response
    simp only [not_forall, Bool.not_eq_false] at taken
    -- the first store that is handed over
    obtain ⟨untouched, same⟩ := run_untouched platform inputs power
      (Nat.find taken) fun earlier before => by
        simpa using Nat.find_min taken before
    rw [response] at same
    obtain ⟨answered, aws, started⟩ :=
      untouched.answered_of_taken platform same (Nat.find_spec taken)
    have complete := (disciplined (Nat.find taken + 1)).answered answered
    have empty : [] = List.map Payload.addr
        (run platform inputs power (Nat.find taken + 1)).started :=
      aws.symm.trans complete.1
    exact started (List.map_eq_nil_iff.mp empty.symm)
  · rintro (quiet | notTaken) cycle
    · have recorded : Recorded (run platform inputs power cycle) :=
        Machine.run_invariant (recorded_reset quiet)
          (fun input _ recorded => recorded.step platform input) cycle
      exact recorded.disciplined (read cycle) platform (inputs cycle)
    · obtain ⟨untouched, -⟩ := run_untouched platform inputs power cycle
        fun earlier _ => notTaken earlier
      exact untouched.disciplined (read cycle) platform (inputs cycle)

end Run

/-! ## A response before the first store -/

/-- The units at power-up, with `lsu_bvalid_reg` high. -/
def early : LsuBus where
  lsu := Lsu.zeroed
  bus := { Bus.zeroed with
    write := { Bus.zeroed.write with lsuBvalidReg := true } }

/-- A word store to the start of the memory, in front of a slave that is never
ready. -/
def oneStore : Nat → LsuBus.In
  | 0 => { addr := 0x80000000, data := 7, writeMem := 0b01, prevValid := true }
  | _ => {}

/-- The LSU has its response before the bus has raised AWVALID. -/
theorem oneStore_notDisciplined :
    ¬ ∀ (platform : Platform) (inputs : Nat → LsuBus.In) (power : LsuBus)
      (cycle : Nat),
      Disciplined platform (inputs cycle)
        (run platform inputs power cycle) := by
  intro claimed
  have answered := (claimed .npc oneStore early 2).answered (by decide +kernel)
  have none : (run .npc oneStore early 2).aws = [] := by decide +kernel
  have one : (run .npc oneStore early 2).started.map Payload.addr =
      [0x80000000] := by decide +kernel
  rw [none, one] at answered
  exact absurd answered.1 (by simp)

end Storing

/-! ## The units of the core -/

namespace Core

variable {platform : Platform}

/-- The load-store unit and the bus of a core. -/
def lsuBus (core : Core platform) : LsuBus where
  lsu := core.lsu
  bus := core.bus

/-- The requests of the other units of the core. -/
def lsuBusIn (core : Core platform) (axi : AxiIn) : LsuBus.In where
  addr := core.exMem.dataOut.aluResult
  data := core.exMem.dataOut.memWdata
  readMem := core.exMem.dataOut.ctrlMem.readMem
  writeMem := core.exMem.dataOut.ctrlMem.writeMem
  prevValid := core.exMem.validOut
  nextReady := core.memWbReadyOut
  ifuArvalid := core.icache.busArvalid
  ifuAraddr := core.icache.busAraddr
  ifuArlen := core.icache.busArlen
  axi

theorem step_lsuBus (core : Core platform) (axi : AxiIn) :
    (core.step axi).lsuBus =
      core.lsuBus.next platform (core.lsuBusIn axi) := rfl

/-- In the core the two units run on the requests of the core. -/
theorem run_lsuBus (inputs : Nat → AxiIn) (power : Core platform)
    (cycle : Nat) :
    (power.reset.run inputs cycle).lsuBus =
      (Storing.run platform (fun earlier =>
        (power.reset.run inputs earlier).lsuBusIn (inputs earlier))
        power.lsuBus cycle).units := by
  induction cycle with
  | zero =>
      rfl
  | succ cycle inductionHypothesis =>
      refine (step_lsuBus _ (inputs cycle)).trans ?_
      rw [← Core.run, inductionHypothesis]
      rfl

end Core

end Ysyx.Rtl
