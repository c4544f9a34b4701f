import Ysyx.Rtl.Slaves

/-!
# Writes of the SRAM and of the UART

Both slaves keep the contract of a slave that performs each write once.
-/

namespace Ysyx.Rtl

namespace Sram

variable {delay : Nat}

/-! ## The delay counter -/

theorem delayDone_iff (counter : Counter delay) :
    delayDone delay counter = true ↔ delay ≤ counter.toNat + 1 := by
  simp only [delayDone, Bool.or_eq_true, beq_iff_eq, decide_eq_true_eq]
  omega

/-- The counter does not wrap around before the delay is over. -/
theorem toNat_counter_succ {counter : Counter delay}
    (notDone : delayDone delay counter = false) :
    (counter + 1).toNat = counter.toNat + 1 := by
  have early : ¬ delay ≤ counter.toNat + 1 := by
    rw [← delayDone_iff, notDone]
    exact Bool.false_ne_true
  have fits : delay + 1 ≤ 2 ^ Nat.clog 2 (delay + 1) :=
    Nat.le_pow_clog (by decide) _
  have one : (1 : Counter delay).toNat = 1 % 2 ^ Nat.clog 2 (delay + 1) :=
    BitVec.toNat_ofNat ..
  rw [BitVec.toNat_add, one, Nat.add_mod_mod, Nat.mod_eq_of_lt (by omega)]

/-! ## The write block -/

namespace Write

/-- The write block as a write slave; its effects are the calls of
`npc_write`. -/
def slave (delay : Nat) :
    Axi.WriteSlave (Write delay) Word (Word × BitVec 4)
      (Word × Word × BitVec 4) where
  step := next
  awready := awready
  wready := wready
  bvalid := bvalid
  performs := fun _ sram => sram.npcWrite

/-- The call of `npc_write` that a write asks for. -/
def call (addr : Word) (data : Word × BitVec 4) : Word × Word × BitVec 4 :=
  (addr, data.1, data.2)

def holdsAddr (sram : Write delay) : Bool :=
  sram.awReceived || sram.stateWrite == .w

def holdsData (sram : Write delay) : Bool :=
  sram.wReceived || sram.stateWrite == .w

/-- Clock edges until the response, when the valid signals are up. -/
def rank (sram : Write delay) : Nat :=
  match sram.stateWrite with
  | .aw => delay + 1 + (!sram.awReceived).toNat + (!sram.wReceived).toNat
  | .w => delay - sram.writeDelayCounter.toNat
  | .b => 0

/-- The flags are clear outside `AW`, and the counter is within the delay. -/
structure Good (sram : Write delay) : Prop where
  flags : sram.stateWrite ≠ .aw →
    sram.awReceived = false ∧ sram.wReceived = false
  counter : sram.stateWrite = .w →
    sram.writeDelayCounter.toNat + 1 ≤ max delay 1

/-- The registers hold what is accepted of a write. -/
structure Stores (sram : Write delay) (addr : Word)
    (data : Word × BitVec 4) : Prop where
  addr : sram.holdsAddr = true → sram.writeAddrReg = addr
  data : sram.holdsData = true →
    (sram.writeDataReg, sram.writeStrbReg) = data

variable {sram : Write delay} {port : WriteIn}

/-- The block in `AW` while an address or data is missing. -/
theorem next_of_aw (state : sram.stateWrite = .aw)
    (waiting : (sram.awReceived && sram.wReceived) = false) :
    sram.next port =
      { stateWrite := .aw
        awReceived := sram.awReceived || port.awvalid
        wReceived := sram.wReceived || port.wvalid
        writeAddrReg :=
          if port.awvalid && !sram.awReceived then port.awaddr
          else sram.writeAddrReg
        writeDataReg :=
          if port.wvalid && !sram.wReceived then port.wdata.1
          else sram.writeDataReg
        writeStrbReg :=
          if port.wvalid && !sram.wReceived then port.wdata.2
          else sram.writeStrbReg
        writeDelayCounter := sram.writeDelayCounter } := by
  simp only [next, state, waiting, awready, wready, beq_self_eq_true,
    Bool.true_and, Bool.and_assoc, Bool.and_self, Bool.false_eq_true,
    if_false, Write.mk.injEq, true_and, and_true]
  cases sram.awReceived <;> cases sram.wReceived <;> simp

theorem next_of_both (state : sram.stateWrite = .aw)
    (both : sram.awReceived = true ∧ sram.wReceived = true) :
    sram.next port =
      { sram with
        stateWrite := .w
        awReceived := false
        wReceived := false
        writeDelayCounter := 0 } := by
  simp [next, state, both.1, both.2, awready, wready]

theorem next_of_w (state : sram.stateWrite = .w) :
    sram.next port =
      if delayDone delay sram.writeDelayCounter then
        { sram with
          stateWrite := .b
          writeDelayCounter := 0 }
      else
        { sram with writeDelayCounter := sram.writeDelayCounter + 1 } := by
  simp only [next, state]

theorem next_of_b (state : sram.stateWrite = .b) :
    sram.next port =
      if port.bready then
        { sram with
          awReceived := false
          wReceived := false
          stateWrite := .aw }
      else
        sram := by
  simp [next, state, bvalid]

theorem npcWrite_of_w (state : sram.stateWrite = .w) :
    sram.npcWrite =
      if delayDone delay sram.writeDelayCounter then
        some (sram.writeAddrReg, sram.writeDataReg, sram.writeStrbReg)
      else
        none := by
  simp [npcWrite, state]

theorem npcWrite_of_ne (state : sram.stateWrite ≠ .w) :
    sram.npcWrite = none := by
  simp [npcWrite, state]

theorem Good.next (good : Good sram) : Good (sram.next port) := by
  cases state : sram.stateWrite with
  | aw =>
      by_cases both : sram.awReceived = true ∧ sram.wReceived = true
      · rw [next_of_both state both]
        exact ⟨fun _ => ⟨rfl, rfl⟩, fun _ => by simp⟩
      · rw [next_of_aw state (by simpa using both)]
        exact ⟨by simp, by simp⟩
  | w =>
      have flags := good.flags (by simp [state])
      have counter := good.counter state
      rw [next_of_w state]
      cases isDone : delayDone delay sram.writeDelayCounter with
      | true =>
          exact ⟨fun _ => flags, by simp⟩
      | false =>
          refine ⟨fun _ => flags, fun _ => ?_⟩
          have early := (delayDone_iff sram.writeDelayCounter).not.mp
            (by simp [isDone])
          have count := toNat_counter_succ isDone
          simp only [Bool.false_eq_true, if_false, count]
          omega
  | b =>
      rw [next_of_b state]
      split_ifs
      · exact ⟨by simp, by simp⟩
      · exact good

theorem quiet (good : Good sram) (noCall : sram.npcWrite = none) :
    (sram.next port).holdsAddr =
        (sram.holdsAddr || (port.awvalid && sram.awready)) ∧
      (sram.next port).holdsData =
        (sram.holdsData || (port.wvalid && sram.wready)) ∧
      (sram.next port).bvalid = (sram.bvalid && !port.bready) := by
  cases state : sram.stateWrite with
  | aw =>
      by_cases both : sram.awReceived = true ∧ sram.wReceived = true
      · rw [next_of_both state both]
        simp [holdsAddr, holdsData, awready, wready, bvalid, state, both,
          beq_eq_decide]
      · rw [next_of_aw state (by simpa using both)]
        cases aw : sram.awReceived <;> cases w : sram.wReceived <;>
          simp [holdsAddr, holdsData, awready, wready, bvalid, state, aw, w,
            beq_eq_decide]
  | w =>
      have flags := good.flags (by simp [state])
      rw [next_of_w state]
      rw [npcWrite_of_w state] at noCall
      cases isDone : delayDone delay sram.writeDelayCounter with
      | true =>
          simp [isDone] at noCall
      | false =>
          simp [holdsAddr, holdsData, awready, wready, bvalid, state]
  | b =>
      have flags := good.flags (by simp [state])
      rw [next_of_b state]
      cases port.bready <;>
        simp [holdsAddr, holdsData, awready, wready, bvalid, state, flags,
          beq_eq_decide]

theorem performing (port : WriteIn) (good : Good sram)
    {done : Word × Word × BitVec 4} (call : sram.npcWrite = some done) :
    sram.stateWrite = .w ∧
      done = (sram.writeAddrReg, sram.writeDataReg, sram.writeStrbReg) ∧
      (sram.next port).holdsAddr = false ∧
      (sram.next port).holdsData = false ∧
      (sram.next port).bvalid = true := by
  cases state : sram.stateWrite with
  | aw =>
      rw [npcWrite_of_ne (by simp [state])] at call
      cases call
  | b =>
      rw [npcWrite_of_ne (by simp [state])] at call
      cases call
  | w =>
      have flags := good.flags (by simp [state])
      rw [npcWrite_of_w state] at call
      cases isDone : delayDone delay sram.writeDelayCounter with
      | true =>
          rw [isDone, if_pos rfl] at call
          rw [next_of_w state, isDone, if_pos rfl]
          exact ⟨rfl, (Option.some.inj call).symm,
            by simp [holdsAddr, flags], by simp [holdsData, flags], rfl⟩
      | false =>
          simp [isDone] at call

theorem Stores.next {addr : Word} {data : Word × BitVec 4}
    (stores : Stores sram addr data) (good : Good sram)
    (awaddr : (port.awvalid && sram.awready) = true → port.awaddr = addr)
    (wdata : (port.wvalid && sram.wready) = true → port.wdata = data)
    (noCall : sram.npcWrite = none) :
    Stores (sram.next port) addr data := by
  cases state : sram.stateWrite with
  | aw =>
      by_cases both : sram.awReceived = true ∧ sram.wReceived = true
      · rw [next_of_both state both]
        exact ⟨fun _ => stores.addr (by simp [holdsAddr, both]),
          fun _ => stores.data (by simp [holdsData, both])⟩
      · rw [next_of_aw state (by simpa using both)]
        constructor
        · intro holds
          cases received : sram.awReceived with
          | true =>
              simpa using stores.addr (by simp [holdsAddr, received])
          | false =>
              have fires : port.awvalid = true := by
                simpa [holdsAddr, received] using holds
              simpa [fires] using
                awaddr (by simp [fires, awready, state, received])
        · intro holds
          cases received : sram.wReceived with
          | true =>
              simpa using stores.data (by simp [holdsData, received])
          | false =>
              have fires : port.wvalid = true := by
                simpa [holdsData, received] using holds
              simpa [fires] using
                wdata (by simp [fires, wready, state, received])
  | w =>
      rw [npcWrite_of_w state] at noCall
      rw [next_of_w state]
      cases isDone : delayDone delay sram.writeDelayCounter with
      | true =>
          simp [isDone] at noCall
      | false =>
          exact ⟨fun _ => stores.addr (by simp [holdsAddr, state]),
            fun _ => stores.data (by simp [holdsData, state])⟩
  | b =>
      have flags := good.flags (by simp [state])
      rw [next_of_b state]
      split_ifs
      · exact ⟨by simp [holdsAddr], by simp [holdsData]⟩
      · exact stores

theorem rank_next (positive : 1 ≤ delay) (good : Good sram)
    (noResponse : sram.bvalid = false)
    (awvalid : sram.holdsAddr = false → port.awvalid = true)
    (wvalid : sram.holdsData = false → port.wvalid = true) :
    (sram.next port).rank < sram.rank := by
  cases state : sram.stateWrite with
  | aw =>
      by_cases both : sram.awReceived = true ∧ sram.wReceived = true
      · rw [next_of_both state both]
        simp [rank, state, both]
      · rw [next_of_aw state (by simpa using both)]
        cases aw : sram.awReceived with
        | true =>
            have missing : sram.wReceived = false := by simpa [aw] using both
            have isUp := wvalid (by simp [holdsData, missing, state])
            simp [rank, state, aw, missing, isUp]
        | false =>
            have isUp := awvalid (by simp [holdsAddr, aw, state])
            cases w : sram.wReceived with
            | true =>
                simp [rank, state, aw, w, isUp]
            | false =>
                have bit := Bool.toNat_le (!port.wvalid)
                simp [rank, state, aw, w, isUp]
                omega
  | w =>
      have counter := good.counter state
      rw [next_of_w state]
      cases isDone : delayDone delay sram.writeDelayCounter with
      | true =>
          simp only [if_true, rank, state]
          omega
      | false =>
          have count := toNat_counter_succ isDone
          simp only [Bool.false_eq_true, if_false, rank, state, count]
          have early := (delayDone_iff sram.writeDelayCounter).not.mp
            (by simp [isDone])
          omega
  | b =>
      simp [bvalid, state] at noResponse

/-- The write block performs each write once. -/
def contract (positive : 1 ≤ delay) : (slave delay).Contract call where
  holdsAddr := holdsAddr
  holdsData := holdsData
  Stores := Stores
  Good := Good
  rank := rank
  good_step _ _ good := good.next
  awready_free {sram} good ready := by
    have ready' : sram.awready = true := ready
    simp only [awready, Bool.and_eq_true, beq_iff_eq, Bool.not_eq_true']
      at ready'
    exact ⟨by simp [holdsAddr, ready'], by simp [slave, bvalid, ready'.1]⟩
  wready_free {sram} good ready := by
    have ready' : sram.wready = true := ready
    simp only [wready, Bool.and_eq_true, beq_iff_eq, Bool.not_eq_true']
      at ready'
    exact ⟨by simp [holdsData, ready'], by simp [slave, bvalid, ready'.1]⟩
  stores_free _ noAddr noData _ _ := ⟨by simp [noAddr], by simp [noData]⟩
  bvalid_free {sram} good response := by
    have state : sram.stateWrite = .b := by
      simpa [slave, bvalid] using response
    have flags := good.flags (by simp [state])
    exact ⟨by simp [holdsAddr, flags, state],
      by simp [holdsData, flags, state]⟩
  quiet good noCall := quiet good noCall
  performing {port sram done} good call := by
    obtain ⟨state, -, addr', data', response⟩ :=
      performing port good call
    exact ⟨by simp [slave, bvalid, state], by simp [holdsAddr, state],
      by simp [holdsData, state], addr', data', response⟩
  stores_step port {sram addr data} good stores awaddr wdata := by
    refine ⟨stores.next good awaddr wdata, ?_⟩
    intro done isCall
    obtain ⟨state, same, -⟩ := performing port good isCall
    have isAddr := stores.addr (by simp [holdsAddr, state])
    have isData := stores.data (by simp [holdsData, state])
    rw [same, isAddr, call, ← isData]
  progress _ _ good noResponse awvalid wvalid :=
    rank_next positive good noResponse awvalid wvalid

end Write

end Sram

namespace Uart.Write

/-- The write block as a write slave; its effects are the characters that it
prints. -/
def slave : Axi.WriteSlave Write Word (Word × BitVec 4) (BitVec 8) where
  step := next
  awready := awready
  wready := wready
  bvalid := bvalid
  performs := fun port uart => uart.char port

/-- The character that a write asks for: any address, any strobe, the low
byte of the data. -/
def lowByte (_ : Word) (data : Word × BitVec 4) : BitVec 8 :=
  data.1.extractLsb' 0 8

/-- The registered outputs follow the state. -/
structure Good (uart : Write) : Prop where
  awready : uart.awready = (uart.writeState == .awReady)
  wready : uart.wready = true → uart.writeState = .wReady
  bvalid : uart.bvalid = (uart.writeState == .bValid)

/-- Clock edges until the response, when the valid signals are up. -/
def rank (uart : Write) : Nat :=
  match uart.writeState with
  | .awIdle => 4
  | .awReady => 3
  | .wReady => 2 - uart.wready.toNat
  | .bValid => 0

variable {uart : Write} {port : Sram.WriteIn}

theorem Good.wready_eq_false (good : Good uart)
    (state : uart.writeState ≠ .wReady) : uart.wready = false :=
  Bool.eq_false_iff.mpr fun ready => state (good.wready ready)

theorem next_of_awIdle (state : uart.writeState = .awIdle) :
    uart.next port =
      if port.awvalid then
        { uart with
          awready := true
          writeState := .awReady }
      else
        uart := by
  simp only [next, state]

theorem next_of_awReady (good : Good uart)
    (state : uart.writeState = .awReady) :
    uart.next port =
      if port.awvalid then
        { uart with
          awready := false
          writeState := .wReady }
      else
        uart := by
  simp [next, state, good.awready]

theorem next_of_wReady (state : uart.writeState = .wReady) :
    uart.next port =
      if port.wvalid then
        if uart.wready then
          { uart with
            wdataReg := port.wdata.1
            wready := false
            bresp := axiRespOkay
            bvalid := true
            writeState := .bValid }
        else
          { uart with wready := true }
      else
        uart := by
  cases valid : port.wvalid <;> simp [next, state, valid]

theorem next_of_bValid (good : Good uart)
    (state : uart.writeState = .bValid) :
    uart.next port =
      if port.bready then
        { uart with
          bvalid := false
          writeState := .awIdle }
      else
        uart := by
  simp [next, state, good.bvalid]

theorem Good.next (good : Good uart) : Good (uart.next port) := by
  cases state : uart.writeState with
  | awIdle =>
      have noWready := good.wready_eq_false (by simp [state])
      rw [next_of_awIdle state]
      split_ifs
      · exact ⟨rfl, by simp [noWready], by simp [good.bvalid, state]⟩
      · exact good
  | awReady =>
      have noWready := good.wready_eq_false (by simp [state])
      rw [next_of_awReady good state]
      split_ifs
      · exact ⟨rfl, by simp [noWready], by simp [good.bvalid, state]⟩
      · exact good
  | wReady =>
      rw [next_of_wReady state]
      split_ifs
      · exact ⟨by simp [good.awready, state], by simp, rfl⟩
      · exact ⟨by simp [good.awready, state], fun _ => state,
          by simp [good.bvalid, state]⟩
      · exact good
  | bValid =>
      have noWready := good.wready_eq_false (by simp [state])
      rw [next_of_bValid good state]
      split_ifs
      · exact ⟨by simp [good.awready, state], by simp [noWready], rfl⟩
      · exact good

theorem quiet (good : Good uart) (noChar : uart.char port = none) :
    ((uart.next port).writeState == .wReady) =
        (uart.writeState == .wReady || (port.awvalid && uart.awready)) ∧
      (port.wvalid && uart.wready) = false ∧
      (uart.next port).bvalid = (uart.bvalid && !port.bready) := by
  cases state : uart.writeState with
  | awIdle =>
      have noWready := good.wready_eq_false (by simp [state])
      rw [next_of_awIdle state]
      cases port.awvalid <;>
        simp [good.awready, good.bvalid, noWready, state, beq_eq_decide]
  | awReady =>
      have noWready := good.wready_eq_false (by simp [state])
      rw [next_of_awReady good state]
      cases port.awvalid <;>
        simp [good.awready, good.bvalid, noWready, state, beq_eq_decide]
  | wReady =>
      have notBoth : (port.wvalid && uart.wready) = false := by
        cases valid : port.wvalid <;> cases ready : uart.wready <;>
          simp [char, state, valid, ready] at noChar ⊢
      rw [next_of_wReady state]
      cases valid : port.wvalid <;> cases ready : uart.wready <;>
        simp [good.bvalid, state, valid, ready, beq_eq_decide] at notBoth ⊢
  | bValid =>
      have noWready := good.wready_eq_false (by simp [state])
      rw [next_of_bValid good state]
      cases ready : port.bready <;>
        simp [good.awready, good.bvalid, noWready, state, beq_eq_decide]

theorem performing {done : BitVec 8}
    (prints : uart.char port = some done) :
    uart.writeState = .wReady ∧ (port.wvalid && uart.wready) = true ∧
      done = port.wdata.1.extractLsb' 0 8 ∧
      (uart.next port).writeState = .bValid := by
  simp only [char, Bool.and_eq_true, beq_iff_eq, Option.ite_none_right_eq_some,
    Option.some.injEq] at prints
  obtain ⟨⟨state, ready, valid⟩, same⟩ := prints
  refine ⟨state, by simp [ready, valid], same.symm, ?_⟩
  rw [next_of_wReady state, if_pos valid, if_pos ready]

theorem rank_next (good : Good uart) (noResponse : uart.bvalid = false)
    (awvalid : (uart.writeState == .wReady) = false → port.awvalid = true)
    (wvalid : port.wvalid = true) :
    (uart.next port).rank < uart.rank := by
  cases state : uart.writeState with
  | awIdle =>
      rw [next_of_awIdle state, if_pos (awvalid (by simp [state]))]
      simp [rank, state]
  | awReady =>
      have noWready := good.wready_eq_false (by simp [state])
      rw [next_of_awReady good state, if_pos (awvalid (by simp [state]))]
      simp [rank, state, noWready]
  | wReady =>
      rw [next_of_wReady state, if_pos wvalid]
      cases ready : uart.wready <;> simp [rank, state, ready]
  | bValid =>
      simp [good.bvalid, state] at noResponse

/-- The write block prints each character once. -/
def contract : slave.Contract lowByte where
  holdsAddr uart := uart.writeState == .wReady
  holdsData _ := false
  Stores _ _ _ := True
  Good := Good
  rank := rank
  good_step _ _ good := good.next
  awready_free {uart} good ready := by
    have ready' : uart.awready = true := ready
    have state : uart.writeState = .awReady := by
      simpa [good.awready] using ready'
    exact ⟨by simp [state], by simp [slave, good.bvalid, state]⟩
  wready_free {uart} good ready := by
    have state := good.wready ready
    exact ⟨rfl, by simp [slave, good.bvalid, state]⟩
  stores_free _ _ _ _ _ := trivial
  bvalid_free {uart} good response := by
    have state : uart.writeState = .bValid := by
      simpa [slave, good.bvalid] using response
    exact ⟨by simp [state], rfl⟩
  quiet good noChar := by
    obtain ⟨addr', noData, response⟩ := quiet good noChar
    exact ⟨addr', noData.symm, response⟩
  performing {port uart done} good prints := by
    obtain ⟨state, fires, -, state'⟩ := performing prints
    have good' : Good (uart.next port) := good.next
    exact ⟨by simp [slave, good.bvalid, state], by simp [state], fires,
      by simp [slave, state'], rfl,
      by simp [slave, good'.bvalid, state']⟩
  stores_step port {uart addr data} _ _ _ wdata := by
    refine ⟨fun _ => trivial, ?_⟩
    intro done prints
    obtain ⟨-, fires, same, -⟩ := performing prints
    rw [same, wdata fires, lowByte]
  progress _ _ good noResponse awvalid wvalid :=
    rank_next good noResponse awvalid (wvalid rfl)

end Uart.Write

end Ysyx.Rtl
