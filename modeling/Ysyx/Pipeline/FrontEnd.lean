import Ysyx.Pipeline.Tickets

/-!
# The fetch in front of EX

While the fetch unit is busy IF/ID is empty, so that at most one of the two
holds the instruction behind EX.  Its pc is what the predictors said about
the instruction in EX, until EX finds them wrong.
-/

namespace Ysyx.Rtl

/-- The pc at which fetch goes on after a bundle with this prediction. -/
def predictedPc (btbPredicted : Bool) (btbTarget pc : Word) : Word :=
  if btbPredicted then btbTarget else pc + 4

/-- The prediction the BTB made for an instruction. -/
def IfIdData.predicted (data : IfIdData) : Word :=
  predictedPc data.btbPredicted data.btbTarget data.pc

def IdExData.predicted (data : IdExData) : Word :=
  predictedPc data.btbPredicted data.btbTarget data.pc

namespace Core

variable {platform : Platform} {core : Core platform}

/-- The pc of the instruction behind EX: of the one in IF/ID, else of the
one that is fetched. -/
def nextInLine (core : Core platform) : Word :=
  if core.ifId.validOut then core.ifId.dataOut.pc else core.ifu.pcReg

/-- The fetch unit hands over its instruction in this cycle. -/
def handsOver (core : Core platform) : Bool :=
  core.ifu.outValid && core.ifIdReadyOut && !core.jumpReq

/-! ## Small facts -/

theorem rasHit_of_invalid (empty : core.ifId.validOut = false) :
    core.rasHit = false := by
  simp [rasHit, Ras.hit, empty]

theorem ifIdReadyOut_of_invalid (empty : core.ifId.validOut = false) :
    core.ifIdReadyOut = true := by
  simp [ifIdReadyOut_eq, empty]

theorem exMispredict_of_invalid (empty : core.idEx.validOut = false) :
    core.exMispredict = false := by
  simp [exMispredict, empty]

theorem valid_of_exMispredict (wrong : core.exMispredict = true) :
    core.idEx.validOut = true := by
  by_contra invalid
  rw [exMispredict_of_invalid (by simpa using invalid)] at wrong
  contradiction

theorem isRet_of_rasHit (hit : core.rasHit = true) :
    idIsRet core.idInst = true := by
  simp only [rasHit, Ras.hit, Bool.and_eq_true] at hit
  exact hit.1.2

theorem control_of_isRet {instr : Word} (isRet : idIsRet instr = true) :
    (control instr).pcImmNextPcRs1Imm = 0b10 := by
  have opcode : Id.opcode instr = 0b1100111 := by
    simp only [idIsRet, Bool.and_eq_true, beq_iff_eq] at isRet
    exact isRet.1.1
  simp [control, controller, opcode]

theorem step_ifId_valid (axi : AxiIn) :
    (core.step axi).ifId.validOut = true ↔
      core.jumpReq = false ∧
        (core.ifIdReadyOut = true ∧ core.ifu.outValid = true ∨
          core.ifIdReadyOut = false ∧ core.ifId.validOut = true) := by
  rw [step_ifId]
  cases core.jumpReq <;> cases core.ifIdReadyOut <;> simp [Pipcon.empty]

theorem step_pcReg (axi : AxiIn) :
    (core.step axi).ifu.pcReg =
      if core.ifuFlushReq = true ∨
          core.ifu.state = .done ∧ core.ifIdReadyOut = true then
        core.nextPc
      else core.ifu.pcReg :=
  Ifu.next_pcReg core.ifu (core.ifuPort axi)

/-! ## Operands of a stalled EX -/

theorem exFinal_step (axi : AxiIn) (valid : core.idEx.validOut = true)
    (stall : core.exMemReadyOut = false) :
    (core.step axi).exRs1Final = core.exRs1Final ∧
      (core.step axi).exRs2Final = core.exRs2Final := by
  have latchEq : (core.step axi).exLatch =
      { exRs1Latched := core.exRs1Final
        exRs2Latched := core.exRs2Final
        exDataLatched := true } := by
    change core.nextExLatch = _
    unfold nextExLatch exRs1Final exRs2Final
    rw [if_neg (by simp [valid]), if_pos (by simp [stall])]
    cases latched : core.exLatch.exDataLatched with
    | true =>
        simp only [not_true_eq_false, if_false, if_true]
        rw [← latched]
    | false =>
        simp
  constructor
  · change (if (core.step axi).exLatch.exDataLatched then _ else _) = _
    simp only [latchEq, if_true]
  · change (if (core.step axi).exLatch.exDataLatched then _ else _) = _
    simp only [latchEq, if_true]

theorem exMispredict_step (axi : AxiIn) (valid : core.idEx.validOut = true)
    (stall : core.exMemReadyOut = false)
    (noFlush : core.globalTrapFlush = false) :
    (core.step axi).exMispredict = core.exMispredict := by
  obtain ⟨rs1Eq, rs2Eq⟩ := exFinal_step axi valid stall
  have idExEq : (core.step axi).idEx = core.idEx :=
    step_idEx_of_stall core axi
      ((idEx_stalled_iff core).mpr ⟨stall, valid⟩) noFlush
  simp only [exMispredict, exRasCorrect, exBranchTaken, exBranchTarget,
    rs1Eq, rs2Eq, idExEq]

/-! ## One instruction behind EX -/

/-- Fetch and IF/ID do not hold an instruction at once, and IF/ID is empty
while EX finds its prediction wrong. -/
structure OneBehind (core : Core platform) : Prop where
  outValid : core.ifu.outValid = (core.ifu.state == .done)
  exclusive : core.ifu.state ≠ .idle → core.ifId.validOut = false
  noWrongPath : core.exMispredict = true → core.ifId.validOut = false

namespace OneBehind

theorem fetch_idle (behind : OneBehind core)
    (valid : core.ifId.validOut = true) :
    core.ifu.state = .idle ∧ core.ifu.outValid = false := by
  have idle : core.ifu.state = .idle := by
    by_contra busy
    have empty := behind.exclusive busy
    rw [valid] at empty
    contradiction
  exact ⟨idle, by rw [behind.outValid, idle]; rfl⟩

/-- Behind a valid IF/ID, EX has found nothing wrong. -/
theorem straight (behind : OneBehind core)
    (valid : core.ifId.validOut = true) : core.exMispredict = false := by
  by_contra wrong
  have empty := behind.noWrongPath (by simpa using wrong)
  rw [valid] at empty
  contradiction

/-- IF/ID is empty after a clock edge at which nothing is handed over and
its instruction leaves. -/
theorem ifId_empty_step (axi : AxiIn)
    (leaves : core.ifIdReadyOut = true)
    (nothing : core.ifu.outValid = false) :
    (core.step axi).ifId.validOut = false := by
  by_contra valid
  obtain ⟨_, handed | stayed⟩ :=
    (step_ifId_valid axi).mp (by simpa using valid)
  · rw [nothing] at handed
    exact Bool.false_ne_true handed.2
  · rw [leaves] at stayed
    exact Bool.false_ne_true stayed.1.symm

theorem ifId_empty_of_jump (axi : AxiIn) (jump : core.jumpReq = true) :
    (core.step axi).ifId.validOut = false := by
  simp [step_ifId, jump, Pipcon.empty]

end OneBehind

theorem oneBehind_reset (power : Core platform) : OneBehind power.reset where
  outValid := rfl
  exclusive := fun busy => absurd rfl busy
  noWrongPath := fun _ => rfl

theorem oneBehind_step (axi : AxiIn) (core : Core platform)
    (behind : OneBehind core) : OneBehind (core.step axi) where
  outValid := Ifu.next_outValid _ _ behind.outValid
  exclusive := by
    intro busy
    obtain ⟨noFlush, started | running⟩ := Ifu.busy_cases busy
    · -- The fetch unit has just left `IDLE` for a ready IF/ID.
      refine OneBehind.ifId_empty_step axi started.2 ?_
      rw [behind.outValid, started.1]
      rfl
    · have empty := behind.exclusive running.1
      have ready := ifIdReadyOut_of_invalid empty
      refine OneBehind.ifId_empty_step axi ready ?_
      rw [behind.outValid]
      by_contra done
      have notReady := running.2 (by simpa using done)
      rw [show (core.ifuPort axi).nextReady = core.ifIdReadyOut from rfl,
        ready] at notReady
      contradiction
  noWrongPath := by
    intro wrong
    have exValid := valid_of_exMispredict wrong
    cases flush : core.globalTrapFlush with
    | true =>
        exact OneBehind.ifId_empty_of_jump axi (by simp [jumpReq, flush])
    | false =>
        cases ready : core.idExReadyOut with
        | true =>
            rw [step_idEx] at exValid
            simp only [idExFlushHazard, ready, flush, Bool.and_true,
              Bool.or_false, if_true] at exValid
            cases stall : core.hazardStall with
            | true =>
                simp [stall, Pipcon.empty] at exValid
            | false =>
                have valid : core.ifId.validOut = true := by
                  simpa [stall] using exValid
                refine OneBehind.ifId_empty_step axi ?_
                  (behind.fetch_idle valid).2
                simp [ifIdReadyOut_eq, ready, stall]
        | false =>
            rw [idEx_stalled_iff] at ready
            rw [exMispredict_step axi ready.2 ready.1 flush] at wrong
            exact OneBehind.ifId_empty_of_jump axi (by simp [jumpReq, wrong])

/-! ## A flushed front end -/

/-- Nothing is fetched, and nothing that was fetched is left. -/
structure FrontEmpty (core : Core platform) : Prop where
  ifId : core.ifId.validOut = false
  ifu : core.ifu.state = .idle
  icache : core.icache.state = .idle

theorem frontEmpty_of_jump (axi : AxiIn)
    (jump : core.jumpReq = true) : (core.step axi).FrontEmpty where
  ifId := OneBehind.ifId_empty_of_jump axi jump
  ifu := by
    change (core.ifu.next (core.ifuPort axi)).state = _
    have flush : (core.ifuPort axi).flushReq = true := by
      simp [ifuPort, ifuFlushReq, jump]
    simp [Ifu.next, flush]
  icache := by
    change (core.icache.next (core.icachePort axi)).state = _
    have flush : (core.icachePort axi).flush = true := jump
    simp [ICache.next, flush]

end Core

/-! ## Where the fetch goes on -/

namespace Tracked

variable {platform : Platform}

/-- Behind every instruction fetch goes on where the RAS, else the BTB, has
sent it, unless EX finds that wrong. -/
structure FetchSteered (tracked : Tracked platform) : Prop where
  behind : tracked.core.OneBehind
  fetchPc : ∀ ticket, tracked.id = some ticket →
    tracked.core.ifu.pcReg =
      ticket.steer.getD tracked.core.ifId.dataOut.predicted
  isRet : ∀ ticket, tracked.id = some ticket → ticket.steer ≠ none →
    idIsRet tracked.core.idInst = true
  inLine : ∀ ticket, tracked.ex = some ticket →
    tracked.core.exMispredict = false →
    tracked.core.nextInLine = ticket.steer.getD ticket.bundle.predicted
  rasAnswer : ∀ ticket, tracked.ex = some ticket →
    ticket.bundle.rasPredicted = true →
    ticket.steer = some ticket.bundle.rasPredTarget
  indirect : ∀ ticket, tracked.ex = some ticket → ticket.steer ≠ none →
    ticket.bundle.ctrlWb.pcImmNextPcRs1Imm = 0b10

theorem fetchSteered_reset (power : Core platform) :
    FetchSteered { core := power.reset } where
  behind := Core.oneBehind_reset power
  fetchPc := fun _ impossible => by simp at impossible
  isRet := fun _ impossible => by simp at impossible
  inLine := fun _ impossible => by simp at impossible
  rasAnswer := fun _ impossible => by simp at impossible
  indirect := fun _ impossible => by simp at impossible

section Step

variable (axi : AxiIn) {tracked : Tracked platform}

theorem pcReg_step_of_valid (steered : FetchSteered tracked)
    {ticket : Ticket} (inId : tracked.id = some ticket)
    (valid : tracked.core.ifId.validOut = true)
    (noJump : tracked.core.jumpReq = false) :
    (tracked.core.step axi).ifu.pcReg =
      (if tracked.core.rasHit then some tracked.core.rasTarget
        else ticket.steer).getD tracked.core.ifId.dataOut.predicted := by
  have idle := (steered.behind.fetch_idle valid).1
  have noTrap : tracked.core.wbuTrapFire = false ∧
      tracked.core.wbuMretFire = false ∧
      tracked.core.exMispredict = false := by
    simpa [Core.jumpReq, Core.globalTrapFlush, and_assoc] using noJump
  rw [Core.step_pcReg]
  cases hit : tracked.core.rasHit with
  | true =>
      simp [Core.ifuFlushReq, hit, Core.nextPc, noTrap]
  | false =>
      simpa [Core.ifuFlushReq, hit, noJump, idle] using
        steered.fetchPc ticket inId

/-- A hand-over leaves the fetch at the prediction of the BTB. -/
theorem pcReg_step_of_handOver (steered : FetchSteered tracked)
    (handed : tracked.core.ifu.outValid = true)
    (noJump : tracked.core.jumpReq = false) :
    (tracked.core.step axi).ifu.pcReg =
      tracked.core.ifIdIn.predicted := by
  have done : tracked.core.ifu.state = .done := by
    simpa [steered.behind.outValid] using handed
  have empty : tracked.core.ifId.validOut = false :=
    steered.behind.exclusive (by simp [done])
  have noHit := Core.rasHit_of_invalid empty
  have ready := Core.ifIdReadyOut_of_invalid empty
  have noTrap : tracked.core.wbuTrapFire = false ∧
      tracked.core.wbuMretFire = false ∧
      tracked.core.exMispredict = false := by
    simpa [Core.jumpReq, Core.globalTrapFlush, and_assoc] using noJump
  rw [Core.step_pcReg, if_pos (Or.inr ⟨done, ready⟩)]
  simp only [Core.nextPc, noTrap, noHit, Bool.false_eq_true, if_false]
  rfl

theorem nextInLine_step (steered : FetchSteered tracked)
    (stall : tracked.core.idExReadyOut = false)
    (noJump : tracked.core.jumpReq = false) :
    (tracked.core.step axi).nextInLine = tracked.core.nextInLine := by
  cases valid : tracked.core.ifId.validOut with
  | true =>
      have notReady : tracked.core.ifIdReadyOut = false := by
        simp [Core.ifIdReadyOut_eq, stall, valid]
      have same : (tracked.core.step axi).ifId = tracked.core.ifId := by
        simp [Core.step_ifId, noJump, notReady]
      simp [Core.nextInLine, same, valid]
  | false =>
      have ready := Core.ifIdReadyOut_of_invalid valid
      have noHit := Core.rasHit_of_invalid valid
      cases handed : tracked.core.ifu.outValid with
      | true =>
          simp [Core.nextInLine, Core.step_ifId, noJump, ready, handed,
            valid, Core.ifIdIn]
      | false =>
          have notDone : tracked.core.ifu.state ≠ .done := by
            simpa [steered.behind.outValid] using handed
          simp [Core.nextInLine, Core.step_ifId, noJump, ready, handed,
            valid, Core.step_pcReg, Core.ifuFlushReq, noHit, notDone]

/-- The next instruction in line is the one that the predictors named for
the instruction in EX. -/
theorem inLine_step (synced : Synced tracked)
    (steered : FetchSteered tracked) {ticket : Ticket}
    (inEx : (tracked.step axi).ex = some ticket)
    (right : (tracked.step axi).core.exMispredict = false) :
    (tracked.step axi).core.nextInLine =
      ticket.steer.getD ticket.bundle.predicted := by
  change (tracked.core.step axi).nextInLine = _
  change (tracked.core.step axi).exMispredict = false at right
  obtain ⟨noFlush, ⟨ready, isDecoded⟩ | ⟨stall, stayed⟩⟩ :=
    advance_eq_some.mp inEx
  · obtain ⟨source, inId, rfl⟩ := decoded_eq_some.mp isDecoded
    have valid : tracked.core.ifId.validOut = true := synced.id.valid inId
    have noTrap : tracked.core.globalTrapFlush = false := by
      simp_all [Core.idExFlush]
    have noStall : tracked.core.hazardStall = false := by
      simp_all [Core.idExFlush, Core.idExFlushHazard]
    have noWrong := steered.behind.straight valid
    have noJump : tracked.core.jumpReq = false := by
      simp [Core.jumpReq, noTrap, noWrong]
    have empty : (tracked.core.step axi).ifId.validOut = false :=
      Core.OneBehind.ifId_empty_step axi
        (by simp [Core.ifIdReadyOut_eq, ready, noStall])
        (steered.behind.fetch_idle valid).2
    simp only [Core.nextInLine, empty, Bool.false_eq_true, if_false]
    exact pcReg_step_of_valid axi steered inId valid noJump
  · have valid : tracked.core.idEx.validOut = true := synced.ex.valid stayed
    have exStall := ((Core.idEx_stalled_iff _).mp stall).1
    have noTrap : tracked.core.globalTrapFlush = false := by
      simp_all [Core.idExFlush]
    rw [Core.exMispredict_step axi valid exStall noTrap] at right
    rw [nextInLine_step axi steered stall
      (by simp [Core.jumpReq, noTrap, right])]
    exact steered.inLine ticket stayed right

theorem fetchSteered_step (synced : Synced tracked)
    (steered : FetchSteered tracked) : FetchSteered (tracked.step axi) where
  behind := Core.oneBehind_step axi _ steered.behind
  fetchPc := by
    intro ticket inId
    change (tracked.core.step axi).ifu.pcReg =
      ticket.steer.getD (tracked.core.step axi).ifId.dataOut.predicted
    obtain ⟨noJump, ⟨ready, isFetched⟩ | ⟨stall, stayed⟩⟩ :=
      advance_eq_some.mp inId
    · unfold fetched at isFetched
      split_ifs at isFetched with handed
      cases isFetched
      rw [pcReg_step_of_handOver axi steered handed noJump]
      simp [Core.step_ifId, noJump, ready, handed]
    · obtain ⟨source, wasInId, rfl⟩ := Option.map_eq_some_iff.mp stayed
      have valid : tracked.core.ifId.validOut = true := synced.id.valid wasInId
      rw [pcReg_step_of_valid axi steered wasInId valid noJump]
      simp [Core.step_ifId, noJump, stall]
  isRet := by
    intro ticket inId steers
    obtain ⟨noJump, ⟨ready, isFetched⟩ | ⟨stall, stayed⟩⟩ :=
      advance_eq_some.mp inId
    · unfold fetched at isFetched
      split_ifs at isFetched
      cases isFetched
      exact absurd rfl steers
    · obtain ⟨source, wasInId, rfl⟩ := Option.map_eq_some_iff.mp stayed
      have same : (tracked.step axi).core.idInst = tracked.core.idInst := by
        simp [Core.idInst, step, Core.step_ifId, noJump, stall]
      rw [same]
      cases hit : tracked.core.rasHit with
      | true =>
          exact Core.isRet_of_rasHit hit
      | false =>
          exact steered.isRet source wasInId (by simpa [hit] using steers)
  inLine _ inEx right := inLine_step axi synced steered inEx right
  rasAnswer := by
    intro ticket inEx predicted
    obtain ⟨_, ⟨_, isDecoded⟩ | ⟨_, stayed⟩⟩ := advance_eq_some.mp inEx
    · obtain ⟨source, inId, rfl⟩ := decoded_eq_some.mp isDecoded
      have hit : tracked.core.rasHit = true := predicted
      simp only [hit, if_true]
      rfl
    · exact steered.rasAnswer ticket stayed predicted
  indirect := by
    intro ticket inEx steers
    obtain ⟨_, ⟨_, isDecoded⟩ | ⟨_, stayed⟩⟩ := advance_eq_some.mp inEx
    · obtain ⟨source, inId, rfl⟩ := decoded_eq_some.mp isDecoded
      refine Core.control_of_isRet ?_
      cases hit : tracked.core.rasHit with
      | true =>
          exact Core.isRet_of_rasHit hit
      | false =>
          exact steered.isRet source inId (by simpa [hit] using steers)
    · exact steered.indirect ticket stayed steers

end Step

/-- In every state of an observed run the fetch goes on where it was
sent. -/
theorem run_fetchSteered (inputs : Nat → AxiIn) (power : Core platform)
    (cycle : Nat) : FetchSteered (run inputs power cycle) := by
  induction cycle with
  | zero =>
      exact fetchSteered_reset power
  | succ cycle inductionHypothesis =>
      exact fetchSteered_step _ (run_synced inputs power cycle)
        inductionHypothesis

end Tracked

end Ysyx.Rtl
