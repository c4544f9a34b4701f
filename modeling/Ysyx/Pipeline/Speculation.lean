import Ysyx.Pipeline.FrontEnd

/-!
# Speculation

The check in EX compares the outcome of an instruction with each prediction
on its own.  When the BTB was right and the RAS has sent the fetch elsewhere
afterwards, nothing is flagged and the wrong path is handed over.
-/

namespace Ysyx.Rtl

variable {platform : Platform}

/-- `pc` belongs to the next instruction that IFU hands to IF/ID after the
one that leaves EX in cycle `leave`: it is already in IF/ID, or it is the
first one handed over from then on, with no trap before. -/
def NextHandOver (cores : Nat → Core platform) (leave : Nat) (pc : Word) :
    Prop :=
  ((cores leave).ifId.validOut = true ∧
      pc = (cores leave).ifId.dataOut.pc) ∨
    ((cores leave).ifId.validOut = false ∧
      ∃ handOver, leave ≤ handOver ∧
        (cores handOver).handsOver = true ∧
        pc = (cores handOver).ifu.pcReg ∧
        (∀ between, leave ≤ between → between < handOver →
          (cores between).handsOver = false) ∧
        ∀ between, leave ≤ between → between ≤ handOver →
          (cores between).globalTrapFlush = false)

/-- The BTB predicted the target of the instruction in EX, and the RAS has
sent the fetch to another address while the instruction was in ID. -/
def RasOverrides (core : Core platform) (ticket : Ticket) : Prop :=
  core.idEx.dataOut.btbPredicted = true ∧
    core.idEx.dataOut.btbTarget = core.exBranchTarget ∧
    ∃ target, ticket.steer = some target ∧ target ≠ core.exBranchTarget

namespace Tracked

/-! ## Waiting for the next hand-over -/

/-- Nothing is left between the fetch and MEM, and the fetch is at `pc`. -/
structure Waiting (pc : Word) (tracked : Tracked platform) : Prop where
  behind : tracked.core.OneBehind
  ifId : tracked.core.ifId.validOut = false
  idEx : tracked.core.idEx.validOut = false
  fetch : tracked.core.ifu.pcReg = pc

theorem fetch_step_of_waiting (axi : AxiIn) {core : Core platform}
    (behind : core.OneBehind) (empty : core.ifId.validOut = false)
    (noJump : core.jumpReq = false) (noHandOver : core.handsOver = false) :
    (core.step axi).ifId.validOut = false ∧
      (core.step axi).ifu.pcReg = core.ifu.pcReg := by
  have ready := Core.ifIdReadyOut_of_invalid empty
  have nothing : core.ifu.outValid = false := by
    simpa [Core.handsOver, ready, noJump] using noHandOver
  have notDone : core.ifu.state ≠ .done := by
    simpa [behind.outValid] using nothing
  refine ⟨Core.OneBehind.ifId_empty_step axi ready nothing, ?_⟩
  simp [Core.step_pcReg, Core.ifuFlushReq, noJump,
    Core.rasHit_of_invalid empty, notDone]

theorem waiting_step {pc : Word} (axi : AxiIn) (tracked : Tracked platform)
    (waiting : Waiting pc tracked)
    (quiet : tracked.core.handsOver = false ∧
      tracked.core.globalTrapFlush = false) :
    Waiting pc (tracked.step axi) := by
  have noJump : tracked.core.jumpReq = false := by
    simp [Core.jumpReq, quiet.2, Core.exMispredict_of_invalid waiting.idEx]
  obtain ⟨empty, fetch⟩ := fetch_step_of_waiting axi waiting.behind
    waiting.ifId noJump quiet.1
  have ready : tracked.core.idExReadyOut = true := by
    simp [Core.idExReadyOut_eq, waiting.idEx]
  exact ⟨Core.oneBehind_step axi _ waiting.behind, empty,
    Core.idEx_empty_step _ axi ready waiting.ifId,
    fetch.trans waiting.fetch⟩

/-- An unflagged instruction that leaves EX in front of an empty IF/ID
starts the wait. -/
theorem waiting_of_leaving (axi : AxiIn) {tracked : Tracked platform}
    (behind : tracked.core.OneBehind)
    (empty : tracked.core.ifId.validOut = false)
    (leaves : tracked.core.exMemReadyOut = true)
    (unflagged : tracked.core.exMispredict = false)
    (quiet : tracked.core.handsOver = false ∧
      tracked.core.globalTrapFlush = false) :
    Waiting tracked.core.ifu.pcReg (tracked.step axi) := by
  have noJump : tracked.core.jumpReq = false := by
    simp [Core.jumpReq, quiet.2, unflagged]
  obtain ⟨stillEmpty, fetch⟩ :=
    fetch_step_of_waiting axi behind empty noJump quiet.1
  have ready := tracked.core.idExReadyOut_of_exMemReadyOut leaves
  exact ⟨Core.oneBehind_step axi _ behind, stillEmpty,
    Core.idEx_empty_step _ axi ready empty, fetch⟩

/-- The next instruction handed over is the next one in line. -/
theorem handOver_pc {inputs : Nat → AxiIn} {power : Core platform}
    {leave : Nat} {pc : Word}
    (leaves : (run inputs power leave).core.exMemReadyOut = true)
    (unflagged : (run inputs power leave).core.exMispredict = false)
    (next : NextHandOver (fun cycle => (run inputs power cycle).core) leave
      pc) :
    pc = (run inputs power leave).core.nextInLine := by
  rcases next with ⟨valid, rfl⟩ |
    ⟨empty, handOver, after, hands, rfl, quiet, noTrap⟩
  · simp [Core.nextInLine, valid]
  · have inLine : (run inputs power leave).core.nextInLine =
        (run inputs power leave).core.ifu.pcReg := by
      simp [Core.nextInLine, empty]
    rw [inLine]
    rcases Nat.lt_or_eq_of_le after with before | atOnce
    · have start := waiting_of_leaving (inputs leave)
        (run_fetchSteered inputs power leave).behind empty leaves unflagged
        ⟨quiet leave le_rfl before, noTrap leave le_rfl after⟩
      have waiting : Waiting (run inputs power leave).core.ifu.pcReg
          (run inputs power handOver) :=
        Machine.run_invariant_from start waiting_step handOver before
          fun between afterLeave isBefore =>
            ⟨quiet between (by omega) isBefore,
              noTrap between (by omega) (by omega)⟩
      exact waiting.fetch
    · rw [atOnce]

/-! ## Main result -/

/-- What an unflagged instruction tells about its predictions. -/
theorem steer_iff_of_unflagged {tracked : Tracked platform}
    (synced : Synced tracked) (steered : FetchSteered tracked)
    {ticket : Ticket} (inEx : tracked.ex = some ticket)
    (unflagged : tracked.core.exMispredict = false) :
    ticket.steer.getD ticket.bundle.predicted = tracked.core.exWnpc ↔
      ¬ RasOverrides tracked.core ticket := by
  have valid : tracked.core.idEx.validOut = true := synced.ex.valid inEx
  have bundleEq : ticket.bundle = tracked.core.idEx.dataOut :=
    synced.ex.content ticket inEx
  have rasAnswer := steered.rasAnswer ticket inEx
  have indirect := steered.indirect ticket inEx
  rw [bundleEq] at rasAnswer indirect ⊢
  unfold RasOverrides
  cases steer : ticket.steer with
  | none =>
      have noRas : tracked.core.idEx.dataOut.rasPredicted = false := by
        by_contra predicted
        rw [rasAnswer (by simpa using predicted)] at steer
        contradiction
      cases taken : tracked.core.exBranchTaken with
      | true =>
          have right : tracked.core.idEx.dataOut.btbPredicted = true ∧
              tracked.core.idEx.dataOut.btbTarget =
                tracked.core.exBranchTarget := by
            simpa [Core.exMispredict, valid, Core.exRasCorrect, noRas,
              taken] using unflagged
          simp [IdExData.predicted, predictedPc, Core.exWnpc, taken, right]
      | false =>
          have right : tracked.core.idEx.dataOut.btbPredicted = false := by
            simpa [Core.exMispredict, valid, Core.exRasCorrect, noRas,
              taken] using unflagged
          simp [IdExData.predicted, predictedPc, Core.exWnpc, taken, right]
  | some target =>
      -- Only a return is steered, and a return is always taken.
      have taken : tracked.core.exBranchTaken = true := by
        simp [Core.exBranchTaken, Core.exTaken, valid,
          indirect (by simp [steer])]
      have wnpc : tracked.core.exWnpc = tracked.core.exBranchTarget := by
        simp [Core.exWnpc, taken]
      rw [wnpc]
      cases ras : tracked.core.exRasCorrect with
      | true =>
          simp only [Core.exRasCorrect, Bool.and_eq_true, beq_iff_eq]
            at ras
          rw [rasAnswer ras.1.1, Option.some.injEq] at steer
          simp [← steer, ras.2]
      | false =>
          have right : tracked.core.idEx.dataOut.btbPredicted = true ∧
              tracked.core.idEx.dataOut.btbTarget =
                tracked.core.exBranchTarget := by
            simpa [Core.exMispredict, valid, ras, taken] using unflagged
          simp [right]

/-- The next instruction handed over after an unflagged one has its actual
next pc, if and only if the RAS has not overridden a right prediction of the
BTB. -/
theorem handOver_pc_iff (inputs : Nat → AxiIn) (power : Core platform)
    {leave : Nat} {ticket : Ticket} {pc : Word}
    (inEx : (run inputs power leave).ex = some ticket)
    (leaves : (run inputs power leave).core.exMemReadyOut = true)
    (unflagged : (run inputs power leave).core.exMispredict = false)
    (next : NextHandOver (fun cycle => (run inputs power cycle).core) leave
      pc) :
    pc = (run inputs power leave).core.exWnpc ↔
      ¬ RasOverrides (run inputs power leave).core ticket := by
  have steered := run_fetchSteered inputs power leave
  rw [handOver_pc leaves unflagged next,
    steered.inLine ticket inEx unflagged]
  exact steer_iff_of_unflagged (run_synced inputs power leave) steered inEx
    unflagged

/-- A call of a routine that returns 4 bytes behind its return address, to a
jump back to the call. -/
def movedReturn : System .soc :=
  System.boot .soc
    [(0x30000000, 0x010000ef), (0x30000004, 0x0000006f),
      (0x30000008, 0xff9ff06f), (0x30000010, 0x00408093),
      (0x30000014, 0x00008067)]

/-- The second return leaves EX unflagged in cycle 56. -/
theorem movedReturn_unflagged :
    (promptRun movedReturn 56).core.idEx.validOut = true ∧
      (promptRun movedReturn 56).core.exMemReadyOut = true ∧
      (promptRun movedReturn 56).core.exMispredict = false ∧
      (promptRun movedReturn 56).core.ifId.validOut = false ∧
      (promptRun movedReturn 56).core.exWnpc = 0x30000008 := by
  decide +kernel

/-- The next hand-over comes in cycle 62, from the address the RAS had
pushed and the program has changed. -/
theorem movedReturn_next :
    NextHandOver (fun cycle => (promptRun movedReturn cycle).core) 56
      0x30000004 := by
  have hands : (promptRun movedReturn 62).core.handsOver = true ∧
      (0x30000004 : Word) = (promptRun movedReturn 62).core.ifu.pcReg := by
    decide +kernel
  have quiet : ∀ between, between < 62 → 56 ≤ between →
      (promptRun movedReturn between).core.handsOver = false := by
    decide +kernel
  have noTrap : ∀ between, between < 63 → 56 ≤ between →
      (promptRun movedReturn between).core.globalTrapFlush = false := by
    decide +kernel
  exact Or.inr ⟨movedReturn_unflagged.2.2.2.1, 62, by decide, hands.1,
    hands.2, fun between after before => quiet between before after,
    fun between after before => noTrap between (by omega) after⟩

theorem handOver_pc_iff_at_movedReturn :
    ∃ ticket, (promptRun movedReturn 56).ex = some ticket ∧
      ((0x30000004 : Word) = (promptRun movedReturn 56).core.exWnpc ↔
        ¬ RasOverrides (promptRun movedReturn 56).core ticket) := by
  have present : (promptRun movedReturn 56).ex.isSome = true := by
    decide +kernel
  obtain ⟨ticket, inEx⟩ := Option.isSome_iff_exists.mp present
  exact ⟨ticket, inEx, handOver_pc_iff _ _ inEx movedReturn_unflagged.2.1
    movedReturn_unflagged.2.2.1 movedReturn_next⟩

/-- The second return goes to the old return address, unflagged. -/
theorem movedReturn_wrongPath :
    ¬ ∀ leave pc,
      (promptRun movedReturn leave).core.idEx.validOut = true →
      (promptRun movedReturn leave).core.exMemReadyOut = true →
      (promptRun movedReturn leave).core.exMispredict = false →
      NextHandOver (fun cycle => (promptRun movedReturn cycle).core) leave
        pc →
      pc = (promptRun movedReturn leave).core.exWnpc := by
  intro sound
  obtain ⟨valid, leaves, unflagged, _, wnpc⟩ := movedReturn_unflagged
  have next := sound 56 0x30000004 valid leaves unflagged movedReturn_next
  rw [wnpc] at next
  exact absurd next (by decide)

end Tracked

end Ysyx.Rtl
