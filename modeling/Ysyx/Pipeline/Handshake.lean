import Ysyx.Rtl.System

/-!
# Handshakes of the pipeline registers

WB is always ready, so that MEM hands over exactly when the LSU has
completed, and a stalled stage keeps its bundle.
-/

namespace Ysyx.Rtl.Core

variable {platform : Platform} (core : Core platform) (axi : AxiIn)

@[simp] theorem memWbReadyOut_eq : core.memWbReadyOut = true := rfl

@[simp] theorem memReady_eq : core.memReady = core.memValid := by
  simp [memReady, memValid, Lsu.outReady]

theorem exMemReadyOut_eq :
    core.exMemReadyOut = (core.memValid || !core.exMem.validOut) := by
  simp [exMemReadyOut, Pipcon.readyOut]

theorem idExReadyOut_eq :
    core.idExReadyOut = (core.exMemReadyOut || !core.idEx.validOut) := rfl

theorem ifIdReadyOut_eq :
    core.ifIdReadyOut =
      (core.idExReadyOut && !core.hazardStall || !core.ifId.validOut) := rfl

theorem exMemReadyOut_of_memValid (complete : core.memValid = true) :
    core.exMemReadyOut = true := by
  simp [exMemReadyOut_eq, complete]

/-- MEM is only stalled by a valid bundle whose access is not complete. -/
theorem stalled_iff :
    core.exMemReadyOut = false ↔
      core.memValid = false ∧ core.exMem.validOut = true := by
  simp [exMemReadyOut_eq]

/-- ID/EX is only stalled by a valid bundle behind a stalled MEM. -/
theorem idEx_stalled_iff :
    core.idExReadyOut = false ↔
      core.exMemReadyOut = false ∧ core.idEx.validOut = true := by
  simp [idExReadyOut_eq]

theorem idExReadyOut_of_exMemReadyOut (ready : core.exMemReadyOut = true) :
    core.idExReadyOut = true := by
  simp [idExReadyOut_eq, ready]

/-! ## The registers after a clock edge -/

theorem step_memWb :
    (core.step axi).memWb =
      if core.globalTrapFlush then .empty
      else ⟨if core.memValid then core.memWbIn else core.memWb.dataOut,
        core.memValid⟩ := by
  simp [step, Pipcon.next, Pipcon.readyOut]

theorem step_memWb_valid :
    (core.step axi).memWb.validOut = true ↔
      core.globalTrapFlush = false ∧ core.memValid = true := by
  rw [step_memWb]
  cases core.globalTrapFlush <;> simp [Pipcon.empty]

theorem step_exMem :
    (core.step axi).exMem =
      if core.globalTrapFlush then .empty
      else if core.exMemReadyOut then
        ⟨if core.idEx.validOut then core.exMemIn else core.exMem.dataOut,
          core.idEx.validOut⟩
      else core.exMem := rfl

theorem step_idEx :
    (core.step axi).idEx =
      if core.idExFlushHazard || core.globalTrapFlush then .empty
      else if core.idExReadyOut then
        ⟨if core.ifId.validOut then core.idExIn else core.idEx.dataOut,
          core.ifId.validOut⟩
      else core.idEx := rfl

theorem step_idEx_of_stall (stall : core.idExReadyOut = false)
    (noFlush : core.globalTrapFlush = false) :
    (core.step axi).idEx = core.idEx := by
  simp [step_idEx, idExFlushHazard, stall, noFlush]

/-- A ready EX takes no more than IF/ID holds. -/
theorem idEx_empty_step (ready : core.idExReadyOut = true)
    (empty : core.ifId.validOut = false) :
    (core.step axi).idEx.validOut = false := by
  rw [step_idEx, if_pos ready]
  split
  · rfl
  · exact empty

theorem step_ifId :
    (core.step axi).ifId =
      if core.jumpReq then .empty
      else if core.ifIdReadyOut then
        ⟨if core.ifu.outValid then core.ifIdIn else core.ifId.dataOut,
          core.ifu.outValid⟩
      else core.ifId := rfl

theorem step_csr : (core.step axi).csr = core.csr.next core.csrPort := rfl

theorem globalTrapFlush_of_invalid (empty : core.memWb.validOut = false) :
    core.globalTrapFlush = false := by
  simp [globalTrapFlush, wbuTrapFire, wbuMretFire, empty]

end Ysyx.Rtl.Core
