import Ysyx.Refine.Stages
import Ysyx.Pipeline.Occupancy

/-!
# The pipeline follows the reference run

One clock edge moves the instructions of the reference run through the
pipeline.
-/

namespace Ysyx.Rtl

open Nemu hiding Word

variable {platform : Platform}

namespace Core

/-! ## Positions -/

section Positions

variable {core : Core platform} (base : Nat) (axi : AxiIn)

/-- ID/EX captures the instruction of IF/ID. -/
def issues (core : Core platform) : Bool :=
  core.idExReadyOut && !core.hazardStall && core.ifId.validOut

theorem memIndex_step (noFlush : core.globalTrapFlush = false) :
    (core.step axi).memIndex (core.memIndex base) =
      core.memIndex base + core.memValid.toNat := by
  change core.memIndex base + (core.step axi).memWb.validOut.toNat = _
  simp [step_memWb, noFlush]

theorem exIndex_step (owned : core.LsuOwned)
    (noFlush : core.globalTrapFlush = false) :
    (core.step axi).exIndex (core.memIndex base) =
      core.exIndex base +
        (core.exMemReadyOut && core.idEx.validOut).toNat := by
  have held := owned.valid_of_memValid
  rw [exIndex, memIndex_step base axi noFlush, step_exMem, noFlush, exIndex,
    exMemReadyOut_eq]
  cases complete : core.memValid with
  | true => simp [held complete]
  | false => cases valid : core.exMem.validOut <;> simp [valid]

theorem idIndex_step (owned : core.LsuOwned)
    (noFlush : core.globalTrapFlush = false) :
    (core.step axi).idIndex (core.memIndex base) =
      core.idIndex base + core.issues.toNat := by
  rw [idIndex, exIndex_step base axi owned noFlush, step_idEx, noFlush, idIndex,
    issues, idExFlushHazard, idExReadyOut_eq]
  cases core.exMemReadyOut <;> cases valid : core.idEx.validOut <;>
    cases core.hazardStall <;> simp [Pipcon.empty, valid]

theorem nextIndex_step (owned : core.LsuOwned) (behind : core.OneBehind)
    (noFlush : core.globalTrapFlush = false) :
    (core.step axi).nextIndex (core.memIndex base) =
      core.nextIndex base + core.handsOver.toNat := by
  have noWrongPath := behind.noWrongPath
  rw [nextIndex, idIndex_step base axi owned noFlush, step_ifId, nextIndex, issues,
    handsOver, jumpReq, noFlush, ifIdReadyOut_eq]
  cases wrong : core.exMispredict with
  | true => simp [noWrongPath wrong, Pipcon.empty]
  | false =>
      cases core.idExReadyOut <;> cases core.hazardStall <;>
        cases valid : core.ifId.validOut <;> simp [valid]

end Positions

/-! ## Contents -/

/-- EX holds an instruction of the reference run with its operands. -/
structure Executes (state : State) (core : Core platform) : Prop where
  decoded : DecodedFrom state core.idEx.dataOut
  rs1 : core.exRs1Final = state.cpu.gpr (Id.rs1 state.inst)
  rs2 : core.exRs2Final = state.cpu.gpr (Id.rs2 state.inst)

/-- The pipeline holds the instructions of the reference run behind the `base`
that have committed, and the next one is fetched. -/
structure Follows (start : State) (csr : Csr) (base : Nat)
    (core : Core platform) : Prop where
  holds : core.Holds start csr base
  gpr : ∀ rs, rs ≠ 0 → core.gpr rs = (start.run base).cpu.gpr rs
  csr : core.csr = csr
  ex : core.idEx.validOut = true →
    core.Executes (start.run (core.exIndex base))
  id : core.ifId.validOut = true →
    core.ifId.dataOut.pc = (start.run (core.idIndex base)).pc ∧
      core.ifId.dataOut.inst = (start.run (core.idIndex base)).inst ∧
      core.ifId.dataOut.excValid = false
  fetch : core.ifId.validOut = false → core.idEx.validOut = false →
    core.ifu.pcReg = (start.run (core.nextIndex base)).pc

namespace Follows

variable {rtcAddr : Word} {start : State} {csr : Csr} {base : Nat}
  {core : Core platform} (axi : AxiIn)

theorem noFlush (program : UserProgram rtcAddr start)
    (follows : core.Follows start csr base) :
    core.globalTrapFlush = false :=
  follows.holds.noFlush program

/-- EX builds the bundle of its instruction. -/
theorem exMemIn_eq (follows : core.Follows start csr base)
    (valid : core.idEx.validOut = true) :
    core.exMemIn = Datapath.bundle csr (start.run (core.exIndex base)) := by
  obtain ⟨decoded, rs1, rs2⟩ := follows.ex valid
  rw [exMemIn, rs1, rs2, csrRdata, follows.csr]
  exact decoded.executeBundle_eq csr

theorem exWnpc_eq (program : UserProgram rtcAddr start)
    (follows : core.Follows start csr base)
    (valid : core.idEx.validOut = true) :
    core.exWnpc = (start.run (core.exIndex base + 1)).pc := by
  have npc : core.exWnpc = core.exMemIn.npc := by
    simp only [exWnpc, exBranchTaken, exBranchTarget, valid, Bool.true_and]
    rfl
  rw [npc, follows.exMemIn_eq valid]
  exact (program.step csr _).2.1.symm

theorem noReturn (program : UserProgram rtcAddr start)
    (follows : core.Follows start csr base) : core.rasHit = false := by
  cases valid : core.ifId.validOut with
  | false => exact rasHit_of_invalid valid
  | true =>
      obtain ⟨-, inst, -⟩ := follows.id valid
      have notRet := program.noReturn (core.idIndex base)
      rw [← inst] at notRet
      simp [rasHit, Ras.hit, idInst, notRet]

/-- The instruction that is handed over is the next one. -/
theorem pcReg_of_handsOver (program : UserProgram rtcAddr start)
    (follows : core.Follows start csr base) (behind : core.OneBehind)
    (inLine : core.idEx.validOut = true → core.exMispredict = false →
      core.nextInLine = core.exWnpc)
    (hands : core.handsOver = true) :
    core.ifu.pcReg = (start.run (core.nextIndex base)).pc := by
  simp only [handsOver, jumpReq, Bool.and_eq_true, Bool.not_eq_true',
    Bool.or_eq_false_iff] at hands
  obtain ⟨⟨outValid, -⟩, -, right⟩ := hands
  have empty : core.ifId.validOut = false := by
    by_contra valid
    have nothing := (behind.fetch_idle (by simpa using valid)).2
    rw [outValid] at nothing
    contradiction
  cases valid : core.idEx.validOut with
  | false => exact follows.fetch empty valid
  | true =>
      have line := inLine valid right
      rw [follows.exWnpc_eq program valid] at line
      simpa [nextInLine, nextIndex, idIndex, empty, valid] using line

theorem gpr_step (program : UserProgram rtcAddr start)
    (follows : core.Follows start csr base) (rs : BitVec 5)
    (notZero : rs ≠ 0) :
    (core.step axi).gpr rs =
      (start.run (core.memIndex base)).cpu.gpr rs := by
  rw [follows.holds.gpr_memIndex program notZero, ← follows.gpr rs notZero]
  change core.gpr.write _ _ _ rs = _
  simp only [Gpr.write, rfWe, Gpr.rfWe]
  grind

theorem csr_step (program : UserProgram rtcAddr start)
    (follows : core.Follows start csr base) : (core.step axi).csr = csr := by
  rw [step_csr, follows.csr]
  cases valid : core.memWb.validOut with
  | false => simp [Csr.next, csrPort, wbCsrPort, valid]
  | true =>
      obtain ⟨lsu, served, data⟩ := follows.holds.wb valid
      obtain ⟨ctrlWb, -, -, excValid⟩ := bundle_ctrlWb csr (start.run base)
      have plain := program.plain base
      simp [Csr.next, csrPort, wbCsrPort, data, memoryBundle, ctrlWb,
        excValid, plain.isMret, plain.isEcall, plain.csrWe, plain.excValid,
        served.excValid]

/-- What IDU reads is what the register holds when WB has written. -/
theorem readReg_eq (program : UserProgram rtcAddr start)
    (follows : core.Follows start csr base) (rs : BitVec 5) :
    core.readReg rs = (start.run (core.memIndex base)).cpu.gpr rs := by
  by_cases zero : rs = 0
  · rw [zero, CpuState.gpr_zero]
    rfl
  · rw [follows.holds.gpr_memIndex program zero, ← follows.gpr rs zero]
    simp only [readReg, Gpr.read, rfWe, Gpr.rfWe]
    grind

theorem holds_step (program : UserProgram rtcAddr start)
    (follows : core.Follows start csr base) (owned : core.LsuOwned)
    (served : core.memValid = true →
      core.lsu.Served (start.run (core.memIndex base)).pmem
        core.exMem.dataOut) :
    (core.step axi).Holds start csr (core.memIndex base) where
  wb := by
    intro valid
    have noFlush := follows.noFlush program
    have complete := ((step_memWb_valid core axi).mp valid).2
    have data := follows.holds.mem (owned.valid_of_memValid complete)
    have served := served complete
    rw [data] at served
    refine ⟨core.lsu, served, ?_⟩
    simp [step_memWb, noFlush, complete, memWbIn, data]
  mem := by
    intro valid
    have noFlush := follows.noFlush program
    have held := owned.valid_of_memValid
    rw [memIndex_step base axi noFlush]
    rw [step_exMem, noFlush] at valid ⊢
    cases ready : core.exMemReadyOut with
    | false =>
        obtain ⟨incomplete, filled⟩ := (stalled_iff core).mp ready
        simpa [incomplete] using follows.holds.mem filled
    | true =>
        have exValid : core.idEx.validOut = true := by
          simpa [ready] using valid
        have position : core.memIndex base + core.memValid.toNat =
            core.exIndex base := by
          rw [exMemReadyOut_eq] at ready
          rw [exIndex]
          grind
        simpa [exValid, position] using follows.exMemIn_eq exValid

/-- An instruction that enters EX has no operand in a load that is not
complete. -/
theorem noLoad_of_issues (issues : core.issues = true)
    (noFlush : core.globalTrapFlush = false) {rs : BitVec 5}
    (source : rs = Id.rs1 core.idInst ∨ rs = Id.rs2 core.idInst)
    (valid : (core.step axi).exMem.validOut = true) (notZero : rs ≠ 0)
    (same : (core.step axi).exMem.dataOut.rdIdx = rs) :
    (core.step axi).exMem.dataOut.ctrlMem.readMem = 0 := by
  simp only [Core.issues, hazardStall, hazard, Bool.and_eq_true,
    Bool.not_eq_true', Bool.or_eq_false_iff] at issues
  obtain ⟨⟨ready, noEx, noMem⟩, -⟩ := issues
  rw [step_exMem, noFlush] at valid same ⊢
  rw [idExReadyOut_eq] at ready
  cases exMemReady : core.exMemReadyOut with
  | true =>
      simp only [exMemReady, Bool.false_eq_true, if_false, if_true]
        at valid same ⊢
      simp only [valid, if_true] at same ⊢
      change core.idEx.dataOut.rdIdx = rs at same
      change core.idEx.dataOut.ctrlMem.readMem = 0
      grind
  | false =>
      simp only [exMemReady, Bool.false_eq_true, if_false] at valid same ⊢
      grind

theorem exLatch_of_issues (issues : core.issues = true) :
    (core.step axi).exLatch.exDataLatched = false := by
  simp only [Core.issues, idExReadyOut_eq, Bool.and_eq_true] at issues
  change core.nextExLatch.exDataLatched = false
  unfold nextExLatch
  split_ifs with valid ready latched
  · rfl
  · grind
  · grind
  · rfl

theorem idEx_of_issues (issues : core.issues = true)
    (noFlush : core.globalTrapFlush = false) :
    (core.step axi).idEx = ⟨core.idExIn, true⟩ := by
  simp only [Core.issues, Bool.and_eq_true, Bool.not_eq_true'] at issues
  obtain ⟨⟨ready, noStall⟩, valid⟩ := issues
  simp [step_idEx, idExFlushHazard, noFlush, ready, noStall, valid]

/-- The instruction that enters EX finds its operands, in the register file or
on their way there. -/
theorem executes_of_issues (program : UserProgram rtcAddr start)
    (follows : core.Follows start csr base)
    (holds : (core.step axi).Holds start csr (core.memIndex base))
    (issues : core.issues = true)
    (position : (core.step axi).exIndex (core.memIndex base) =
      core.idIndex base) :
    (core.step axi).Executes (start.run (core.idIndex base)) := by
  have noFlush := follows.noFlush program
  have valid : core.ifId.validOut = true := by
    simp only [Core.issues, Bool.and_eq_true] at issues
    exact issues.2
  obtain ⟨pc, inst, excValid⟩ := follows.id valid
  have entered := idEx_of_issues axi issues noFlush
  have operand (rs : BitVec 5)
      (source : rs = Id.rs1 core.idInst ∨ rs = Id.rs2 core.idInst) :
      (core.step axi).forwardData rs (core.readReg rs) =
        (start.run (core.idIndex base)).cpu.gpr rs := by
    rw [follows.readReg_eq program, holds.forwardData_eq program
      (fun valid notZero same =>
        noLoad_of_issues axi issues noFlush source valid notZero same),
      position]
  refine ⟨?_, ?_, ?_⟩
  · rw [entered]
    exact ⟨core.ifId.dataOut, _, _, _, _, pc, inst, excValid, rfl⟩
  · rw [exRs1Final, exLatch_of_issues axi issues, if_neg (by decide),
      forwardRs1Data, entered, ← inst]
    exact operand _ (Or.inl rfl)
  · rw [exRs2Final, exLatch_of_issues axi issues, if_neg (by decide),
      forwardRs2Data, entered, ← inst]
    exact operand _ (Or.inr rfl)

theorem ex_step (program : UserProgram rtcAddr start)
    (follows : core.Follows start csr base) (owned : core.LsuOwned)
    (holds : (core.step axi).Holds start csr (core.memIndex base))
    (valid : (core.step axi).idEx.validOut = true) :
    (core.step axi).Executes
      (start.run ((core.step axi).exIndex (core.memIndex base))) := by
  have noFlush := follows.noFlush program
  have index := exIndex_step base axi owned noFlush
  cases issues : core.issues with
  | true =>
      have position : (core.step axi).exIndex (core.memIndex base) =
          core.idIndex base := by
        simp only [Core.issues, idExReadyOut_eq, Bool.and_eq_true] at issues
        rw [index, idIndex]
        grind
      rw [position]
      exact follows.executes_of_issues axi program holds issues position
  | false =>
      -- a stalled EX keeps its instruction and its operands
      obtain ⟨stays, stall⟩ : core.idEx.validOut = true ∧
          core.exMemReadyOut = false := by
        simp only [Core.issues, idExReadyOut_eq] at issues
        rw [step_idEx, noFlush, idExFlushHazard, idExReadyOut_eq] at valid
        grind [Pipcon.empty]
      have notReady := (idEx_stalled_iff core).mpr ⟨stall, stays⟩
      have same := step_idEx_of_stall core axi notReady noFlush
      obtain ⟨rs1, rs2⟩ := exFinal_step axi stays stall
      obtain ⟨decoded, isRs1, isRs2⟩ := follows.ex stays
      have position : (core.step axi).exIndex (core.memIndex base) =
          core.exIndex base := by
        simp [index, stall]
      rw [position]
      exact ⟨by rw [same]; exact decoded, rs1.trans isRs1, rs2.trans isRs2⟩

theorem id_step (program : UserProgram rtcAddr start)
    (follows : core.Follows start csr base) (owned : core.LsuOwned)
    (behind : core.OneBehind)
    (handed : core.handsOver = true →
      core.ifIdIn.pc = (start.run (core.nextIndex base)).pc ∧
        core.ifIdIn.inst = (start.run (core.nextIndex base)).inst ∧
        core.ifIdIn.excValid = false)
    (valid : (core.step axi).ifId.validOut = true) :
    let index := (core.step axi).idIndex (core.memIndex base)
    (core.step axi).ifId.dataOut.pc = (start.run index).pc ∧
      (core.step axi).ifId.dataOut.inst = (start.run index).inst ∧
      (core.step axi).ifId.dataOut.excValid = false := by
  intro index
  have noFlush := follows.noFlush program
  have next := nextIndex_step base axi owned behind noFlush
  have last := idIndex_step base axi owned noFlush
  obtain ⟨noJump, ⟨ready, outValid⟩ | ⟨stays, filled⟩⟩ :=
    (step_ifId_valid axi).mp valid
  · have hands : core.handsOver = true := by
      simp [handsOver, outValid, ready, noJump]
    have position : index = core.nextIndex base := by
      rw [nextIndex, valid, hands] at next
      simpa using next
    have entered : (core.step axi).ifId = ⟨core.ifIdIn, true⟩ := by
      simp [step_ifId, noJump, ready, outValid]
    rw [entered, position]
    exact handed hands
  · have same : (core.step axi).ifId = core.ifId := by
      simp [step_ifId, noJump, stays]
    have position : index = core.idIndex base := by
      have noIssue : core.issues = false := by
        rw [ifIdReadyOut_eq] at stays
        simp only [Core.issues]
        grind
      simpa [noIssue] using last
    rw [same, position]
    exact follows.id filled

theorem fetch_step (program : UserProgram rtcAddr start)
    (follows : core.Follows start csr base) (owned : core.LsuOwned)
    (behind : core.OneBehind)
    (inLine : core.idEx.validOut = true → core.exMispredict = false →
      core.nextInLine = core.exWnpc)
    (ifIdEmpty : (core.step axi).ifId.validOut = false)
    (idExEmpty : (core.step axi).idEx.validOut = false) :
    (core.step axi).ifu.pcReg =
      (start.run ((core.step axi).nextIndex (core.memIndex base))).pc := by
  have noFlush := follows.noFlush program
  have next := nextIndex_step base axi owned behind noFlush
  have noReturn := follows.noReturn program
  rw [next, step_pcReg]
  cases wrong : core.exMispredict with
  | true =>
      have exValid := valid_of_exMispredict wrong
      have empty := behind.noWrongPath wrong
      have jump : core.jumpReq = true := by simp [jumpReq, wrong]
      have position : core.nextIndex base + core.handsOver.toNat =
          core.exIndex base + 1 := by
        simp [nextIndex, idIndex, handsOver, jump, exValid, empty]
      simp only [globalTrapFlush, Bool.or_eq_false_iff] at noFlush
      rw [if_pos (Or.inl (by simp [ifuFlushReq, jump])), position,
        ← follows.exWnpc_eq program exValid]
      simp [nextPc, noFlush, wrong, exWnpc]
  | false =>
      have noJump : core.jumpReq = false := by simp [jumpReq, noFlush, wrong]
      have empty : core.ifId.validOut = false := by
        by_contra valid
        rw [Bool.not_eq_false] at valid
        -- an instruction that leaves IF/ID is in EX one clock edge later
        have issues : core.issues = true := by
          by_contra noIssue
          have stays : core.ifIdReadyOut = false := by
            simp only [Core.issues] at noIssue
            rw [ifIdReadyOut_eq]
            grind
          have filled := (step_ifId_valid axi).mpr
            ⟨noJump, Or.inr ⟨stays, valid⟩⟩
          rw [ifIdEmpty] at filled
          contradiction
        rw [idEx_of_issues axi issues noFlush] at idExEmpty
        contradiction
      have ready := ifIdReadyOut_of_invalid empty
      have nothing : core.ifu.outValid = false := by
        by_contra outValid
        have filled := (step_ifId_valid axi).mpr
          ⟨noJump, Or.inl ⟨ready, by simpa using outValid⟩⟩
        rw [ifIdEmpty] at filled
        contradiction
      have notDone : core.ifu.state ≠ .done := by
        simpa [behind.outValid] using nothing
      have noHandOver : core.handsOver = false := by
        simp [handsOver, nothing]
      rw [if_neg (by simp [ifuFlushReq, noJump, noReturn, notDone]),
        noHandOver]
      cases valid : core.idEx.validOut with
      | false => exact follows.fetch empty valid
      | true =>
          have line := inLine valid wrong
          rw [follows.exWnpc_eq program valid] at line
          simpa [nextInLine, nextIndex, idIndex, empty, valid] using line

/-- One clock edge moves the instructions of the reference run on. -/
theorem step (program : UserProgram rtcAddr start)
    (follows : core.Follows start csr base) (owned : core.LsuOwned)
    (behind : core.OneBehind)
    (inLine : core.idEx.validOut = true → core.exMispredict = false →
      core.nextInLine = core.exWnpc)
    (served : core.memValid = true →
      core.lsu.Served (start.run (core.memIndex base)).pmem
        core.exMem.dataOut)
    (handed : core.handsOver = true →
      core.ifIdIn.pc = (start.run (core.nextIndex base)).pc ∧
        core.ifIdIn.inst = (start.run (core.nextIndex base)).inst ∧
        core.ifIdIn.excValid = false) :
    (core.step axi).Follows start csr (core.memIndex base) := by
  have holds := follows.holds_step axi program owned served
  exact
    { holds
      gpr := follows.gpr_step axi program
      csr := follows.csr_step axi program
      ex := follows.ex_step axi program owned holds
      id := follows.id_step axi program owned behind handed
      fetch := follows.fetch_step axi program owned behind inLine }

end Follows

end Core

end Ysyx.Rtl
