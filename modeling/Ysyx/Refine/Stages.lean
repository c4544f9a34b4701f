import Ysyx.Refine.Program
import Ysyx.Pipeline.Speculation

/-!
# Instructions in the pipeline

What each pipeline register holds of an instruction of the reference run, and
why the operands that EX selects are the registers of that run.
-/

namespace Ysyx.Rtl

open Nemu hiding Word

variable {platform : Platform}

/-! ## The reference run -/

namespace UserProgram

variable {rtcAddr : Word} {start : State}

theorem step (program : UserProgram rtcAddr start) (csr : Csr)
    (index : Nat) :
    let data := Datapath.bundle csr (start.run index)
    (start.run index).request = Datapath.request data ∧
      (start.run (index + 1)).pc = data.npc ∧
      (start.run (index + 1)).pmem =
        perform (Datapath.request data) (start.run index).pmem ∧
      (start.run (index + 1)).cpu.gpr =
        Gpr.write (start.run index).cpu.gpr
          (Gpr.rfWe true data.ctrlWb.writeReg data.rdIdx) data.rdIdx
          (Datapath.result (start.run index).pmem data) := by
  obtain ⟨row, decoded, user⟩ := program.instruction index
  exact step_of_user csr decoded user (program.aligned index)

theorem plain (program : UserProgram rtcAddr start) (index : Nat) :
    (control (start.run index).inst).Plain := by
  obtain ⟨row, decoded, user⟩ := program.instruction index
  exact plain_of_user (opcode_of_user decoded user).1

end UserProgram

/-! ## Bundles -/

/-- The bundle in ID/EX belongs to the instruction; what the predictors and the
register file have added to it is left open. -/
def DecodedFrom (state : State) (data : IdExData) : Prop :=
  ∃ ifId rs1Data rs2Data rasHit rasTarget,
    ifId.pc = state.pc ∧ ifId.inst = state.inst ∧ ifId.excValid = false ∧
      data = Core.decodeBundle ifId rs1Data rs2Data rasHit rasTarget

namespace DecodedFrom

variable {state : State} {data : IdExData}

theorem rs1Idx (decoded : DecodedFrom state data) :
    data.rs1Idx = Id.rs1 state.inst := by
  obtain ⟨ifId, rs1Data, rs2Data, rasHit, rasTarget, -, inst, -, rfl⟩ :=
    decoded
  simp [Core.decodeBundle, inst]

theorem rs2Idx (decoded : DecodedFrom state data) :
    data.rs2Idx = Id.rs2 state.inst := by
  obtain ⟨ifId, rs1Data, rs2Data, rasHit, rasTarget, -, inst, -, rfl⟩ :=
    decoded
  simp [Core.decodeBundle, inst]

/-- With the registers of the reference run as operands, EX builds the bundle
of the instruction. -/
theorem executeBundle_eq (decoded : DecodedFrom state data) (csr : Csr) :
    Core.executeBundle data (state.cpu.gpr (Id.rs1 state.inst))
        (state.cpu.gpr (Id.rs2 state.inst)) (csr.read data.csrAddr) =
      Datapath.bundle csr state := by
  obtain ⟨ifId, rs1Data, rs2Data, rasHit, rasTarget, pc, inst, excValid,
    rfl⟩ := decoded
  have rs1 := read_gpr state.cpu (Id.rs1 state.inst)
  have rs2 := read_gpr state.cpu (Id.rs2 state.inst)
  simp only [Datapath.bundle, Datapath.execute, Datapath.decode,
    Core.executeBundle, Core.decodeBundle, rs1, rs2, pc, inst, excValid,
    Core.inAluA, Core.inAluB, Core.exCondition, Core.exTaken, Core.exTarget,
    Core.csrOpData]

end DecodedFrom

/-- What the controller says about an instruction is in its bundle. -/
theorem bundle_ctrlWb (csr : Csr) (state : State) :
    (Datapath.bundle csr state).ctrlWb =
      { writeReg := (control state.inst).writeReg
        csrWe := (control state.inst).csrWe
        isMret := (control state.inst).isMret
        isEcall := (control state.inst).isEcall
        isCsr := (control state.inst).isCsr
        readMem := (control state.inst).readMem
        pcImmNextPcRs1Imm := (control state.inst).pcImmNextPcRs1Imm } ∧
      (Datapath.bundle csr state).ctrlMem =
        { writeMem := (control state.inst).writeMem
          readMem := (control state.inst).readMem } ∧
      (Datapath.bundle csr state).rdIdx = Id.rd state.inst ∧
      (Datapath.bundle csr state).excValid =
        (control state.inst).excValid :=
  ⟨rfl, rfl, rfl, rfl⟩

/-- A register after one more instruction. -/
theorem UserProgram.gpr_succ {rtcAddr : Word} {start : State}
    (program : UserProgram rtcAddr start) (csr : Csr) (index : Nat)
    {rs : BitVec 5} (notZero : rs ≠ 0) :
    (start.run (index + 1)).cpu.gpr rs =
      if (control (start.run index).inst).writeReg = true ∧
          Id.rd (start.run index).inst = rs then
        Datapath.result (start.run index).pmem
          (Datapath.bundle csr (start.run index))
      else (start.run index).cpu.gpr rs := by
  obtain ⟨-, -, -, gpr⟩ := program.step csr index
  obtain ⟨ctrlWb, -, rdIdx, -⟩ := bundle_ctrlWb csr (start.run index)
  rw [gpr, ctrlWb, rdIdx]
  simp only [Gpr.write, Gpr.rfWe]
  grind

/-- The LSU has completed the access of a bundle on this memory, without a
fault. -/
structure Lsu.Served (pmem : Pmem) (data : ExMemData) (lsu : Lsu) :
    Prop where
  accessFault : lsu.accessFault = false
  excValid : lsu.excValid = false
  load : data.ctrlMem.readMem ≠ 0 →
    lsu.readData =
      signExtend (hostRead pmem data.aluResult
        (Datapath.readLen data.ctrlMem.readMem)) data.ctrlMem.readMem 0
  store : data.ctrlMem.writeMem ≠ 0 →
    lsu.lsuWdata = laneData data.aluResult
        (Datapath.writeLen data.ctrlMem.writeMem) data.memWdata ∧
      lsu.lsuWstrb = laneStrobe data.aluResult
        (Datapath.writeLen data.ctrlMem.writeMem)
  noStore : data.ctrlMem.writeMem = 0 → lsu.lsuWstrb = 0

/-! ## Forwarding -/

namespace Core

/-- The index of the instruction that is in MEM or comes there next; `base`
instructions have committed. -/
def memIndex (base : Nat) (core : Core platform) : Nat :=
  base + core.memWb.validOut.toNat

def exIndex (base : Nat) (core : Core platform) : Nat :=
  core.memIndex base + core.exMem.validOut.toNat

def idIndex (base : Nat) (core : Core platform) : Nat :=
  core.exIndex base + core.idEx.validOut.toNat

/-- The index of the next instruction to be handed over. -/
def nextIndex (base : Nat) (core : Core platform) : Nat :=
  core.idIndex base + core.ifId.validOut.toNat

/-- MEM and WB hold the next instructions to commit. -/
structure Holds (start : State) (csr : Csr) (base : Nat)
    (core : Core platform) : Prop where
  wb : core.memWb.validOut = true →
    ∃ lsu : Lsu, lsu.Served (start.run base).pmem
        (Datapath.bundle csr (start.run base)) ∧
      core.memWb.dataOut =
        memoryBundle (Datapath.bundle csr (start.run base)) lsu
  mem : core.exMem.validOut = true →
    core.exMem.dataOut =
      Datapath.bundle csr (start.run (core.memIndex base))

namespace Holds

variable {rtcAddr : Word} {start : State} {csr : Csr} {base : Nat}
  {core : Core platform} {rs : BitVec 5}

/-- What WB writes back. -/
theorem wbFinalWdata_eq (program : UserProgram rtcAddr start)
    (holds : core.Holds start csr base)
    (valid : core.memWb.validOut = true) :
    core.memWb.dataOut.ctrlWb =
        (Datapath.bundle csr (start.run base)).ctrlWb ∧
      core.memWb.dataOut.rdIdx = Id.rd (start.run base).inst ∧
      core.wbFinalWdata = Datapath.result (start.run base).pmem
        (Datapath.bundle csr (start.run base)) := by
  obtain ⟨lsu, served, data⟩ := holds.wb valid
  obtain ⟨ctrlWb, ctrlMem, rdIdx, -⟩ := bundle_ctrlWb csr (start.run base)
  have notCsr := (program.plain base).isCsr
  have load := served.load
  rw [ctrlMem] at load
  refine ⟨by rw [data]; rfl, by rw [data]; exact rdIdx, ?_⟩
  rw [wbFinalWdata, data]
  simp only [finalWdata, memoryBundle, Datapath.result, ctrlWb, ctrlMem,
    notCsr, Bool.false_eq_true, if_false]
  split_ifs with isLoad
  · exact load isLoad
  · rfl

/-- No instruction of the reference run traps. -/
theorem noFlush (program : UserProgram rtcAddr start)
    (holds : core.Holds start csr base) :
    core.globalTrapFlush = false := by
  cases valid : core.memWb.validOut with
  | false => exact globalTrapFlush_of_invalid core valid
  | true =>
      obtain ⟨lsu, served, data⟩ := holds.wb valid
      obtain ⟨ctrlWb, -, -, excValid⟩ := bundle_ctrlWb csr (start.run base)
      have plain := program.plain base
      simp [globalTrapFlush, wbuTrapFire, wbuMretFire, data, memoryBundle,
        ctrlWb, excValid, plain.isMret, plain.excValid, served.excValid]

/-- A register after the instruction in WB. -/
theorem gpr_memIndex (program : UserProgram rtcAddr start)
    (holds : core.Holds start csr base) (notZero : rs ≠ 0) :
    (start.run (core.memIndex base)).cpu.gpr rs =
      if core.memWb.validOut = true ∧
          core.memWb.dataOut.ctrlWb.writeReg = true ∧
          core.memWb.dataOut.rdIdx = rs then core.wbFinalWdata
      else (start.run base).cpu.gpr rs := by
  cases valid : core.memWb.validOut with
  | false => simp [memIndex, valid]
  | true =>
      obtain ⟨ctrlWb, rdIdx, result⟩ := holds.wbFinalWdata_eq program valid
      have next : core.memIndex base = base + 1 := by
        simp [memIndex, valid]
      rw [next, program.gpr_succ csr base notZero, ctrlWb, rdIdx, result,
        (bundle_ctrlWb csr (start.run base)).1]
      simp

/-- A register after the instruction in MEM, if that does not load it. -/
theorem gpr_exIndex (program : UserProgram rtcAddr start)
    (holds : core.Holds start csr base) (notZero : rs ≠ 0)
    (noLoad : core.exMem.validOut = true →
      core.exMem.dataOut.rdIdx = rs →
      core.exMem.dataOut.ctrlMem.readMem = 0) :
    (start.run (core.exIndex base)).cpu.gpr rs =
      if core.exMem.validOut = true ∧
          core.exMem.dataOut.ctrlWb.writeReg = true ∧
          core.exMem.dataOut.rdIdx = rs then core.memForwardData
      else (start.run (core.memIndex base)).cpu.gpr rs := by
  cases valid : core.exMem.validOut with
  | false => simp [exIndex, valid]
  | true =>
      have data := holds.mem valid
      have noLoad := noLoad valid
      obtain ⟨ctrlWb, ctrlMem, rdIdx, -⟩ :=
        bundle_ctrlWb csr (start.run (core.memIndex base))
      have next : core.exIndex base = core.memIndex base + 1 := by
        simp [exIndex, valid]
      have notCsr := (program.plain (core.memIndex base)).isCsr
      rw [data, ctrlMem, rdIdx] at noLoad
      rw [next, program.gpr_succ csr _ notZero, memForwardData, data,
        Datapath.result, ctrlWb, rdIdx]
      grind

/-- The register that EX sees is the one of the reference run. -/
theorem forwardData_eq (program : UserProgram rtcAddr start)
    (holds : core.Holds start csr base)
    (noLoad : core.exMem.validOut = true → rs ≠ 0 →
      core.exMem.dataOut.rdIdx = rs →
      core.exMem.dataOut.ctrlMem.readMem = 0) :
    core.forwardData rs ((start.run base).cpu.gpr rs) =
      (start.run (core.exIndex base)).cpu.gpr rs := by
  by_cases zero : rs = 0
  · have noSource : ∀ rd rd' we valid we', forwardSel 0 rd we valid rd' we' =
        .regFile := by
      intro rd rd' we valid we'
      simp only [forwardSel]
      grind
    rw [forwardData, zero, noSource]
    simp only [CpuState.gpr_zero]
  · rw [holds.gpr_exIndex program zero
        (fun valid same => noLoad valid zero same),
      holds.gpr_memIndex program zero]
    simp only [forwardData, forwardSel]
    grind

end Holds

end Core

end Ysyx.Rtl
