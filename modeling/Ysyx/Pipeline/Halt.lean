import Ysyx.Pipeline.FrontEnd
import Ysyx.Pipeline.Occupancy
import Ysyx.Pipeline.Order

/-!
# The end of a simulation

`npc_exu_ebreak` is called from the word in IF/ID and records `a0` of that
cycle as the exit code, while older instructions are still in the pipeline.
-/

namespace Ysyx.Rtl

/-- The instruction `ebreak`. -/
def EBREAK : Word := 0x00100073

/-- The instruction neither traps nor returns from a trap, and does not write
`a0`. -/
def Quiet (excValid : Bool) (ctrlWb : CtrlWb) (rdIdx : BitVec 5) : Prop :=
  excValid = false ∧ ctrlWb.isMret = false ∧
    ¬(ctrlWb.writeReg = true ∧ rdIdx = 10)

instance (excValid : Bool) (ctrlWb : CtrlWb) (rdIdx : BitVec 5) :
    Decidable (Quiet excValid ctrlWb rdIdx) :=
  inferInstanceAs (Decidable (_ ∧ _ ∧ _))

namespace Core

variable {platform : Platform}

/-- `YSYX_DPI_C_NPC_EXU_EBREAK` of ID. -/
def ebreakCall (core : Core platform) : Bool :=
  Id.opcode core.idInst == 0b1110011 &&
    core.idInst.extractLsb' 20 12 == 0b000000000001

/-- `nemu_state.halt_ret`, as `npc_exu_ebreak` sets it. -/
def haltRet (core : Core platform) : Word := core.gpr 10

/-- ID/EX holds a load or a store. -/
def idExAccess (core : Core platform) : Bool :=
  core.idEx.dataOut.ctrlMem.readMem != 0 ||
    core.idEx.dataOut.ctrlMem.writeMem != 0

/-! ## Quiet stages -/

structure ExQuiet (core : Core platform) : Prop where
  bundle : core.idEx.validOut = true →
    Quiet core.idEx.dataOut.excValid core.idEx.dataOut.ctrlWb
      core.idEx.dataOut.rdIdx
  flag : core.idEx.validOut = true → core.idExAccess = false →
    core.exMemAccess = false → core.lsu.excValid = false

/-- The bundle counts too while the LSU works for an instruction that is no
longer there: it is handed on when the LSU is done. -/
structure MemQuiet (core : Core platform) : Prop where
  bundle : core.exMem.validOut = true ∨ core.lsuBusy = true →
    Quiet core.exMem.dataOut.excValid core.exMem.dataOut.ctrlWb
      core.exMem.dataOut.rdIdx
  flag : core.exMem.validOut = true → core.exMemAccess = false →
    core.lsu.excValid = false

def WbQuiet (core : Core platform) : Prop :=
  core.memWb.validOut = true →
    Quiet core.memWb.dataOut.excValid core.memWb.dataOut.ctrlWb
      core.memWb.dataOut.rdIdx

/-- IF/ID holds an `ebreak`, and nothing older traps, returns from a trap or
writes `a0`. -/
structure Settled (core : Core platform) : Prop where
  inst : core.idInst = EBREAK
  ex : ExQuiet core
  mem : MemQuiet core
  wb : WbQuiet core

instance (core : Core platform) : Decidable (Settled core) :=
  decidable_of_iff
    (core.idInst = EBREAK ∧
      (core.idEx.validOut = true →
        Quiet core.idEx.dataOut.excValid core.idEx.dataOut.ctrlWb
          core.idEx.dataOut.rdIdx) ∧
      (core.idEx.validOut = true → core.idExAccess = false →
        core.exMemAccess = false → core.lsu.excValid = false) ∧
      (core.exMem.validOut = true ∨ core.lsuBusy = true →
        Quiet core.exMem.dataOut.excValid core.exMem.dataOut.ctrlWb
          core.exMem.dataOut.rdIdx) ∧
      (core.exMem.validOut = true → core.exMemAccess = false →
        core.lsu.excValid = false) ∧
      (core.memWb.validOut = true →
        Quiet core.memWb.dataOut.excValid core.memWb.dataOut.ctrlWb
          core.memWb.dataOut.rdIdx))
    ⟨fun ⟨inst, ex, exFlag, mem, memFlag, wb⟩ =>
        ⟨inst, ⟨ex, exFlag⟩, ⟨mem, memFlag⟩, wb⟩,
      fun settled => ⟨settled.inst, settled.ex.bundle, settled.ex.flag,
        settled.mem.bundle, settled.mem.flag, settled.wb⟩⟩

/-- A machine that is busy has cleared `exc_valid`. -/
def LsuClean (core : Core platform) : Prop :=
  core.lsuBusy = true → core.lsu.excValid = false

section Step

variable {core : Core platform} (axi : AxiIn)

theorem excValid_step (low : core.lsu.excValid = false) :
    (core.step axi).lsu.excValid = false := by
  by_contra raised
  rw [Bool.not_eq_false] at raised
  have before := (Lsu.next_excValid raised).1
  rw [low] at before
  contradiction

theorem lsuClean_step (clean : LsuClean core) :
    LsuClean (core.step axi) := by
  intro busy
  by_contra raised
  rw [Bool.not_eq_false] at raised
  obtain ⟨before, noLoad, noStore⟩ := Lsu.next_excValid raised
  rcases lsuBusy_step_cases busy with starts | was
  · simp [lsuStart, noLoad, noStore] at starts
  · rw [clean was] at before
    contradiction

/-- MEM hands on a bundle of its own or one for a busy LSU, and its
`exc_valid` is the bundle's. -/
theorem complete_cases (mem : MemQuiet core) (clean : LsuClean core)
    (complete : core.memValid = true) :
    (core.exMem.validOut = true ∨ core.lsuBusy = true) ∧
      core.lsu.excValid = false := by
  cases busy : core.lsuBusy with
  | true =>
      exact ⟨Or.inr rfl, clean busy⟩
  | false =>
      simp only [lsuBusy, Bool.or_eq_false_iff, bne_eq_false_iff_eq] at busy
      have idle := complete
      simp only [memValid, Lsu.outValid, busy, memWbReadyOut_eq] at idle
      have offered : core.exMem.validOut = true ∧
          core.exMem.dataOut.ctrlMem.readMem = 0 ∧
          core.exMem.dataOut.ctrlMem.writeMem = 0 := by
        simpa [and_assoc] using idle
      have noAccess : core.exMemAccess = false := by
        simp [exMemAccess, offered.2]
      exact ⟨Or.inl offered.1, mem.flag offered.1 noAccess⟩

theorem wbQuiet_step (mem : MemQuiet core) (clean : LsuClean core) :
    WbQuiet (core.step axi) := by
  intro valid
  obtain ⟨noFlush, complete⟩ := (step_memWb_valid core axi).mp valid
  obtain ⟨occupied, low⟩ := complete_cases mem clean complete
  have quiet := mem.bundle occupied
  rw [step_memWb, noFlush, complete]
  simp only [Bool.false_eq_true, if_false, if_true, memWbIn, memoryBundle,
    quiet.1, low]
  exact ⟨rfl, quiet.2⟩

theorem noFlush_of_wbQuiet (wb : WbQuiet core) :
    core.globalTrapFlush = false := by
  cases valid : core.memWb.validOut with
  | false =>
      exact core.globalTrapFlush_of_invalid valid
  | true =>
      obtain ⟨noTrap, noMret, -⟩ := wb valid
      simp [globalTrapFlush, wbuTrapFire, wbuMretFire, noTrap, noMret]

theorem haltRet_step (wb : WbQuiet core) :
    (core.step axi).haltRet = core.haltRet := by
  refine if_neg ?_
  rintro ⟨writes, isA0⟩
  simp only [rfWe, Gpr.rfWe, Bool.and_eq_true] at writes
  exact (wb writes.1.1).2.2 ⟨writes.1.2, isA0.symm⟩

theorem memQuiet_stall (mem : MemQuiet core) (wb : WbQuiet core)
    (stalled : core.exMemReadyOut = false) : MemQuiet (core.step axi) := by
  have same : (core.step axi).exMem = core.exMem := by
    simp [step_exMem, noFlush_of_wbQuiet wb, stalled]
  have valid := ((stalled_iff core).mp stalled).2
  constructor
  · intro _
    rw [same]
    exact mem.bundle (Or.inl valid)
  · intro _ noAccess
    rw [exMemAccess, same] at noAccess
    exact excValid_step axi (mem.flag valid noAccess)

theorem memQuiet_step (ex : ExQuiet core) (mem : MemQuiet core)
    (wb : WbQuiet core) (clean : LsuClean core) :
    MemQuiet (core.step axi) := by
  have noFlush := noFlush_of_wbQuiet wb
  cases ready : core.exMemReadyOut with
  | false =>
      exact memQuiet_stall axi mem wb ready
  | true =>
      cases valid : core.idEx.validOut with
      | true =>
          have moved : (core.step axi).exMem = ⟨core.exMemIn, true⟩ := by
            simp [step_exMem, noFlush, ready, valid]
          constructor
          · intro _
            rw [moved]
            exact ex.bundle valid
          · intro _ noAccess
            rw [exMemAccess, moved] at noAccess
            have noEx : core.idExAccess = false := by
              simpa [idExAccess, exMemIn, executeBundle] using noAccess
            refine excValid_step axi ?_
            cases access : core.exMemAccess with
            | false => exact ex.flag valid noEx access
            | true => exact clean (lsuBusy_of_access access ready)
      | false =>
          have bubble : (core.step axi).exMem =
              ⟨core.exMem.dataOut, false⟩ := by
            simp [step_exMem, noFlush, ready, valid]
          constructor
          · rintro (isValid | busy)
            · rw [bubble] at isValid
              contradiction
            · rw [bubble]
              refine mem.bundle ?_
              rcases lsuBusy_step_cases busy with starts | was
              · exact Or.inl (valid_of_access (access_of_lsuStart starts))
              · exact Or.inr was
          · intro isValid
            rw [bubble] at isValid
            contradiction

/-- EX stays as quiet as it is while ID is held. -/
theorem exQuiet_step (ex : ExQuiet core) (wb : WbQuiet core)
    (held : core.ifIdReadyOut = false) : ExQuiet (core.step axi) := by
  have noFlush := noFlush_of_wbQuiet wb
  cases ready : core.idExReadyOut with
  | true =>
      have stall : core.hazardStall = true := by
        by_contra noStall
        simp [ifIdReadyOut_eq, ready, noStall] at held
      have bubble : (core.step axi).idEx = .empty := by
        simp [step_idEx, idExFlushHazard, stall, ready]
      constructor <;> intro valid <;> rw [bubble] at valid <;> cases valid
  | false =>
      have same := step_idEx_of_stall core axi ready noFlush
      rw [idEx_stalled_iff] at ready
      have sameMem : (core.step axi).exMem = core.exMem := by
        simp [step_exMem, noFlush, ready.1]
      constructor
      · rw [same]
        exact ex.bundle
      · intro valid noEx noMem
        rw [same] at valid
        rw [idExAccess, same] at noEx
        rw [exMemAccess, sameMem] at noMem
        exact excValid_step axi (ex.flag valid noEx noMem)

end Step

end Core

/-! ## The instruction of the call -/

namespace Tracked

variable {platform : Platform}

/-- The call that ends the simulation. -/
structure FirstCall (inputs : Nat → AxiIn) (power : Core platform)
    (call : Nat) : Prop where
  calls : (run inputs power call).core.ebreakCall = true
  first : ∀ earlier, earlier < call →
    (run inputs power earlier).core.ebreakCall = false

/-- The instruction with this number is in ID, EX or MEM. -/
def Pending (tracked : Tracked platform) (tag : Nat) : Prop :=
  tag ∈ tagsOf tracked.id ++ (tagsOf tracked.ex ++ tagsOf tracked.mem)

instance (tracked : Tracked platform) (tag : Nat) :
    Decidable (Pending tracked tag) :=
  inferInstanceAs (Decidable (_ ∈ _))

/-- The call was made for an `ebreak` that no older instruction squashes, and
when it reaches WB, behind all older ones, `a0` is the recorded code. -/
def RightPoint (inputs : Nat → AxiIn) (power : Core platform)
    (call : Nat) : Prop :=
  ∃ ticket, (run inputs power call).id = some ticket ∧
    (run inputs power call).core.idInst = EBREAK ∧
      ∀ later, call ≤ later →
        Pending (run inputs power later) ticket.tag ∨
          ∃ commit, call < commit ∧ commit ≤ later ∧
            ticket.tag ∈ tagsOf (run inputs power commit).wb ∧
            (run inputs power commit).core.gpr 10 =
              (run inputs power call).core.haltRet

/-- Where the instruction waits, with nothing but quiet ones in front. -/
inductive BehindQuiet (tracked : Tracked platform) (tag : Nat) : Prop where
  | id (ticket : Ticket) (inId : tracked.id = some ticket)
      (isTag : ticket.tag = tag) (ex : tracked.core.ExQuiet)
      (mem : tracked.core.MemQuiet) (wb : tracked.core.WbQuiet)
  | ex (ticket : Ticket) (inEx : tracked.ex = some ticket)
      (isTag : ticket.tag = tag) (mem : tracked.core.MemQuiet)
      (wb : tracked.core.WbQuiet)
  | mem (ticket : Ticket) (inMem : tracked.mem = some ticket)
      (isTag : ticket.tag = tag) (wb : tracked.core.WbQuiet)

namespace BehindQuiet

variable {tracked : Tracked platform} {tag : Nat}

theorem wbQuiet (waiting : BehindQuiet tracked tag) : tracked.core.WbQuiet := by
  cases waiting <;> assumption

theorem pending (waiting : BehindQuiet tracked tag) : Pending tracked tag := by
  cases waiting with
  | id ticket inId isTag =>
      simp [Pending, ← isTag, mem_tagsOf inId]
  | ex ticket inEx isTag =>
      simp [Pending, ← isTag, mem_tagsOf inEx]
  | mem ticket inMem isTag =>
      simp [Pending, ← isTag, mem_tagsOf inMem]

theorem step_id (axi : AxiIn) (synced : Synced tracked)
    (behind : tracked.core.OneBehind) (clean : tracked.core.LsuClean)
    {ticket : Ticket} (inId : tracked.id = some ticket)
    (ex : tracked.core.ExQuiet) (mem : tracked.core.MemQuiet)
    (wb : tracked.core.WbQuiet) :
    BehindQuiet (tracked.step axi) ticket.tag := by
  have noFlush := Core.noFlush_of_wbQuiet wb
  have valid : tracked.core.ifId.validOut = true := synced.id.valid inId
  have straight := behind.straight valid
  have noJump : tracked.core.jumpReq = false := by
    simp [Core.jumpReq, noFlush, straight]
  have memNext := Core.memQuiet_step axi ex mem wb clean
  have wbNext := Core.wbQuiet_step axi mem clean
  cases ready : tracked.core.ifIdReadyOut with
  | true =>
      have leaves : tracked.core.idExReadyOut = true ∧
          tracked.core.hazardStall = false := by
        simpa [Core.ifIdReadyOut_eq, valid] using ready
      have noBubble : tracked.core.idExFlush = false := by
        simp [Core.idExFlush, Core.idExFlushHazard, leaves, noFlush]
      obtain ⟨next, isDecoded, sameTag⟩ : ∃ next,
          tracked.decoded = some next ∧ next.tag = ticket.tag :=
        ⟨_, decoded_eq_some.mpr ⟨ticket, inId, rfl⟩, rfl⟩
      have inEx : (tracked.step axi).ex = some next :=
        advance_eq_some.mpr ⟨noBubble, Or.inl ⟨leaves.1, isDecoded⟩⟩
      exact .ex next inEx sameTag memNext wbNext
  | false =>
      obtain ⟨next, isSteered, sameTag⟩ : ∃ next,
          tracked.steered = some next ∧ next.tag = ticket.tag := by
        rw [steered, inId]
        exact ⟨_, rfl, rfl⟩
      have stays : (tracked.step axi).id = some next :=
        advance_eq_some.mpr ⟨noJump, Or.inr ⟨ready, isSteered⟩⟩
      exact .id next stays sameTag (Core.exQuiet_step axi ex wb ready)
        memNext wbNext

theorem step_ex (axi : AxiIn) (synced : Synced tracked)
    (clean : tracked.core.LsuClean) {ticket : Ticket}
    (inEx : tracked.ex = some ticket) (mem : tracked.core.MemQuiet)
    (wb : tracked.core.WbQuiet) :
    BehindQuiet (tracked.step axi) ticket.tag := by
  have noFlush := Core.noFlush_of_wbQuiet wb
  have valid : tracked.core.idEx.validOut = true := synced.ex.valid inEx
  have wbNext := Core.wbQuiet_step axi mem clean
  cases ready : tracked.core.exMemReadyOut with
  | true =>
      obtain ⟨next, isExecuted, sameTag⟩ : ∃ next,
          tracked.executed = some next ∧ next.tag = ticket.tag := by
        rw [executed, inEx]
        exact ⟨_, rfl, rfl⟩
      have inMem : (tracked.step axi).mem = some next :=
        advance_eq_some.mpr ⟨noFlush, Or.inl ⟨ready, isExecuted⟩⟩
      exact .mem next inMem sameTag wbNext
  | false =>
      have notReady : tracked.core.idExReadyOut = false := by
        simp [Core.idExReadyOut_eq, ready, valid]
      have noBubble : tracked.core.idExFlush = false := by
        simp [Core.idExFlush, Core.idExFlushHazard, notReady, noFlush]
      have stays : (tracked.step axi).ex = some ticket :=
        advance_eq_some.mpr ⟨noBubble, Or.inr ⟨notReady, inEx⟩⟩
      exact .ex ticket stays rfl (Core.memQuiet_stall axi mem wb ready)
        wbNext

theorem step_mem (axi : AxiIn) (synced : Synced tracked) {ticket : Ticket}
    (inMem : tracked.mem = some ticket) (wb : tracked.core.WbQuiet) :
    BehindQuiet (tracked.step axi) ticket.tag ∨
      ticket.tag ∈ tagsOf (tracked.step axi).wb := by
  have noFlush := Core.noFlush_of_wbQuiet wb
  have valid : tracked.core.exMem.validOut = true := synced.mem.valid inMem
  cases complete : tracked.core.memValid with
  | true =>
      right
      exact mem_tagsOf (wb_step_eq_some.mpr ⟨noFlush, complete, inMem⟩)
  | false =>
      left
      have stalled : tracked.core.exMemReadyOut = false :=
        (Core.stalled_iff _).mpr ⟨complete, valid⟩
      have stays : (tracked.step axi).mem = some ticket :=
        advance_eq_some.mpr ⟨noFlush, Or.inr ⟨stalled, inMem⟩⟩
      refine .mem ticket stays rfl fun committed => ?_
      have handed := ((Core.step_memWb_valid _ _).mp committed).2
      rw [complete] at handed
      contradiction

/-- Behind quiet instructions it moves on until it reaches WB. -/
theorem step (axi : AxiIn) (synced : Synced tracked)
    (behind : tracked.core.OneBehind) (clean : tracked.core.LsuClean)
    (waiting : BehindQuiet tracked tag) :
    BehindQuiet (tracked.step axi) tag ∨ tag ∈ tagsOf (tracked.step axi).wb := by
  cases waiting with
  | id ticket inId isTag ex mem wb =>
      rw [← isTag]
      exact Or.inl (step_id axi synced behind clean inId ex mem wb)
  | ex ticket inEx isTag mem wb =>
      rw [← isTag]
      exact Or.inl (step_ex axi synced clean inEx mem wb)
  | mem ticket inMem isTag wb =>
      rw [← isTag]
      exact step_mem axi synced inMem wb

end BehindQuiet

/-! ## Runs -/

theorem run_lsuClean (inputs : Nat → AxiIn) (power : Core platform)
    (cycle : Nat) : (run inputs power cycle).core.LsuClean := by
  induction cycle with
  | zero =>
      exact fun busy => by cases busy
  | succ cycle inductionHypothesis =>
      exact Core.lsuClean_step (inputs cycle) inductionHypothesis

/-- A word that calls now and did not before has just been captured. -/
theorem ifId_valid_of_call (axi : AxiIn) {core : Core platform}
    (before : core.ebreakCall = false)
    (calls : (core.step axi).ebreakCall = true) :
    (core.step axi).ifId.validOut = true := by
  have captured := core.step_ifId axi
  by_contra invalid
  rw [Bool.not_eq_true] at invalid
  have sameWord : (core.step axi).idInst = core.idInst ∨
      (core.step axi).idInst = 0 := by
    rw [Core.idInst, captured]
    rw [captured] at invalid
    split_ifs at invalid ⊢ with jump ready handed
    · exact Or.inr rfl
    · rw [handed] at invalid
      contradiction
    · exact Or.inl rfl
    · exact Or.inl rfl
  rcases sameWord with same | zero
  · rw [Core.ebreakCall, same] at calls
    rw [Core.ebreakCall, calls] at before
    contradiction
  · rw [Core.ebreakCall, zero] at calls
    exact absurd calls (by decide)

theorem FirstCall.valid {inputs : Nat → AxiIn} {power : Core platform}
    {call : Nat} (first : FirstCall inputs power call) :
    (run inputs power call).core.ifId.validOut = true := by
  cases call with
  | zero =>
      have quiet : (run inputs power 0).core.ebreakCall = false := rfl
      rw [first.calls] at quiet
      contradiction
  | succ before =>
      exact ifId_valid_of_call _ (first.first before (Nat.lt_succ_self _))
        first.calls

/-- From a call behind quiet instructions the `ebreak` is on its way until it
has reached WB, and `a0` does not change. -/
theorem run_waiting (inputs : Nat → AxiIn) (power : Core platform)
    {call tag : Nat} (waiting : BehindQuiet (run inputs power call) tag)
    {later : Nat} (after : call ≤ later) :
    BehindQuiet (run inputs power later) tag ∧
        (run inputs power later).core.haltRet =
          (run inputs power call).core.haltRet ∨
      ∃ commit, call < commit ∧ commit ≤ later ∧
        tag ∈ tagsOf (run inputs power commit).wb ∧
        (run inputs power commit).core.gpr 10 =
          (run inputs power call).core.haltRet := by
  induction later, after using Nat.le_induction with
  | base =>
      exact Or.inl ⟨waiting, rfl⟩
  | succ later after inductionHypothesis =>
      rcases inductionHypothesis with ⟨stillWaits, same⟩ |
        ⟨commit, afterCall, before, inWb, recorded⟩
      · have kept := Core.haltRet_step (inputs later) stillWaits.wbQuiet
        rcases stillWaits.step (inputs later)
          (run_synced inputs power later)
          (run_fetchSteered inputs power later).behind
          (run_lsuClean inputs power later) with waits | inWb
        · exact Or.inl ⟨waits, kept.trans same⟩
        · exact Or.inr ⟨later + 1, by omega, le_rfl, inWb, kept.trans same⟩
      · exact Or.inr ⟨commit, afterCall, by omega, inWb, recorded⟩

/-- A first call for a real `ebreak` behind quiet instructions ends the
simulation at the right point. -/
theorem run_rightPoint (inputs : Nat → AxiIn) (power : Core platform)
    {call : Nat} (first : FirstCall inputs power call)
    (settled : (run inputs power call).core.Settled) :
    RightPoint inputs power call := by
  obtain ⟨ticket, inId⟩ :=
    (run_synced inputs power call).id.exists_ticket first.valid
  have waiting : BehindQuiet (run inputs power call) ticket.tag :=
    .id ticket inId rfl settled.ex settled.mem settled.wb
  refine ⟨ticket, inId, settled.inst, fun later after => ?_⟩
  exact (run_waiting inputs power waiting after).imp_left
    fun stillWaits => stillWaits.1.pending

/-! ## A load and an `ebreak` -/

/-- `lui a0, 0`, `lui a1, 0x80000`, `lw a0, 4(a1)` and `ebreak`. -/
def loadThenEbreak : System .npc :=
  System.boot .npc [(0x80000000, 0x00000537), (0x80000004, 0x800005b7),
    (0x80000008, 0x0045a503), (0x8000000c, 0x00100073)]

/-- `lui a0, 1` and `ebreak`. -/
def luiThenEbreak : System .npc :=
  System.boot .npc [(0x80000000, 0x00001537), (0x80000004, 0x00100073)]

theorem run_rightPoint_at_lui :
    (promptRun luiThenEbreak 13).core.haltRet = 0x1000 ∧
      RightPoint (luiThenEbreak.inputs fun _ => Axi.Choice.prompt)
        (Core.zeroed .npc) 13 := by
  have quiet : ∀ earlier, earlier < 13 →
      (promptRun luiThenEbreak earlier).core.ebreakCall = false := by
    decide +kernel
  exact ⟨by decide +kernel,
    run_rightPoint _ _ ⟨by decide +kernel, quiet⟩ (by decide +kernel)⟩

/-- The call records `0`, and the load then writes `0x800005b7`. -/
theorem loadThenEbreak_notRightPoint :
    ¬ ∀ (platform : Platform) (inputs : Nat → AxiIn)
      (power : Core platform) (call : Nat),
      FirstCall inputs power call → RightPoint inputs power call := by
  intro claimed
  have quiet : ∀ earlier, earlier < 26 →
      (promptRun loadThenEbreak earlier).core.ebreakCall = false := by
    decide +kernel
  obtain ⟨ticket, inId, -, arrives⟩ := claimed .npc
    (loadThenEbreak.inputs fun _ => Axi.Choice.prompt) (Core.zeroed .npc) 26
    ⟨by decide +kernel, quiet⟩
  have early : (promptRun loadThenEbreak 26).core.haltRet = 0 ∧
      (promptRun loadThenEbreak 26).id.map Ticket.tag = some 3 ∧
      ¬ Pending (promptRun loadThenEbreak 31) 3 ∧
      ∀ commit, commit < 32 → 3 ∈ tagsOf (promptRun loadThenEbreak commit).wb →
        (promptRun loadThenEbreak commit).core.gpr 10 = 0x800005b7 := by
    decide +kernel
  obtain ⟨recorded, isThird, gone, written⟩ := early
  have isTag : ticket.tag = 3 := by
    have same := congrArg (Option.map Ticket.tag) inId
    exact Option.some.inj (same.symm.trans isThird)
  rcases arrives 31 (by decide) with pending | ⟨commit, -, before, inWb, same⟩
  · rw [isTag] at pending
    exact gone pending
  · rw [isTag] at inWb
    have value := written commit (by omega) inWb
    have impossible := value.symm.trans (same.trans recorded)
    exact absurd impossible (by decide)

end Tracked

end Ysyx.Rtl
