import Ysyx.Pipeline.FrontEnd
import Ysyx.Pipeline.Order

/-!
# Operands in EX

An instruction is forwarded its operands in its first cycle in EX and reads
them from the latch afterwards.  The producers move on meanwhile, and what EX
computes from the operands does not change.
-/

namespace Ysyx.Rtl

variable {platform : Platform}

namespace Core

/-- EX has the same operands in both states, and computes the same branch
outcome, target, next pc, address and store data from them. -/
structure SameOperands (core other : Core platform) : Prop where
  rs1 : core.exRs1Final = other.exRs1Final
  rs2 : core.exRs2Final = other.exRs2Final
  taken : core.exBranchTaken = other.exBranchTaken
  target : core.exBranchTarget = other.exBranchTarget
  wnpc : core.exWnpc = other.exWnpc
  addr : core.exMemIn.aluResult = other.exMemIn.aluResult
  data : core.exMemIn.memWdata = other.exMemIn.memWdata

theorem sameOperands_of_final {core other : Core platform}
    (idEx : core.idEx = other.idEx)
    (rs1 : core.exRs1Final = other.exRs1Final)
    (rs2 : core.exRs2Final = other.exRs2Final) : SameOperands core other where
  rs1 := rs1
  rs2 := rs2
  taken := by rw [exBranchTaken, exBranchTaken, idEx, rs1, rs2]
  target := by rw [exBranchTarget, exBranchTarget, idEx, rs1]
  wnpc := by
    rw [exWnpc, exWnpc, exBranchTaken, exBranchTaken, exBranchTarget,
      exBranchTarget, idEx, rs1, rs2]
  addr := by
    simp only [exMemIn, executeBundle]
    rw [idEx, rs1, rs2]
  data := rs2

theorem SameOperands.symm {core other : Core platform}
    (same : SameOperands core other) : SameOperands other core :=
  ⟨same.rs1.symm, same.rs2.symm, same.taken.symm, same.target.symm,
    same.wnpc.symm, same.addr.symm, same.data.symm⟩

end Core

namespace Tracked

/-- The instruction has these operands in EX, or it has left EX. -/
def HeldOrPassed (ticket : Ticket) (idEx : Pipcon IdExData)
    (rs1 rs2 : Word) (tracked : Tracked platform) : Prop :=
  (tracked.ex = some ticket ∧ tracked.core.idEx = idEx ∧
      tracked.core.exRs1Final = rs1 ∧ tracked.core.exRs2Final = rs2) ∨
    Passed tracked ticket.tag

theorem heldOrPassed_step {ticket : Ticket} {idEx : Pipcon IdExData}
    {rs1 rs2 : Word} (axi : AxiIn) {tracked : Tracked platform}
    (inOrder : InOrder tracked)
    (held : HeldOrPassed ticket idEx rs1 rs2 tracked) :
    HeldOrPassed ticket idEx rs1 rs2 (tracked.step axi) := by
  rcases held with ⟨inEx, sameBundle, sameRs1, sameRs2⟩ | passed
  · by_cases stays : tracked.core.idExFlush = false ∧
        tracked.core.idExReadyOut = false
    · left
      obtain ⟨stall, valid⟩ := (Core.idEx_stalled_iff _).mp stays.2
      obtain ⟨keepsRs1, keepsRs2⟩ := Core.exFinal_step axi valid stall
      refine ⟨advance_eq_some.mpr ⟨stays.1, Or.inr ⟨stays.2, inEx⟩⟩, ?_,
        keepsRs1.trans sameRs1, keepsRs2.trans sameRs2⟩
      have noFlush : tracked.core.globalTrapFlush = false := by
        simpa [Core.idExFlush, Core.idExFlushHazard, stays.2] using stays.1
      exact (Core.step_idEx_of_stall _ axi stays.2 noFlush).trans sameBundle
    · right
      refine passed_step_of_younger axi (inOrder.ex_lt_next inEx)
        (fun _ inId => inOrder.ex_lt_id inEx inId) ?_
      intro noFlush stall
      exact absurd ⟨noFlush, stall⟩ stays
  · exact Or.inr (passed.step axi)

theorem run_heldOrPassed (inputs : Nat → AxiIn) (power : Core platform)
    {first later : Nat} (after : first ≤ later) {ticket : Ticket}
    (inEx : (run inputs power first).ex = some ticket) :
    let core := (run inputs power first).core
    HeldOrPassed ticket core.idEx core.exRs1Final core.exRs2Final
      (run inputs power later) := by
  induction later, after using Nat.le_induction with
  | base =>
      exact Or.inl ⟨inEx, rfl, rfl, rfl⟩
  | succ later _ inductionHypothesis =>
      exact heldOrPassed_step _ (run_inOrder inputs power later)
        inductionHypothesis

theorem sameOperands_of_le (inputs : Nat → AxiIn) (power : Core platform)
    {first later : Nat} (after : first ≤ later) {ticket other : Ticket}
    (inEx : (run inputs power first).ex = some ticket)
    (stillInEx : (run inputs power later).ex = some other)
    (same : ticket.tag = other.tag) :
    Core.SameOperands (run inputs power later).core
      (run inputs power first).core := by
  rcases run_heldOrPassed inputs power after inEx with
    ⟨-, sameBundle, sameRs1, sameRs2⟩ | passed
  · exact Core.sameOperands_of_final sameBundle sameRs1 sameRs2
  · have younger := passed other.tag (by simp [mem_tagsOf stillInEx])
    omega

/-- In all cycles of a run in which an instruction is in EX, its operands and
what EX computes from them are the same. -/
theorem run_sameOperands (inputs : Nat → AxiIn) (power : Core platform)
    {cycle cycle' : Nat} {ticket ticket' : Ticket}
    (inEx : (run inputs power cycle).ex = some ticket)
    (inEx' : (run inputs power cycle').ex = some ticket')
    (same : ticket.tag = ticket'.tag) :
    Core.SameOperands (run inputs power cycle).core
      (run inputs power cycle').core := by
  rcases Nat.le_total cycle cycle' with before | after
  · exact (sameOperands_of_le inputs power before inEx inEx' same).symm
  · exact sameOperands_of_le inputs power after inEx' inEx same.symm

/-- `nop`, `lui t0, 0x80000`, `lw ra, 64(t0)` and `sw t0, 68(t0)`. -/
def loadThenStore : System .npc :=
  System.boot .npc
    [(0x80000000, 0x00000013), (0x80000004, 0x800002b7),
      (0x80000008, 0x0402a083), (0x8000000c, 0x0452a223)]

/-- The store waits in EX for the load, and reads the latch at last. -/
theorem run_sameOperands_at_loadThenStore :
    (promptRun loadThenStore 27).core.exMemReadyOut = false ∧
      (promptRun loadThenStore 27).core.exLatch.exDataLatched = false ∧
      (promptRun loadThenStore 29).core.exLatch.exDataLatched = true ∧
      Core.SameOperands (promptRun loadThenStore 27).core
        (promptRun loadThenStore 29).core := by
  have stalls : (promptRun loadThenStore 27).core.exMemReadyOut = false ∧
      (promptRun loadThenStore 27).core.exLatch.exDataLatched = false ∧
      (promptRun loadThenStore 29).core.exLatch.exDataLatched = true := by
    decide +kernel
  have inEx : (promptRun loadThenStore 27).ex.isSome = true ∧
      (promptRun loadThenStore 29).ex.isSome = true := by
    decide +kernel
  have sameTag : ∀ ticket ∈ (promptRun loadThenStore 27).ex,
      ∀ ticket' ∈ (promptRun loadThenStore 29).ex,
        ticket.tag = ticket'.tag := by
    decide +kernel
  obtain ⟨ticket, isTicket⟩ := Option.isSome_iff_exists.mp inEx.1
  obtain ⟨ticket', isTicket'⟩ := Option.isSome_iff_exists.mp inEx.2
  exact ⟨stalls.1, stalls.2.1, stalls.2.2,
    run_sameOperands _ _ isTicket isTicket'
      (sameTag ticket isTicket ticket' isTicket')⟩

end Tracked

end Ysyx.Rtl
