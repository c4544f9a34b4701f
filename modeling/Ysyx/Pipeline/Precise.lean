import Ysyx.Pipeline.Commit

/-!
# Precise traps

A trap or an `mret` in WB flushes the pipeline one cycle after the next
instruction may have reached EX/MEM.  No younger instruction has an effect
exactly when none of them offers the LSU an access in a cycle of a flush.
-/

namespace Ysyx.Rtl

namespace Tracked

variable {platform : Platform}

/-! ## Effects -/

/-- Whatever the registers and CSRs change to, they change at a commit. -/
theorem step_state_of_invalid (core : Core platform) (axi : AxiIn)
    (noCommit : core.wbuValid = false) :
    (core.step axi).gpr = core.gpr ∧ (core.step axi).csr = core.csr := by
  have invalid : core.memWb.validOut = false := noCommit
  constructor
  · funext index
    simp [Core.step, Gpr.write, Core.rfWe, Gpr.rfWe, invalid]
  · simp [Core.step_csr, Csr.next, Core.csrPort, Core.wbCsrPort, invalid]

/-- From now on every instruction that reaches WB has at least this tag. -/
structure Floor (least : Nat) (tracked : Tracked platform) : Prop where
  next : least ≤ tracked.nextTag
  id : ∀ ticket, tracked.id = some ticket → least ≤ ticket.tag
  ex : ∀ ticket, tracked.ex = some ticket → least ≤ ticket.tag
  mem : ∀ ticket, tracked.mem = some ticket → least ≤ ticket.tag

theorem floor_step {least : Nat} (axi : AxiIn) (tracked : Tracked platform)
    (floor : Floor least tracked) : Floor least (tracked.step axi) where
  next := floor.next.trans (le_nextTag_step axi tracked)
  id := by
    intro ticket inId
    rcases id_step_cases inId with isNext | ⟨source, stayed, equalTag⟩
    · rw [isNext]
      exact floor.next
    · rw [equalTag]
      exact floor.id source stayed
  ex := by
    intro ticket inEx
    rcases (advance_eq_some.mp inEx).2 with ⟨_, isDecoded⟩ | ⟨_, stayed⟩
    · obtain ⟨source, inId, rfl⟩ := decoded_eq_some.mp isDecoded
      exact floor.id source inId
    · exact floor.ex ticket stayed
  mem := by
    intro ticket inMem
    rcases (advance_eq_some.mp inMem).2 with ⟨_, isExecuted⟩ | ⟨_, stayed⟩
    · obtain ⟨source, inEx, rfl⟩ := Option.map_eq_some_iff.mp isExecuted
      exact floor.ex source inEx
    · exact floor.mem ticket stayed

theorem floor_of_mem {tracked : Tracked platform} (inOrder : InOrder tracked)
    {oldest : Ticket} (inMem : tracked.mem = some oldest) :
    Floor oldest.tag tracked where
  next := (inOrder.mem_lt_next inMem).le
  id := fun _ inId => (inOrder.mem_lt_id inMem inId).le
  ex := fun _ inEx => (inOrder.mem_lt_ex inMem inEx).le
  mem := by
    intro ticket same
    rw [inMem] at same
    exact (congrArg Ticket.tag (Option.some.inj same)).le

theorem floor_of_wb {tracked : Tracked platform} (inOrder : InOrder tracked)
    {oldest : Ticket} (inWb : tracked.wb = some oldest) :
    Floor oldest.tag tracked where
  next := (inOrder.wb_lt_next inWb).le
  id := fun _ inId => (inOrder.wb_lt_id inWb inId).le
  ex := fun _ inEx => (inOrder.wb_lt_ex inWb inEx).le
  mem := fun _ inMem => (inOrder.wb_lt_mem inWb inMem).le

end Tracked

end Ysyx.Rtl
