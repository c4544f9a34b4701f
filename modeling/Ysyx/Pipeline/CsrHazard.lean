import Ysyx.Pipeline.Order

/-!
# CSR read-after-write

A CSR instruction reads in EX and writes in WB, and nothing forwards or
stalls in between.  The value it returns is the current one exactly when the
writes pending in MEM and WB, in the cycle it leaves EX, do not change it.
-/

namespace Ysyx.Rtl

/-- The instruction in WB, decoded as `bundle`, returns and uses the value
its CSR has now, after every older instruction. -/
def Core.ReadsCurrentCsr {platform : Platform} (core : Core platform)
    (bundle : IdExData) : Prop :=
  core.wbFinalWdata = core.csr.read bundle.csrAddr ∧
    core.memWb.dataOut.csrWdata =
      Core.csrWdata bundle.func3 (core.csr.read bundle.csrAddr)
        (Core.csrOpData bundle core.memWb.dataOut.rs1Data)

instance {platform : Platform} (core : Core platform) (bundle : IdExData) :
    Decidable (core.ReadsCurrentCsr bundle) :=
  inferInstanceAs (Decidable (_ ∧ _))

namespace Tracked

variable {platform : Platform}

/-! ## The value that is due -/

/-- Each ticket in MEM and WB knows the value its CSR has when it is written
back. -/
structure CsrSettles (tracked : Tracked platform) : Prop where
  mem : ∀ ticket, tracked.mem = some ticket →
    (tracked.core.csr.next tracked.core.csrPort).read
      ticket.bundle.csrAddr = ticket.csrDue
  wb : ∀ ticket, tracked.wb = some ticket →
    tracked.core.csr.read ticket.bundle.csrAddr = ticket.csrDue

/-- The CSRs two clock edges on, when nothing is flushed. -/
theorem csr_next_next (axi : AxiIn) (core : Core platform)
    (noFlush : core.globalTrapFlush = false) :
    (core.step axi).csr.next (core.step axi).csrPort = core.csrDrained := by
  unfold Core.csrPort Core.csrDrained
  rw [Core.step_csr, Core.step_memWb]
  simp only [noFlush]
  cases core.memValid <;> rfl

theorem csrSettles_step (axi : AxiIn) (tracked : Tracked platform)
    (synced : Synced tracked) (settles : CsrSettles tracked) :
    CsrSettles (tracked.step axi) where
  mem := by
    intro ticket inMem
    obtain ⟨noFlush, moved⟩ := advance_eq_some.mp inMem
    change ((tracked.core.step axi).csr.next
      (tracked.core.step axi).csrPort).read _ = _
    rw [csr_next_next axi _ noFlush]
    rcases moved with ⟨_, isExecuted⟩ | ⟨ready, stayed⟩
    · obtain ⟨source, inEx, rfl⟩ := Option.map_eq_some_iff.mp isExecuted
      simp only [synced.ex.content source inEx]
    · have stalled := (Core.stalled_iff tracked.core).mp ready
      simp only [Core.csrDrained, stalled.1, Bool.false_eq_true, if_false]
      exact settles.mem ticket stayed
  wb := by
    intro ticket inWb
    exact settles.mem ticket (wb_step_eq_some.mp inWb).2.2

theorem run_csrSettles (inputs : Nat → AxiIn) (power : Core platform)
    (cycle : Nat) : CsrSettles (run inputs power cycle) := by
  induction cycle with
  | zero =>
      exact ⟨fun _ impossible => by simp [run] at impossible,
        fun _ impossible => by simp [run] at impossible⟩
  | succ cycle inductionHypothesis =>
      exact csrSettles_step _ _ (run_synced inputs power cycle)
        inductionHypothesis

/-! ## The value that is read -/

/-- What an instruction in WB returns and uses is what it read in EX. -/
theorem readsCurrentCsr_iff {tracked : Tracked platform}
    (synced : Synced tracked) {ticket : Ticket}
    (inWb : tracked.wb = some ticket)
    (isCsr : ticket.bundle.ctrlWb.isCsr = true) :
    tracked.core.ReadsCurrentCsr ticket.bundle ↔
      ticket.csrRead = tracked.core.csr.read ticket.bundle.csrAddr := by
  obtain ⟨_, rs1Final, rs2Final, lsu, content⟩ := synced.wb ticket inWb
  have returned : tracked.core.wbFinalWdata = ticket.csrRead := by
    simp [Core.wbFinalWdata, Core.finalWdata, content, Core.memoryBundle,
      Core.executeBundle, isCsr]
  have used : tracked.core.memWb.dataOut.csrWdata =
      Core.csrWdata ticket.bundle.func3 ticket.csrRead
        (Core.csrOpData ticket.bundle
          tracked.core.memWb.dataOut.rs1Data) := by
    simp [content, Core.memoryBundle, Core.executeBundle]
  unfold Core.ReadsCurrentCsr
  rw [returned, used]
  constructor
  · exact fun current => current.1
  · intro current
    exact ⟨current, by rw [current]⟩

/-- A CSR instruction that leaves EX in cycle `leave` and is written back in
cycle `commit` returns and uses the value its CSR has after every older
instruction, if and only if the instructions then in MEM and WB leave that
CSR at the value read. -/
theorem csrRead_current_iff (inputs : Nat → AxiIn) (power : Core platform)
    {leave commit : Nat} {source ticket : Ticket} (after : leave < commit)
    (inEx : (run inputs power leave).ex = some source)
    (isCsr : source.bundle.ctrlWb.isCsr = true)
    (leaves : (run inputs power leave).core.exMemReadyOut = true)
    (inWb : (run inputs power commit).wb = some ticket)
    (sameTag : ticket.tag = source.tag) :
    (run inputs power commit).core.ReadsCurrentCsr source.bundle ↔
      (run inputs power leave).core.csrDrained.read source.bundle.csrAddr =
        (run inputs power leave).core.csr.read source.bundle.csrAddr := by
  have addrEq : source.bundle.csrAddr =
      (run inputs power leave).core.idEx.dataOut.csrAddr := by
    rw [(run_synced inputs power leave).ex.content source inEx]
  obtain ⟨passed, isExecuted⟩ :
      ∃ passed, (run inputs power leave).executed = some passed := by
    simp [executed, inEx]
  have passedEq := isExecuted
  simp only [executed, inEx, Option.map_some, Option.some.injEq] at passedEq
  have past := run_pastEx inputs power after inEx isExecuted leaves
  have ticketEq : ticket = passed := by
    refine past.wb ticket inWb ?_
    rw [sameTag, ← passedEq]
  have bundleEq : ticket.bundle = source.bundle := by
    rw [ticketEq, ← passedEq]
  have due := (run_csrSettles inputs power commit).wb ticket inWb
  have reads := readsCurrentCsr_iff (run_synced inputs power commit) inWb
    (by rw [bundleEq]; exact isCsr)
  rw [bundleEq] at due reads
  rw [reads, due, ticketEq, ← passedEq, addrEq]
  exact eq_comm

/-- `lui x5, 0x80000`, and `lw x8, 0(x5)`, `csrrwi mscratch, 5` and
`csrrs x9, mscratch, x0` in cached lines.  The load holds the write in EX
until the read is fetched. -/
def csrPair : System .npc :=
  System.boot .npc
    [(0x80000000, 0x800002b7), (0x80000004, 0x0100006f),
      (0x80000008, 0x0002a403), (0x8000000c, 0x3402d073),
      (0x80000010, 0x340024f3), (0x80000014, 0xff5ff06f)]

theorem csrRead_current_iff_at_csrPair :
    ∃ source ticket,
      ((promptRun csrPair 44).ex = some source ∧
        (promptRun csrPair 46).wb = some ticket) ∧
      ((promptRun csrPair 46).core.ReadsCurrentCsr source.bundle ↔
        (promptRun csrPair 44).core.csrDrained.read source.bundle.csrAddr =
          (promptRun csrPair 44).core.csr.read source.bundle.csrAddr) := by
  have inEx : (promptRun csrPair 44).ex.isSome = true := by
    decide +kernel
  have inWb : (promptRun csrPair 46).wb.isSome = true := by
    decide +kernel
  have leaves : (promptRun csrPair 44).core.exMemReadyOut = true := by
    decide +kernel
  have csrAndTag :
      ∀ source ∈ (promptRun csrPair 44).ex,
        source.bundle.ctrlWb.isCsr = true ∧
          ∀ ticket ∈ (promptRun csrPair 46).wb,
            ticket.tag = source.tag := by
    decide +kernel
  obtain ⟨source, isSource⟩ := Option.isSome_iff_exists.mp inEx
  obtain ⟨ticket, isTicket⟩ := Option.isSome_iff_exists.mp inWb
  obtain ⟨isCsr, sameTag⟩ := csrAndTag source isSource
  exact ⟨source, ticket, ⟨isSource, isTicket⟩,
    csrRead_current_iff _ _ (by decide) isSource isCsr leaves isTicket
      (sameTag ticket isTicket)⟩

/-- The `csrrs` directly behind the `csrrwi` returns the old value. -/
theorem csrPair_readsStale :
    ¬ ∀ ticket, (promptRun csrPair 46).wb = some ticket →
      ticket.bundle.ctrlWb.isCsr = true →
      (promptRun csrPair 46).core.ReadsCurrentCsr ticket.bundle := by
  have stale :
      ∃ ticket ∈ (promptRun csrPair 46).wb,
        ticket.bundle.ctrlWb.isCsr = true ∧
          ¬ (promptRun csrPair 46).core.ReadsCurrentCsr ticket.bundle := by
    decide +kernel
  intro current
  obtain ⟨ticket, inWb, isCsr, notCurrent⟩ := stale
  exact notCurrent (current ticket inWb isCsr)

end Tracked

end Ysyx.Rtl
