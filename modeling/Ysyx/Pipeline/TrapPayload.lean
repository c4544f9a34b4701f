import Ysyx.Pipeline.Tickets

/-!
# The payload of an exception

An instruction flagged in IF or ID carries a cause and a trap value to the
CSRs.  `ex_mem_in` drives neither of the two fields, so that only `ecall`,
whose cause is chosen again in WB, keeps its payload.
-/

namespace Ysyx.Rtl

/-! ## Exceptions raised in IF and ID -/

theorem controller_exception (opcode : BitVec 7) (func3 : BitVec 3)
    (func7 : BitVec 7) (instr : Word) :
    (controller opcode func3 func7 instr).excValid = true →
      ((controller opcode func3 func7 instr).isEcall = true ∧
          (controller opcode func3 func7 instr).excCause = 11 ∧
          (controller opcode func3 func7 instr).excTval = 0) ∨
        ((controller opcode func3 func7 instr).isEcall = false ∧
          (controller opcode func3 func7 instr).excCause = 2) := by
  apply controller_cases (fun out => out.excValid = true →
    (out.isEcall = true ∧ out.excCause = 11 ∧ out.excTval = 0) ∨
      (out.isEcall = false ∧ out.excCause = 2))
  case ecall =>
    exact fun _ _ _ => Or.inl ⟨rfl, rfl, rfl⟩
  case other =>
    exact fun _ => Or.inr ⟨rfl, rfl⟩
  all_goals simp

/-- With an OKAY response the fetch unit flags nothing. -/
theorem Ifu.next_excValid (ifu : Ifu) (port : Ifu.In)
    (okay : port.ifuRresp = 0) (clear : ifu.excValid = false) :
    (ifu.next port).excValid = false := by
  unfold Ifu.next
  cases ifu.state <;> simp only [okay] <;> split_ifs <;> simp_all

/-- The payload of a flagged bundle, by the kind of its instruction. -/
def IdExData.PayloadSource (bundle : IdExData) : Prop :=
  bundle.excValid = true →
    (bundle.ctrlWb.isEcall = true ∧ bundle.excCause = 11 ∧
        bundle.excTval = 0) ∨
      (bundle.ctrlWb.isEcall = false ∧ bundle.excCause = 2)

theorem payloadSource_decodeBundle {data : IfIdData}
    (unflagged : data.excValid = false) (rs1Data rs2Data : Word)
    (rasHit : Bool) (rasTarget : Word) :
    (Core.decodeBundle data rs1Data rs2Data rasHit
      rasTarget).PayloadSource := by
  intro flagged
  simp only [Core.decodeBundle, unflagged, Bool.false_eq_true,
    if_false] at flagged ⊢
  exact controller_exception _ _ _ _ flagged

namespace Tracked

variable {platform : Platform}

/-- No fetch is flagged, and every flagged instruction was flagged in ID. -/
structure PayloadSources (tracked : Tracked platform) : Prop where
  ifu : tracked.core.ifu.excValid = false
  ifId : tracked.core.ifId.dataOut.excValid = false
  bundle : ∀ ticket, tracked.Holds ticket → ticket.bundle.PayloadSource

theorem payloadSources_reset (power : Core platform) :
    PayloadSources { core := power.reset } where
  ifu := rfl
  ifId := rfl
  bundle := fun ticket holds => by simp [Holds] at holds

theorem payloadSources_step (axi : AxiIn) (tracked : Tracked platform)
    (sources : PayloadSources tracked) :
    PayloadSources (tracked.step axi) where
  ifu := Ifu.next_excValid _ _ rfl sources.ifu
  ifId := by
    change (tracked.core.ifId.next _ _ _ _).dataOut.excValid = false
    unfold Pipcon.next
    split_ifs
    · rfl
    · exact sources.ifu
    · exact sources.ifId
    · exact sources.ifId
  bundle :=
    bundle_step axi (payloadSource_decodeBundle sources.ifId _ _ _ _)
      sources.bundle

theorem run_payloadSources (inputs : Nat → AxiIn) (power : Core platform)
    (cycle : Nat) : PayloadSources (run inputs power cycle) :=
  Machine.run_invariant (payloadSources_reset power) payloadSources_step
    cycle

end Tracked

/-! ## Trap entry -/

/-- The trap CSRs hold the pc and the payload of the bundle. -/
def Csr.HoldsPayload (csr : Csr) (bundle : IdExData) : Prop :=
  csr.mepc = bundle.pc ∧ csr.mcause = bundle.excCause ∧
    csr.mtval = bundle.excTval

instance (csr : Csr) (bundle : IdExData) :
    Decidable (csr.HoldsPayload bundle) :=
  inferInstanceAs (Decidable (_ ∧ _))

/-- The CSRs after a flagged instruction leaves WB. -/
theorem next_of_flagged (csr : Csr) {bundle : IdExData}
    {rs1Final rs2Final csrRdata : Word} {lsu : Lsu}
    {memWb : Pipcon MemWbData} (valid : memWb.validOut = true)
    (content : memWb.dataOut = Core.memoryBundle
      (Core.executeBundle bundle rs1Final rs2Final csrRdata) lsu)
    (flagged : bundle.excValid = true) :
    csr.next (Core.wbCsrPort memWb) =
      { csr with
        mepc := bundle.pc
        mtval := undriven
        mcause := if bundle.ctrlWb.isEcall then 11 else undriven
        mstatus := Csr.trapMstatus csr.mstatus } := by
  simp [Csr.next, Core.wbCsrPort, valid, content, Core.memoryBundle,
    Core.executeBundle, flagged]

namespace Tracked

variable {platform : Platform}

/-- The trap that a flagged instruction commits writes its pc, its cause and
its trap value if and only if the instruction is an `ecall`. -/
theorem trapPayload_iff_ecall (inputs : Nat → AxiIn)
    (power : Core platform) (cycle : Nat) (ticket : Ticket)
    (committing : (run inputs power cycle).wb = some ticket)
    (flagged : ticket.bundle.excValid = true) :
    (run inputs power (cycle + 1)).core.csr.HoldsPayload ticket.bundle ↔
      ticket.bundle.ctrlWb.isEcall = true := by
  obtain ⟨valid, rs1Final, rs2Final, lsu, content⟩ :=
    (run_synced inputs power cycle).wb ticket committing
  have csrNext := next_of_flagged (run inputs power cycle).core.csr valid
    content flagged
  have csrEq : (run inputs power (cycle + 1)).core.csr =
      (run inputs power cycle).core.csr.next
        (Core.wbCsrPort (run inputs power cycle).core.memWb) := rfl
  rw [csrEq, csrNext]
  rcases (run_payloadSources inputs power cycle).bundle ticket
      (Or.inr (Or.inr committing)) flagged with
    ⟨isEcall, cause, value⟩ | ⟨notEcall, cause⟩
  · simp [Csr.HoldsPayload, isEcall, cause, value, undriven]
  · simp [Csr.HoldsPayload, notEcall, cause, undriven]

/-- A word that is no instruction, at the start address. -/
def illegalWord : System .npc :=
  System.boot .npc [(0x80000000, 0xffffffff)]

/-- An `ecall` at the start address. -/
def ecallWord : System .npc :=
  System.boot .npc [(0x80000000, 0x00000073)]

theorem trapPayload_iff_ecall_at_ecall :
    ∃ ticket, ((promptRun ecallWord 12).wb = some ticket ∧
        ticket.bundle.excValid = true) ∧
      ((promptRun ecallWord 13).core.csr.HoldsPayload ticket.bundle ↔
        ticket.bundle.ctrlWb.isEcall = true) := by
  have present : (promptRun ecallWord 12).wb.isSome = true := by
    decide +kernel
  obtain ⟨ticket, committing⟩ := Option.isSome_iff_exists.mp present
  have flagged :
      ∀ held ∈ (promptRun ecallWord 12).wb,
        held.bundle.excValid = true := by
    decide +kernel
  have isFlagged := flagged ticket committing
  exact ⟨ticket, ⟨committing, isFlagged⟩,
    trapPayload_iff_ecall _ _ 12 ticket committing isFlagged⟩

/-- The trap of an illegal word reaches WB with cause 2 and writes 0. -/
theorem illegalWord_losesPayload :
    ¬ ∀ ticket, (promptRun illegalWord 12).wb = some ticket →
      ticket.bundle.excValid = true →
      (promptRun illegalWord 13).core.csr.HoldsPayload ticket.bundle := by
  have lost :
      ∃ held ∈ (promptRun illegalWord 12).wb,
        held.bundle.excValid = true ∧
          ¬ (promptRun illegalWord 13).core.csr.HoldsPayload held.bundle := by
    decide +kernel
  rintro kept
  obtain ⟨ticket, committing, flagged, notKept⟩ := lost
  exact notKept (kept ticket committing flagged)

end Tracked

end Ysyx.Rtl
