import Ysyx.Pipeline.Handshake

/-!
# Following instructions through the pipeline

An observer of the core.  Each instruction that the fetch unit hands to IF/ID
receives the next number, and its ticket moves through four slots that are
clocked by the handshakes of the four pipeline registers.  The observer reads
the core and never drives it.
-/

namespace Ysyx.Rtl

/-- What is recorded about one instruction. -/
structure Ticket where
  /-- The place of the instruction in the order of the hand-overs by IFU. -/
  tag : Nat
  /-- Set in ID: where the RAS has last sent the fetch for it. -/
  steer : Option Word := none
  /-- The bundle captured by ID/EX. -/
  bundle : IdExData := {}
  /-- Set on leaving EX: the value read from its CSR there. -/
  csrRead : Word := 0
  /-- Set on leaving EX: the value its CSR has once the older instructions in
  MEM and WB are written back. -/
  csrDue : Word := 0
  deriving DecidableEq, Repr

/-! ## Slots -/

/-- The slot beside a pipeline register after one clock edge. -/
def advance {α : Type} (flush ready : Bool) (incoming held : Option α) :
    Option α :=
  if flush then none else if ready then incoming else held

theorem advance_eq_some {α : Type} {flush ready : Bool}
    {incoming held : Option α} {ticket : α} :
    advance flush ready incoming held = some ticket ↔
      flush = false ∧
        (ready = true ∧ incoming = some ticket ∨
          ready = false ∧ held = some ticket) := by
  cases flush <;> cases ready <;> simp [advance]

/-- The slot is filled exactly when the register is valid, and then the two
contents are related. -/
structure Pipcon.Follows {α τ : Type} (register : Pipcon α)
    (slot : Option τ) (related : τ → α → Prop) : Prop where
  filled : slot.isSome = register.validOut
  content : ∀ ticket, slot = some ticket → related ticket register.dataOut

theorem Pipcon.Follows.valid {α τ : Type} {register : Pipcon α}
    {slot : Option τ} {related : τ → α → Prop}
    (follows : register.Follows slot related) {ticket : τ}
    (filled : slot = some ticket) : register.validOut = true := by
  rw [← follows.filled, filled]
  rfl

theorem Pipcon.Follows.exists_ticket {α τ : Type} {register : Pipcon α}
    {slot : Option τ} {related : τ → α → Prop}
    (follows : register.Follows slot related)
    (valid : register.validOut = true) : ∃ ticket, slot = some ticket :=
  Option.isSome_iff_exists.mp (follows.filled.trans valid)

/-- A slot keeps following its register when the incoming contents match. -/
theorem Pipcon.Follows.next {α τ : Type} [Zero α] {register : Pipcon α}
    {slot : Option τ} {related : τ → α → Prop}
    (follows : register.Follows slot related)
    {flush validIn readyIn : Bool} {dataIn : α} {incoming : Option τ}
    (filledIn : incoming.isSome = validIn)
    (contentIn : ∀ ticket, incoming = some ticket → related ticket dataIn) :
    (register.next flush dataIn validIn readyIn).Follows
      (advance flush (register.readyOut readyIn) incoming slot) related := by
  subst filledIn
  unfold Pipcon.next advance
  cases flush with
  | true =>
      exact ⟨rfl, fun ticket impossible => by simp at impossible⟩
  | false =>
      cases register.readyOut readyIn with
      | false =>
          simpa using follows
      | true =>
          refine ⟨by simp, fun ticket isIncoming => ?_⟩
          simp only [Bool.false_eq_true, if_false, if_true] at isIncoming ⊢
          simpa [isIncoming] using contentIn ticket isIncoming

/-! ## The observer -/

/-- The core with the tickets of the instructions in its pipeline, and the
records of what entered EX, what was squashed there and what committed. -/
structure Tracked (platform : Platform) where
  core : Core platform
  nextTag : Nat := 0
  id : Option Ticket := none
  ex : Option Ticket := none
  mem : Option Ticket := none
  wb : Option Ticket := none
  entered : List Ticket := []
  squashed : List Nat := []
  committed : List (Option Nat × Word) := []

namespace Core

variable {platform : Platform}

/-- The CSRs after the instructions now in WB and leaving MEM are written
back. -/
def csrDrained (core : Core platform) : Csr :=
  let written := core.csr.next core.csrPort
  if core.memValid then written.next (wbCsrPort ⟨core.memWbIn, true⟩)
  else written

/-- `flush` of ID/EX. -/
def idExFlush (core : Core platform) : Bool :=
  core.idExFlushHazard || core.globalTrapFlush

end Core

namespace Tracked

variable {platform : Platform}

/-- The ticket the fetch unit hands over. -/
def fetched (tracked : Tracked platform) : Option Ticket :=
  if tracked.core.ifu.outValid then some { tag := tracked.nextTag } else none

/-- The ticket in ID after the answer of the RAS. -/
def steered (tracked : Tracked platform) : Option Ticket :=
  tracked.id.map fun ticket =>
    { ticket with
      steer :=
        if tracked.core.rasHit then some tracked.core.rasTarget
        else ticket.steer }

/-- The ticket that would enter EX. -/
def decoded (tracked : Tracked platform) : Option Ticket :=
  tracked.steered.map fun ticket =>
    { ticket with bundle := tracked.core.idExIn }

/-- The ticket that would enter MEM. -/
def executed (tracked : Tracked platform) : Option Ticket :=
  tracked.ex.map fun ticket =>
    { ticket with
      csrRead := tracked.core.csrRdata
      csrDue :=
        tracked.core.csrDrained.read tracked.core.idEx.dataOut.csrAddr }

/-- The ticket the LSU hands to WB. -/
def completed (tracked : Tracked platform) : Option Ticket :=
  if tracked.core.memValid then tracked.mem else none

/-- The ticket captured by ID/EX at this clock edge. -/
def entering (tracked : Tracked platform) : Option Ticket :=
  advance tracked.core.idExFlush tracked.core.idExReadyOut tracked.decoded
    none

/-- One clock edge of the core with its observer. -/
def step (axi : AxiIn) (tracked : Tracked platform) : Tracked platform :=
  let core := tracked.core
  { core := core.step axi
    nextTag :=
      if !core.jumpReq && core.ifIdReadyOut && core.ifu.outValid then
        tracked.nextTag + 1
      else tracked.nextTag
    id := advance core.jumpReq core.ifIdReadyOut tracked.fetched
      tracked.steered
    ex := advance core.idExFlush core.idExReadyOut tracked.decoded tracked.ex
    mem := advance core.globalTrapFlush core.exMemReadyOut tracked.executed
      tracked.mem
    wb := advance core.globalTrapFlush core.memWbReadyOut tracked.completed
      tracked.wb
    entered := tracked.entered ++ tracked.entering.toList
    squashed :=
      if core.globalTrapFlush then
        tracked.squashed ++
          (tracked.mem.toList ++ tracked.ex.toList).map Ticket.tag
      else tracked.squashed
    committed :=
      if core.wbuValid then
        tracked.committed ++
          [(tracked.wb.map Ticket.tag, core.memWb.dataOut.pc)]
      else tracked.committed }

/-- The observed run of a core that leaves reset. -/
def run (inputs : Nat → AxiIn) (power : Core platform) (cycle : Nat) :
    Tracked platform :=
  Machine.run step inputs { core := power.reset } cycle

/-- The observed run of a zeroed core in front of a memory. -/
def runOn (choices : Nat → Axi.Choice) (system : System platform)
    (cycle : Nat) : Tracked platform :=
  run (system.inputs choices) (Core.zeroed platform) cycle

/-- The observed run on a prompt memory. -/
def promptRun (system : System platform) (cycle : Nat) :
    Tracked platform :=
  runOn (fun _ => .prompt) system cycle

theorem run_core (inputs : Nat → AxiIn) (power : Core platform)
    (cycle : Nat) :
    (run inputs power cycle).core = power.reset.run inputs cycle :=
  Machine.run_view Tracked.core (fun _ _ => rfl) cycle

/-! ## Tickets and bundles -/

/-- What each ticket says about the pipeline register beside it. -/
structure Synced (tracked : Tracked platform) : Prop where
  id : tracked.core.ifId.Follows tracked.id fun _ _ => True
  ex : tracked.core.idEx.Follows tracked.ex fun ticket data =>
    ticket.bundle = data
  mem : tracked.core.exMem.Follows tracked.mem fun ticket data =>
    ∃ rs1Final rs2Final,
      data = Core.executeBundle ticket.bundle rs1Final rs2Final
        ticket.csrRead
  wb : ∀ ticket, tracked.wb = some ticket →
    tracked.core.memWb.validOut ∧
      ∃ rs1Final rs2Final, ∃ lsu : Lsu,
        tracked.core.memWb.dataOut =
          Core.memoryBundle
            (Core.executeBundle ticket.bundle rs1Final rs2Final
              ticket.csrRead) lsu

theorem synced_reset (power : Core platform) :
    Synced { core := power.reset } where
  id := ⟨rfl, fun _ _ => trivial⟩
  ex := ⟨rfl, fun _ impossible => by simp at impossible⟩
  mem := ⟨rfl, fun _ impossible => by simp at impossible⟩
  wb := fun _ impossible => by simp at impossible

/-- WB is filled by a completed access, and by nothing else. -/
theorem wb_step_eq_some {axi : AxiIn} {tracked : Tracked platform}
    {ticket : Ticket} :
    (tracked.step axi).wb = some ticket ↔
      tracked.core.globalTrapFlush = false ∧
        tracked.core.memValid = true ∧ tracked.mem = some ticket := by
  change advance _ _ _ _ = _ ↔ _
  simp only [advance_eq_some, Core.memWbReadyOut_eq, completed]
  cases tracked.core.memValid <;> simp

theorem decoded_eq_some {tracked : Tracked platform} {ticket : Ticket} :
    tracked.decoded = some ticket ↔
      ∃ source, tracked.id = some source ∧
        ticket =
          { source with
            steer :=
              if tracked.core.rasHit then some tracked.core.rasTarget
              else source.steer
            bundle := tracked.core.idExIn } := by
  cases inId : tracked.id with
  | none =>
      simp [decoded, steered, inId]
  | some source =>
      simp only [decoded, steered, inId, Option.map_some,
        Option.some.injEq, exists_eq_left']
      exact eq_comm

theorem synced_step (axi : AxiIn) (tracked : Tracked platform)
    (synced : Synced tracked) : Synced (tracked.step axi) where
  id := by
    have stays : tracked.core.ifId.Follows tracked.steered
        fun _ _ => True :=
      ⟨by simpa [steered] using synced.id.filled, fun _ _ => trivial⟩
    exact stays.next (by unfold fetched; split <;> simp_all)
      fun _ _ => trivial
  ex := by
    refine synced.ex.next ?_ ?_
    · simpa [decoded, steered] using synced.id.filled
    · intro ticket isDecoded
      obtain ⟨source, _, rfl⟩ := decoded_eq_some.mp isDecoded
      rfl
  mem := by
    refine synced.mem.next ?_ ?_
    · simpa [executed] using synced.ex.filled
    · intro ticket isExecuted
      obtain ⟨held, isHeld, rfl⟩ := Option.map_eq_some_iff.mp isExecuted
      exact ⟨tracked.core.exRs1Final, tracked.core.exRs2Final, by
        rw [synced.ex.content held isHeld]
        rfl⟩
  wb := by
    intro ticket inWb
    obtain ⟨noFlush, complete, inMem⟩ := wb_step_eq_some.mp inWb
    obtain ⟨rs1Final, rs2Final, bundleEq⟩ :=
      synced.mem.content ticket inMem
    have memWbEq : (tracked.step axi).core.memWb =
        ⟨tracked.core.memWbIn, true⟩ := by
      simp [step, Core.step_memWb, noFlush, complete]
    rw [memWbEq]
    exact ⟨rfl, rs1Final, rs2Final, tracked.core.lsu, by
      rw [← bundleEq]
      rfl⟩

/-- In every state of an observed run the tickets match the pipeline. -/
theorem run_synced (inputs : Nat → AxiIn) (power : Core platform)
    (cycle : Nat) : Synced (run inputs power cycle) :=
  Machine.run_invariant (synced_reset power) synced_step cycle

/-! ## Bundles on their way -/

/-- The ticket is in EX, MEM or WB. -/
def Holds (tracked : Tracked platform) (ticket : Ticket) : Prop :=
  tracked.ex = some ticket ∨ tracked.mem = some ticket ∨
    tracked.wb = some ticket

/-- A property of bundles that decode establishes is kept by every ticket
through the stages. -/
theorem bundle_step {Keeps : IdExData → Prop} (axi : AxiIn)
    {tracked : Tracked platform} (decodes : Keeps tracked.core.idExIn)
    (held : ∀ ticket, tracked.Holds ticket → Keeps ticket.bundle) :
    ∀ ticket, (tracked.step axi).Holds ticket → Keeps ticket.bundle := by
  rintro ticket (inEx | inMem | inWb)
  · rcases (advance_eq_some.mp inEx).2 with ⟨_, isDecoded⟩ | ⟨_, stayed⟩
    · obtain ⟨source, _, rfl⟩ := decoded_eq_some.mp isDecoded
      exact decodes
    · exact held ticket (Or.inl stayed)
  · rcases (advance_eq_some.mp inMem).2 with ⟨_, isExecuted⟩ | ⟨_, stayed⟩
    · obtain ⟨source, inEx, rfl⟩ := Option.map_eq_some_iff.mp isExecuted
      exact held source (Or.inl inEx)
    · exact held ticket (Or.inr (Or.inl stayed))
  · exact held ticket (Or.inr (Or.inl (wb_step_eq_some.mp inWb).2.2))

end Tracked

end Ysyx.Rtl
