import Ysyx.Memory.Completion
import Ysyx.Memory.Prompt
import Ysyx.Pipeline.Occupancy
import Ysyx.Pipeline.Order

/-!
# Exactly-once commit

What enters EX, what is squashed there by a trap, what is in flight and what
commits always balance, as long as no access escapes into the LSU while the
pipeline is flushed.
-/

namespace Ysyx.Rtl

/-- What a commit of the instruction reports: its number and its pc. -/
def Ticket.line (ticket : Ticket) : Option Nat × Word :=
  (some ticket.tag, ticket.bundle.pc)

namespace Tracked

variable {platform : Platform}

/-- The instructions in WB, MEM and EX, oldest first. -/
def inFlight (tracked : Tracked platform) : List Ticket :=
  tracked.wb.toList ++ tracked.mem.toList ++ tracked.ex.toList

/-- The instructions that entered EX and were not squashed there. -/
def surviving (tracked : Tracked platform) : List Ticket :=
  tracked.entered.filter fun ticket => ticket.tag ∉ tracked.squashed

section Statement

variable (inputs : Nat → AxiIn) (power : Core platform)

/-- The LSU has started the access of an instruction, has started nothing
since, and the instruction has been in EX/MEM all the time. -/
structure ServedSince (ticket : Ticket) (start cycle : Nat) : Prop where
  starts : (run inputs power start).core.lsuStart = true
  alone : ∀ between, start < between → between ≤ cycle →
    (run inputs power between).core.lsuStart = false
  held : ∀ between, start ≤ between → between ≤ cycle →
    (run inputs power between).mem = some ticket

/-- `out_valid` of the LSU is for the instruction in EX/MEM: one that is no
access while the LSU is idle, or one whose access it has started. -/
structure CompletesFor (ticket : Ticket) (cycle : Nat) : Prop where
  held : (run inputs power cycle).mem = some ticket
  valid : (run inputs power cycle).core.exMem.validOut = true
  idle : (run inputs power cycle).core.exMemAccess = false →
    (run inputs power cycle).core.lsuBusy = false
  served : (run inputs power cycle).core.exMemAccess = true →
    ∃ start < cycle, ServedSince inputs power ticket start cycle

/-- Every surviving instruction is committed once with its pc, or in flight
once, in program order; nothing else commits, and the LSU completes only for
the instruction in EX/MEM. -/
structure ExactlyOnce (cycle : Nat) : Prop where
  balance : (run inputs power cycle).surviving.map Ticket.line =
    (run inputs power cycle).committed ++
      (run inputs power cycle).inFlight.map Ticket.line
  order : ((run inputs power cycle).entered.map Ticket.tag).Pairwise
    (· < ·)
  owner : (run inputs power cycle).core.memValid = true →
    ∃ ticket, CompletesFor inputs power ticket cycle

end Statement

/-! ## Commits have tickets -/

/-- What one state of a run without escapes satisfies. -/
structure Contained (tracked : Tracked platform) : Prop where
  synced : Synced tracked
  owned : tracked.core.LsuOwned
  filled : tracked.wb.isSome = tracked.core.memWb.validOut

theorem contained_reset (power : Core platform) :
    Contained { core := power.reset } where
  synced := synced_reset power
  owned := Core.lsuOwned_reset power
  filled := rfl

theorem contained_step (axi : AxiIn) (tracked : Tracked platform)
    (contained : Contained tracked)
    (noEscape : tracked.core.trapEscape = false) :
    Contained (tracked.step axi) where
  synced := synced_step axi tracked contained.synced
  owned := Core.lsuOwned_step axi _ contained.owned noEscape
  filled := by
    rw [Bool.eq_iff_iff, Option.isSome_iff_exists]
    change _ ↔ (tracked.core.step axi).memWb.validOut = true
    simp only [wb_step_eq_some, Core.step_memWb_valid, exists_and_left]
    refine and_congr_right fun _ =>
      ⟨fun complete => complete.1, fun complete => ⟨complete, ?_⟩⟩
    exact contained.synced.mem.exists_ticket
      (contained.owned.valid_of_memValid complete)

theorem run_contained (inputs : Nat → AxiIn) (power : Core platform)
    (cycle : Nat)
    (noEscape : ∀ earlier, earlier < cycle →
      (run inputs power earlier).core.trapEscape = false) :
    Contained (run inputs power cycle) :=
  Machine.run_invariant_until (contained_reset power) contained_step cycle
    noEscape

/-! ## The ledger -/

/-- The lines of the instructions in a slot. -/
def linesOf (slot : Option Ticket) : List (Option Nat × Word) :=
  slot.toList.map Ticket.line

theorem linesOf_executed (tracked : Tracked platform) :
    linesOf tracked.executed = linesOf tracked.ex := by
  cases h : tracked.ex <;> simp [linesOf, executed, h, Ticket.line]

theorem map_line_inFlight (tracked : Tracked platform) :
    tracked.inFlight.map Ticket.line =
      linesOf tracked.wb ++ linesOf tracked.mem ++ linesOf tracked.ex := by
  simp [inFlight, linesOf]

/-- Without a flush, what moves between the stages is what was there. -/
theorem inFlight_step (axi : AxiIn) {tracked : Tracked platform}
    (synced : Synced tracked)
    (noFlush : tracked.core.globalTrapFlush = false) :
    linesOf tracked.wb ++
        (tracked.step axi).inFlight.map Ticket.line =
      tracked.inFlight.map Ticket.line ++ linesOf tracked.entering := by
  have wbEq : (tracked.step axi).wb =
      sent tracked.core.exMemReadyOut tracked.mem := by
    rw [← completed_eq_sent synced]
    simp [step, advance, noFlush]
  have memEq : (tracked.step axi).mem =
      advance false tracked.core.exMemReadyOut tracked.executed
        tracked.mem := by
    simp [step, noFlush]
  have exEq : (tracked.step axi).ex =
      advance tracked.core.idExFlush tracked.core.idExReadyOut
        tracked.decoded tracked.ex := rfl
  rw [map_line_inFlight, map_line_inFlight, wbEq, memEq, exEq]
  have exFilled := synced.ex.filled
  cases ready : tracked.core.exMemReadyOut with
  | true =>
      have idExReady := tracked.core.idExReadyOut_of_exMemReadyOut ready
      have executedLines := linesOf_executed tracked
      simp only [linesOf] at executedLines
      simp [sent, advance, executedLines, entering, idExReady, linesOf]
  | false =>
      cases held : tracked.ex with
      | none =>
          have idExReady : tracked.core.idExReadyOut = true := by
            simp [Core.idExReadyOut_eq, ← exFilled, held]
          simp [sent, advance, entering, idExReady, linesOf]
      | some ticket =>
          have idExStall : tracked.core.idExReadyOut = false := by
            simp [Core.idExReadyOut_eq, ← exFilled, held, ready]
          have keeps : tracked.core.idExFlush = false := by
            simp [Core.idExFlush, Core.idExFlushHazard, idExStall, noFlush]
          simp [sent, advance, entering, idExStall, keeps, linesOf]

/-- In a flush everything but WB is squashed. -/
theorem inFlight_step_flush (axi : AxiIn) {tracked : Tracked platform}
    (flush : tracked.core.globalTrapFlush = true) :
    (tracked.step axi).inFlight = [] ∧ tracked.entering = none := by
  simp [inFlight, step, advance, entering, Core.idExFlush, flush]

theorem filter_older {older younger : List Ticket}
    (order : ((older ++ younger).map Ticket.tag).Pairwise (· < ·)) :
    ((older ++ younger).filter fun ticket =>
      ticket.tag ∉ younger.map Ticket.tag) = older := by
  rw [List.map_append, List.pairwise_append] at order
  rw [List.filter_append]
  have olderKept : (older.filter fun ticket =>
      ticket.tag ∉ younger.map Ticket.tag) = older := by
    refine List.filter_eq_self.mpr fun ticket inOlder => ?_
    rw [decide_eq_true_eq]
    intro inYounger
    exact lt_irrefl _ (order.2.2 _ (List.mem_map_of_mem inOlder) _ inYounger)
  have youngerGone : (younger.filter fun ticket =>
      ticket.tag ∉ younger.map Ticket.tag) = [] := by
    refine List.filter_eq_nil_iff.mpr fun ticket inYounger => ?_
    simpa using ⟨ticket, inYounger, rfl⟩
  rw [olderKept, youngerGone, List.append_nil]

/-- The bookkeeping that goes with the balance: the records only name
instructions older than those still in front of EX. -/
structure Ledger (tracked : Tracked platform) : Prop where
  balance : tracked.surviving.map Ticket.line =
    tracked.committed ++ tracked.inFlight.map Ticket.line
  order : ((tracked.entered.map Ticket.tag ++ tagsOf tracked.id) ++
    [tracked.nextTag]).Pairwise (· < ·)
  squashed : ∀ tag ∈ tracked.squashed,
    tag ∈ tracked.entered.map Ticket.tag

theorem ledger_reset (power : Core platform) :
    Ledger { core := power.reset } where
  balance := rfl
  order := by simp [tagsOf]
  squashed := by simp

theorem order_step (axi : AxiIn) {tracked : Tracked platform}
    (ledger : Ledger tracked) :
    ((tracked.step axi).entered.map Ticket.tag ++
        tagsOf (tracked.step axi).id ++
      [(tracked.step axi).nextTag]).Pairwise (· < ·) := by
  have enteringPart : (tagsOf tracked.entering).Sublist
      (tagsOf (sent tracked.core.ifIdReadyOut tracked.id)) := by
    simpa [kept, tagsOf, entering] using
      tagsOf_idEx_sublist tracked none
  have moved := enteringPart.append (tagsOf_ifId_sublist axi tracked)
  rw [← List.append_assoc, tagsOf_sent_append_kept] at moved
  have enteredEq : (tracked.step axi).entered.map Ticket.tag =
      tracked.entered.map Ticket.tag ++ tagsOf tracked.entering := by
    cases h : tracked.entering <;> simp [step, tagsOf, h]
  rw [enteredEq]
  refine (fresh_step axi ledger.order).sublist
    (List.Sublist.append_right ?_ _)
  simpa only [List.append_assoc] using
    moved.append_left (tracked.entered.map Ticket.tag)

theorem entering_not_squashed {tracked : Tracked platform}
    (ledger : Ledger tracked) {ticket : Ticket}
    (enters : tracked.entering = some ticket) :
    ticket.tag ∉ tracked.squashed := by
  intro isSquashed
  obtain ⟨_, ⟨_, isDecoded⟩ | ⟨_, impossible⟩⟩ := advance_eq_some.mp enters
  · obtain ⟨source, inId, rfl⟩ := decoded_eq_some.mp isDecoded
    have order := ledger.order
    rw [List.append_assoc, List.pairwise_append] at order
    have below := order.2.2 _ (ledger.squashed _ isSquashed) source.tag
      (List.mem_append_left _ (mem_tagsOf inId))
    exact lt_irrefl _ below
  · contradiction

/-- A commit is recorded with the ticket in WB and its own pc. -/
theorem committed_step (axi : AxiIn) {tracked : Tracked platform}
    (contained : Contained tracked) :
    (tracked.step axi).committed =
      tracked.committed ++ linesOf tracked.wb := by
  have filled := contained.filled
  change (if tracked.core.memWb.validOut then _ else _) = _
  rw [← filled]
  cases held : tracked.wb with
  | none =>
      simp [linesOf]
  | some ticket =>
      obtain ⟨_, rs1Final, rs2Final, lsu, content⟩ :=
        contained.synced.wb ticket held
      simp [linesOf, Ticket.line, content, Core.memoryBundle,
        Core.executeBundle]

theorem map_tag_eq_of_map_line_eq {left right : List Ticket}
    (sameLines : left.map Ticket.line = right.map Ticket.line) :
    left.map Ticket.tag = right.map Ticket.tag := by
  have sameFirst := congrArg (List.map fun line => line.1.getD 0) sameLines
  simpa [Function.comp_def, Ticket.line] using sameFirst

theorem surviving_step (axi : AxiIn) (tracked : Tracked platform)
    (ledger : Ledger tracked)
    (noFlush : tracked.core.globalTrapFlush = false) :
    (tracked.step axi).surviving =
      tracked.surviving ++ tracked.entering.toList := by
  have sameSquashed : (tracked.step axi).squashed = tracked.squashed := by
    simp [step, noFlush]
  unfold surviving
  rw [sameSquashed]
  change List.filter _ (tracked.entered ++ tracked.entering.toList) = _
  rw [List.filter_append]
  congr 1
  cases enters : tracked.entering with
  | none =>
      rfl
  | some ticket =>
      simp [entering_not_squashed ledger enters]

theorem surviving_step_flush (axi : AxiIn) (tracked : Tracked platform)
    (flush : tracked.core.globalTrapFlush = true) :
    (tracked.step axi).surviving =
      tracked.surviving.filter fun ticket =>
        ticket.tag ∉ (tracked.mem.toList ++ tracked.ex.toList).map
          Ticket.tag := by
  have nothing := (inFlight_step_flush axi flush).2
  have sameEntered : (tracked.step axi).entered = tracked.entered := by
    simp [step, nothing]
  have moreSquashed : (tracked.step axi).squashed = tracked.squashed ++
      (tracked.mem.toList ++ tracked.ex.toList).map Ticket.tag := by
    simp [step, flush]
  unfold surviving
  rw [sameEntered, moreSquashed, List.filter_filter]
  refine List.filter_congr fun ticket _ => ?_
  simp only [List.mem_append, not_or, Bool.decide_and, Bool.and_comm]

/-- A flush keeps the balance: the survivors are what is committed. -/
theorem balance_step_flush (axi : AxiIn) {tracked : Tracked platform}
    (contained : Contained tracked) (ledger : Ledger tracked)
    (flush : tracked.core.globalTrapFlush = true) :
    (tracked.step axi).surviving.map Ticket.line =
      (tracked.step axi).committed ++
        (tracked.step axi).inFlight.map Ticket.line := by
  have balance := ledger.balance
  unfold inFlight at balance
  rw [List.append_assoc, List.map_append, ← List.append_assoc] at balance
  obtain ⟨older, younger, survivors, olderLines, youngerLines⟩ :=
    List.map_eq_append_iff.mp balance
  have order : ((older ++ younger).map Ticket.tag).Pairwise (· < ·) := by
    rw [← survivors]
    have entered := ledger.order
    rw [List.append_assoc, List.pairwise_append] at entered
    exact entered.1.sublist (List.filter_sublist.map _)
  rw [surviving_step_flush axi tracked flush, survivors,
    ← map_tag_eq_of_map_line_eq youngerLines, filter_older order,
    (inFlight_step_flush axi flush).1, committed_step axi contained,
    olderLines]
  simp [linesOf]

theorem ledger_step (axi : AxiIn) {tracked : Tracked platform}
    (contained : Contained tracked) (ledger : Ledger tracked) :
    Ledger (tracked.step axi) where
  balance := by
    cases flush : tracked.core.globalTrapFlush with
    | true =>
        exact balance_step_flush axi contained ledger flush
    | false =>
        rw [surviving_step axi tracked ledger flush, List.map_append,
          ledger.balance, committed_step axi contained, List.append_assoc,
          List.append_assoc, inFlight_step axi contained.synced flush]
        rfl
  order := order_step axi ledger
  squashed := by
    intro tag isSquashed
    have grows : tracked.entered.map Ticket.tag ⊆
        (tracked.step axi).entered.map Ticket.tag :=
      List.map_subset _ (List.subset_append_left _ _)
    refine grows ?_
    change tag ∈ (if tracked.core.globalTrapFlush then _ else _)
      at isSquashed
    split_ifs at isSquashed
    · rcases List.mem_append.mp isSquashed with before | now
      · exact ledger.squashed tag before
      · obtain ⟨ticket, inPipe, rfl⟩ := List.mem_map.mp now
        have inBalance : ticket.line ∈
            tracked.surviving.map Ticket.line := by
          rw [ledger.balance]
          refine List.mem_append_right _ (List.mem_map_of_mem ?_)
          simp only [inFlight, List.append_assoc]
          exact List.mem_append_right _ inPipe
        obtain ⟨entered, isSurvivor, sameLine⟩ := List.mem_map.mp inBalance
        refine List.mem_map.mpr ⟨entered, List.mem_of_mem_filter isSurvivor,
          ?_⟩
        simpa [Ticket.line] using congrArg Prod.fst sameLine
    · exact ledger.squashed tag isSquashed

/-! ## Progress -/

section Progress

variable {inputs : Nat → AxiIn} {power : Core platform}

/-- The instruction of the line is squashed or committed. -/
def Settled (line : Option Nat × Word) (tracked : Tracked platform) : Prop :=
  (∃ tag ∈ tracked.squashed, line.1 = some tag) ∨ line ∈ tracked.committed

theorem settled_of_flush (axi : AxiIn) {tracked : Tracked platform}
    {ticket : Ticket} (inPipe : tracked.mem = some ticket ∨
      tracked.ex = some ticket)
    (flush : tracked.core.globalTrapFlush = true) :
    Settled ticket.line (tracked.step axi) := by
  refine Or.inl ⟨ticket.tag, ?_, rfl⟩
  have squashedEq : (tracked.step axi).squashed = tracked.squashed ++
      (tracked.mem.toList ++ tracked.ex.toList).map Ticket.tag := by
    simp [step, flush]
  rw [squashedEq]
  refine List.mem_append_right _ (List.mem_map_of_mem ?_)
  rcases inPipe with inMem | inEx
  · simp [inMem]
  · simp [inEx]

theorem settled_of_wb {cycle : Nat}
    (contained : Contained (run inputs power cycle))
    {line : Option Nat × Word}
    (inWb : line ∈ linesOf (run inputs power cycle).wb) :
    Settled line (run inputs power (cycle + 1)) := by
  right
  have grows := committed_step (inputs cycle) contained
  change line ∈ ((run inputs power cycle).step (inputs cycle)).committed
  rw [grows]
  exact List.mem_append_right _ inWb

theorem mem_linesOf {slot : Option Ticket} {line : Option Nat × Word} :
    line ∈ linesOf slot ↔ ∃ ticket, slot = some ticket ∧
      ticket.line = line := by
  simp [linesOf]

theorem mem_step_of_ready (axi : AxiIn) {tracked : Tracked platform}
    {ticket : Ticket} (inEx : tracked.ex = some ticket)
    (noFlush : tracked.core.globalTrapFlush = false)
    (ready : tracked.core.exMemReadyOut = true) :
    ticket.line ∈ linesOf (tracked.step axi).mem := by
  have memEq : (tracked.step axi).mem = tracked.executed := by
    simp [step, advance, noFlush, ready]
  rw [memEq, linesOf_executed]
  exact mem_linesOf.mpr ⟨ticket, inEx, rfl⟩

theorem ex_step_of_stall (axi : AxiIn) {tracked : Tracked platform}
    {ticket : Ticket} (inEx : tracked.ex = some ticket)
    (noFlush : tracked.core.globalTrapFlush = false)
    (stall : tracked.core.idExReadyOut = false) :
    (tracked.step axi).ex = some ticket := by
  refine advance_eq_some.mpr ⟨?_, Or.inr ⟨stall, inEx⟩⟩
  simp [Core.idExFlush, Core.idExFlushHazard, stall, noFlush]

theorem settled_of_mem
    (contained : ∀ cycle, Contained (run inputs power cycle))
    (moves : ∀ cycle, ∃ later, cycle ≤ later ∧
      (run inputs power later).core.exMemReadyOut = true)
    {line : Option Nat × Word} {cycle : Nat}
    (inMem : line ∈ linesOf (run inputs power cycle).mem) :
    ∃ later, Settled line (run inputs power later) := by
  have reaches := Machine.run_leadsTo
    (fun tracked : Tracked platform => line ∈ linesOf tracked.mem)
    (fun tracked => Settled line tracked ∨ line ∈ linesOf tracked.wb)
    (fun tracked => tracked.core.exMemReadyOut = true) inMem ?_ moves
  · obtain ⟨later, _, settled | inWb⟩ := reaches
    · exact ⟨later, settled⟩
    · exact ⟨later + 1, settled_of_wb (contained later) inWb⟩
  · intro now waiting
    change line ∈ linesOf (run inputs power now).mem at waiting
    obtain ⟨ticket, held, rfl⟩ := mem_linesOf.mp waiting
    have synced := (contained now).synced
    have valid := synced.mem.filled
    rw [held] at valid
    cases flush : (run inputs power now).core.globalTrapFlush with
    | true =>
        exact Or.inl (Or.inl (settled_of_flush _ (Or.inl held) flush))
    | false =>
        cases ready : (run inputs power now).core.exMemReadyOut with
        | true =>
            refine Or.inl (Or.inr (mem_linesOf.mpr ⟨ticket, ?_, rfl⟩))
            have complete : (run inputs power now).core.memValid = true := by
              rw [Core.exMemReadyOut_eq, ← valid] at ready
              simpa using ready
            exact wb_step_eq_some.mpr ⟨flush, complete, held⟩
        | false =>
            refine Or.inr ⟨(Bool.not_eq_true _).mpr ready,
              ?_⟩
            refine mem_linesOf.mpr ⟨ticket, ?_, rfl⟩
            exact advance_eq_some.mpr ⟨flush, Or.inr ⟨ready, held⟩⟩

theorem settled_of_ex
    (contained : ∀ cycle, Contained (run inputs power cycle))
    (moves : ∀ cycle, ∃ later, cycle ≤ later ∧
      (run inputs power later).core.exMemReadyOut = true)
    {line : Option Nat × Word} {cycle : Nat}
    (inEx : line ∈ linesOf (run inputs power cycle).ex) :
    ∃ later, Settled line (run inputs power later) := by
  have reaches := Machine.run_leadsTo
    (fun tracked : Tracked platform => line ∈ linesOf tracked.ex)
    (fun tracked => Settled line tracked ∨ line ∈ linesOf tracked.mem)
    (fun tracked => tracked.core.exMemReadyOut = true) inEx ?_ moves
  · obtain ⟨later, _, settled | inMem⟩ := reaches
    · exact ⟨later, settled⟩
    · exact settled_of_mem contained moves inMem
  · intro now waiting
    change line ∈ linesOf (run inputs power now).ex at waiting
    obtain ⟨ticket, held, rfl⟩ := mem_linesOf.mp waiting
    have valid := (contained now).synced.ex.filled
    rw [held] at valid
    cases flush : (run inputs power now).core.globalTrapFlush with
    | true =>
        exact Or.inl (Or.inl (settled_of_flush _ (Or.inr held) flush))
    | false =>
        cases ready : (run inputs power now).core.exMemReadyOut with
        | true =>
            exact Or.inl (Or.inr (mem_step_of_ready _ held flush ready))
        | false =>
            refine Or.inr ⟨(Bool.not_eq_true _).mpr ready,
              ?_⟩
            have stall : (run inputs power now).core.idExReadyOut
                = false := by
              simp [Core.idExReadyOut_eq, ready, ← valid]
            exact mem_linesOf.mpr
              ⟨ticket, ex_step_of_stall _ held flush stall, rfl⟩

end Progress

/-! ## Who the LSU completes for -/

section Owner

variable {inputs : Nat → AxiIn} {power : Core platform}

theorem servedSince_start {ticket : Ticket} {cycle : Nat}
    (starts : (run inputs power cycle).core.lsuStart = true)
    (quiet : (run inputs power (cycle + 1)).core.lsuStart = false)
    (inMem : (run inputs power cycle).mem = some ticket)
    (stays : (run inputs power (cycle + 1)).mem =
      (run inputs power cycle).mem) :
    ServedSince inputs power ticket cycle (cycle + 1) where
  starts := starts
  alone := by
    intro between afterStart notAfter
    rw [Nat.le_antisymm notAfter afterStart]
    exact quiet
  held := by
    intro between notBefore notAfter
    rcases Nat.le_succ_iff.mp notAfter with now | next
    · rw [Nat.le_antisymm now notBefore]
      exact inMem
    · rw [next]
      exact stays.trans inMem

theorem ServedSince.extend {ticket : Ticket} {start cycle : Nat}
    (since : ServedSince inputs power ticket start cycle)
    (isBefore : start < cycle)
    (quiet : (run inputs power (cycle + 1)).core.lsuStart = false)
    (stays : (run inputs power (cycle + 1)).mem =
      (run inputs power cycle).mem) :
    ServedSince inputs power ticket start (cycle + 1) where
  starts := since.starts
  alone := by
    intro between afterStart notAfter
    rcases Nat.le_succ_iff.mp notAfter with now | next
    · exact since.alone between afterStart now
    · rw [next]
      exact quiet
  held := by
    intro between notBefore notAfter
    rcases Nat.le_succ_iff.mp notAfter with now | next
    · exact since.held between notBefore now
    · rw [next]
      exact stays.trans (since.held cycle isBefore.le le_rfl)

/-- A busy LSU has been started for the instruction in EX/MEM. -/
theorem run_servedSince {cycle : Nat}
    (noEscape : ∀ earlier, earlier < cycle →
      (run inputs power earlier).core.trapEscape = false)
    (busy : (run inputs power cycle).core.lsuBusy = true) :
    ∃ ticket, ∃ start < cycle,
      ServedSince inputs power ticket start cycle := by
  induction cycle with
  | zero =>
      contradiction
  | succ cycle inductionHypothesis =>
      have before : ∀ earlier, earlier < cycle →
          (run inputs power earlier).core.trapEscape = false :=
        fun earlier isBefore => noEscape earlier (Nat.lt_succ_of_lt isBefore)
      have contained := run_contained inputs power cycle before
      have quiet := (run_contained inputs power (cycle + 1)
        noEscape).owned.lsuStart_of_busy busy
      obtain ⟨access, incomplete⟩ := contained.owned.waits_of_busy_step busy
      have stays : (run inputs power (cycle + 1)).mem =
          (run inputs power cycle).mem :=
        mem_stays contained.owned (noEscape cycle (Nat.lt_succ_self cycle))
          access incomplete _
      rcases Core.lsuBusy_step_cases busy with started | wasBusy
      · obtain ⟨ticket, inMem⟩ :=
          contained.synced.mem.exists_ticket (Core.valid_of_access access)
        exact ⟨ticket, cycle, Nat.lt_succ_self cycle,
          servedSince_start started quiet inMem stays⟩
      · obtain ⟨ticket, start, isBefore, since⟩ :=
          inductionHypothesis before wasBusy
        exact ⟨ticket, start, Nat.lt_succ_of_lt isBefore,
          since.extend isBefore quiet stays⟩

theorem run_completesFor {cycle : Nat}
    (noEscape : ∀ earlier, earlier < cycle →
      (run inputs power earlier).core.trapEscape = false)
    (complete : (run inputs power cycle).core.memValid = true) :
    ∃ ticket, CompletesFor inputs power ticket cycle := by
  have contained := run_contained inputs power cycle noEscape
  have valid := contained.owned.valid_of_memValid complete
  obtain ⟨ticket, inMem⟩ := contained.synced.mem.exists_ticket valid
  refine ⟨ticket, inMem, valid, ?_, ?_⟩
  · intro noAccess
    by_contra busy
    rw [Bool.not_eq_false] at busy
    have access := contained.owned.access_of_busy busy
    exact Bool.false_ne_true (noAccess.symm.trans access)
  · intro access
    have busy := Core.lsuBusy_of_access access
      (Core.exMemReadyOut_of_memValid _ complete)
    obtain ⟨served, start, isBefore, since⟩ := run_servedSince noEscape busy
    have same := (since.held cycle isBefore.le le_rfl).symm.trans inMem
    obtain rfl := Option.some.inj same
    exact ⟨start, isBefore, since⟩

end Owner

/-! ## Main result -/

/-- MEM hands over again and again behind a responsive slave. -/
theorem run_moves {inputs : Nat → AxiIn} {power : Core platform}
    (quiet : power.bus.write.lsuBvalidReg = false)
    (noEscape : ∀ cycle, (run inputs power cycle).core.trapEscape = false)
    (responsive : Axi.Responsive inputs
      fun cycle => (run inputs power cycle).core.bus.axiOut) (cycle : Nat) :
    ∃ later, cycle ≤ later ∧
      (run inputs power later).core.exMemReadyOut = true := by
  cases ready : (run inputs power cycle).core.exMemReadyOut with
  | true => exact ⟨cycle, le_rfl, ready⟩
  | false =>
      have contained := run_contained inputs power cycle fun _ _ => noEscape _
      obtain ⟨incomplete, valid⟩ := (Core.stalled_iff _).mp ready
      have access : (run inputs power cycle).core.exMemAccess = true := by
        by_contra noAccess
        have complete := contained.owned.memValid_of_not_access valid
          (Bool.eq_false_iff.mpr noAccess)
        exact Bool.false_ne_true (incomplete.symm.trans complete)
      simp only [run_core] at noEscape responsive access ⊢
      obtain ⟨later, afterwards, complete⟩ :=
        Core.run_completes quiet noEscape responsive access
      exact ⟨later, afterwards, Core.exMemReadyOut_of_memValid _ complete⟩

theorem run_ledger (inputs : Nat → AxiIn) (power : Core platform)
    (cycle : Nat)
    (noEscape : ∀ earlier, earlier < cycle →
      (run inputs power earlier).core.trapEscape = false) :
    Ledger (run inputs power cycle) := by
  induction cycle with
  | zero =>
      exact ledger_reset power
  | succ cycle inductionHypothesis =>
      have before : ∀ earlier, earlier < cycle →
          (run inputs power earlier).core.trapEscape = false :=
        fun earlier isBefore => noEscape earlier (Nat.lt_succ_of_lt isBefore)
      exact ledger_step _ (run_contained inputs power cycle before)
        (inductionHypothesis before)

/-- In a run in which no load or store waits in EX/MEM while WB flushes the
pipeline, everything that entered EX and is not squashed commits exactly
once, in order and with its own pc; and it does commit in the end behind a
responsive slave, as long as no access escapes. -/
theorem run_exactlyOnce (inputs : Nat → AxiIn) (power : Core platform)
    (cycle : Nat)
    (noEscape : ∀ earlier, earlier < cycle →
      (run inputs power earlier).core.trapEscape = false) :
    ExactlyOnce inputs power cycle ∧
      (power.bus.write.lsuBvalidReg = false →
        Axi.Responsive inputs
          (fun now => (run inputs power now).core.bus.axiOut) →
        ∀ ticket ∈ (run inputs power cycle).entered,
          ∃ later, Settled ticket.line (run inputs power later) ∨
            (run inputs power later).core.trapEscape = true) := by
  have ledger := run_ledger inputs power cycle noEscape
  have contained := run_contained inputs power cycle noEscape
  constructor
  · have entered := ledger.order
    rw [List.append_assoc, List.pairwise_append] at entered
    exact ⟨ledger.balance, entered.1, run_completesFor noEscape⟩
  · intro quiet responsive ticket isEntered
    by_contra unsettled
    push Not at unsettled
    have never : ∀ now, (run inputs power now).core.trapEscape = false :=
      fun now => Bool.eq_false_iff.mpr (unsettled now).2
    have always : ∀ now, Contained (run inputs power now) :=
      fun now => run_contained inputs power now fun _ _ => never _
    have moves := run_moves quiet never responsive
    suffices settled : ∃ later, Settled ticket.line
        (run inputs power later) by
      obtain ⟨later, isSettled⟩ := settled
      exact (unsettled later).1 isSettled
    by_cases isSquashed : ticket.tag ∈ (run inputs power cycle).squashed
    · exact ⟨cycle, Or.inl ⟨ticket.tag, isSquashed, rfl⟩⟩
    · have survives : ticket.line ∈
          (run inputs power cycle).surviving.map Ticket.line := by
        refine List.mem_map_of_mem (List.mem_filter.mpr ⟨isEntered, ?_⟩)
        simpa using isSquashed
      rw [ledger.balance, map_line_inFlight] at survives
      simp only [List.mem_append] at survives
      rcases survives with isCommitted | (inWb | inMem) | inEx
      · exact ⟨cycle, Or.inr isCommitted⟩
      · exact ⟨cycle + 1, settled_of_wb contained inWb⟩
      · exact settled_of_mem always moves inMem
      · exact settled_of_ex always moves inEx

/-- `lui x5, 0x80000`, and `lw x8, 0(x5)`, `ecall` and `sw x0, 64(x5)` in
cached lines.  A late load keeps the `ecall` in EX until the store is in ID. -/
def trapBeforeStore : System .npc :=
  System.boot .npc
    [(0x80000000, 0x800002b7), (0x80000004, 0x0100006f),
      (0x80000008, 0x0002a403), (0x8000000c, 0x00000073),
      (0x80000010, 0x0402a023), (0x80000014, 0xff5ff06f)]

/-- Its run on a memory that is late for the load. -/
def lateRun (cycle : Nat) : Tracked .npc :=
  runOn (Axi.Choice.lateRead 36 46) trapBeforeStore cycle

/-- With the load in time everything in the pipeline is settled. -/
theorem run_exactlyOnce_promptLoad :
    ExactlyOnce (trapBeforeStore.inputs fun _ => .prompt)
        (Core.zeroed .npc) 41 ∧
      (promptRun trapBeforeStore 41).entered.length = 5 ∧
      ∀ ticket ∈ (promptRun trapBeforeStore 41).entered, ∃ later,
        Settled ticket.line (promptRun trapBeforeStore later) ∨
          (promptRun trapBeforeStore later).core.trapEscape = true := by
  have noEscape : (∀ earlier, earlier < 41 →
      (promptRun trapBeforeStore earlier).core.trapEscape = false) ∧
      (promptRun trapBeforeStore 41).entered.length = 5 := by
    decide +kernel
  obtain ⟨once, settled⟩ := run_exactlyOnce
    (trapBeforeStore.inputs fun _ => .prompt) (Core.zeroed .npc) 41
    noEscape.1
  refine ⟨once, noEscape.2, settled rfl ?_⟩
  have prompt : trapBeforeStore.Prompt := System.Prompt.reset rfl _
  have responsive := prompt.responsive
  simp only [System.run_core] at responsive
  simp only [run_core]
  exact responsive

/-- The squashed store is started in the LSU in cycle 50.  When the bus
answers, the LSU completes for an empty EX/MEM, and a commit without
instruction follows. -/
theorem lateRun_commitsNothing :
    ¬ ∀ cycle, ExactlyOnce
      (trapBeforeStore.inputs (Axi.Choice.lateRead 36 46))
      (Core.zeroed .npc) cycle := by
  have noOwner : (lateRun 57).core.memValid = true ∧
      (lateRun 57).core.exMem.validOut = false := by
    decide +kernel
  intro once
  obtain ⟨ticket, owner⟩ := (once 57).owner noOwner.1
  exact Bool.false_ne_true (noOwner.2.symm.trans owner.valid)

end Tracked

end Ysyx.Rtl
