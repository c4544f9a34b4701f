import Mathlib.Data.List.Basic
import Ysyx.Pipeline.Tickets

/-!
# Program order in the pipeline

The numbers of the tickets grow from WB back to IF/ID and stay below the
number of the next hand-over, in every state of every run.
-/

namespace Ysyx.Rtl

namespace Tracked

variable {platform : Platform}

/-! ## What one clock edge moves -/

/-- The tags in a slot. -/
def tagsOf (slot : Option Ticket) : List Nat :=
  (slot.map Ticket.tag).toList

/-- The part of a slot that its stage hands on when it is ready. -/
def sent (ready : Bool) (slot : Option Ticket) : Option Ticket :=
  if ready then slot else none

/-- The part of a slot that stays. -/
def kept (ready : Bool) (slot : Option Ticket) : Option Ticket :=
  if ready then none else slot

theorem tagsOf_sent_append_kept (ready : Bool) (slot : Option Ticket) :
    tagsOf (sent ready slot) ++ tagsOf (kept ready slot) = tagsOf slot := by
  cases ready <;> simp [sent, kept, tagsOf]

theorem tagsOf_advance_sublist {flush ready : Bool}
    {incoming held upstream : Option Ticket}
    (fromUpstream : flush = false → ready = true →
      tagsOf incoming = tagsOf upstream) :
    (tagsOf (advance flush ready incoming held)).Sublist
      (tagsOf (kept ready held) ++ tagsOf upstream) := by
  cases flush with
  | true =>
      simp [advance, tagsOf]
  | false =>
      cases ready with
      | true =>
          simp [advance, kept, fromUpstream rfl rfl]
      | false =>
          simp [advance, kept, tagsOf]

@[simp] theorem tagsOf_steered (tracked : Tracked platform) :
    tagsOf tracked.steered = tagsOf tracked.id := by
  cases h : tracked.id <;> simp [tagsOf, steered, h]

@[simp] theorem tagsOf_decoded (tracked : Tracked platform) :
    tagsOf tracked.decoded = tagsOf tracked.id := by
  cases h : tracked.id <;> simp [tagsOf, decoded, steered, h]

@[simp] theorem tagsOf_executed (tracked : Tracked platform) :
    tagsOf tracked.executed = tagsOf tracked.ex := by
  cases h : tracked.ex <;> simp [tagsOf, executed, h]

theorem completed_eq_sent {tracked : Tracked platform}
    (synced : Synced tracked) :
    tracked.completed = sent tracked.core.exMemReadyOut tracked.mem := by
  have filled := synced.mem.filled
  unfold completed sent
  rw [Core.exMemReadyOut_eq, ← filled]
  cases tracked.core.memValid <;> cases tracked.mem <;> rfl

/-- The tags of the whole pipeline, oldest first. -/
def pipelineTags (tracked : Tracked platform) : List Nat :=
  tagsOf tracked.wb ++ tagsOf tracked.mem ++ tagsOf tracked.ex ++
    tagsOf tracked.id

/-- The ticket captured by IF/ID at this clock edge. -/
def handed (tracked : Tracked platform) : Option Ticket :=
  advance tracked.core.jumpReq tracked.core.ifIdReadyOut tracked.fetched none

theorem tagsOf_idEx_sublist (tracked : Tracked platform)
    (held : Option Ticket) :
    (tagsOf (advance tracked.core.idExFlush tracked.core.idExReadyOut
      tracked.decoded held)).Sublist
      (tagsOf (kept tracked.core.idExReadyOut held) ++
        tagsOf (sent tracked.core.ifIdReadyOut tracked.id)) := by
  refine tagsOf_advance_sublist fun noFlush ready => ?_
  rw [tagsOf_decoded]
  have noStall : tracked.core.hazardStall = false := by
    simp_all [Core.idExFlush, Core.idExFlushHazard]
  simp [sent, Core.ifIdReadyOut_eq, ready, noStall]

theorem tagsOf_ifId_sublist (axi : AxiIn) (tracked : Tracked platform) :
    (tagsOf (tracked.step axi).id).Sublist
      (tagsOf (kept tracked.core.ifIdReadyOut tracked.id) ++
        tagsOf tracked.handed) := by
  have stays : tagsOf (kept tracked.core.ifIdReadyOut tracked.id) =
      tagsOf (kept tracked.core.ifIdReadyOut tracked.steered) := by
    cases tracked.core.ifIdReadyOut <;> simp [kept]
  rw [stays]
  exact tagsOf_advance_sublist fun noFlush ready => by
    simp [handed, advance, noFlush, ready]

/-- Tags only leave the pipeline, but for the one handed over. -/
theorem pipelineTags_step (axi : AxiIn) {tracked : Tracked platform}
    (synced : Synced tracked) :
    (tracked.step axi).pipelineTags.Sublist
      (tagsOf tracked.mem ++ tagsOf tracked.ex ++ tagsOf tracked.id ++
        tagsOf tracked.handed) := by
  have wbPart : (tagsOf (tracked.step axi).wb).Sublist
      (tagsOf (kept true tracked.wb) ++
        tagsOf (sent tracked.core.exMemReadyOut tracked.mem)) :=
    tagsOf_advance_sublist fun _ _ => by rw [completed_eq_sent synced]
  have memPart : (tagsOf (tracked.step axi).mem).Sublist
      (tagsOf (kept tracked.core.exMemReadyOut tracked.mem) ++
        tagsOf (sent tracked.core.idExReadyOut tracked.ex)) := by
    refine tagsOf_advance_sublist fun _ ready => ?_
    rw [tagsOf_executed]
    simp [sent, Core.idExReadyOut_eq, ready]
  have exPart : (tagsOf (tracked.step axi).ex).Sublist
      (tagsOf (kept tracked.core.idExReadyOut tracked.ex) ++
        tagsOf (sent tracked.core.ifIdReadyOut tracked.id)) :=
    tagsOf_idEx_sublist tracked tracked.ex
  have all := ((wbPart.append memPart).append exPart).append
    (tagsOf_ifId_sublist axi tracked)
  have noWb : tagsOf (kept true tracked.wb) = [] := rfl
  rw [noWb, List.nil_append] at all
  rw [← tagsOf_sent_append_kept tracked.core.exMemReadyOut tracked.mem,
    ← tagsOf_sent_append_kept tracked.core.idExReadyOut tracked.ex,
    ← tagsOf_sent_append_kept tracked.core.ifIdReadyOut tracked.id]
  simpa only [pipelineTags, List.append_assoc] using all

/-! ## The order -/

/-- Older instructions have smaller tags, and the next tag is fresh. -/
def InOrder (tracked : Tracked platform) : Prop :=
  (tracked.pipelineTags ++ [tracked.nextTag]).Pairwise (· < ·)

theorem pairwise_lt_snoc_succ {tags : List Nat} {next : Nat}
    (increasing : (tags ++ [next]).Pairwise (· < ·)) :
    (tags ++ [next] ++ [next + 1]).Pairwise (· < ·) := by
  refine List.pairwise_append.mpr ⟨increasing, by simp, ?_⟩
  intro tag member last isLast
  rw [List.mem_singleton.mp isLast]
  rcases List.mem_append.mp member with older | isNext
  · have below := (List.pairwise_append.mp increasing).2.2 tag older next
      (by simp)
    omega
  · rw [List.mem_singleton.mp isNext]
    omega

theorem fresh_step (axi : AxiIn) {tracked : Tracked platform}
    {tags : List Nat}
    (fresh : (tags ++ [tracked.nextTag]).Pairwise (· < ·)) :
    (tags ++ tagsOf tracked.handed ++
      [(tracked.step axi).nextTag]).Pairwise (· < ·) := by
  cases handOver : (!tracked.core.jumpReq && tracked.core.ifIdReadyOut &&
      tracked.core.ifu.outValid) with
  | false =>
      have nothing : tagsOf tracked.handed = [] := by
        unfold handed advance fetched
        split_ifs <;> simp_all [tagsOf]
      have sameNext : (tracked.step axi).nextTag = tracked.nextTag := by
        simp [step, handOver]
      rwa [nothing, List.append_nil, sameNext]
  | true =>
      have one : tagsOf tracked.handed = [tracked.nextTag] := by
        simp only [Bool.and_eq_true, Bool.not_eq_true'] at handOver
        simp [handed, advance, fetched, handOver, tagsOf]
      have nextNext : (tracked.step axi).nextTag = tracked.nextTag + 1 := by
        simp [step, handOver]
      rw [one, nextNext]
      exact pairwise_lt_snoc_succ fresh

theorem inOrder_step (axi : AxiIn) (tracked : Tracked platform)
    (synced : Synced tracked) (inOrder : InOrder tracked) :
    InOrder (tracked.step axi) := by
  have older :
      (tagsOf tracked.mem ++ tagsOf tracked.ex ++ tagsOf tracked.id ++
        [tracked.nextTag]).Pairwise (· < ·) := by
    refine List.Pairwise.sublist ?_ inOrder
    simp [pipelineTags]
  exact (fresh_step axi older).sublist
    ((pipelineTags_step axi synced).append_right _)

/-- In every state of an observed run the tickets are in program order. -/
theorem run_inOrder (inputs : Nat → AxiIn) (power : Core platform)
    (cycle : Nat) : InOrder (run inputs power cycle) := by
  induction cycle with
  | zero =>
      simp [run, InOrder, pipelineTags, tagsOf]
  | succ cycle inductionHypothesis =>
      exact inOrder_step _ _ (run_synced inputs power cycle)
        inductionHypothesis

theorem mem_tagsOf {slot : Option Ticket} {ticket : Ticket}
    (filled : slot = some ticket) : ticket.tag ∈ tagsOf slot := by
  simp [tagsOf, filled]

namespace InOrder

variable {tracked : Tracked platform} {older younger : Ticket}

theorem parts (inOrder : InOrder tracked) :
    (∀ wb ∈ tagsOf tracked.wb, ∀ later ∈ tagsOf tracked.mem ++
        (tagsOf tracked.ex ++ (tagsOf tracked.id ++ [tracked.nextTag])),
      wb < later) ∧
    (∀ mem ∈ tagsOf tracked.mem, ∀ later ∈ tagsOf tracked.ex ++
        (tagsOf tracked.id ++ [tracked.nextTag]), mem < later) ∧
    (∀ ex ∈ tagsOf tracked.ex, ∀ later ∈ tagsOf tracked.id ++
        [tracked.nextTag], ex < later) := by
  unfold InOrder pipelineTags at inOrder
  simp only [List.append_assoc] at inOrder
  obtain ⟨_, memUp, wb⟩ := List.pairwise_append.mp inOrder
  obtain ⟨_, exUp, mem⟩ := List.pairwise_append.mp memUp
  obtain ⟨_, _, ex⟩ := List.pairwise_append.mp exUp
  exact ⟨wb, mem, ex⟩

theorem wb_lt_mem (inOrder : InOrder tracked)
    (inWb : tracked.wb = some older) (inMem : tracked.mem = some younger) :
    older.tag < younger.tag :=
  inOrder.parts.1 _ (mem_tagsOf inWb) _ (by simp [mem_tagsOf inMem])

theorem wb_lt_ex (inOrder : InOrder tracked)
    (inWb : tracked.wb = some older) (inEx : tracked.ex = some younger) :
    older.tag < younger.tag :=
  inOrder.parts.1 _ (mem_tagsOf inWb) _ (by simp [mem_tagsOf inEx])

theorem wb_lt_id (inOrder : InOrder tracked)
    (inWb : tracked.wb = some older) (inId : tracked.id = some younger) :
    older.tag < younger.tag :=
  inOrder.parts.1 _ (mem_tagsOf inWb) _ (by simp [mem_tagsOf inId])

theorem wb_lt_next (inOrder : InOrder tracked)
    (inWb : tracked.wb = some older) : older.tag < tracked.nextTag :=
  inOrder.parts.1 _ (mem_tagsOf inWb) _ (by simp)

theorem mem_lt_ex (inOrder : InOrder tracked)
    (inMem : tracked.mem = some older) (inEx : tracked.ex = some younger) :
    older.tag < younger.tag :=
  inOrder.parts.2.1 _ (mem_tagsOf inMem) _ (by simp [mem_tagsOf inEx])

theorem mem_lt_id (inOrder : InOrder tracked)
    (inMem : tracked.mem = some older) (inId : tracked.id = some younger) :
    older.tag < younger.tag :=
  inOrder.parts.2.1 _ (mem_tagsOf inMem) _ (by simp [mem_tagsOf inId])

theorem mem_lt_next (inOrder : InOrder tracked)
    (inMem : tracked.mem = some older) : older.tag < tracked.nextTag :=
  inOrder.parts.2.1 _ (mem_tagsOf inMem) _ (by simp)

theorem ex_lt_id (inOrder : InOrder tracked)
    (inEx : tracked.ex = some older) (inId : tracked.id = some younger) :
    older.tag < younger.tag :=
  inOrder.parts.2.2 _ (mem_tagsOf inEx) _ (by simp [mem_tagsOf inId])

theorem ex_lt_next (inOrder : InOrder tracked)
    (inEx : tracked.ex = some older) : older.tag < tracked.nextTag :=
  inOrder.parts.2.2 _ (mem_tagsOf inEx) _ (by simp)

end InOrder

theorem le_nextTag_step (axi : AxiIn) (tracked : Tracked platform) :
    tracked.nextTag ≤ (tracked.step axi).nextTag := by
  change _ ≤ ite _ _ _
  split <;> omega

/-- A ticket captured by IF/ID has the next tag or stayed there. -/
theorem id_step_cases {axi : AxiIn} {tracked : Tracked platform}
    {ticket : Ticket} (inId : (tracked.step axi).id = some ticket) :
    ticket.tag = tracked.nextTag ∨
      ∃ source, tracked.id = some source ∧ ticket.tag = source.tag := by
  rcases (advance_eq_some.mp inId).2 with ⟨_, isFetched⟩ | ⟨_, stayed⟩
  · unfold fetched at isFetched
    split_ifs at isFetched
    cases isFetched
    exact Or.inl rfl
  · obtain ⟨source, wasInId, rfl⟩ := Option.map_eq_some_iff.mp stayed
    exact Or.inr ⟨source, wasInId, rfl⟩

/-! ## From EX to MEM -/

/-- The instruction with this number has gone to MEM, or further: whatever is
in front of MEM is younger. -/
def Passed (tracked : Tracked platform) (tag : Nat) : Prop :=
  ∀ later ∈ tagsOf tracked.ex ++ (tagsOf tracked.id ++ [tracked.nextTag]),
    tag < later

/-- It has left MEM too. -/
def LeftMem (tracked : Tracked platform) (tag : Nat) : Prop :=
  Passed tracked tag ∧ ∀ ticket, tracked.mem = some ticket → ticket.tag ≠ tag

theorem InOrder.passed {tracked : Tracked platform} {ticket : Ticket}
    (inOrder : InOrder tracked) (inMem : tracked.mem = some ticket) :
    Passed tracked ticket.tag :=
  inOrder.parts.2.1 _ (mem_tagsOf inMem)

theorem mem_step_cases {axi : AxiIn} {tracked : Tracked platform}
    {ticket : Ticket} (inMem : (tracked.step axi).mem = some ticket) :
    tracked.core.globalTrapFlush = false ∧
      (tracked.core.exMemReadyOut = true ∧
          (∃ source, tracked.ex = some source ∧ ticket.tag = source.tag) ∨
        tracked.core.exMemReadyOut = false ∧ tracked.mem = some ticket) := by
  obtain ⟨noFlush, moves | stays⟩ := advance_eq_some.mp inMem
  · obtain ⟨source, inEx, rfl⟩ := Option.map_eq_some_iff.mp moves.2
    exact ⟨noFlush, Or.inl ⟨moves.1, source, inEx, rfl⟩⟩
  · exact ⟨noFlush, Or.inr stays⟩

/-- It has passed EX after a clock edge at which what is in front of EX is
younger, and so is what stays in EX. -/
theorem passed_step_of_younger {tracked : Tracked platform} {tag : Nat}
    (axi : AxiIn) (next : tag < tracked.nextTag)
    (id : ∀ ticket, tracked.id = some ticket → tag < ticket.tag)
    (stays : tracked.core.idExFlush = false →
      tracked.core.idExReadyOut = false →
      ∀ ticket, tracked.ex = some ticket → tag < ticket.tag) :
    Passed (tracked.step axi) tag := by
  intro later member
  rcases List.mem_append.mp member with inEx | rest
  · obtain ⟨ticket, isEx, rfl⟩ := by
      simpa only [tagsOf, Option.mem_toList, Option.map_eq_some_iff] using inEx
    obtain ⟨noFlush, ⟨_, isDecoded⟩ | ⟨stall, stayed⟩⟩ :=
      advance_eq_some.mp isEx
    · obtain ⟨source, inId, rfl⟩ := decoded_eq_some.mp isDecoded
      exact id source inId
    · exact stays noFlush stall ticket stayed
  · rcases List.mem_append.mp rest with inId | isNext
    · obtain ⟨ticket, isId, rfl⟩ := by
        simpa only [tagsOf, Option.mem_toList, Option.map_eq_some_iff]
          using inId
      rcases id_step_cases isId with isFresh | ⟨source, wasId, same⟩
      · rwa [isFresh]
      · rw [same]
        exact id source wasId
    · rw [List.mem_singleton.mp isNext]
      exact next.trans_le (le_nextTag_step axi tracked)

theorem Passed.step {tracked : Tracked platform} {tag : Nat}
    (passed : Passed tracked tag) (axi : AxiIn) :
    Passed (tracked.step axi) tag := by
  refine passed_step_of_younger axi (passed _ (by simp)) ?_ ?_
  · intro ticket inId
    exact passed _ (by simp [mem_tagsOf inId])
  · intro _ _ ticket inEx
    exact passed _ (by simp [mem_tagsOf inEx])

/-- An instruction in MEM stays there exactly while MEM is stalled. -/
theorem Passed.stays {tracked : Tracked platform} {axi : AxiIn}
    {ticket : Ticket} (passed : Passed tracked ticket.tag)
    (inMem : (tracked.step axi).mem = some ticket) :
    tracked.core.globalTrapFlush = false ∧
      tracked.core.exMemReadyOut = false ∧ tracked.mem = some ticket := by
  obtain ⟨noFlush, ⟨-, source, inEx, same⟩ | stays⟩ := mem_step_cases inMem
  · have younger := passed source.tag (by simp [mem_tagsOf inEx])
    omega
  · exact ⟨noFlush, stays⟩

theorem Passed.leave {tracked : Tracked platform} {tag : Nat}
    (passed : Passed tracked tag) {axi : AxiIn}
    (leaves : (∀ ticket, tracked.mem = some ticket → ticket.tag ≠ tag) ∨
      tracked.core.exMemReadyOut = true ∨
      tracked.core.globalTrapFlush = true) :
    LeftMem (tracked.step axi) tag := by
  refine ⟨passed.step axi, ?_⟩
  rintro ticket inMem rfl
  obtain ⟨noFlush, stalled, wasMem⟩ := passed.stays inMem
  rcases leaves with absent | ready | flush
  · exact absent ticket wasMem rfl
  · rw [stalled] at ready
    contradiction
  · rw [noFlush] at flush
    contradiction

/-! ## After EX -/

/-- `passed` is the ticket of an instruction that has left EX: whatever is
still in front of MEM is younger, and its tag is in no other ticket. -/
structure PastEx (passed : Ticket) (tracked : Tracked platform) : Prop where
  next : passed.tag < tracked.nextTag
  id : ∀ ticket, tracked.id = some ticket → passed.tag < ticket.tag
  ex : ∀ ticket, tracked.ex = some ticket → passed.tag < ticket.tag
  mem : ∀ ticket, tracked.mem = some ticket →
    ticket.tag = passed.tag → ticket = passed
  wb : ∀ ticket, tracked.wb = some ticket →
    ticket.tag = passed.tag → ticket = passed

/-- The instruction that leaves EX is past EX one clock edge later. -/
theorem pastEx_of_executed {axi : AxiIn} {tracked : Tracked platform}
    (inOrder : InOrder tracked) {source passed : Ticket}
    (inEx : tracked.ex = some source)
    (isExecuted : tracked.executed = some passed)
    (leaves : tracked.core.exMemReadyOut = true) :
    PastEx passed (tracked.step axi) := by
  have sameTag : passed.tag = source.tag := by
    simp only [executed, inEx, Option.map_some, Option.some.injEq]
      at isExecuted
    rw [← isExecuted]
  have fresh := inOrder.ex_lt_next inEx
  have grows := le_nextTag_step axi tracked
  constructor
  case next =>
    omega
  case id =>
    intro ticket inId
    rcases id_step_cases inId with isNext | ⟨waiting, stayed, equalTag⟩
    · omega
    · rw [sameTag, equalTag]
      exact inOrder.ex_lt_id inEx stayed
  case ex =>
    intro ticket inNext
    have ready := tracked.core.idExReadyOut_of_exMemReadyOut leaves
    rcases (advance_eq_some.mp inNext).2 with ⟨_, isDecoded⟩ | ⟨stall, _⟩
    · obtain ⟨waiting, inId, rfl⟩ := decoded_eq_some.mp isDecoded
      have below := inOrder.ex_lt_id inEx inId
      rw [sameTag]
      exact below
    · rw [ready] at stall
      contradiction
  case mem =>
    intro ticket inNext _
    rcases (advance_eq_some.mp inNext).2 with ⟨_, moved⟩ | ⟨stall, _⟩
    · rw [isExecuted] at moved
      exact (Option.some.inj moved).symm
    · rw [leaves] at stall
      contradiction
  case wb =>
    intro ticket inNext equalTag
    have inMem := (wb_step_eq_some.mp inNext).2.2
    have below := inOrder.mem_lt_ex inMem inEx
    omega

theorem pastEx_step (axi : AxiIn) {tracked : Tracked platform}
    {passed : Ticket} (past : PastEx passed tracked) :
    PastEx passed (tracked.step axi) := by
  have grows := le_nextTag_step axi tracked
  constructor
  case next =>
    exact past.next.trans_le grows
  case id =>
    intro ticket inId
    rcases id_step_cases inId with isNext | ⟨waiting, stayed, equalTag⟩
    · rw [isNext]
      exact past.next
    · rw [equalTag]
      exact past.id waiting stayed
  case ex =>
    intro ticket inEx
    rcases (advance_eq_some.mp inEx).2 with ⟨_, isDecoded⟩ | ⟨_, stayed⟩
    · obtain ⟨waiting, inId, rfl⟩ := decoded_eq_some.mp isDecoded
      exact past.id waiting inId
    · exact past.ex ticket stayed
  case mem =>
    intro ticket inMem equalTag
    rcases (advance_eq_some.mp inMem).2 with ⟨_, isExecuted⟩ | ⟨_, stayed⟩
    · obtain ⟨source, inEx, rfl⟩ := Option.map_eq_some_iff.mp isExecuted
      exact absurd equalTag (past.ex source inEx).ne'
    · exact past.mem ticket stayed equalTag
  case wb =>
    intro ticket inWb
    exact past.mem ticket (wb_step_eq_some.mp inWb).2.2

/-- From the cycle after it leaves EX, an instruction is the only one with
its tag, and its ticket does not change. -/
theorem run_pastEx (inputs : Nat → AxiIn) (power : Core platform)
    {leave later : Nat} (after : leave < later) {source passed : Ticket}
    (inEx : (run inputs power leave).ex = some source)
    (isExecuted : (run inputs power leave).executed = some passed)
    (leaves : (run inputs power leave).core.exMemReadyOut = true) :
    PastEx passed (run inputs power later) := by
  induction later, after using Nat.le_induction with
  | base =>
      exact pastEx_of_executed (run_inOrder inputs power leave) inEx
        isExecuted leaves
  | succ later _ inductionHypothesis =>
      exact pastEx_step _ inductionHypothesis

end Tracked

end Ysyx.Rtl
