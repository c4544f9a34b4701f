import Ysyx.Nemu.Difftest
import Ysyx.Pipeline.Occupancy
import Ysyx.Pipeline.Order

/-!
# Skipped commits

The RTL calls `difftest_skip_ref` when it sees a device address on the bus, a
read of the CLINT or a `fence.i` in IF/ID, and the next `difftest_step`
compares nothing.  An observer follows for which instruction each call was
made.
-/

namespace Ysyx.Rtl

/-- The device addresses on the bus that the reference does not model. -/
def skipsRef (addr : Word) : Bool :=
  (0x10000000 ≤ addr && addr ≤ 0x10000fff) ||
    (0x10001000 ≤ addr && addr ≤ 0x10001fff) ||
    (0x10002000 ≤ addr && addr ≤ 0x1000200f) ||
    (0x10011000 ≤ addr && addr ≤ 0x10012000) ||
    (0x21000000 ≤ addr && addr ≤ 0x211fffff) ||
    0xc0000000 ≤ addr

namespace Core

variable {platform : Platform}

/-- `YSYX_DPI_C_NPC_DIFFTEST_SKIP_REF` for a write on the bus. -/
def awSkips (core : Core platform) : Bool :=
  core.bus.write.awvalidReg && skipsRef core.bus.write.awaddrReg

/-- The same for a read. -/
def arSkips (core : Core platform) : Bool :=
  core.bus.read.arvalidReg && skipsRef core.bus.read.araddrReg

/-- The same for a read of the CLINT. -/
def clintSkips (core : Core platform) : Bool :=
  core.lsu.lsuArvalid && Bus.clintEn platform core.lsu.lsuAraddr

end Core

/-- The core with the flag of `difftest_skip_ref`, the instructions that the
fetch, its read on the bus and the two machines of the LSU last started for, and
the instructions for which the flag was raised: since the last commit, and ever.
An instruction that is dropped before it gets a number is `none`. -/
structure Skipping (platform : Platform) where
  tracked : Tracked platform
  idTag : Option Nat := none
  fetchTag : Option Nat := none
  busTag : Option Nat := none
  loadTag : Option Nat := none
  storeTag : Option Nat := none
  isSkipRef : Bool := false
  pending : List (Option Nat) := []
  raised : List (Option Nat) := []

namespace Skipping

variable {platform : Platform}

abbrev core (skipping : Skipping platform) : Core platform :=
  skipping.tracked.core

/-- The calls of `difftest_skip_ref` at this clock edge, each with the
instruction it is made for. -/
def raises (skipping : Skipping platform) : List (Option Nat) :=
  let core := skipping.core
  (if core.isFenceI then [skipping.idTag] else []) ++
    (if core.awSkips then [skipping.storeTag] else []) ++
    (if core.arSkips then
      [if core.bus.read.stateLoad = .ifuReqAr then skipping.busTag
        else skipping.loadTag]
    else []) ++
    (if core.clintSkips then [skipping.loadTag] else [])

/-- What has raised the flag since the last commit. -/
def due (skipping : Skipping platform) : List (Option Nat) :=
  skipping.pending ++ skipping.raises

/-- The flag as the `difftest_step` of this clock edge would find it. -/
def skips (skipping : Skipping platform) : Bool :=
  skipping.isSkipRef || !skipping.raises.isEmpty

/-- One clock edge. -/
def step (axi : AxiIn) (skipping : Skipping platform) :
    Skipping platform :=
  let core := skipping.core
  let memTag := skipping.tracked.mem.map Ticket.tag
  let nextTag := some skipping.tracked.nextTag
  { tracked := skipping.tracked.step axi
    idTag :=
      if core.jumpReq then none
      else if core.ifIdReadyOut && core.ifu.outValid then nextTag
      else skipping.idTag
    fetchTag :=
      if core.ifuFlushReq then none
      else if core.icache.ifuArready && core.ifu.ifuArvalid then nextTag
      else skipping.fetchTag
    busTag :=
      if core.ifuFlushReq then none
      else if core.bus.ifuArready core.lsu.lsuArvalid &&
          core.icache.busArvalid then skipping.fetchTag
      else skipping.busTag
    loadTag :=
      if core.lsu.loadStart core.lsuPort then memTag else skipping.loadTag
    storeTag :=
      if core.lsu.storeStart core.lsuPort then memTag else skipping.storeTag
    isSkipRef := if core.wbuValid then false else skipping.skips
    pending := if core.wbuValid then [] else skipping.due
    raised := skipping.raised ++ skipping.raises }

def run (inputs : Nat → AxiIn) (power : Core platform) (cycle : Nat) :
    Skipping platform :=
  Machine.run step inputs { tracked := { core := power.reset } } cycle

theorem run_tracked (inputs : Nat → AxiIn) (power : Core platform)
    (cycle : Nat) :
    (run inputs power cycle).tracked = Tracked.run inputs power cycle :=
  Machine.run_view Skipping.tracked (fun _ _ => rfl) cycle

/-- Every call that this commit answers was made for the instruction that
commits, and a call made for it is answered. -/
structure OneToOne (skipping : Skipping platform) : Prop where
  noOther : skipping.core.wbuValid = true → ∀ owner ∈ skipping.due,
    ∃ ticket, skipping.tracked.wb = some ticket ∧ owner = some ticket.tag
  always : ∀ ticket, skipping.tracked.wb = some ticket →
    some ticket.tag ∈ skipping.raised ++ skipping.raises →
    skipping.skips = true

/-- Nothing commits before the instruction with this number: it is in WB, or in
MEM behind an empty WB, or the first one behind an idle memory stage. -/
def Oldest (tracked : Tracked platform) (tag : Nat) : Prop :=
  tag ∈ Tracked.tagsOf tracked.wb ∨
    tracked.core.memWb.validOut = false ∧
      (tag ∈ Tracked.tagsOf tracked.mem ∨
        tracked.mem = none ∧ tracked.core.lsu.stateLoad = .idle ∧
          tracked.core.lsu.stateStore = .idle ∧
          (Tracked.tagsOf tracked.ex ++ Tracked.tagsOf tracked.id ++
            [tracked.nextTag]).head? = some tag)

/-- Every call at this clock edge is made for the oldest instruction. -/
def InTurn (skipping : Skipping platform) : Prop :=
  ∀ owner ∈ skipping.raises,
    ∃ tag, owner = some tag ∧ Oldest skipping.tracked tag

instance (tracked : Tracked platform) (tag : Nat) :
    Decidable (Oldest tracked tag) :=
  inferInstanceAs (Decidable (_ ∨ _))

instance (skipping : Skipping platform) : Decidable (InTurn skipping) :=
  decidable_of_iff (∀ owner ∈ skipping.raises,
    ∃ tag ∈ owner, Oldest skipping.tracked tag) (by
      simp only [InTurn, Option.mem_def])

/-! ## The oldest instruction -/

theorem lsu_step_idle {core : Core platform}
    (invalid : core.exMem.validOut = false)
    (loadIdle : core.lsu.stateLoad = .idle)
    (storeIdle : core.lsu.stateStore = .idle) (axi : AxiIn) :
    (core.step axi).lsu.stateLoad = .idle ∧
      (core.step axi).lsu.stateStore = .idle := by
  constructor
  · by_contra busy
    rcases Lsu.busyLoad_cases busy rfl with starts | ⟨wasBusy, _⟩
    · simp [Lsu.loadStart, Core.lsuPort, invalid] at starts
    · exact wasBusy loadIdle
  · by_contra busy
    rcases Lsu.busyStore_cases busy rfl with starts | ⟨wasBusy, _⟩
    · simp [Lsu.storeStart, Core.lsuPort, invalid] at starts
    · exact wasBusy storeIdle

/-- In front of an empty EX the oldest instruction is still in ID, or enters
EX or IF/ID. -/
theorem head_step {tracked : Tracked platform}
    (synced : Tracked.Synced tracked)
    (noFlush : tracked.core.globalTrapFlush = false)
    (ready : tracked.core.exMemReadyOut = true) (noEx : tracked.ex = none)
    (axi : AxiIn) :
    (Tracked.tagsOf (tracked.step axi).ex ++
      Tracked.tagsOf (tracked.step axi).id ++
      [(tracked.step axi).nextTag]).head? =
    (Tracked.tagsOf tracked.id ++ [tracked.nextTag]).head? := by
  have idExEmpty : tracked.core.idEx.validOut = false := by
    rw [← synced.ex.filled, noEx]
    rfl
  have noJump : tracked.core.jumpReq = false := by
    simp [Core.jumpReq, noFlush, Core.exMispredict, idExEmpty]
  have idExReady := tracked.core.idExReadyOut_of_exMemReadyOut ready
  have filled := synced.id.filled
  simp only [Tracked.step, noJump, idExReady, noEx]
  cases inId : tracked.id with
  | none =>
      have ifIdReady : tracked.core.ifIdReadyOut = true := by
        simp [Core.ifIdReadyOut_eq, ← filled, inId]
      have nothing : tracked.decoded = none := by
        simp [Tracked.decoded, Tracked.steered, inId]
      cases handsOver : tracked.core.ifu.outValid <;>
        simp [advance, nothing, ifIdReady, Tracked.fetched, handsOver,
          Tracked.tagsOf]
  | some ticket =>
      have held := tracked.tagsOf_steered
      have decoded := tracked.tagsOf_decoded
      rw [inId] at held decoded
      cases stall : tracked.core.hazardStall with
      | true =>
          have ifIdStall : tracked.core.ifIdReadyOut = false := by
            simp [Core.ifIdReadyOut_eq, ← filled, inId, stall]
          have bubble : tracked.core.idExFlush = true := by
            simp [Core.idExFlush, Core.idExFlushHazard, stall, idExReady]
          simp only [advance, bubble, ifIdStall, if_true, if_false,
            Bool.false_eq_true, held]
          simp [Tracked.tagsOf]
      | false =>
          have noBubble : tracked.core.idExFlush = false := by
            simp [Core.idExFlush, Core.idExFlushHazard, stall, noFlush]
          simp only [advance, noBubble, if_true, if_false,
            Bool.false_eq_true, decoded]
          simp [Tracked.tagsOf]

/-- An instruction that is the oldest stays so until it commits. -/
theorem Oldest.step {tracked : Tracked platform}
    (synced : Tracked.Synced tracked) {tag : Nat}
    (oldest : Oldest tracked tag) (empty : tracked.core.memWb.validOut = false)
    (axi : AxiIn) : Oldest (tracked.step axi) tag := by
  have noFlush := tracked.core.globalTrapFlush_of_invalid empty
  have filled := synced.mem.filled
  have nextWb : (tracked.step axi).core.memWb.validOut =
      tracked.core.memValid := by
    change (tracked.core.step axi).memWb.validOut = _
    rw [Core.step_memWb, noFlush]
    rfl
  have nextMem : (tracked.step axi).mem =
      advance false tracked.core.exMemReadyOut tracked.executed
        tracked.mem := by
    simp [Tracked.step, noFlush]
  rcases oldest with inWb | ⟨-, inMem | ⟨noMem, loadIdle, storeIdle, head⟩⟩
  · cases held : tracked.wb with
    | none => simp [Tracked.tagsOf, held] at inWb
    | some ticket =>
        have valid := (synced.wb ticket held).1
        rw [empty] at valid
        contradiction
  · have valid : tracked.core.exMem.validOut = true := by
      rw [← filled]
      cases held : tracked.mem <;> simp [Tracked.tagsOf, held] at inMem ⊢
    cases complete : tracked.core.memValid with
    | true =>
        left
        simpa [Tracked.step, advance, noFlush, Tracked.completed, complete]
          using inMem
    | false =>
        refine Or.inr ⟨nextWb.trans complete, Or.inl ?_⟩
        simpa [nextMem, advance, Core.exMemReadyOut_eq, complete, valid]
          using inMem
  · have invalid : tracked.core.exMem.validOut = false := by
      rw [← filled, noMem]
      rfl
    have incomplete : tracked.core.memValid = false := by
      simp [Core.memValid, Lsu.outValid, loadIdle, storeIdle, invalid]
    have ready : tracked.core.exMemReadyOut = true := by
      simp [Core.exMemReadyOut_eq, invalid]
    refine Or.inr ⟨nextWb.trans incomplete, ?_⟩
    rw [nextMem, ready]
    cases inEx : tracked.ex with
    | some ticket =>
        left
        have executed := tracked.tagsOf_executed
        simp only [advance, Bool.false_eq_true, if_false, if_true, executed]
        simpa [Tracked.tagsOf, inEx, eq_comm] using head
    | none =>
        obtain ⟨loadStays, storeStays⟩ :=
          lsu_step_idle invalid loadIdle storeIdle axi
        refine Or.inr ⟨?_, loadStays, storeStays, ?_⟩
        · simp [advance, Tracked.executed, inEx]
        · rw [head_step synced noFlush ready inEx]
          simpa [Tracked.tagsOf, inEx] using head

theorem Oldest.inWb {tracked : Tracked platform} {tag : Nat}
    (oldest : Oldest tracked tag)
    (valid : tracked.core.memWb.validOut = true) :
    ∃ ticket, tracked.wb = some ticket ∧ ticket.tag = tag := by
  rcases oldest with inWb | ⟨empty, -⟩
  · simpa [Tracked.tagsOf] using inWb
  · rw [valid] at empty
    contradiction

/-! ## Calls and commits -/

/-- The number is behind everything in the pipeline. -/
def Left (tracked : Tracked platform) (tag : Nat) : Prop :=
  ∀ later ∈ tracked.pipelineTags ++ [tracked.nextTag], tag < later

theorem left_step {tracked : Tracked platform}
    (synced : Tracked.Synced tracked) {tag : Nat}
    (older : ∀ later ∈ Tracked.tagsOf tracked.mem ++
      (Tracked.tagsOf tracked.ex ++ (Tracked.tagsOf tracked.id ++
        [tracked.nextTag])), tag < later) (axi : AxiIn) :
    Left (tracked.step axi) tag := by
  have fresh : tag < tracked.nextTag := older _ (by simp)
  intro later member
  rcases List.mem_append.mp member with inPipeline | isNext
  · have moved := (Tracked.pipelineTags_step axi synced).subset inPipeline
    simp only [List.mem_append] at moved
    rcases moved with (((inMem | inEx) | inId) | handed)
    · exact older _ (by simp [inMem])
    · exact older _ (by simp [inEx])
    · exact older _ (by simp [inId])
    · have isNext : later = tracked.nextTag := by
        simp only [Tracked.handed, advance, Tracked.fetched,
          Tracked.tagsOf] at handed
        split_ifs at handed <;> simp_all
      rwa [isNext]
  · rw [List.mem_singleton.mp isNext]
    exact fresh.trans_le (Tracked.le_nextTag_step axi tracked)

theorem Left.step {tracked : Tracked platform}
    (synced : Tracked.Synced tracked) {tag : Nat} (left : Left tracked tag)
    (axi : AxiIn) : Left (tracked.step axi) tag :=
  left_step synced (fun later member => left later (by
    simp only [Tracked.pipelineTags, List.append_assoc]
    exact List.mem_append_right _ member)) axi

/-- What has raised the flag and is not answered was raised for the oldest
instruction; what is answered was raised for one that has left. -/
structure Matched (skipping : Skipping platform) : Prop where
  flag : skipping.isSkipRef = !skipping.pending.isEmpty
  pending : ∀ owner ∈ skipping.pending,
    ∃ tag, owner = some tag ∧ Oldest skipping.tracked tag
  raised : ∀ owner ∈ skipping.raised, owner ∈ skipping.pending ∨
    ∃ tag, owner = some tag ∧ Left skipping.tracked tag

namespace Matched

variable {skipping : Skipping platform}

theorem due (matched : Matched skipping) (inTurn : InTurn skipping) :
    ∀ owner ∈ skipping.due,
      ∃ tag, owner = some tag ∧ Oldest skipping.tracked tag := by
  intro owner member
  rcases List.mem_append.mp member with pending | raises
  · exact matched.pending owner pending
  · exact inTurn owner raises

theorem skips_eq (matched : Matched skipping) :
    skipping.skips = !skipping.due.isEmpty := by
  rw [skips, matched.flag, Skipping.due]
  cases skipping.pending <;> simp

theorem oneToOne (matched : Matched skipping) (inTurn : InTurn skipping) :
    OneToOne skipping where
  noOther := by
    intro valid owner member
    obtain ⟨tag, rfl, oldest⟩ := matched.due inTurn owner member
    obtain ⟨ticket, inWb, sameTag⟩ := oldest.inWb valid
    exact ⟨ticket, inWb, by rw [sameTag]⟩
  always := by
    intro ticket inWb member
    have isDue : some ticket.tag ∈ skipping.due := by
      rcases List.mem_append.mp member with raised | raises
      · rcases matched.raised _ raised with pending | ⟨tag, isTag, left⟩
        · exact List.mem_append_left _ pending
        · have later := left ticket.tag (by
            simp [Tracked.pipelineTags, Tracked.mem_tagsOf inWb])
          rw [Option.some.inj isTag] at later
          exact absurd later (lt_irrefl _)
      · exact List.mem_append_right _ raises
    rw [matched.skips_eq, List.isEmpty_eq_false_iff_exists_mem.mpr
      ⟨_, isDue⟩]
    rfl

theorem reset (power : Core platform) :
    Matched { tracked := { core := power.reset } } where
  flag := rfl
  pending := by simp
  raised := by simp

/-- A call that is answered was made for the instruction that leaves. -/
theorem left_of_commit (matched : Matched skipping)
    (synced : Tracked.Synced skipping.tracked)
    (inOrder : Tracked.InOrder skipping.tracked)
    (inTurn : InTurn skipping)
    (valid : skipping.core.wbuValid = true) (axi : AxiIn) :
    ∀ owner ∈ skipping.due,
      ∃ tag, owner = some tag ∧ Left (skipping.tracked.step axi) tag := by
  intro owner member
  obtain ⟨ticket, inWb, rfl⟩ :=
    (matched.oneToOne inTurn).noOther valid owner member
  exact ⟨ticket.tag, rfl, left_step synced
    (inOrder.parts.1 _ (Tracked.mem_tagsOf inWb)) axi⟩

theorem step (matched : Matched skipping)
    (synced : Tracked.Synced skipping.tracked)
    (inOrder : Tracked.InOrder skipping.tracked)
    (inTurn : InTurn skipping) (axi : AxiIn) :
    Matched (skipping.step axi) := by
  have before : ∀ owner ∈ skipping.raised ++ skipping.raises,
      owner ∈ skipping.due ∨
        ∃ tag, owner = some tag ∧ Left (skipping.tracked.step axi) tag := by
    intro owner member
    rcases List.mem_append.mp member with raised | raises
    · refine (matched.raised owner raised).imp
        (List.mem_append_left _) fun ⟨tag, isTag, left⟩ =>
          ⟨tag, isTag, left.step synced axi⟩
    · exact Or.inl (List.mem_append_right _ raises)
  cases valid : skipping.core.wbuValid with
  | true =>
      have leaves := matched.left_of_commit synced inOrder inTurn valid axi
      constructor
      · simp [Skipping.step, valid]
      · simp [Skipping.step, valid]
      · intro owner member
        exact Or.inr ((before owner member).elim (leaves owner) id)
  | false =>
      have kept : (skipping.step axi).pending = skipping.due := by
        simp [Skipping.step, valid]
      constructor
      · rw [kept, ← matched.skips_eq]
        simp [Skipping.step, valid]
      · rw [kept]
        intro owner member
        obtain ⟨tag, isTag, oldest⟩ := matched.due inTurn owner member
        exact ⟨tag, isTag, oldest.step synced valid axi⟩
      · rw [kept]
        exact before

end Matched

theorem run_matched (inputs : Nat → AxiIn) (power : Core platform)
    (cycle : Nat)
    (inTurn : ∀ earlier, earlier < cycle →
      InTurn (run inputs power earlier)) :
    Matched (run inputs power cycle) := by
  induction cycle with
  | zero => exact Matched.reset power
  | succ cycle inductionHypothesis =>
      have matched := inductionHypothesis fun earlier before =>
        inTurn earlier (Nat.lt_succ_of_lt before)
      refine matched.step ?_ ?_ (inTurn cycle (Nat.lt_succ_self cycle)) _
      · rw [run_tracked]
        exact Tracked.run_synced inputs power cycle
      · rw [run_tracked]
        exact Tracked.run_inOrder inputs power cycle

/-- In a run in which the flag was only ever raised for the oldest
instruction, it is matched with the commits one to one. -/
theorem run_oneToOne (inputs : Nat → AxiIn) (power : Core platform)
    (cycle : Nat)
    (inTurn : ∀ upTo, upTo ≤ cycle → InTurn (run inputs power upTo)) :
    OneToOne (run inputs power cycle) :=
  (run_matched inputs power cycle fun earlier before =>
    inTurn earlier before.le).oneToOne (inTurn cycle le_rfl)

/-! ## The checker -/

section Checker

open Nemu.Difftest

variable (difftestMem : Bool) (exec : Ref → Ref) (dut : Core platform → Dut)

/-- The calls into the checker at this clock edge; `difftest_step` reads the
core after it. -/
def calls (axi : AxiIn) (skipping : Skipping platform) : List Call :=
  skipping.raises.map (fun _ => .skipRef) ++
    if skipping.core.wbuValid then [.step (dut (skipping.core.step axi))]
    else []

theorem run_skipRefs (owners : List (Option Nat)) {state : State}
    (caughtUp : state.skip_dut_nr_inst = 0) :
    Nemu.Difftest.run difftestMem exec state
        (owners.map fun _ => .skipRef) =
      some { state with
        is_skip_ref := state.is_skip_ref || !owners.isEmpty } := by
  induction owners generalizing state with
  | nil => simp [Nemu.Difftest.run]
  | cons owner owners inductionHypothesis =>
      have first : (difftestSkipRef state).skip_dut_nr_inst = 0 := rfl
      refine (inductionHypothesis first).trans ?_
      simp [difftestSkipRef, caughtUp]

/-- The checker has the flag of the observer, and a commit runs and compares
the reference exactly if the flag is not raised. -/
theorem run_calls {skipping : Skipping platform} (axi : AxiIn)
    {state : State} (caughtUp : state.skip_dut_nr_inst = 0)
    (flag : state.is_skip_ref = skipping.isSkipRef) :
    ∃ after, Nemu.Difftest.run difftestMem exec state
        (skipping.calls dut axi) = some after ∧
      after.skip_dut_nr_inst = 0 ∧
      after.is_skip_ref = (skipping.step axi).isSkipRef ∧
      (skipping.skips = true →
        after.ref.pmem = state.ref.pmem ∧ after.aborted = state.aborted) ∧
      (skipping.core.wbuValid = true → skipping.skips = false →
        after.ref = exec state.ref) := by
  have raised := run_skipRefs difftestMem exec skipping.raises caughtUp
  rw [flag] at raised
  rw [calls]
  cases valid : skipping.core.wbuValid with
  | false =>
      rw [if_neg Bool.false_ne_true, List.append_nil]
      exact ⟨_, raised, caughtUp, by simp [step, valid, skips],
        fun _ => ⟨rfl, rfl⟩, fun impossible => by simp at impossible⟩
  | true =>
      rw [if_pos rfl, run_append, raised, ← skips]
      simp only [Option.bind_some, Call.perform, traceAndDifftest,
        difftestStep, caughtUp, lt_irrefl, if_false]
      cases skipped : skipping.skips with
      | true =>
          exact ⟨_, rfl, rfl, by simp [step, valid],
            fun _ => ⟨rfl, rfl⟩, fun _ impossible => by simp at impossible⟩
      | false =>
          refine ⟨_, rfl, ?_, ?_, fun impossible => by simp at impossible,
            fun _ _ => ?_⟩
          · rw [(checks_frame _ _ _ _ _).2.2]
          · rw [(checks_frame _ _ _ _ _).2.1]
            simp [step, valid]
          · rw [(checks_frame _ _ _ _ _).1]

/-- The calls of a run up to a cycle. -/
def callsUpTo (inputs : Nat → AxiIn) (power : Core platform) :
    Nat → List Call
  | 0 => []
  | cycle + 1 => callsUpTo inputs power cycle ++
      (run inputs power cycle).calls dut (inputs cycle)

/-- In every run the checker is never lost and has the observer's flag. -/
theorem run_callsUpTo (inputs : Nat → AxiIn) (power : Core platform)
    (boot : Dut) (ref : Ref) (cycle : Nat) :
    ∃ after, Nemu.Difftest.run difftestMem exec (initDifftest boot ref)
        (callsUpTo dut inputs power cycle) = some after ∧
      after.skip_dut_nr_inst = 0 ∧
      after.is_skip_ref = (run inputs power cycle).isSkipRef := by
  induction cycle with
  | zero => exact ⟨_, rfl, rfl, rfl⟩
  | succ cycle inductionHypothesis =>
      obtain ⟨before, ran, caughtUp, flag⟩ := inductionHypothesis
      obtain ⟨after, edge, caughtUpAfter, flagAfter, -⟩ :=
        run_calls difftestMem exec dut (inputs cycle) caughtUp flag
      refine ⟨after, ?_, caughtUpAfter, flagAfter⟩
      simp only [Nemu.Difftest.run] at ran edge
      simp only [Nemu.Difftest.run, callsUpTo, List.foldlM_append, ran,
        Option.bind_eq_bind, Option.bind_some, edge]

end Checker

/-! ## A device store and a `fence.i` -/

/-- `lui ra, 0x10000` and `sb zero, 0(ra)`, a write to the UART. -/
def uartStore : System .npc :=
  System.boot .npc [(0x80000000, 0x100000b7), (0x80000004, 0x00008023)]

/-- `fence.i` and a `nop`. -/
def fenceThenNop : System .npc :=
  System.boot .npc [(0x80000000, 0x0000100f), (0x80000004, 0x00000013)]

def promptRun (system : System .npc) (cycle : Nat) : Skipping .npc :=
  run (system.inputs fun _ => Axi.Choice.prompt) (Core.zeroed .npc) cycle

/-- The store commits in this cycle and is skipped. -/
theorem run_oneToOne_at_uartStore :
    (promptRun uartStore 27).due = [some 1] ∧
      OneToOne (promptRun uartStore 27) := by
  refine ⟨by decide +kernel, run_oneToOne _ _ 27 ?_⟩
  have inTurn : ∀ upTo, upTo < 28 → InTurn (promptRun uartStore upTo) := by
    decide +kernel
  exact fun upTo before => inTurn upTo (by omega)

/-- The `nop` is skipped for the `fence.i` that has committed before it. -/
theorem fenceThenNop_notOneToOne :
    ¬ ∀ (platform : Platform) (inputs : Nat → AxiIn)
      (power : Core platform) (cycle : Nat),
      OneToOne (run inputs power cycle) := by
  intro claimed
  have noOther := (claimed .npc
    (fenceThenNop.inputs fun _ => Axi.Choice.prompt) (Core.zeroed .npc)
    21).noOther
  have misplaced : (promptRun fenceThenNop 21).core.wbuValid = true ∧
      some 0 ∈ (promptRun fenceThenNop 21).due ∧
      ∀ ticket ∈ (promptRun fenceThenNop 21).tracked.wb,
        some 0 ≠ some ticket.tag := by
    decide +kernel
  obtain ⟨valid, member, different⟩ := misplaced
  obtain ⟨ticket, inWb, isOwner⟩ := noOther valid (some 0) member
  exact different ticket inWb isOwner

end Skipping

end Ysyx.Rtl
