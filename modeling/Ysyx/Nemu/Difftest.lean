import Ysyx.Nemu.Inst

/-!
# DiffTest

`dut.c`, `ref.c` and `isa_dut.c`: the checker that runs a reference next to the
core, with its two ways of letting the one or the other run ahead.
-/

namespace Ysyx.Nemu.Difftest

def CSR_MVENDORID : BitVec 12 := 0xf11
def CSR_MARCHID : BitVec 12 := 0xf12

/-- `CPU_state`, as the checker reads it. -/
structure CpuState where
  gpr : BitVec 5 → Word
  pc : Word
  sr : BitVec 12 → Word
  cpc : Word
  npc_for_pipeline : Word

/-- `g_st_waddr`, `g_st_wdata` and `g_st_wstrb`. -/
structure CommitStore where
  waddr : Word
  wdata : Word
  wstrb : Word

/-- The core when `difftest_step` is called; the store is there while
`g_st_valid` is set. -/
structure Dut where
  cpu : CpuState
  store : Option CommitStore

structure Ref where
  cpu : CpuState
  pmem : Pmem

/-! ## The reference -/

/-- `DIFFTEST_TO_DUT`, `DIFFTEST_TO_REF` and `DIFFTEST_TO_REF_SKIP_REF`. -/
inductive Direction where
  | toDut | toRef | toRefSkipRef
  deriving DecidableEq, Repr

/-- The CSRs that every direction copies and `isa_difftest_checkregs`
compares. -/
def checkedSr : List (BitVec 12) :=
  [CSR_MTVEC, CSR_MCAUSE, CSR_MEPC, CSR_MSTATUS, CSR_MTVAL]

local instance lawfulSr : LawfulBEq (BitVec 12) := inferInstance

def copySr (names : List (BitVec 12)) (source target : BitVec 12 → Word) :
    BitVec 12 → Word :=
  fun name => if name ∈ names then source name else target name

/-- `difftest_regcpy`: the new `dut` and the new `cpu` of the reference. -/
def difftestRegcpy (direction : Direction) (dut cpu : CpuState) :
    CpuState × CpuState :=
  let idSr := [CSR_MVENDORID, CSR_MARCHID]
  match direction with
  | .toRefSkipRef =>
      (dut, { cpu with
        pc := dut.npc_for_pipeline
        gpr := dut.gpr
        sr := copySr (checkedSr ++ idSr) dut.sr cpu.sr })
  | .toRef =>
      (dut, { cpu with
        pc := dut.cpc
        gpr := dut.gpr
        sr := copySr (checkedSr ++ idSr) dut.sr cpu.sr })
  | .toDut =>
      ({ dut with
        pc := cpu.pc
        gpr := cpu.gpr
        sr := copySr checkedSr cpu.sr dut.sr }, cpu)

/-! ## The checker -/

/-- The statics of `dut.c`, the reference, and whether `nemu_state.state` is
`NEMU_ABORT`. -/
structure State where
  ref : Ref
  is_skip_ref : Bool
  skip_dut_nr_inst : Int
  aborted : Bool

/-- `isa_difftest_checkregs`. -/
def isaDifftestCheckregs (cpu ref_r : CpuState) (pc : Word) : Bool :=
  decide (∀ index, ref_r.gpr index = cpu.gpr index) &&
    decide (ref_r.pc = pc) &&
    checkedSr.all fun name => cpu.sr name == ref_r.sr name

/-- `checkregs`. -/
def checkregs (cpu ref_r : CpuState) (pc : Word) (state : State) : State :=
  if isaDifftestCheckregs cpu ref_r pc then state
  else { state with aborted := true }

/-- The `compare_mask` of `checkmems`. -/
def compareMask (wstrb : Word) : Word :=
  (List.range 4).foldl (fun mask lane =>
    if wstrb.getLsbD lane then mask ||| (0xff#32 <<< (lane * 8)) else mask) 0

/-- `checkmems`. -/
def checkmems (store : CommitStore) (state : State) : State :=
  let ref_val := hostRead state.ref.pmem (store.waddr &&& ~~~3#32) 4
  let mask := compareMask store.wstrb
  if store.wdata &&& mask = ref_val &&& mask then state
  else { state with aborted := true }

section Checker

variable (difftestMem : Bool) (exec : Ref → Ref)

/-- The part of `difftest_step` under `CONFIG_DIFFTEST_MEM`. -/
def checkStore (dut : Dut) (state : State) : State :=
  match difftestMem, dut.store with
  | true, some store => checkmems store state
  | _, _ => state

/-- `difftest_skip_ref`. -/
def difftestSkipRef (state : State) : State :=
  { state with is_skip_ref := true, skip_dut_nr_inst := 0 }

/-- `difftest_skip_dut`; `exec` is `ref_difftest_exec(1)`. -/
def difftestSkipDut (nr_ref nr_dut : Int) (state : State) : State :=
  { state with
    skip_dut_nr_inst := state.skip_dut_nr_inst + nr_dut
    ref := exec^[nr_ref.toNat] state.ref }

/-- `difftest_step`; `none` is the `panic`. The contents of `ref_r` before
`regcpy` do not matter: every field that is compared is copied. -/
def difftestStep (dut : Dut) (pc npc : Word) (state : State) :
    Option State :=
  if 0 < state.skip_dut_nr_inst then
    let ref_r := (difftestRegcpy .toDut dut.cpu state.ref.cpu).1
    if ref_r.pc = npc then
      some (checkStore difftestMem dut
        (checkregs dut.cpu ref_r npc { state with skip_dut_nr_inst := 0 }))
    else if state.skip_dut_nr_inst - 1 = 0 then
      none
    else
      some { state with skip_dut_nr_inst := state.skip_dut_nr_inst - 1 }
  else if state.is_skip_ref then
    let cpu := (difftestRegcpy .toRefSkipRef dut.cpu state.ref.cpu).2
    some { state with ref := { state.ref with cpu }, is_skip_ref := false }
  else
    let ref := exec state.ref
    let ref_r := (difftestRegcpy .toDut dut.cpu ref.cpu).1
    some (checkStore difftestMem dut
      (checkregs dut.cpu ref_r pc { state with ref }))

/-- The call in `trace_and_difftest`: `_this->pc` is `g_wb_npc` and `dnpc` is
`cpu.cpc`. -/
def traceAndDifftest (dut : Dut) (state : State) : Option State :=
  difftestStep difftestMem exec dut dut.cpu.npc_for_pipeline dut.cpu.cpc state

/-- `init_difftest`: the reference starts from the registers of the core. -/
def initDifftest (dut : Dut) (ref : Ref) : State where
  ref := { ref with cpu := (difftestRegcpy .toRef dut.cpu ref.cpu).2 }
  is_skip_ref := false
  skip_dut_nr_inst := 0
  aborted := false

inductive Call where
  | skipRef
  | skipDut (nr_ref nr_dut : Int)
  | step (dut : Dut)

def Call.perform (state : State) : Call → Option State
  | .skipRef => some (difftestSkipRef state)
  | .skipDut nr_ref nr_dut => some (difftestSkipDut exec nr_ref nr_dut state)
  | .step dut => traceAndDifftest difftestMem exec dut state

/-- The state after the calls, in order. -/
def run (state : State) (calls : List Call) : Option State :=
  calls.foldlM (Call.perform difftestMem exec) state

end Checker

/-! ## Synchronisation -/

/-- The reference has the GPRs, the pc and the compared CSRs of the core. -/
structure InStep (dut ref : CpuState) : Prop where
  gpr : ∀ index, ref.gpr index = dut.gpr index
  pc : ref.pc = dut.npc_for_pipeline
  sr : ∀ name ∈ checkedSr, ref.sr name = dut.sr name

/-- The next step ends a catch-up although `difftest_skip_ref` is still to be
served, or at a fetch address that is not the next pc of the core. -/
def StaleCatchUp (dut : Dut) (state : State) : Prop :=
  0 < state.skip_dut_nr_inst ∧ state.ref.cpu.pc = dut.cpu.cpc ∧
    (state.is_skip_ref = true ∨ dut.cpu.cpc ≠ dut.cpu.npc_for_pipeline)

theorem copySr_of_mem {names : List (BitVec 12)} {name : BitVec 12}
    (member : name ∈ names) (source target : BitVec 12 → Word) :
    copySr names source target name = source name :=
  if_pos member

theorem checkregs_passes_iff (dut cpu : CpuState) (pc : Word) :
    isaDifftestCheckregs dut (difftestRegcpy .toDut dut cpu).1 pc = true ↔
      (∀ index, cpu.gpr index = dut.gpr index) ∧ cpu.pc = pc ∧
        ∀ name ∈ checkedSr, cpu.sr name = dut.sr name := by
  have copied : ∀ name ∈ checkedSr,
      (difftestRegcpy .toDut dut cpu).1.sr name = cpu.sr name :=
    fun name member => copySr_of_mem member _ _
  simp only [isaDifftestCheckregs, Bool.and_eq_true, decide_eq_true_eq,
    List.all_eq_true, beq_iff_eq, and_assoc]
  constructor
  · rintro ⟨gpr, pcEq, sr⟩
    exact ⟨gpr, pcEq, fun name member => by
      rw [← copied name member, ← sr name member]⟩
  · rintro ⟨gpr, pcEq, sr⟩
    exact ⟨gpr, pcEq, fun name member => by
      rw [copied name member, sr name member]⟩

theorem checks_frame (difftestMem : Bool) (dut : Dut) (ref_r : CpuState)
    (pc : Word) (state : State) :
    let after := checkStore difftestMem dut
      (checkregs dut.cpu ref_r pc state)
    after.ref = state.ref ∧ after.is_skip_ref = state.is_skip_ref ∧
      after.skip_dut_nr_inst = state.skip_dut_nr_inst := by
  simp only [checkStore, checkregs, checkmems]
  split <;> split_ifs <;> exact ⟨rfl, rfl, rfl⟩

theorem checkregs_of_notAborted {difftestMem : Bool} {dut : Dut}
    {ref_r : CpuState} {pc : Word} {state : State}
    (notAborted : (checkStore difftestMem dut
      (checkregs dut.cpu ref_r pc state)).aborted = false) :
    isaDifftestCheckregs dut.cpu ref_r pc = true := by
  by_contra fails
  have aborted : (checkregs dut.cpu ref_r pc state).aborted = true := by
    simp [checkregs, fails]
  revert notAborted
  simp only [checkStore, checkmems]
  split
  · split_ifs <;> simp [aborted]
  · simp [aborted]

section Synchronisation

variable {difftestMem : Bool} {exec : Ref → Ref} {dut : Dut}
  {before after : State}

/-- What a step that returns without aborting leaves, mode by mode: the
reference caught up, was copied over, ran one instruction, or is still
ahead. -/
theorem difftestStep_cases
    (step : traceAndDifftest difftestMem exec dut before = some after)
    (notAborted : after.aborted = false) :
    (0 < before.skip_dut_nr_inst ∧ before.ref.cpu.pc = dut.cpu.cpc ∧
        after.ref = before.ref ∧ after.is_skip_ref = before.is_skip_ref ∧
        after.skip_dut_nr_inst = 0 ∧
        isaDifftestCheckregs dut.cpu
          (difftestRegcpy .toDut dut.cpu after.ref.cpu).1
          dut.cpu.cpc = true) ∨
      (0 < before.skip_dut_nr_inst ∧ after.skip_dut_nr_inst ≠ 0) ∨
      (¬ 0 < before.skip_dut_nr_inst ∧ after.is_skip_ref = false ∧
        after.ref.cpu =
          (difftestRegcpy .toRefSkipRef dut.cpu before.ref.cpu).2) ∨
      (¬ 0 < before.skip_dut_nr_inst ∧ after.is_skip_ref = false ∧
        isaDifftestCheckregs dut.cpu
          (difftestRegcpy .toDut dut.cpu after.ref.cpu).1
          dut.cpu.npc_for_pipeline = true) := by
  simp only [traceAndDifftest, difftestStep] at step
  split_ifs at step with ahead caughtUp lost skipping
  · injection step with step
    obtain ⟨refEq, skipEq, leftEq⟩ := checks_frame difftestMem dut
      (difftestRegcpy .toDut dut.cpu before.ref.cpu).1 dut.cpu.cpc
      { before with skip_dut_nr_inst := 0 }
    subst step
    refine Or.inl ⟨ahead, caughtUp, refEq, skipEq, leftEq, ?_⟩
    rw [refEq]
    exact checkregs_of_notAborted notAborted
  · injection step with step
    subst step
    exact Or.inr (Or.inl ⟨ahead, lost⟩)
  · injection step with step
    subst step
    exact Or.inr (Or.inr (Or.inl ⟨ahead, rfl, rfl⟩))
  · injection step with step
    obtain ⟨refEq, skipEq, _⟩ := checks_frame difftestMem dut
      (difftestRegcpy .toDut dut.cpu (exec before.ref).cpu).1
      dut.cpu.npc_for_pipeline { before with ref := exec before.ref }
    subst step
    refine Or.inr (Or.inr (Or.inr ⟨ahead, ?_, ?_⟩))
    · rw [skipEq]
      exact Bool.eq_false_iff.mpr skipping
    · rw [refEq]
      exact checkregs_of_notAborted notAborted

/-- A completed step leaves the reference in step with the core, and nothing to
skip, unless it was a stale catch-up. -/
theorem traceAndDifftest_inStep_iff
    (step : traceAndDifftest difftestMem exec dut before = some after)
    (notAborted : after.aborted = false)
    (caughtUp : after.skip_dut_nr_inst = 0) :
    (InStep dut.cpu after.ref.cpu ∧ after.is_skip_ref = false) ↔
      ¬ StaleCatchUp dut before := by
  rcases difftestStep_cases step notAborted with
    ⟨ahead, atFetch, refEq, skipEq, _, passes⟩ | ⟨_, stillAhead⟩ |
      ⟨notAhead, skipEq, copied⟩ | ⟨notAhead, skipEq, passes⟩
  · obtain ⟨gpr, pc, sr⟩ := (checkregs_passes_iff _ _ _).mp passes
    rw [skipEq]
    constructor
    · rintro ⟨inStep, notSkipping⟩ ⟨_, _, skipping | moved⟩
      · rw [notSkipping] at skipping
        contradiction
      · exact moved (pc.symm.trans inStep.pc)
    · intro fresh
      have settled : before.is_skip_ref = false ∧
          dut.cpu.cpc = dut.cpu.npc_for_pipeline := by
        by_contra unsettled
        refine fresh ⟨ahead, atFetch, ?_⟩
        by_contra neither
        simp_all
      exact ⟨⟨gpr, pc.trans settled.2, sr⟩, settled.1⟩
  · exact absurd caughtUp stillAhead
  · have inStep : InStep dut.cpu after.ref.cpu := by
      rw [copied]
      exact ⟨fun _ => rfl, rfl, fun name member =>
        copySr_of_mem (List.mem_append_left _ member) _ _⟩
    exact iff_of_true ⟨inStep, skipEq⟩ fun stale => notAhead stale.1
  · obtain ⟨gpr, pc, sr⟩ := (checkregs_passes_iff _ _ _).mp passes
    exact iff_of_true ⟨⟨gpr, pc, sr⟩, skipEq⟩ fun stale => notAhead stale.1

/-! ## Runs -/

theorem run_append (state : State) (calls : List Call) (call : Call) :
    run difftestMem exec state (calls ++ [call]) =
      (run difftestMem exec state calls).bind fun reached =>
        call.perform difftestMem exec reached := by
  simp only [run, List.foldlM_append, List.foldlM_cons, List.foldlM_nil]
  cases List.foldlM (Call.perform difftestMem exec) state calls with
  | none =>
      rfl
  | some reached =>
      cases performed : call.perform difftestMem exec reached <;>
        simp [performed]

/-- In every run of the checker, a step that returns without aborting and with
nothing left to catch up leaves the two sides in step exactly where it was not
a stale catch-up. -/
theorem run_inStep_iff {boot : Dut} {ref : Ref} {calls : List Call}
    (ran : run difftestMem exec (initDifftest boot ref) calls = some before)
    (stepped : run difftestMem exec (initDifftest boot ref)
      (calls ++ [.step dut]) = some after)
    (notAborted : after.aborted = false)
    (caughtUp : after.skip_dut_nr_inst = 0) :
    (InStep dut.cpu after.ref.cpu ∧ after.is_skip_ref = false) ↔
      ¬ StaleCatchUp dut before := by
  rw [run_append, ran] at stepped
  exact traceAndDifftest_inStep_iff stepped notAborted caughtUp

/-! A core and a reference that run `nop`s; both skips are asked for before the
core has caught up. -/

def nopCpu (pc : Word) : CpuState where
  gpr _ := 0
  pc := pc
  sr _ := 0
  cpc := pc
  npc_for_pipeline := pc

def nopDut (pc : Word) : Dut := ⟨nopCpu pc, none⟩

def nopExec (ref : Ref) : Ref :=
  { ref with cpu := { ref.cpu with pc := ref.cpu.pc + 4 } }

def nopRef : Ref := ⟨nopCpu 0, fun _ => 0⟩

def bothSkips : List Call := [.skipRef, .skipDut 1 2]

theorem run_inStep_iff_at_bothSkips :
    ∃ before after,
      run false nopExec (initDifftest (nopDut 0x80000000) nopRef)
        bothSkips = some before ∧
      run false nopExec (initDifftest (nopDut 0x80000000) nopRef)
        (bothSkips ++ [.step (nopDut 0x80000004)]) = some after ∧
      ((InStep (nopDut 0x80000004).cpu after.ref.cpu ∧
        after.is_skip_ref = false) ↔
          ¬ StaleCatchUp (nopDut 0x80000004) before) :=
  ⟨_, _, rfl, rfl, @run_inStep_iff false nopExec (nopDut 0x80000004) _ _
    (nopDut 0x80000000) nopRef bothSkips rfl rfl rfl rfl⟩

/-- The flag of `difftest_skip_ref` outlives the catch-up. -/
theorem bothSkips_notSettled :
    ¬ ∀ (difftestMem : Bool) (exec : Ref → Ref) (boot : Dut) (ref : Ref)
      (calls : List Call) (dut : Dut) (after : State),
      run difftestMem exec (initDifftest boot ref) (calls ++ [.step dut]) =
        some after →
      after.aborted = false → after.skip_dut_nr_inst = 0 →
      InStep dut.cpu after.ref.cpu ∧ after.is_skip_ref = false := by
  intro claimed
  have settled := (claimed false nopExec (nopDut 0x80000000) nopRef bothSkips
    (nopDut 0x80000004) _ rfl rfl rfl).2
  exact absurd settled (by decide)

theorem Call.perform_keeps_caughtUp {call : Call}
    (noSkipDut : ∀ nr_ref nr_dut, call ≠ .skipDut nr_ref nr_dut)
    (caughtUp : before.skip_dut_nr_inst = 0)
    (performed : call.perform difftestMem exec before = some after) :
    after.skip_dut_nr_inst = 0 := by
  cases call with
  | skipRef =>
      injection performed with performed
      rw [← performed]
      rfl
  | skipDut nr_ref nr_dut =>
      exact absurd rfl (noSkipDut nr_ref nr_dut)
  | step dut =>
      simp only [Call.perform, traceAndDifftest, difftestStep, caughtUp,
        lt_irrefl, if_false] at performed
      split_ifs at performed <;> injection performed with performed <;>
        subst performed
      · rfl
      · rw [(checks_frame _ _ _ _ _).2.2]

/-- The core never asks to skip itself: without `difftest_skip_dut`, every step
that does not abort leaves the two sides in step. -/
theorem run_inStep_of_noSkipDut {boot : Dut} {ref : Ref} {calls : List Call}
    (noSkipDut : ∀ nr_ref nr_dut, Call.skipDut nr_ref nr_dut ∉ calls)
    (stepped : run difftestMem exec (initDifftest boot ref)
      (calls ++ [.step dut]) = some after)
    (notAborted : after.aborted = false) :
    InStep dut.cpu after.ref.cpu ∧ after.is_skip_ref = false := by
  have settled : ∀ {calls : List Call} {reached : State},
      (∀ nr_ref nr_dut, Call.skipDut nr_ref nr_dut ∉ calls) →
      run difftestMem exec (initDifftest boot ref) calls = some reached →
      reached.skip_dut_nr_inst = 0 := by
    intro calls
    induction calls using List.reverseRecOn with
    | nil =>
        intro reached _ ran
        injection ran with ran
        rw [← ran]
        rfl
    | append_singleton calls call inductionHypothesis =>
        intro reached noSkipDut ran
        rw [run_append, Option.bind_eq_some_iff] at ran
        obtain ⟨earlier, ranEarlier, performed⟩ := ran
        have notIn : ∀ nr_ref nr_dut, Call.skipDut nr_ref nr_dut ∉ calls :=
          fun nr_ref nr_dut member =>
            noSkipDut nr_ref nr_dut (List.mem_append_left _ member)
        refine Call.perform_keeps_caughtUp ?_
          (inductionHypothesis notIn ranEarlier) performed
        rintro nr_ref nr_dut rfl
        exact noSkipDut nr_ref nr_dut (by simp)
  have caughtUp : after.skip_dut_nr_inst = 0 :=
    settled (by simpa using noSkipDut) stepped
  rw [run_append, Option.bind_eq_some_iff] at stepped
  obtain ⟨before, ran, stepped⟩ := stepped
  refine (traceAndDifftest_inStep_iff stepped notAborted caughtUp).mpr ?_
  rintro ⟨ahead, _⟩
  rw [settled noSkipDut ran] at ahead
  exact lt_irrefl _ ahead

end Synchronisation

end Ysyx.Nemu.Difftest
