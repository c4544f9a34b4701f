import Ysyx.Am.Trap

/-!
# Context switches

`cte.c` around `trap.S`: traps save contexts, `kcontext` builds them, and the
handler that the program has installed chooses the one to go on with.
-/

namespace Ysyx.Am

open Nemu

/-! ## `cte.c` -/

inductive Event where
  | yield | syscall | irqTimer | error
  deriving DecidableEq, Repr

/-- The causes for which `__am_irq_handle` steps over the instruction. -/
def isEcall (mcause : Word) : Bool :=
  mcause == 0x8 || mcause == 0x9 || mcause == 0xb

/-- `__am_irq_handle` up to the call of `user_handler`: the event and the
memory. -/
def amIrqHandle (pmem : Pmem) (c : Word) : Event × Pmem :=
  let mcause := hostRead pmem (slot c 32) 4
  if isEcall mcause then
    let pmem := hostWrite pmem (slot c 34) 4
      (hostRead pmem (slot c 34) 4 + 4)
    (if hostRead pmem (slot c 17) 4 = -1 then .yield else .syscall, pmem)
  else if mcause = 0x80000007 then
    (.irqTimer, pmem)
  else
    (.error, pmem)

/-- The memory after `kcontext`, whose context is at `kstack.end` less the
size of a `Context`. -/
def kcontext (pmem : Pmem) (p entry arg : Word) : Pmem :=
  let pmem := hostWrite pmem (slot p 34) 4 entry
  let pmem := hostWrite pmem (slot p a0.toNat) 4 arg
  let pmem := hostWrite pmem (slot p 33) 4 0x1800
  hostWrite pmem (slot p 36) 4 3

/-- `isa_raise_intr` where the hart is. -/
def raise (hart : State) (no : Word) : State :=
  ⟨hart.cpu.sr CSR_MTVEC, isaRaiseIntr hart.cpu no hart.pc, hart.pmem⟩

theorem exec_ecall (hart : State) :
    exec hart 0x00000073 = raise hart MCA_ENV_CAL_MMO := by
  have found : rowOf 0x00000073 = some 45 := by decide +kernel
  simp only [exec, decodeExec, selected_eq found]
  rfl

/-! ## Threads -/

/-- What a thread sees of the hart. -/
structure Thread where
  gpr : BitVec 5 → Word
  pc : Word
  mie : Bool

namespace Thread

def running (hart : State) : Thread where
  gpr := hart.cpu.gpr
  pc := hart.pc
  mie := (hart.cpu.sr CSR_MSTATUS).getLsbD 3

/-- The thread that a trap interrupts; after an `ecall` it goes on behind
it. -/
def interrupted (hart : State) (no : Word) : Thread :=
  { running hart with pc := if isEcall no then hart.pc + 4 else hart.pc }

/-- The thread that `kcontext` creates: `entry(arg)`, with the other registers
as the memory of the context has them. -/
def created (pmem : Pmem) (p entry arg : Word) : Thread where
  gpr n :=
    if n = 0 then 0
    else if n = sp then p + 140
    else if n = a0 then arg
    else hostRead pmem (slot p n.toNat) 4
  pc := entry
  mie := false

end Thread

/-- The context at `context` is one of `thread`. -/
structure Holds (pmem : Pmem) (context : Word) (thread : Thread) : Prop where
  zero : thread.gpr 0 = 0
  gpr : ∀ n : BitVec 5, n ≠ 0 → n ≠ sp →
    hostRead pmem (slot context n.toNat) 4 = thread.gpr n
  sp : thread.gpr sp = context + 140
  pc : hostRead pmem (slot context 34) 4 = thread.pc
  mie : (hostRead pmem (slot context 33) 4).getLsbD 7 = thread.mie

/-- The bytes of the context that `trap.S` reads are the same. -/
def Unmodified (before after : Pmem) (context : Word) : Prop :=
  ∀ offset, offset < 140 →
    after (context + BitVec.ofNat 32 offset) =
      before (context + BitVec.ofNat 32 offset)

instance (before after : Pmem) (context : Word) :
    Decidable (Unmodified before after context) :=
  inferInstanceAs (Decidable (∀ offset, offset < 140 → _ = _))

theorem Unmodified.slot_eq {before after : Pmem} {context : Word}
    (unmodified : Unmodified before after context) {index : Nat}
    (inContext : index < 35) :
    hostRead after (slot context index) 4 =
      hostRead before (slot context index) 4 := by
  apply hostRead_congr
  intro offset inWord
  have inBytes := unmodified (index * 4 + offset) (by omega)
  rwa [BitVec.ofNat_add, ← BitVec.add_assoc] at inBytes

theorem Holds.of_unmodified {before after : Pmem} {context : Word}
    {thread : Thread} (holds : Holds before context thread)
    (unmodified : Unmodified before after context) :
    Holds after context thread where
  zero := holds.zero
  gpr n notZero notSp := by
    rw [unmodified.slot_eq (by omega), holds.gpr n notZero notSp]
  sp := holds.sp
  pc := by
    rw [unmodified.slot_eq (by omega), holds.pc]
  mie := by
    rw [unmodified.slot_eq (by omega), holds.mie]

theorem holds_kcontext (pmem : Pmem) (p entry arg : Word) :
    Holds (kcontext pmem p entry arg) p
      (Thread.created pmem p entry arg) where
  zero := by simp [Thread.created]
  gpr n notZero notSp := by
    have inFile : n.toNat < 32 := n.isLt
    simp only [kcontext, Thread.created]
    rw [hostRead_hostWrite_slot _ _ _ (by omega) (by omega) (by omega),
      hostRead_hostWrite_slot _ _ _ (by omega) (by omega) (by omega),
      if_neg notZero, if_neg notSp]
    by_cases isA0 : n = a0
    · rw [isA0, hostRead_hostWrite_self, if_pos rfl]
    · have otherSlot : n.toNat ≠ a0.toNat :=
        fun same => isA0 (BitVec.eq_of_toNat_eq same)
      rw [hostRead_hostWrite_slot _ _ _ (by omega) (by decide) otherSlot,
        hostRead_hostWrite_slot _ _ _ (by omega) (by omega) (by omega),
        if_neg isA0]
  sp := by
    simp [Thread.created, Am.sp]
  pc := by
    simp only [kcontext]
    rw [hostRead_hostWrite_slot _ _ _ (by omega) (by omega) (by omega),
      hostRead_hostWrite_slot _ _ _ (by omega) (by omega) (by omega),
      hostRead_hostWrite_slot _ _ _ (by omega) (by decide) (by decide),
      hostRead_hostWrite_self]
    rfl
  mie := by
    simp only [kcontext]
    rw [hostRead_hostWrite_slot _ _ _ (by omega) (by omega) (by omega),
      hostRead_hostWrite_self]
    rfl

/-! ## Save and restore -/

/-- The hart at the call of `__am_irq_handle`. -/
def saved (hart : State) (no : Word) : State :=
  execAll (raise hart no) asmTrapSave

theorem raised_mstatus (hart : State) (no : Word) :
    ((raise hart no).cpu.sr CSR_MSTATUS).getLsbD 7 =
      (hart.cpu.sr CSR_MSTATUS).getLsbD 3 := by
  simp only [raise, isaRaiseIntr, setSr_sr_self]
  simp

theorem raised_mcause (hart : State) (no : Word) :
    (raise hart no).cpu.sr CSR_MCAUSE = no := by
  simp (disch := decide) only [raise, isaRaiseIntr, setSr_sr_self,
    setSr_sr_of_ne]

theorem raised_mepc (hart : State) (no : Word) :
    (raise hart no).cpu.sr CSR_MEPC = hart.pc := by
  simp (disch := decide) only [raise, isaRaiseIntr, setSr_sr_self,
    setSr_sr_of_ne]

/-- What `__am_irq_handle` writes before it calls the handler. -/
theorem amIrqHandle_pmem {pmem : Pmem} {c no : Word}
    (cause : hostRead pmem (slot c 32) 4 = no) :
    (amIrqHandle pmem c).2 =
      if isEcall no then
        hostWrite pmem (slot c 34) 4 (hostRead pmem (slot c 34) 4 + 4)
      else
        pmem := by
  simp only [amIrqHandle, cause]
  split_ifs <;> rfl

/-- The context of a trap, when the handler is called, is one of the thread
that was interrupted. -/
theorem holds_saved (hart : State) (no : Word) :
    Holds (amIrqHandle (saved hart no).pmem ((saved hart no).cpu.gpr a0)).2
      ((saved hart no).cpu.gpr a0) (Thread.interrupted hart no) := by
  obtain ⟨_, atA0, gpr, cause, status, epc⟩ :=
    execAll_asmTrapSave (raise hart no)
  rw [raised_mcause] at cause
  rw [raised_mepc] at epc
  rw [← saved] at atA0 gpr cause status epc
  have spIs : hart.cpu.gpr sp = (saved hart no).cpu.gpr a0 + 140 := by
    rw [atA0]
    exact (BitVec.sub_add_cancel _ _).symm
  rw [← atA0] at gpr cause status epc
  rw [amIrqHandle_pmem cause]
  by_cases ecall : isEcall no = true
  · rw [if_pos ecall]
    exact {
      zero := hart.cpu.gpr_zero
      gpr := fun n notZero notSp => by
        rw [hostRead_hostWrite_slot _ _ _ (by omega) (by omega) (by omega)]
        exact gpr n notZero notSp
      sp := spIs
      pc := by
        rw [hostRead_hostWrite_self, epc]
        exact (if_pos ecall).symm
      mie := by
        rw [hostRead_hostWrite_slot _ _ _ (by omega) (by omega) (by omega),
          status]
        exact raised_mstatus hart no }
  · rw [if_neg ecall]
    exact {
      zero := hart.cpu.gpr_zero
      gpr := gpr
      sp := spIs
      pc := epc.trans (if_neg ecall).symm
      mie := by
        rw [status]
        exact raised_mstatus hart no }

/-- The second half resumes the thread of the context in `a0`. -/
theorem running_of_holds {called : State} {thread : Thread}
    (holds : Holds called.pmem (called.cpu.gpr a0) thread) :
    Thread.running (execAll called asmTrapRestore) = thread := by
  obtain ⟨_, pc, gpr, atSp, mie⟩ := execAll_asmTrapRestore called
  have sameGpr : (execAll called asmTrapRestore).cpu.gpr = thread.gpr := by
    funext n
    by_cases zero : n = 0
    · rw [zero, CpuState.gpr_zero, holds.zero]
    · by_cases isSp : n = sp
      · rw [isSp, atSp, holds.sp]
      · rw [gpr n zero isSp, holds.gpr n zero isSp]
  cases thread
  simp only [Thread.running, sameGpr, pc, mie, holds.pc, holds.mie]

/-! ## Runs -/

/-- The hart, and for every address the thread of the context last saved or
built there, as long as its memory was not modified since. -/
structure World where
  hart : State
  contexts : Word → Option Thread

/-- The contexts that a change of the memory leaves. -/
def World.kept (world : World) (pmem : Pmem) (context : Word) :
    Option Thread :=
  if Unmodified world.hart.pmem pmem context then world.contexts context
  else none

/-- The event and the memory with which the handler of a trap is called. -/
def World.handlerCall (world : World) (no : Word) : Event × Pmem :=
  amIrqHandle (saved world.hart no).pmem ((saved world.hart no).cpu.gpr a0)

/-- After a trap whose handler has come back in the state `called`. -/
def World.switched (world : World) (no : Word) (called : State) : World where
  hart := execAll called asmTrapRestore
  contexts context :=
    if context = (saved world.hart no).cpu.gpr a0 then
      if Unmodified (world.handlerCall no).2 called.pmem context then
        some (Thread.interrupted world.hart no)
      else
        none
    else
      world.kept called.pmem context

/-- After a call of `kcontext`. -/
def World.created (world : World) (hart : State) (p entry arg : Word) :
    World where
  hart := hart
  contexts context :=
    if context = p then
      some (Thread.created world.hart.pmem p entry arg)
    else
      world.kept hart.pmem context

section Runs

variable (userHandler : Event → Word → Pmem → Word → Pmem → Prop)
  (asmTrap : Word)

/-- One step, with the context that it resumes: code of the program runs, in
any way; or it has called `kcontext`; or a trap is taken, the handler returns
some context, with whatever it did to the registers and the memory, and the
hart goes on with that context. -/
inductive Step : World → Option Word → World → Prop where
  | thread (world : World) (hart : State) :
      Step world none ⟨hart, world.kept hart.pmem⟩
  | kcontext (world : World) (hart : State) (p entry arg : Word)
      (built : hart.pmem = kcontext world.hart.pmem p entry arg) :
      Step world none (world.created hart p entry arg)
  | trap (world : World) (no returned : Word) (called : State)
      (vector : world.hart.cpu.sr CSR_MTVEC = asmTrap)
      (handled : userHandler (world.handlerCall no).1
        ((saved world.hart no).cpu.gpr a0) (world.handlerCall no).2
        returned called.pmem)
      (notNull : returned ≠ 0)
      (inA0 : called.cpu.gpr a0 = returned) :
      Step world (some returned) (world.switched no called)

/-- The worlds of the runs from a hart without contexts. -/
inductive Reachable : World → Prop where
  | boot (hart : State) : Reachable ⟨hart, fun _ => none⟩
  | step {world next : World} {resumed : Option Word}
      (reachable : Reachable world)
      (step : Step userHandler asmTrap world resumed next) : Reachable next

end Runs

/-- Every context on record holds its thread. -/
def Recorded (world : World) : Prop :=
  ∀ context thread, world.contexts context = some thread →
    Holds world.hart.pmem context thread

theorem World.kept_eq_some {world : World} {pmem : Pmem} {context : Word}
    {thread : Thread} :
    world.kept pmem context = some thread ↔
      Unmodified world.hart.pmem pmem context ∧
        world.contexts context = some thread := by
  simp only [kept]
  split_ifs with unmodified <;> simp [unmodified]

theorem Recorded.kept {world : World} (recorded : Recorded world)
    {pmem : Pmem} {context : Word} {thread : Thread}
    (isKept : world.kept pmem context = some thread) :
    Holds pmem context thread := by
  obtain ⟨unmodified, onRecord⟩ := World.kept_eq_some.mp isKept
  exact (recorded context thread onRecord).of_unmodified unmodified

section Resumption

variable {userHandler : Event → Word → Pmem → Word → Pmem → Prop}
  {asmTrap : Word} {world next : World} {resumed : Option Word}

theorem Recorded.step (recorded : Recorded world)
    (step : Step userHandler asmTrap world resumed next) :
    Recorded next := by
  cases step with
  | thread hart =>
      intro context thread onRecord
      exact recorded.kept onRecord
  | kcontext hart p entry arg built =>
      intro context thread onRecord
      simp only [World.created] at onRecord ⊢
      split_ifs at onRecord with isP
      · injection onRecord with onRecord
        rw [isP, ← onRecord, built]
        exact holds_kcontext _ _ _ _
      · exact recorded.kept onRecord
  | trap no returned called vector handled notNull inA0 =>
      intro context thread onRecord
      simp only [World.switched] at onRecord ⊢
      rw [(execAll_asmTrapRestore called).1]
      split_ifs at onRecord with isC unmodified
      · injection onRecord with onRecord
        rw [← onRecord]
        apply Holds.of_unmodified _ unmodified
        rw [isC]
        exact holds_saved _ _
      · exact recorded.kept onRecord

theorem Reachable.recorded
    (reachable : Reachable userHandler asmTrap world) : Recorded world := by
  induction reachable with
  | boot hart =>
      intro context thread onRecord
      contradiction
  | step _ step recorded =>
      exact recorded.step step

/-- In every run, with any number of threads switched in any order, a context
that was not modified since it was saved or built resumes its thread: with all
its registers, at its pc, with its interrupt enable. -/
theorem Reachable.running_eq
    (reachable : Reachable userHandler asmTrap world)
    {context : Word} {thread : Thread}
    (step : Step userHandler asmTrap world (some context) next)
    (onRecord : next.contexts context = some thread) :
    Thread.running next.hart = thread := by
  have holds := (reachable.recorded.step step) context thread onRecord
  cases step with
  | trap no returned called vector handled notNull inA0 =>
      simp only [World.switched] at holds ⊢
      rw [(execAll_asmTrapRestore called).1] at holds
      apply running_of_holds
      rwa [inA0]

/-! A thread that builds another and yields to it. -/

def yieldingHart : State where
  pc := 0x80000000
  cpu :=
    { gpr := fun n => if n = sp then 0x80010000 else 0
      sr := fun csr =>
        if csr = CSR_MTVEC then 0x80001000
        else if csr = CSR_MSTATUS then 0x1808
        else 0
      gpr_zero := by decide }
  pmem := fun _ => 0

example : (Thread.interrupted yieldingHart MCA_ENV_CAL_MMO).pc =
    0x80000004 := by
  decide

/-- The context that `kcontext` builds. -/
def workerContext : Word := 0x80020000

/-- A handler that returns this context and leaves the memory as it is. -/
def returnsWorker (_ : Event) (_ : Word) (pmem : Pmem) (returned : Word)
    (after : Pmem) : Prop :=
  returned = workerContext ∧ after = pmem

/-- The first thread has built the second. -/
def twoThreads : World :=
  World.created ⟨yieldingHart, fun _ => none⟩
    { yieldingHart with
      pmem := kcontext yieldingHart.pmem workerContext 0x80002000 7 }
    workerContext 0x80002000 7

theorem Reachable.running_eq_at_yield :
    ∃ next, Step returnsWorker 0x80001000 twoThreads (some workerContext)
        next ∧
      Thread.running next.hart =
        Thread.created (fun _ => 0) workerContext 0x80002000 7 := by
  let afterSave := saved twoThreads.hart MCA_ENV_CAL_MMO
  let called : State :=
    { afterSave with
      cpu := afterSave.cpu.setR a0 workerContext
      pmem := (twoThreads.handlerCall MCA_ENV_CAL_MMO).2 }
  have inA0 : called.cpu.gpr a0 = workerContext :=
    setR_gpr_self _ (by decide) _
  have built : Reachable returnsWorker 0x80001000 twoThreads :=
    Reachable.step (Reachable.boot yieldingHart)
      (Step.kcontext _ _ _ _ _ rfl)
  have step : Step returnsWorker 0x80001000 twoThreads (some workerContext)
      (twoThreads.switched MCA_ENV_CAL_MMO called) :=
    Step.trap twoThreads MCA_ENV_CAL_MMO workerContext called rfl ⟨rfl, rfl⟩
      (by decide) inA0
  have elsewhere : workerContext ≠ afterSave.cpu.gpr a0 := by
    have atA0 : afterSave.cpu.gpr a0 = 0x8000ff74 :=
      (execAll_asmTrapSave (raise twoThreads.hart MCA_ENV_CAL_MMO)).2.1
    rw [atA0]
    decide
  have unmodified : Unmodified twoThreads.hart.pmem
      (twoThreads.handlerCall MCA_ENV_CAL_MMO).2 workerContext := by
    decide +kernel
  refine ⟨_, step, Reachable.running_eq built step ?_⟩
  simp only [World.switched]
  rw [if_neg elsewhere]
  refine World.kept_eq_some.mpr ⟨unmodified, ?_⟩
  simp only [twoThreads, World.created, if_true]
  rfl

end Resumption

end Ysyx.Am
