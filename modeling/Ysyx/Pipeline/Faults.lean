import Ysyx.Pipeline.Occupancy
import Ysyx.Pipeline.Order

/-!
# Access faults

`access_fault` is one register of the LSU.  An observer records for which
instruction each response of the bus comes, and which instruction enters
MEM/WB with which `access_fault` bit.
-/

namespace Ysyx.Rtl

/-! ## The register -/

namespace Lsu

/-- The code of the response that completes a load in this cycle. -/
def loadResponse (lsu : Lsu) (port : In) : Option (BitVec 2) :=
  if lsu.stateLoad = .data ∧ lsu.lsuRready ∧ port.lsuRvalid then
    some port.lsuRresp
  else
    none

/-- The same for a store. -/
def storeResponse (lsu : Lsu) (port : In) : Option (BitVec 2) :=
  if lsu.stateStore = .resp ∧ lsu.lsuBready ∧ port.lsuBvalid then
    some port.lsuBresp
  else
    none

/-- The response is an error. -/
def isError (response : Option (BitVec 2)) : Bool := response.any (· != 0)

theorem isError_iff {response : Option (BitVec 2)} :
    isError response = true ↔ ∃ code, response = some code ∧ code ≠ 0 := by
  cases response <;> simp [isError]

theorem nextLoad_accessFault (lsu : Lsu) (port : In) :
    (lsu.nextLoad port).accessFault =
      if lsu.loadStart port then false
      else if isError (lsu.loadResponse port) then true
      else lsu.accessFault := by
  unfold nextLoad loadResponse
  cases state : lsu.stateLoad with
  | idle =>
      simp only [reduceCtorEq, false_and, if_false, isError, Option.any_none]
      split_ifs <;> rfl
  | addr | done =>
      simp only [loadStart, state, isError, reduceCtorEq, false_and, if_false]
      split_ifs <;> simp_all
  | data =>
      simp only [loadStart, state, true_and]
      by_cases taken : lsu.lsuRready = true ∧ port.lsuRvalid = true
      · by_cases okay : port.lsuRresp = 0 <;> simp [taken, isError, okay]
      · simp [taken, isError]

theorem nextStore_accessFault (lsu : Lsu) (port : In) :
    (lsu.nextStore port).accessFault =
      if isError (lsu.storeResponse port) then true
      else if lsu.storeStart port then false
      else lsu.accessFault := by
  unfold nextStore storeResponse
  cases state : lsu.stateStore with
  | idle =>
      simp only [reduceCtorEq, false_and, if_false, isError, Option.any_none,
        Bool.false_eq_true]
      split_ifs <;> rfl
  | sync | done =>
      simp only [storeStart, state, isError, reduceCtorEq, false_and, if_false]
      split_ifs <;> simp_all
  | resp =>
      simp only [storeStart, state, true_and]
      by_cases taken : lsu.lsuBready = true ∧ port.lsuBvalid = true
      · by_cases okay : port.lsuBresp = 0 <;> simp [taken, isError, okay]
      · simp [taken, isError]

theorem nextLoad_storeResponse (lsu : Lsu) (port : In) :
    (lsu.nextLoad port).storeResponse port = lsu.storeResponse port := by
  have ready : (lsu.nextLoad port).lsuBready = lsu.lsuBready := by
    unfold nextLoad
    split <;> split_ifs <;> rfl
  simp only [storeResponse, nextLoad_stateStore, ready]

theorem next_accessFault (lsu : Lsu) (port : In) :
    (lsu.next port).accessFault =
      if isError (lsu.storeResponse port) then true
      else if lsu.storeStart port then false
      else if lsu.loadStart port then false
      else if isError (lsu.loadResponse port) then true
      else lsu.accessFault := by
  rw [next, nextStore_accessFault, nextLoad_accessFault,
    nextLoad_storeResponse, nextLoad_storeStart]

theorem done_of_loadResponse {lsu : Lsu} {port : In} {code : BitVec 2}
    (answered : lsu.loadResponse port = some code) :
    lsu.stateLoad = .data ∧ (lsu.next port).stateLoad = .done := by
  unfold loadResponse at answered
  split_ifs at answered with taken
  rw [next_stateLoad, nextLoad]
  simp [taken]

theorem done_of_storeResponse {lsu : Lsu} {port : In} {code : BitVec 2}
    (answered : lsu.storeResponse port = some code) :
    lsu.stateStore = .resp ∧ (lsu.next port).stateStore = .done := by
  rw [← nextLoad_storeResponse] at answered
  unfold storeResponse at answered
  split_ifs at answered with taken
  rw [← nextLoad_stateStore lsu port, next, nextStore]
  simp [taken]

end Lsu

/-! ## The observer -/

/-- The core with the instructions for which the two machines of the LSU last
started, the responses of the bus by instruction, and the bits captured into
MEM/WB.  A bundle without an instruction is `none`. -/
structure Faulting (platform : Platform) where
  tracked : Tracked platform
  loadTag : Option Nat := none
  storeTag : Option Nat := none
  responses : List (Option Nat × BitVec 2) := []
  captured : List (Option Nat × Bool) := []

namespace Faulting

variable {platform : Platform}

abbrev core (faulting : Faulting platform) : Core platform :=
  faulting.tracked.core

/-- The responses of this cycle. -/
def answers (faulting : Faulting platform) : List (Option Nat × BitVec 2) :=
  let core := faulting.core
  (core.lsu.loadResponse core.lsuPort).toList.map (faulting.loadTag, ·) ++
    (core.lsu.storeResponse core.lsuPort).toList.map (faulting.storeTag, ·)

/-- MEM/WB captures a bundle. -/
def captures (faulting : Faulting platform) : Bool :=
  faulting.core.memValid && !faulting.core.globalTrapFlush

/-- One clock edge. -/
def step (axi : AxiIn) (faulting : Faulting platform) :
    Faulting platform :=
  let core := faulting.core
  let memTag := faulting.tracked.mem.map Ticket.tag
  { tracked := faulting.tracked.step axi
    loadTag :=
      if core.lsu.loadStart core.lsuPort then memTag else faulting.loadTag
    storeTag :=
      if core.lsu.storeStart core.lsuPort then memTag else faulting.storeTag
    responses := faulting.responses ++ faulting.answers
    captured :=
      if faulting.captures then
        faulting.captured ++ [(memTag, core.memWbIn.accessFault)]
      else faulting.captured }

def run (inputs : Nat → AxiIn) (power : Core platform) (cycle : Nat) :
    Faulting platform :=
  Machine.run step inputs { tracked := { core := power.reset } } cycle

theorem run_tracked (inputs : Nat → AxiIn) (power : Core platform)
    (cycle : Nat) :
    (run inputs power cycle).tracked = Tracked.run inputs power cycle :=
  Machine.run_view Faulting.tracked (fun _ _ => rfl) cycle

/-- The bus has answered the access of this instruction with an error. -/
def Erred (faulting : Faulting platform) (tag : Nat) : Prop :=
  ∃ code, code ≠ 0 ∧ (some tag, code) ∈ faulting.responses

/-- The bits captured so far are those of the instructions whose access was
answered with an error, and a commit that reports another next pc than the
instruction's own sends the fetch there. -/
structure Precise (faulting : Faulting platform) : Prop where
  bits : ∀ who bit, (who, bit) ∈ faulting.captured →
    (bit = true ↔ ∃ tag, who = some tag ∧ faulting.Erred tag)
  redirects : faulting.core.wbuValid = true →
    faulting.core.finalWbuNpc ≠ faulting.core.memWb.dataOut.npc →
      faulting.core.ifuFlushReq = true ∧ ∀ axi,
        (faulting.core.step axi).ifu.pcReg = faulting.core.finalWbuNpc

/-- The LSU is done with the access of this instruction. -/
def DoneFor (faulting : Faulting platform) (tag : Nat) : Prop :=
  faulting.core.lsu.stateLoad = .done ∧ faulting.loadTag = some tag ∨
    faulting.core.lsu.stateStore = .done ∧ faulting.storeTag = some tag

/-- While the flag is set only its own instruction moves on: an error comes
while the instruction of the access waits in MEM, MEM/WB takes nothing else
with the flag set, and the instruction continues at `0`.  No `mret` carries an
exception. -/
structure Attributed (faulting : Faulting platform) : Prop where
  answers : ∀ answer ∈ faulting.answers, answer.2 ≠ 0 →
    faulting.core.memValid = false ∧
      ∃ ticket, faulting.tracked.mem = some ticket ∧
        answer.1 = some ticket.tag
  captures : faulting.captures = true →
    faulting.core.lsu.accessFault = true →
      ∃ ticket, faulting.tracked.mem = some ticket ∧
        faulting.DoneFor ticket.tag
  commits : faulting.core.wbuValid = true →
    faulting.core.memWb.dataOut.accessFault = true →
      faulting.core.memWb.dataOut.npc = 0
  mrets : faulting.core.wbuValid = true →
    faulting.core.memWb.dataOut.ctrlWb.isMret = true →
      faulting.core.memWb.dataOut.excValid = false

instance (faulting : Faulting platform) (tag : Nat) :
    Decidable (faulting.DoneFor tag) :=
  inferInstanceAs (Decidable (_ ∨ _))

instance (faulting : Faulting platform) : Decidable (Attributed faulting) :=
  decidable_of_iff
    ((∀ answer ∈ faulting.answers, answer.2 ≠ 0 →
        faulting.core.memValid = false ∧
          ∃ ticket ∈ faulting.tracked.mem, answer.1 = some ticket.tag) ∧
      (faulting.captures = true → faulting.core.lsu.accessFault = true →
        ∃ ticket ∈ faulting.tracked.mem, faulting.DoneFor ticket.tag) ∧
      (faulting.core.wbuValid = true →
        faulting.core.memWb.dataOut.accessFault = true →
          faulting.core.memWb.dataOut.npc = 0) ∧
      (faulting.core.wbuValid = true →
        faulting.core.memWb.dataOut.ctrlWb.isMret = true →
          faulting.core.memWb.dataOut.excValid = false))
    ⟨fun ⟨answers, captures, commits, mrets⟩ =>
        ⟨answers, captures, commits, mrets⟩,
      fun attributed => ⟨attributed.answers, attributed.captures,
        attributed.commits, attributed.mrets⟩⟩

/-! ## The redirect -/

theorem Attributed.redirects {faulting : Faulting platform}
    (attributed : Attributed faulting)
    (valid : faulting.core.wbuValid = true)
    (differs :
      faulting.core.finalWbuNpc ≠ faulting.core.memWb.dataOut.npc) :
    faulting.core.ifuFlushReq = true ∧ ∀ axi,
      (faulting.core.step axi).ifu.pcReg = faulting.core.finalWbuNpc := by
  have commits : faulting.core.memWb.validOut = true := valid
  have noFault : faulting.core.memWb.dataOut.accessFault = false := by
    by_contra fault
    rw [Bool.not_eq_false] at fault
    refine differs ?_
    rw [attributed.commits valid fault]
    simp [Core.finalWbuNpc, Core.wbTrap, fault]
  have target : faulting.core.globalTrapFlush = true ∧
      faulting.core.nextPc = faulting.core.finalWbuNpc := by
    cases isMret : faulting.core.memWb.dataOut.ctrlWb.isMret with
    | true =>
        have noTrap := attributed.mrets valid isMret
        simp [Core.globalTrapFlush, Core.wbuMretFire, Core.nextPc,
          Core.wbuTrapFire, Core.finalWbuNpc, Core.wbTrap, commits, noFault,
          isMret, noTrap]
    | false =>
        cases traps : faulting.core.memWb.dataOut.excValid with
        | true =>
            simp [Core.globalTrapFlush, Core.nextPc, Core.wbuTrapFire,
              Core.finalWbuNpc, Core.wbTrap, commits, noFault, isMret, traps]
        | false =>
            refine absurd ?_ differs
            simp [Core.finalWbuNpc, Core.wbTrap, noFault, isMret, traps]
  have flushes : faulting.core.ifuFlushReq = true := by
    simp [Core.ifuFlushReq, Core.jumpReq, target.1]
  refine ⟨flushes, fun axi => ?_⟩
  rw [← target.2]
  exact (Ifu.next_pcReg _ _).trans (if_pos (Or.inl flushes))

/-! ## Whose response it is -/

theorem erred_step {faulting : Faulting platform} {axi : AxiIn} {tag : Nat} :
    (faulting.step axi).Erred tag ↔
      faulting.Erred tag ∨
        ∃ code, code ≠ 0 ∧ (some tag, code) ∈ faulting.answers := by
  simp only [Erred, step, List.mem_append]
  constructor
  · rintro ⟨code, error, old | new⟩
    · exact Or.inl ⟨code, error, old⟩
    · exact Or.inr ⟨code, error, new⟩
  · rintro (⟨code, error, old⟩ | ⟨code, error, new⟩)
    · exact ⟨code, error, Or.inl old⟩
    · exact ⟨code, error, Or.inr new⟩

theorem mem_answers {faulting : Faulting platform} {who : Option Nat}
    {code : BitVec 2} :
    (who, code) ∈ faulting.answers ↔
      faulting.core.lsu.loadResponse faulting.core.lsuPort = some code ∧
          who = faulting.loadTag ∨
        faulting.core.lsu.storeResponse faulting.core.lsuPort = some code ∧
          who = faulting.storeTag := by
  simp only [answers, List.mem_append, List.mem_map, Option.mem_toList,
    Prod.mk.injEq]
  constructor
  · rintro (⟨_, answered, rfl, rfl⟩ | ⟨_, answered, rfl, rfl⟩)
    · exact Or.inl ⟨answered, rfl⟩
    · exact Or.inr ⟨answered, rfl⟩
  · rintro (⟨answered, rfl⟩ | ⟨answered, rfl⟩)
    · exact Or.inl ⟨code, answered, rfl, rfl⟩
    · exact Or.inr ⟨code, answered, rfl, rfl⟩

/-- A flag that is set after a clock edge was not cleared, or an error of the
instruction in MEM has set it. -/
theorem flag_cases {faulting : Faulting platform} {axi : AxiIn}
    (attributed : Attributed faulting)
    (flag : (faulting.step axi).core.lsu.accessFault = true) {ticket : Ticket}
    (inMem : faulting.tracked.mem = some ticket) :
    (faulting.step axi).Erred ticket.tag ∨
      faulting.core.lsu.accessFault = true ∧
        faulting.core.lsu.loadStart faulting.core.lsuPort = false ∧
        faulting.core.lsu.storeStart faulting.core.lsuPort = false := by
  have own (who : Option Nat) (code : BitVec 2) (error : code ≠ 0)
      (answer : (who, code) ∈ faulting.answers) :
      (faulting.step axi).Erred ticket.tag := by
    obtain ⟨-, holder, held, same⟩ := attributed.answers _ answer error
    rw [inMem] at held
    cases held
    obtain rfl : who = some ticket.tag := same
    exact erred_step.mpr (Or.inr ⟨code, error, answer⟩)
  have next : (faulting.core.lsu.next faulting.core.lsuPort).accessFault =
      true := flag
  rw [Lsu.next_accessFault] at next
  split_ifs at next with storeFails storeStarts loadStarts loadFails
  · obtain ⟨code, answered, error⟩ := Lsu.isError_iff.mp storeFails
    exact Or.inl (own _ code error (mem_answers.mpr (Or.inr ⟨answered, rfl⟩)))
  · obtain ⟨code, answered, error⟩ := Lsu.isError_iff.mp loadFails
    exact Or.inl (own _ code error (mem_answers.mpr (Or.inl ⟨answered, rfl⟩)))
  · exact Or.inr ⟨next, Bool.eq_false_iff.mpr loadStarts,
      Bool.eq_false_iff.mpr storeStarts⟩

/-! ## The invariant -/

/-- A busy machine works for an instruction that has gone to MEM.  If that
instruction is still there, its bundle has the kind of the machine, and a set
flag is its error. -/
structure Working (faulting : Faulting platform) (busy : Prop)
    (owner : Option Nat) (kind : Prop) : Prop where
  owned : busy → ∃ tag, owner = some tag ∧
    Tracked.Passed faulting.tracked tag ∧
      ∀ ticket, faulting.tracked.mem = some ticket → ticket.tag = tag →
        kind ∧ (faulting.core.lsu.accessFault = true → faulting.Erred tag)

structure Kept (faulting : Faulting platform) : Prop where
  idExKind : faulting.core.idEx.dataOut.ctrlMem.OneKind
  exMemKind : faulting.core.exMem.dataOut.ctrlMem.OneKind
  load : faulting.Working (faulting.core.lsu.stateLoad ≠ .idle)
    faulting.loadTag (faulting.core.exMem.dataOut.ctrlMem.readMem ≠ 0)
  store : faulting.Working (faulting.core.lsu.stateStore ≠ .idle)
    faulting.storeTag (faulting.core.exMem.dataOut.ctrlMem.writeMem ≠ 0)
  responses : ∀ tag, faulting.Erred tag →
    Tracked.LeftMem faulting.tracked tag ∨
      faulting.core.lsu.accessFault = true ∧ faulting.DoneFor tag ∧
        ∃ ticket, faulting.tracked.mem = some ticket ∧ ticket.tag = tag
  captured : ∀ who bit, (who, bit) ∈ faulting.captured →
    (bit = true ↔ ∃ tag, who = some tag ∧ faulting.Erred tag) ∧
      ∀ tag, who = some tag → Tracked.LeftMem faulting.tracked tag

theorem kept_reset (power : Core platform) :
    Kept { tracked := { core := power.reset } } where
  idExKind := Or.inl rfl
  exMemKind := Or.inl rfl
  load := ⟨fun busy => absurd rfl busy⟩
  store := ⟨fun busy => absurd rfl busy⟩
  responses := by simp [Erred]
  captured := by simp

section Step

variable {faulting : Faulting platform} {axi : AxiIn}

/-- One machine at a clock edge: `starts` is its start. -/
theorem Working.step (kind : CtrlMem → Prop) (starts : Prop)
    {busy busyNext : Prop} {owner ownerNext : Option Nat}
    (working : faulting.Working busy owner
      (kind faulting.core.exMem.dataOut.ctrlMem))
    (synced : Tracked.Synced faulting.tracked)
    (inOrder : Tracked.InOrder faulting.tracked)
    (attributed : Attributed faulting)
    (cases : busyNext → starts ∧
        faulting.core.exMem.validOut = true ∧
          kind faulting.core.exMem.dataOut.ctrlMem ∧
          ownerNext = faulting.tracked.mem.map Ticket.tag ∨
      busy ∧ ownerNext = owner)
    (clears : starts →
      faulting.core.lsu.loadStart faulting.core.lsuPort = true ∨
        faulting.core.lsu.storeStart faulting.core.lsuPort = true) :
    (faulting.step axi).Working busyNext ownerNext
      (kind (faulting.step axi).core.exMem.dataOut.ctrlMem) := by
  refine ⟨fun isBusy => ?_⟩
  have stays {ticket : Ticket}
      (passed : Tracked.Passed faulting.tracked ticket.tag)
      (inMem : (faulting.step axi).tracked.mem = some ticket) :
      faulting.tracked.mem = some ticket ∧
        (faulting.step axi).core.exMem = faulting.core.exMem := by
    obtain ⟨noFlush, stalled, wasMem⟩ := passed.stays inMem
    refine ⟨wasMem, ?_⟩
    change (faulting.core.step axi).exMem = _
    rw [Core.step_exMem, noFlush, stalled]
    rfl
  rcases cases isBusy with ⟨isStart, valid, isKind, sameOwner⟩ |
    ⟨wasBusy, sameOwner⟩
  · obtain ⟨ticket, inMem⟩ := synced.mem.exists_ticket valid
    have passed := inOrder.passed inMem
    refine ⟨ticket.tag, by rw [sameOwner, inMem]; rfl, passed.step axi, ?_⟩
    intro later inNext sameTag
    obtain ⟨wasMem, sameBundle⟩ := stays (sameTag ▸ passed) inNext
    refine ⟨sameBundle ▸ isKind, fun flag => ?_⟩
    rcases flag_cases attributed flag inMem with erred | ⟨-, noLoad, noStore⟩
    · exact erred
    · rcases clears isStart with started | started
      · rw [noLoad] at started
        contradiction
      · rw [noStore] at started
        contradiction
  · obtain ⟨tag, isOwner, passed, mine⟩ := working.owned wasBusy
    refine ⟨tag, sameOwner.trans isOwner, passed.step axi, ?_⟩
    rintro later inNext rfl
    obtain ⟨wasMem, sameBundle⟩ := stays passed inNext
    obtain ⟨isKind, error⟩ := mine later wasMem rfl
    refine ⟨sameBundle ▸ isKind, fun flag => ?_⟩
    rcases flag_cases attributed flag wasMem with erred | ⟨wasSet, -, -⟩
    · exact erred
    · exact erred_step.mpr (Or.inl (error wasSet))

theorem load_step (kept : Kept faulting)
    (synced : Tracked.Synced faulting.tracked)
    (inOrder : Tracked.InOrder faulting.tracked)
    (attributed : Attributed faulting) :
    (faulting.step axi).Working
      ((faulting.step axi).core.lsu.stateLoad ≠ .idle)
      (faulting.step axi).loadTag
      ((faulting.step axi).core.exMem.dataOut.ctrlMem.readMem ≠ 0) := by
  refine Working.step (fun ctrl => ctrl.readMem ≠ 0)
    (faulting.core.lsu.loadStart faulting.core.lsuPort = true)
    kept.load synced inOrder attributed ?_ Or.inl
  intro busy
  cases starts : faulting.core.lsu.loadStart faulting.core.lsuPort with
  | true =>
      left
      have offered := starts
      simp only [Lsu.loadStart, Core.lsuPort, Bool.and_eq_true, bne_iff_ne]
        at offered
      exact ⟨rfl, offered.1.1.2, offered.2, if_pos starts⟩
  | false =>
      right
      rcases Lsu.busyLoad_cases busy rfl with started | ⟨wasBusy, -⟩
      · rw [starts] at started
        contradiction
      · exact ⟨wasBusy, if_neg (by simp [starts])⟩

theorem store_step (kept : Kept faulting)
    (synced : Tracked.Synced faulting.tracked)
    (inOrder : Tracked.InOrder faulting.tracked)
    (attributed : Attributed faulting) :
    (faulting.step axi).Working
      ((faulting.step axi).core.lsu.stateStore ≠ .idle)
      (faulting.step axi).storeTag
      ((faulting.step axi).core.exMem.dataOut.ctrlMem.writeMem ≠ 0) := by
  refine Working.step (fun ctrl => ctrl.writeMem ≠ 0)
    (faulting.core.lsu.storeStart faulting.core.lsuPort = true)
    kept.store synced inOrder attributed ?_ Or.inr
  intro busy
  cases starts : faulting.core.lsu.storeStart faulting.core.lsuPort with
  | true =>
      left
      have offered := starts
      simp only [Lsu.storeStart, Core.lsuPort, Bool.and_eq_true, bne_iff_ne]
        at offered
      exact ⟨rfl, offered.1.1.2, offered.2, if_pos starts⟩
  | false =>
      right
      rcases Lsu.busyStore_cases busy rfl with started | ⟨wasBusy, -⟩
      · rw [starts] at started
        contradiction
      · exact ⟨wasBusy, if_neg (by simp [starts])⟩

/-- An error of this cycle comes while its instruction waits in MEM, and the
flag is set for it. -/
theorem erred_now (kept : Kept faulting)
    (synced : Tracked.Synced faulting.tracked)
    (inOrder : Tracked.InOrder faulting.tracked)
    (attributed : Attributed faulting) {tag : Nat} {code : BitVec 2}
    (error : code ≠ 0) (answer : (some tag, code) ∈ faulting.answers) :
    Tracked.LeftMem (faulting.tracked.step axi) tag ∨
      (faulting.step axi).core.lsu.accessFault = true ∧
        (faulting.step axi).DoneFor tag ∧
        ∃ ticket, (faulting.step axi).tracked.mem = some ticket ∧
          ticket.tag = tag := by
  obtain ⟨incomplete, ticket, inMem, same⟩ :=
    attributed.answers _ answer error
  obtain rfl : tag = ticket.tag := Option.some.inj same
  have passed := inOrder.passed inMem
  cases flush : faulting.core.globalTrapFlush with
  | true =>
      exact Or.inl (passed.leave (Or.inr (Or.inr flush)))
  | false =>
      have valid : faulting.core.exMem.validOut = true := synced.mem.valid inMem
      have stalled : faulting.core.exMemReadyOut = false :=
        (Core.stalled_iff _).mpr ⟨incomplete, valid⟩
      have inNext : (faulting.step axi).tracked.mem = some ticket :=
        advance_eq_some.mpr ⟨flush, Or.inr ⟨stalled, inMem⟩⟩
      refine Or.inr ⟨?_, ?_, ticket, inNext, rfl⟩
      · change (faulting.core.lsu.next faulting.core.lsuPort).accessFault = _
        rw [Lsu.next_accessFault]
        rcases mem_answers.mp answer with ⟨answered, owner⟩ | ⟨answered, -⟩
        · have busy : faulting.core.lsu.stateLoad ≠ .idle := by
            simp [(Lsu.done_of_loadResponse answered).1]
          obtain ⟨tag, isOwner, -, mine⟩ := kept.load.owned busy
          have sameTag : ticket.tag = tag :=
            Option.some.inj (owner.trans isOwner)
          have isLoad := (mine ticket inMem sameTag).1
          have noStore := kept.exMemKind.resolve_left isLoad
          have noStart : faulting.core.lsu.storeStart faulting.core.lsuPort =
              false := by
            simp [Lsu.storeStart, Core.lsuPort, noStore]
          have noLoad : faulting.core.lsu.loadStart faulting.core.lsuPort =
              false := by
            simp [Lsu.loadStart, (Lsu.done_of_loadResponse answered).1]
          simp [noStart, noLoad, Lsu.isError_iff.mpr ⟨code, answered, error⟩]
        · simp [Lsu.isError_iff.mpr ⟨code, answered, error⟩]
      · rcases mem_answers.mp answer with ⟨answered, owner⟩ |
          ⟨answered, owner⟩
        · obtain ⟨inData, isDone⟩ := Lsu.done_of_loadResponse answered
          refine Or.inl ⟨isDone, ?_⟩
          rw [owner]
          exact if_neg (by simp [Lsu.loadStart, inData])
        · obtain ⟨inResp, isDone⟩ := Lsu.done_of_storeResponse answered
          refine Or.inr ⟨isDone, ?_⟩
          rw [owner]
          exact if_neg (by simp [Lsu.storeStart, inResp])

theorem memValid_of_doneFor {tag : Nat} (isDone : faulting.DoneFor tag) :
    faulting.core.memValid = true := by
  rcases isDone with ⟨isDone, -⟩ | ⟨isDone, -⟩ <;>
    simp [Core.memValid, Lsu.outValid, isDone]

theorem responses_step (kept : Kept faulting)
    (synced : Tracked.Synced faulting.tracked)
    (inOrder : Tracked.InOrder faulting.tracked)
    (attributed : Attributed faulting) {tag : Nat}
    (erred : (faulting.step axi).Erred tag) :
    Tracked.LeftMem (faulting.step axi).tracked tag ∨
      (faulting.step axi).core.lsu.accessFault = true ∧
        (faulting.step axi).DoneFor tag ∧
        ∃ ticket, (faulting.step axi).tracked.mem = some ticket ∧
          ticket.tag = tag := by
  rcases erred_step.mp erred with earlier | ⟨code, error, answer⟩
  · left
    rcases kept.responses tag earlier with left | ⟨-, isDone, ticket, inMem, rfl⟩
    · exact left.1.leave (Or.inl left.2)
    · refine (inOrder.passed inMem).leave (Or.inr (Or.inl ?_))
      exact Core.exMemReadyOut_of_memValid _ (memValid_of_doneFor isDone)
  · exact erred_now kept synced inOrder attributed error answer

/-- What MEM/WB captures now has the bit of its instruction. -/
theorem captured_now (kept : Kept faulting)
    (attributed : Attributed faulting) (captures : faulting.captures = true) :
    faulting.core.lsu.accessFault = true ↔
      ∃ tag, faulting.tracked.mem.map Ticket.tag = some tag ∧
        (faulting.step axi).Erred tag := by
  have complete : faulting.core.memValid = true := by
    simp only [Faulting.captures, Bool.and_eq_true] at captures
    exact captures.1
  constructor
  · intro flag
    obtain ⟨ticket, inMem, isDone⟩ := attributed.captures captures flag
    refine ⟨ticket.tag, by rw [inMem]; rfl, erred_step.mpr (Or.inl ?_)⟩
    rcases isDone with ⟨isDone, owner⟩ | ⟨isDone, owner⟩
    · obtain ⟨tag, isOwner, -, mine⟩ := kept.load.owned (by simp [isDone])
      have same := Option.some.inj (owner.symm.trans isOwner)
      rw [same]
      exact (mine ticket inMem same).2 flag
    · obtain ⟨tag, isOwner, -, mine⟩ := kept.store.owned (by simp [isDone])
      have same := Option.some.inj (owner.symm.trans isOwner)
      rw [same]
      exact (mine ticket inMem same).2 flag
  · rintro ⟨tag, isTag, erred⟩
    obtain ⟨ticket, inMem, rfl⟩ := Option.map_eq_some_iff.mp isTag
    rcases erred_step.mp erred with earlier | ⟨code, error, answer⟩
    · rcases kept.responses _ earlier with left | ⟨flag, -⟩
      · exact absurd rfl (left.2 ticket inMem)
      · exact flag
    · have incomplete := (attributed.answers _ answer error).1
      rw [complete] at incomplete
      contradiction

theorem captured_step (kept : Kept faulting)
    (inOrder : Tracked.InOrder faulting.tracked)
    (attributed : Attributed faulting) {who : Option Nat} {bit : Bool}
    (member : (who, bit) ∈ (faulting.step axi).captured) :
    (bit = true ↔
        ∃ tag, who = some tag ∧ (faulting.step axi).Erred tag) ∧
      ∀ tag, who = some tag →
        Tracked.LeftMem (faulting.step axi).tracked tag := by
  have earlier (old : (who, bit) ∈ faulting.captured) :
      (bit = true ↔
          ∃ tag, who = some tag ∧ (faulting.step axi).Erred tag) ∧
        ∀ tag, who = some tag →
          Tracked.LeftMem (faulting.step axi).tracked tag := by
    obtain ⟨isBit, left⟩ := kept.captured who bit old
    refine ⟨isBit.trans ?_, fun tag isWho =>
      (left tag isWho).1.leave (Or.inl (left tag isWho).2)⟩
    constructor
    · rintro ⟨tag, isWho, erred⟩
      exact ⟨tag, isWho, erred_step.mpr (Or.inl erred)⟩
    · rintro ⟨tag, isWho, erred⟩
      refine ⟨tag, isWho, (erred_step.mp erred).resolve_right ?_⟩
      -- a later answer would be for an instruction that is still in MEM
      rintro ⟨code, error, answer⟩
      obtain ⟨-, ticket, inMem, same⟩ := attributed.answers _ answer error
      exact (left tag isWho).2 ticket inMem (Option.some.inj same).symm
  cases captures : faulting.captures with
  | false =>
      simp only [step, captures, Bool.false_eq_true, if_false] at member
      exact earlier member
  | true =>
      simp only [step, captures, if_true, List.mem_append,
        List.mem_singleton, Prod.mk.injEq] at member
      rcases member with old | ⟨rfl, rfl⟩
      · exact earlier old
      · refine ⟨captured_now kept attributed captures, fun tag isTag => ?_⟩
        obtain ⟨ticket, inMem, rfl⟩ := Option.map_eq_some_iff.mp isTag
        simp only [Faulting.captures, Bool.and_eq_true] at captures
        exact (inOrder.passed inMem).leave (Or.inr (Or.inl
          (Core.exMemReadyOut_of_memValid _ captures.1)))

theorem kept_step (kept : Kept faulting)
    (synced : Tracked.Synced faulting.tracked)
    (inOrder : Tracked.InOrder faulting.tracked)
    (attributed : Attributed faulting) : Kept (faulting.step axi) where
  idExKind := (Core.oneKind_step axi kept.idExKind kept.exMemKind).1
  exMemKind := (Core.oneKind_step axi kept.idExKind kept.exMemKind).2
  load := load_step kept synced inOrder attributed
  store := store_step kept synced inOrder attributed
  responses := fun _ erred =>
    responses_step kept synced inOrder attributed erred
  captured := fun _ _ member => captured_step kept inOrder attributed member

end Step

/-! ## Runs -/

theorem run_kept (inputs : Nat → AxiIn) (power : Core platform)
    {cycle : Nat} (attributed : ∀ earlier, earlier < cycle →
      Attributed (run inputs power earlier)) :
    Kept (run inputs power cycle) := by
  induction cycle with
  | zero =>
      exact kept_reset power
  | succ cycle inductionHypothesis =>
      have tracked := run_tracked inputs power cycle
      have synced : Tracked.Synced (run inputs power cycle).tracked := by
        rw [tracked]
        exact Tracked.run_synced inputs power cycle
      have inOrder : Tracked.InOrder (run inputs power cycle).tracked := by
        rw [tracked]
        exact Tracked.run_inOrder inputs power cycle
      have earlierKept := inductionHypothesis fun earlier before =>
        attributed earlier (before.trans (Nat.lt_succ_self cycle))
      exact kept_step earlierKept synced inOrder
        (attributed cycle (Nat.lt_succ_self cycle))

/-- As long as the flag is only met by the instructions it belongs to, access
faults are precise. -/
theorem run_precise (inputs : Nat → AxiIn) (power : Core platform)
    {cycle : Nat} (attributed : ∀ earlier, earlier ≤ cycle →
      Attributed (run inputs power earlier)) :
    Precise (run inputs power cycle) where
  bits := fun who bit member =>
    ((run_kept inputs power fun earlier before =>
      attributed earlier before.le).captured who bit member).1
  redirects := (attributed cycle le_rfl).redirects

/-! ## A load and a `nop` -/

/-- `lw ra, 0(zero)` and a `nop`. -/
def loadThenNop : System .soc :=
  System.boot .soc [(0x30000000, 0x00002083), (0x30000004, 0x00000013)]

/-- A prompt slave that answers reads of address `0` with this code. -/
def answering (code : BitVec 2) (cycle : Nat) : AxiIn :=
  let memory := (loadThenNop.run (fun _ => .prompt) cycle).memory
  { memory.drive .prompt with
    rresp := if memory.burst.any (·.addr == 0) then code else 0 }

def loadRun (code : BitVec 2) (cycle : Nat) : Faulting .soc :=
  run (answering code) (Core.zeroed .soc) cycle

/-- With OKAY both commit without the flag. -/
theorem run_precise_at_okay :
    (loadRun 0 21).captured = [(some 0, false), (some 1, false)] ∧
      Precise (loadRun 0 21) := by
  refine ⟨by decide +kernel, run_precise _ _ ?_⟩
  have attributed : ∀ earlier, earlier < 22 →
      Attributed (loadRun 0 earlier) := by
    decide +kernel
  exact fun earlier before => attributed earlier (by omega)

/-- With SLVERR the load reports `0` as its next pc in cycle 15 while the fetch
goes on, and in cycle 21 the `nop` has the flag of the load. -/
theorem slvErr_notPrecise :
    ¬ Precise (loadRun 2 15) ∧ ¬ Precise (loadRun 2 21) := by
  have leaks : ((loadRun 2 15).core.wbuValid = true ∧
      (loadRun 2 15).core.finalWbuNpc ≠
        (loadRun 2 15).core.memWb.dataOut.npc ∧
      (loadRun 2 15).core.ifuFlushReq = false) ∧
      (some 1, true) ∈ (loadRun 2 21).captured ∧
      ∀ answer ∈ (loadRun 2 21).responses, answer.1 = some 0 := by
    decide +kernel
  obtain ⟨⟨commits, differs, goesOn⟩, captured, owners⟩ := leaks
  constructor
  · intro precise
    have redirected := (precise.redirects commits differs).1
    exact Bool.false_ne_true (goesOn.symm.trans redirected)
  · intro precise
    obtain ⟨tag, isTag, code, -, answer⟩ :=
      (precise.bits _ _ captured).mp rfl
    have owner : some tag = some 0 := owners _ answer
    rw [← isTag] at owner
    exact absurd owner (by decide)

end Faulting

end Ysyx.Rtl
