import Ysyx.Pipeline.Tickets

/-!
# Who occupies the load-store unit

The two state machines of the LSU are not flushed with the pipeline.  As
long as no access is waiting in EX/MEM when WB flushes the pipeline, a busy
machine always works for the instruction in EX/MEM.
-/

namespace Ysyx.Rtl

/-! ## One access at a time -/

/-- A bundle asks for at most one of a load and a store. -/
def CtrlMem.OneKind (ctrl : CtrlMem) : Prop :=
  ctrl.readMem = 0 ∨ ctrl.writeMem = 0

theorem controller_oneKind (opcode : BitVec 7) (func3 : BitVec 3)
    (func7 : BitVec 7) (instr : Word) :
    (controller opcode func3 func7 instr).readMem = 0 ∨
      (controller opcode func3 func7 instr).writeMem = 0 := by
  apply controller_cases
    (fun out => out.readMem = 0 ∨ out.writeMem = 0)
  case load =>
    exact fun _ => Or.inr rfl
  all_goals
    intros
    exact Or.inl rfl

namespace Core

variable {platform : Platform}

/-- EX/MEM offers a load to the LSU. -/
def exMemLoads (core : Core platform) : Prop :=
  core.exMem.validOut = true ∧ core.exMem.dataOut.ctrlMem.readMem ≠ 0

/-- EX/MEM offers a store to the LSU. -/
def exMemStores (core : Core platform) : Prop :=
  core.exMem.validOut = true ∧ core.exMem.dataOut.ctrlMem.writeMem ≠ 0

/-- EX/MEM holds a store that waits for its response. -/
def StorePending (core : Core platform) : Prop :=
  core.exMemStores ∧ core.memValid = false

/-- EX/MEM holds a load or a store. -/
def exMemAccess (core : Core platform) : Bool :=
  core.exMem.validOut && (core.exMem.dataOut.ctrlMem.readMem != 0 ||
    core.exMem.dataOut.ctrlMem.writeMem != 0)

/-- One of the machines of the LSU is not idle. -/
def lsuBusy (core : Core platform) : Bool :=
  core.lsu.stateLoad != .idle || core.lsu.stateStore != .idle

/-- The LSU starts a load or a store in this cycle. -/
def lsuStart (core : Core platform) : Bool :=
  core.lsu.loadStart core.lsuPort || core.lsu.storeStart core.lsuPort

/-- An access is offered to the LSU in a cycle in which a trap or an `mret`
flushes the pipeline. -/
def trapEscape (core : Core platform) : Bool :=
  core.globalTrapFlush && core.exMemAccess

theorem oneKind_step (axi : AxiIn) {core : Core platform}
    (idExKind : core.idEx.dataOut.ctrlMem.OneKind)
    (exMemKind : core.exMem.dataOut.ctrlMem.OneKind) :
    (core.step axi).idEx.dataOut.ctrlMem.OneKind ∧
      (core.step axi).exMem.dataOut.ctrlMem.OneKind := by
  constructor
  · rw [step_idEx]
    split_ifs
    · exact Or.inl rfl
    · exact controller_oneKind _ _ _ _
    · exact idExKind
    · exact idExKind
  · rw [step_exMem]
    split_ifs
    · exact Or.inl rfl
    · exact idExKind
    · exact exMemKind
    · exact exMemKind

theorem exMemAccess_iff (core : Core platform) :
    core.exMemAccess = true ↔ core.exMemLoads ∨ core.exMemStores := by
  simp only [exMemAccess, exMemLoads, exMemStores, Bool.and_eq_true,
    Bool.or_eq_true, bne_iff_ne]
  tauto

theorem valid_of_access {core : Core platform}
    (access : core.exMemAccess = true) : core.exMem.validOut = true := by
  simp only [exMemAccess, Bool.and_eq_true] at access
  exact access.1

theorem access_of_lsuStart {core : Core platform}
    (starts : core.lsuStart = true) : core.exMemAccess = true := by
  simp only [lsuStart, Lsu.loadStart, Lsu.storeStart, lsuPort,
    Bool.or_eq_true, Bool.and_eq_true, bne_iff_ne] at starts
  rw [exMemAccess_iff]
  rcases starts with ⟨⟨⟨_, valid⟩, _⟩, loads⟩ | ⟨⟨⟨_, valid⟩, _⟩, stores⟩
  · exact Or.inl ⟨valid, loads⟩
  · exact Or.inr ⟨valid, stores⟩

theorem lsuBusy_iff (core : Core platform) :
    core.lsuBusy = true ↔
      core.lsu.stateLoad ≠ .idle ∨ core.lsu.stateStore ≠ .idle := by
  simp [lsuBusy]

/-- A machine that is busy after a clock edge has just started or was busy. -/
theorem lsuBusy_step_cases {core : Core platform} {axi : AxiIn}
    (busy : (core.step axi).lsuBusy = true) :
    core.lsuStart = true ∨ core.lsuBusy = true := by
  rw [lsuBusy_iff] at busy ⊢
  rcases busy with load | store
  · rcases Lsu.busyLoad_cases load rfl with starts | ⟨was, -⟩
    · exact Or.inl (by simp [lsuStart, starts])
    · exact Or.inr (Or.inl was)
  · rcases Lsu.busyStore_cases store rfl with starts | ⟨was, -⟩
    · exact Or.inl (by simp [lsuStart, starts])
    · exact Or.inr (Or.inr was)

/-- An access leaves MEM only while the LSU is busy. -/
theorem lsuBusy_of_access {core : Core platform}
    (access : core.exMemAccess = true)
    (ready : core.exMemReadyOut = true) : core.lsuBusy = true := by
  by_contra idle
  simp only [lsuBusy, Bool.not_eq_true, Bool.or_eq_false_iff,
    bne_eq_false_iff_eq] at idle
  have offered := access
  simp only [exMemAccess, Bool.and_eq_true, Bool.or_eq_true, bne_iff_ne]
    at offered
  simp only [exMemReadyOut_eq, memValid, Lsu.outValid, idle, offered.1]
    at ready
  rcases offered.2 with loads | stores
  · simp at ready
    exact loads ready.1
  · simp at ready
    exact stores ready.2

/-! ## The invariant -/

/-- A busy machine of the LSU works for the valid bundle in EX/MEM, and both
are idle while WB is valid. -/
structure LsuOwned (core : Core platform) : Prop where
  load : core.lsu.stateLoad ≠ .idle →
    core.exMemLoads ∧ core.lsu.stateStore = .idle
  store : core.lsu.stateStore ≠ .idle →
    core.exMemStores ∧ core.lsu.stateLoad = .idle
  wb : core.memWb.validOut = true →
    core.lsu.stateLoad = .idle ∧ core.lsu.stateStore = .idle
  idExKind : core.idEx.dataOut.ctrlMem.OneKind
  exMemKind : core.exMem.dataOut.ctrlMem.OneKind

namespace LsuOwned

variable {core : Core platform}

theorem valid_of_memValid (owned : LsuOwned core)
    (complete : core.memValid = true) : core.exMem.validOut = true := by
  simp only [memValid, Lsu.outValid, Bool.or_eq_true, Bool.and_eq_true,
    beq_iff_eq] at complete
  rcases complete with (idle | loadDone) | storeDone
  · exact idle.1.1.1.2
  · exact (owned.load (by simp [loadDone])).1.1
  · exact (owned.store (by simp [storeDone])).1.1

/-- A load is complete in `LOAD_DONE` only. -/
theorem memValid_of_loads (owned : LsuOwned core)
    (loads : core.exMemLoads) (notDone : core.lsu.stateLoad ≠ .done) :
    core.memValid = false ∧ core.lsu.stateStore = .idle := by
  have noStore : core.exMem.dataOut.ctrlMem.writeMem = 0 :=
    owned.exMemKind.resolve_left loads.2
  have storeIdle : core.lsu.stateStore = .idle := by
    by_contra busy
    exact (owned.store busy).1.2 noStore
  have isLoad : core.exMem.dataOut.ctrlMem.readMem ≠ 0#3 := loads.2
  refine ⟨?_, storeIdle⟩
  simp [memValid, Lsu.outValid, isLoad, notDone, storeIdle]

/-- A store is complete in `STORE_DONE` only. -/
theorem memValid_of_stores (owned : LsuOwned core)
    (stores : core.exMemStores) (notDone : core.lsu.stateStore ≠ .done) :
    core.memValid = false ∧ core.lsu.stateLoad = .idle := by
  have noLoad : core.exMem.dataOut.ctrlMem.readMem = 0 :=
    owned.exMemKind.resolve_right stores.2
  have loadIdle : core.lsu.stateLoad = .idle := by
    by_contra busy
    exact (owned.load busy).1.2 noLoad
  have isStore : core.exMem.dataOut.ctrlMem.writeMem ≠ 0#2 := stores.2
  refine ⟨?_, loadIdle⟩
  simp [memValid, Lsu.outValid, isStore, notDone, loadIdle]

theorem stateLoad_step_idle (idle : core.lsu.stateLoad = .idle)
    (noLoad : core.exMem.dataOut.ctrlMem.readMem = 0) (axi : AxiIn) :
    (core.step axi).lsu.stateLoad = .idle := by
  by_contra busy
  rcases Lsu.busyLoad_cases busy rfl with starts | ⟨wasBusy, _⟩
  · simp [Lsu.loadStart, lsuPort, noLoad] at starts
  · exact wasBusy idle

theorem stateStore_step_idle (idle : core.lsu.stateStore = .idle)
    (noStore : core.exMem.dataOut.ctrlMem.writeMem = 0) (axi : AxiIn) :
    (core.step axi).lsu.stateStore = .idle := by
  by_contra busy
  rcases Lsu.busyStore_cases busy rfl with starts | ⟨wasBusy, _⟩
  · simp [Lsu.storeStart, lsuPort, noStore] at starts
  · exact wasBusy idle

theorem noFlush_of_busy (owned : LsuOwned core)
    (contained : core.trapEscape = false)
    (busy : core.exMemAccess = true ∨ core.lsu.stateLoad ≠ .idle ∨
      core.lsu.stateStore ≠ .idle) : core.globalTrapFlush = false := by
  rcases busy with access | loadBusy | storeBusy
  · simpa [trapEscape, access] using contained
  · refine globalTrapFlush_of_invalid core ?_
    by_contra valid
    exact loadBusy (owned.wb (by simpa using valid)).1
  · refine globalTrapFlush_of_invalid core ?_
    by_contra valid
    exact storeBusy (owned.wb (by simpa using valid)).2

theorem exMem_step_eq (noFlush : core.globalTrapFlush = false)
    (valid : core.exMem.validOut = true)
    (incomplete : core.memValid = false) (axi : AxiIn) :
    (core.step axi).exMem = core.exMem := by
  have stalled : core.exMemReadyOut = false :=
    (stalled_iff core).mpr ⟨incomplete, valid⟩
  simp [step_exMem, noFlush, stalled]

/-- A load machine that is busy after a clock edge works on the load in
EX/MEM and has not been done with it. -/
theorem loads_of_busy (owned : LsuOwned core) {axi : AxiIn}
    (busy : (core.step axi).lsu.stateLoad ≠ .idle) :
    core.exMemLoads ∧ core.lsu.stateLoad ≠ .done := by
  rcases Lsu.busyLoad_cases busy rfl with starts | ⟨wasBusy, notDone⟩
  · simp only [Lsu.loadStart, lsuPort, Bool.and_eq_true, beq_iff_eq,
      bne_iff_ne] at starts
    exact ⟨⟨starts.1.1.2, starts.2⟩, by simp [starts.1.1.1]⟩
  · exact ⟨(owned.load wasBusy).1, notDone⟩

/-- The same for the store machine. -/
theorem stores_of_busy (owned : LsuOwned core) {axi : AxiIn}
    (busy : (core.step axi).lsu.stateStore ≠ .idle) :
    core.exMemStores ∧ core.lsu.stateStore ≠ .done := by
  rcases Lsu.busyStore_cases busy rfl with starts | ⟨wasBusy, notDone⟩
  · simp only [Lsu.storeStart, lsuPort, Bool.and_eq_true, beq_iff_eq,
      bne_iff_ne] at starts
    exact ⟨⟨starts.1.1.2, starts.2⟩, by simp [starts.1.1.1]⟩
  · exact ⟨(owned.store wasBusy).1, notDone⟩

theorem access_of_busy (owned : LsuOwned core)
    (busy : core.lsuBusy = true) : core.exMemAccess = true := by
  rw [exMemAccess_iff]
  rcases core.lsuBusy_iff.mp busy with loadBusy | storeBusy
  · exact Or.inl (owned.load loadBusy).1
  · exact Or.inr (owned.store storeBusy).1

/-- The access of a machine that is busy after a clock edge was not complete
before. -/
theorem waits_of_busy_step (owned : LsuOwned core) {axi : AxiIn}
    (busy : (core.step axi).lsuBusy = true) :
    core.exMemAccess = true ∧ core.memValid = false := by
  rw [exMemAccess_iff]
  rcases (lsuBusy_iff _).mp busy with loadBusy | storeBusy
  · obtain ⟨loads, notDone⟩ := owned.loads_of_busy loadBusy
    exact ⟨Or.inl loads, (owned.memValid_of_loads loads notDone).1⟩
  · obtain ⟨stores, notDone⟩ := owned.stores_of_busy storeBusy
    exact ⟨Or.inr stores, (owned.memValid_of_stores stores notDone).1⟩

/-- While a machine is busy, none starts. -/
theorem lsuStart_of_busy (owned : LsuOwned core)
    (busy : core.lsuBusy = true) : core.lsuStart = false := by
  rcases core.lsuBusy_iff.mp busy with loadBusy | storeBusy
  · have noStore := owned.exMemKind.resolve_left (owned.load loadBusy).1.2
    simp [lsuStart, Lsu.loadStart, Lsu.storeStart, lsuPort, loadBusy,
      noStore]
  · have noLoad := owned.exMemKind.resolve_right (owned.store storeBusy).1.2
    simp [lsuStart, Lsu.loadStart, Lsu.storeStart, lsuPort, storeBusy,
      noLoad]

/-- What is no access is complete at once. -/
theorem memValid_of_not_access (owned : LsuOwned core)
    (valid : core.exMem.validOut = true)
    (noAccess : core.exMemAccess = false) : core.memValid = true := by
  have idle : core.lsuBusy = false := by
    by_contra busy
    simp [owned.access_of_busy (by simpa using busy)] at noAccess
  simp only [lsuBusy, Bool.or_eq_false_iff, bne_eq_false_iff_eq] at idle
  simp only [exMemAccess, valid, Bool.true_and, Bool.or_eq_false_iff,
    bne_eq_false_iff_eq] at noAccess
  simp [memValid, Lsu.outValid, idle, valid, noAccess]

end LsuOwned

theorem lsuOwned_reset (power : Core platform) : LsuOwned power.reset where
  load := fun busy => absurd rfl busy
  store := fun busy => absurd rfl busy
  wb := fun _ => ⟨rfl, rfl⟩
  idExKind := Or.inl rfl
  exMemKind := Or.inl rfl

theorem lsuOwned_step (axi : AxiIn) (core : Core platform)
    (owned : LsuOwned core) (contained : core.trapEscape = false) :
    LsuOwned (core.step axi) where
  load := by
    intro busy
    obtain ⟨loads, notDone⟩ := owned.loads_of_busy busy
    obtain ⟨incomplete, storeIdle⟩ := owned.memValid_of_loads loads notDone
    have noFlush := owned.noFlush_of_busy contained
      (Or.inl (core.exMemAccess_iff.mpr (Or.inl loads)))
    have same := LsuOwned.exMem_step_eq noFlush loads.1 incomplete axi
    refine ⟨?_, LsuOwned.stateStore_step_idle storeIdle
      (owned.exMemKind.resolve_left loads.2) axi⟩
    unfold exMemLoads
    rw [same]
    exact loads
  store := by
    intro busy
    obtain ⟨stores, notDone⟩ := owned.stores_of_busy busy
    obtain ⟨incomplete, loadIdle⟩ := owned.memValid_of_stores stores notDone
    have noFlush := owned.noFlush_of_busy contained
      (Or.inl (core.exMemAccess_iff.mpr (Or.inr stores)))
    have same := LsuOwned.exMem_step_eq noFlush stores.1 incomplete axi
    refine ⟨?_, LsuOwned.stateLoad_step_idle loadIdle
      (owned.exMemKind.resolve_right stores.2) axi⟩
    unfold exMemStores
    rw [same]
    exact stores
  wb := by
    intro valid
    have complete := ((step_memWb_valid core axi).mp valid).2
    constructor
    · by_contra busy
      obtain ⟨loads, notDone⟩ := owned.loads_of_busy busy
      have incomplete := (owned.memValid_of_loads loads notDone).1
      simp [complete] at incomplete
    · by_contra busy
      obtain ⟨stores, notDone⟩ := owned.stores_of_busy busy
      have incomplete := (owned.memValid_of_stores stores notDone).1
      simp [complete] at incomplete
  idExKind := (oneKind_step axi owned.idExKind owned.exMemKind).1
  exMemKind := (oneKind_step axi owned.idExKind owned.exMemKind).2

end Core

/-- An access that is not complete keeps its instruction in MEM. -/
theorem Tracked.mem_stays {platform : Platform} {tracked : Tracked platform}
    (owned : tracked.core.LsuOwned)
    (noEscape : tracked.core.trapEscape = false)
    (access : tracked.core.exMemAccess = true)
    (incomplete : tracked.core.memValid = false) (axi : AxiIn) :
    (tracked.step axi).mem = tracked.mem := by
  have noFlush := owned.noFlush_of_busy noEscape (Or.inl access)
  have valid := Core.valid_of_access access
  simp [step, advance, noFlush, Core.exMemReadyOut_eq, incomplete, valid]

end Ysyx.Rtl
