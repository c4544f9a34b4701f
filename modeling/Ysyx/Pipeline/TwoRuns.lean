import Ysyx.Pipeline.PowerUp

/-!
# Two runs of the core

What reset leaves unset shows in no bus output, commit or trap until a clock
edge reads a register in which the two cores differ.  There are three such
registers: the exception flag of the load-store unit, the store response of
the bus, and a cache word that a refill skips.
-/

namespace Ysyx.Rtl

/-! ## Bundles -/

def IfIdData.withHidden (data other : IfIdData) : IfIdData :=
  { data with btbTarget := other.btbTarget }

/-- A predicted target agrees. -/
def IfIdData.Same (data other : IfIdData) : Prop :=
  other = data.withHidden other ∧
    (data.btbPredicted = true → other.btbTarget = data.btbTarget)

def IdExData.withHidden (data other : IdExData) : IdExData :=
  { data with
    btbTarget := other.btbTarget
    rasPredTarget := other.rasPredTarget }

def IdExData.Same (data other : IdExData) : Prop :=
  other = data.withHidden other ∧
    (data.btbPredicted = true → other.btbTarget = data.btbTarget) ∧
    (data.rasPredicted = true → other.rasPredTarget = data.rasPredTarget)

def MemWbData.withHidden (data other : MemWbData) : MemWbData :=
  { data with excCause := other.excCause, excTval := other.excTval }

/-- The payload of an exception agrees. -/
def MemWbData.Same (data other : MemWbData) : Prop :=
  other = data.withHidden other ∧
    (data.excValid = true →
      other.excCause = data.excCause ∧ other.excTval = data.excTval)

namespace Pipcon

variable {α : Type} [Zero α]

/-- Two registers whose contents agree. -/
def Same (Alike : α → α → Prop) (register other : Pipcon α) : Prop :=
  other.validOut = register.validOut ∧
    Alike register.dataOut other.dataOut

theorem Same.next {Alike : α → α → Prop} {register other : Pipcon α}
    (same : Same Alike register other) (zero : Alike 0 0)
    {flush validIn readyIn : Bool} {dataIn dataIn' : α}
    (input : flush = false → validIn = true → Alike dataIn dataIn') :
    Same Alike (register.next flush dataIn validIn readyIn)
      (other.next flush dataIn' validIn readyIn) := by
  obtain ⟨valid, data⟩ := same
  simp only [Pipcon.next, readyOut, valid]
  cases flush with
  | true => exact ⟨rfl, zero⟩
  | false =>
      by_cases taken : (readyIn || !register.validOut) = true
      · simp only [taken, if_true]
        refine ⟨rfl, ?_⟩
        cases validIn with
        | true => exact input rfl rfl
        | false => exact data
      · simp only [taken]
        exact ⟨valid, data⟩

theorem dataOut_next (Holds : α → Prop) {register : Pipcon α}
    (before : Holds register.dataOut) (zero : Holds 0) {dataIn : α}
    (input : Holds dataIn) (flush validIn readyIn : Bool) :
    Holds (register.next flush dataIn validIn readyIn).dataOut := by
  unfold Pipcon.next
  split_ifs
  · exact zero
  · exact input
  · exact before
  · exact before

end Pipcon

/-! ## `ecall` is an exception -/

theorem controller_isEcall (opcode : BitVec 7) (func3 : BitVec 3)
    (func7 : BitVec 7) (instr : Word) :
    (controller opcode func3 func7 instr).isEcall = true →
      (controller opcode func3 func7 instr).excValid = true := by
  apply controller_cases (fun out => out.isEcall = true →
    out.excValid = true)
  all_goals simp

def IdExData.EcallFlagged (data : IdExData) : Prop :=
  data.ctrlWb.isEcall = true → data.excValid = true

def ExMemData.EcallFlagged (data : ExMemData) : Prop :=
  data.ctrlWb.isEcall = true → data.excValid = true

def MemWbData.EcallFlagged (data : MemWbData) : Prop :=
  data.ctrlWb.isEcall = true → data.excValid = true

namespace Core

variable {platform : Platform}

/-- Every `ecall` in flight is flagged. -/
structure EcallsFlagged (core : Core platform) : Prop where
  idEx : core.idEx.dataOut.EcallFlagged
  exMem : core.exMem.dataOut.EcallFlagged
  memWb : core.memWb.dataOut.EcallFlagged

theorem EcallsFlagged.step {core : Core platform}
    (flagged : EcallsFlagged core) (axi : AxiIn) :
    EcallsFlagged (core.step axi) where
  idEx := by
    refine Pipcon.dataOut_next _ flagged.idEx
      (fun isEcall => absurd isEcall Bool.false_ne_true)
      (fun isEcall => ?_) _ _ _
    have raised : (control core.ifId.dataOut.inst).excValid = true :=
      controller_isEcall _ _ _ _ isEcall
    simp [idExIn, decodeBundle, raised]
  exMem :=
    Pipcon.dataOut_next _ flagged.exMem
      (fun isEcall => absurd isEcall Bool.false_ne_true)
      (fun isEcall => flagged.idEx isEcall) _ _ _
  memWb := by
    refine Pipcon.dataOut_next _ flagged.memWb
      (fun isEcall => absurd isEcall Bool.false_ne_true)
      (fun isEcall => ?_) _ _ _
    simp [memWbIn, memoryBundle, flagged.exMem isEcall]

/-! ## What two cores share -/

/-- A core with the registers of another that hold what reset left. -/
def withHidden (core other : Core platform) : Core platform :=
  { core with
    icache := core.icache.withHidden other.icache
    btb := core.btb.withHidden other.btb
    ras := core.ras.withHidden other.ras
    ifId :=
      ⟨core.ifId.dataOut.withHidden other.ifId.dataOut, core.ifId.validOut⟩
    idEx :=
      ⟨core.idEx.dataOut.withHidden other.idEx.dataOut, core.idEx.validOut⟩
    lsu := core.lsu.withHidden other.lsu
    memWb :=
      ⟨core.memWb.dataOut.withHidden other.memWb.dataOut,
        core.memWb.validOut⟩
    bus := core.bus.withHidden other.bus }

/-- Two cores that show the same. -/
structure Same (core other : Core platform) : Prop where
  ifu : other.ifu = core.ifu
  icache : core.icache.Same other.icache
  btb : core.btb.Same other.btb
  ras : core.ras.Same other.ras
  ifId : core.ifId.Same IfIdData.Same other.ifId
  idEx : core.idEx.Same IdExData.Same other.idEx
  exLatch : other.exLatch = core.exLatch
  exMem : other.exMem = core.exMem
  lsu : other.lsu = core.lsu.withHidden other.lsu
  memWb : core.memWb.Same MemWbData.Same other.memWb
  gpr : other.gpr = core.gpr
  csr : other.csr = core.csr
  bus : core.bus.Same other.bus
  ecalls : core.EcallsFlagged

/-- A clock edge reads a register that reset left unset and in which the
cores differ: an instruction takes its exception from the load-store unit, a
store takes its response, or a refill skips a word. -/
inductive Exposes (core other : Core platform) (axi : AxiIn) : Prop
  | exception (handedOver : core.memValid = true)
      (kept : core.globalTrapFlush = false)
      (unflagged : core.exMem.dataOut.excValid = false)
      (differs : ¬ core.lsu.SameFlag other.lsu)
  | response (waits : core.lsu.stateStore = .resp)
      (differs :
        other.bus.write.lsuBvalidReg ≠ core.bus.write.lsuBvalidReg)
  | word (skipped : core.icache.LeavesWord (core.icachePort axi))
      (differs : other.icache.dataArray ≠ core.icache.dataArray)

/-- The write ports of the register files, which do not look at `rst`, write
the same at the first reset edge. -/
def WritesAlike (core other : Core platform) : Prop :=
  other.rfWe = core.rfWe ∧ (core.rfWe = true →
    other.memWb.dataOut.rdIdx = core.memWb.dataOut.rdIdx ∧
      other.wbFinalWdata = core.wbFinalWdata)

theorem WritesAlike.gpr_reset {core other : Core platform}
    (alike : WritesAlike core other) (gpr : other.gpr = core.gpr) :
    other.reset.gpr = core.reset.gpr := by
  obtain ⟨enable, port⟩ := alike
  change other.gpr.write other.rfWe _ _ = core.gpr.write core.rfWe _ _
  rw [gpr, enable]
  cases writes : core.rfWe with
  | false => funext index; simp [Gpr.write]
  | true => rw [(port writes).1, (port writes).2]

namespace Same

variable {core other : Core platform}

theorem reset {power other : Core platform} (gpr : other.gpr = power.gpr)
    (mscratch : other.csr.mscratch = power.csr.mscratch)
    (alike : WritesAlike power other) :
    Same power.reset other.reset where
  ifu := rfl
  icache := ICache.Same.reset _ _
  btb := Btb.Same.reset _ _
  ras := Ras.Same.reset _ _
  ifId := ⟨rfl, rfl, nofun⟩
  idEx := ⟨rfl, rfl, nofun, nofun⟩
  exLatch := rfl
  exMem := rfl
  lsu := rfl
  memWb := ⟨rfl, rfl, nofun⟩
  gpr := alike.gpr_reset gpr
  csr := by simp [Core.reset, Csr.reset, mscratch]
  bus := Bus.Same.reset _ _
  ecalls := ⟨nofun, nofun, nofun⟩

theorem visible (same : Same core other) :
    other = core.withHidden other := by
  obtain ⟨ifu, ⟨icache, -⟩, ⟨btb, -⟩, ⟨ras, -⟩, ⟨ifIdValid, ifId, -⟩,
    ⟨idExValid, idEx, -⟩, exLatch, exMem, lsu, ⟨memWbValid, memWb, -⟩, gpr,
    csr, ⟨bus, -⟩, -⟩ := same
  unfold withHidden
  rw [← icache, ← btb, ← ras, ← ifId, ← ifIdValid, ← idEx, ← idExValid,
    ← lsu, ← memWb, ← memWbValid, ← bus, ← ifu, ← exLatch, ← exMem, ← gpr,
    ← csr]

theorem wire (same : Same core other) {α : Type} (read : Core platform → α)
    (blind : ∀ hidden, read (core.withHidden hidden) = read core) :
    read other = read core := by
  rw [same.visible]
  exact blind other

/-! ## Wires -/

theorem exRasCorrect_eq (same : Same core other) :
    other.exRasCorrect = core.exRasCorrect := by
  have predicted := same.idEx.2.2.2
  rw [exRasCorrect, same.wire exBranchTaken fun _ => rfl,
    same.wire exBranchTarget fun _ => rfl,
    same.wire (·.idEx.dataOut.rasPredicted) fun _ => rfl, exRasCorrect]
  cases isPredicted : core.idEx.dataOut.rasPredicted with
  | false => rfl
  | true => rw [predicted isPredicted]

theorem exMispredict_eq (same : Same core other) :
    other.exMispredict = core.exMispredict := by
  have predicted := same.idEx.2.2.1
  rw [exMispredict, same.exRasCorrect_eq, same.idEx.1,
    same.wire exBranchTaken fun _ => rfl,
    same.wire exBranchTarget fun _ => rfl,
    same.wire (·.idEx.dataOut.btbPredicted) fun _ => rfl, exMispredict]
  cases isPredicted : core.idEx.dataOut.btbPredicted with
  | false => simp
  | true => rw [predicted isPredicted]

theorem globalTrapFlush_eq (same : Same core other) :
    other.globalTrapFlush = core.globalTrapFlush :=
  same.wire globalTrapFlush fun _ => rfl

theorem jumpReq_eq (same : Same core other) :
    other.jumpReq = core.jumpReq := by
  rw [jumpReq, same.globalTrapFlush_eq, same.exMispredict_eq, ← jumpReq]

theorem rasHit_eq (same : Same core other) : other.rasHit = core.rasHit :=
  same.wire rasHit fun _ => rfl

theorem btbHit_eq (same : Same core other) : other.btbHit = core.btbHit := by
  rw [btbHit, same.ifu, same.btb.hit_eq, ← btbHit]

theorem rasTarget_eq (same : Same core other) (hit : core.rasHit = true) :
    other.rasTarget = core.rasTarget := by
  refine same.ras.target_eq fun empty => ?_
  simp [rasHit, Ras.hit, empty] at hit

theorem btbTarget_eq (same : Same core other) (hit : core.btbHit = true) :
    other.btb.target core.ifu.pcReg = core.btb.target core.ifu.pcReg :=
  same.btb.target_eq hit

theorem nextPc_eq (same : Same core other) : other.nextPc = core.nextPc := by
  have ras := same.rasTarget_eq
  have btb := same.btbTarget_eq
  simp only [nextPc, same.wire wbuTrapFire fun _ => rfl,
    same.wire wbuMretFire fun _ => rfl, same.wire exBranchTaken fun _ => rfl,
    same.wire exBranchTarget fun _ => rfl,
    same.wire (·.idEx.dataOut.pc) fun _ => rfl, same.csr, same.ifu,
    same.exMispredict_eq, same.rasHit_eq, same.btbHit_eq]
  split_ifs with _ _ _ _ rasHit btbHit
  · rfl
  · rfl
  · rfl
  · rfl
  · exact ras rasHit
  · exact btb btbHit
  · rfl

theorem busWires_eq (same : Same core other) (axi : AxiIn) :
    other.bus.ifuRdata axi = core.bus.ifuRdata axi ∧
      other.bus.ifuRvalid axi = core.bus.ifuRvalid axi :=
  ⟨same.wire (·.bus.ifuRdata axi) fun _ => rfl,
    same.wire (·.bus.ifuRvalid axi) fun _ => rfl⟩

theorem ifuPort_eq (same : Same core other) (axi : AxiIn) :
    other.ifuPort axi = core.ifuPort axi := by
  obtain ⟨rdata, rvalid⟩ := same.busWires_eq axi
  rw [ifuPort, rdata, rvalid, same.nextPc_eq, ifuFlushReq, same.jumpReq_eq,
    same.rasHit_eq, same.icache.ifuRdata_eq, same.icache.ifuRvalid_eq,
    same.wire ifIdReadyOut fun _ => rfl,
    same.wire (·.icache.ifuArready) fun _ => rfl]
  rfl

theorem icachePort_eq (same : Same core other) (axi : AxiIn) :
    other.icachePort axi = core.icachePort axi := by
  obtain ⟨rdata, rvalid⟩ := same.busWires_eq axi
  rw [icachePort, rdata, rvalid, same.jumpReq_eq, same.ifu,
    same.wire isFenceI fun _ => rfl,
    same.wire (fun core => core.bus.ifuArready core.lsu.lsuArvalid)
      fun _ => rfl]
  rfl

/-! ## One clock edge -/

theorem ifIdIn_same (same : Same core other) :
    IfIdData.Same core.ifIdIn other.ifIdIn := by
  have target := same.btbTarget_eq
  simp only [IfIdData.Same, ifIdIn, same.btbHit_eq, same.ifu]
  exact ⟨rfl, target⟩

theorem idExIn_same (same : Same core other) :
    IdExData.Same core.idExIn other.idExIn := by
  refine ⟨?_, ?_, ?_⟩
  · rw [same.visible]
    rfl
  · exact same.ifId.2.2
  · exact same.rasTarget_eq

theorem memWbIn_same (same : Same core other)
    (flag : core.exMem.dataOut.excValid = false →
      core.lsu.SameFlag other.lsu) :
    MemWbData.Same core.memWbIn other.memWbIn := by
  have lsu := same.lsu
  simp only [memWbIn, same.exMem]
  generalize core.exMem.dataOut = data at flag
  cases flagged : data.excValid with
  | true =>
      refine ⟨?_, fun _ => by simp [memoryBundle, flagged]⟩
      rw [lsu]
      simp [memoryBundle, MemWbData.withHidden, Lsu.withHidden, flagged]
  | false =>
      obtain ⟨raised, payload⟩ := flag flagged
      refine ⟨?_, by simpa [memoryBundle, flagged] using payload⟩
      rw [lsu]
      simp [memoryBundle, MemWbData.withHidden, Lsu.withHidden, flagged,
        raised]

theorem csr_next (same : Same core other) :
    other.csr.next other.csrPort = core.csr.next core.csrPort := by
  have payload := same.memWb.2.2
  have flagged := same.ecalls.memWb
  have memWb : other.memWb =
      ⟨core.memWb.dataOut.withHidden other.memWb.dataOut,
        core.memWb.validOut⟩ := by
    rw [same.visible]
    rfl
  rw [csrPort, memWb, same.csr, csrPort]
  cases raised : core.memWb.dataOut.excValid with
  | true =>
      obtain ⟨cause, value⟩ := payload raised
      simp [wbCsrPort, MemWbData.withHidden, cause, value]
  | false =>
      have notEcall : core.memWb.dataOut.ctrlWb.isEcall = false := by
        simpa [MemWbData.EcallFlagged, raised] using flagged
      simp [Csr.next, wbCsrPort, MemWbData.withHidden, raised, notEcall]

theorem lsu_next (same : Same core other)
    (response : core.lsu.stateStore = .resp →
      other.bus.write.lsuBvalidReg = core.bus.write.lsuBvalidReg) :
    other.lsu.next other.lsuPort =
      (core.lsu.next core.lsuPort).withHidden
        (other.lsu.next other.lsuPort) := by
  have port : other.lsuPort =
      { core.lsuPort with lsuBvalid := other.bus.write.lsuBvalidReg } := by
    rw [same.visible]
    rfl
  have sent : other.lsu.stateStore = core.lsu.stateStore :=
    same.wire (·.lsu.stateStore) fun _ => rfl
  rw [port, Lsu.next_lsuBvalid _ _ _ fun waits => response (sent ▸ waits)]
  exact Lsu.next_withHidden _ same.lsu

theorem step (same : Same core other) (axi : AxiIn)
    (unexposed : ¬ Exposes core other axi) :
    Same (core.step axi) (other.step axi) where
  ifu := by
    change other.ifu.next _ = core.ifu.next _
    rw [same.ifuPort_eq, same.ifu]
  icache := by
    change (core.icache.next _).Same (other.icache.next (other.icachePort _))
    rw [same.icachePort_eq axi]
    refine same.icache.next _ ?_
    by_contra differs
    rw [not_or, not_not] at differs
    exact unexposed (.word differs.2 differs.1)
  btb := by
    change (core.btb.next _ _ _ _).Same (other.btb.next
      (other.exIsBranch && other.exMemReadyOut) other.idEx.dataOut.pc
      other.exBranchTarget other.exBranchTaken)
    rw [same.wire (fun core => core.exIsBranch && core.exMemReadyOut)
        fun _ => rfl,
      same.wire (·.idEx.dataOut.pc) fun _ => rfl,
      same.wire exBranchTarget fun _ => rfl,
      same.wire exBranchTaken fun _ => rfl]
    exact same.btb.next _ _ _ _
  ras := by
    change (core.ras.next _ _ _ _ _).Same (other.ras.next other.jumpReq
      other.ifId.validOut (idIsCall other.idInst) (idIsRet other.idInst)
      other.ifId.dataOut.pc)
    rw [same.jumpReq_eq, same.wire idInst fun _ => rfl,
      same.wire (·.ifId.validOut) fun _ => rfl,
      same.wire (·.ifId.dataOut.pc) fun _ => rfl]
    exact same.ras.next _ _ _ _ _
  ifId := by
    change (core.ifId.next _ _ _ _).Same _ (other.ifId.next other.jumpReq
      other.ifIdIn other.ifu.outValid other.ifIdReadyHazard)
    rw [same.jumpReq_eq, same.ifu, same.wire ifIdReadyHazard fun _ => rfl]
    exact same.ifId.next ⟨rfl, fun _ => rfl⟩ fun _ _ => same.ifIdIn_same
  idEx := by
    change (core.idEx.next _ _ _ _).Same _ (other.idEx.next
      (other.idExFlushHazard || other.globalTrapFlush) other.idExIn
      other.ifId.validOut other.exMemReadyOut)
    rw [same.globalTrapFlush_eq, same.wire idExFlushHazard fun _ => rfl,
      same.wire (·.ifId.validOut) fun _ => rfl,
      same.wire exMemReadyOut fun _ => rfl]
    exact same.idEx.next ⟨rfl, fun _ => rfl, fun _ => rfl⟩
      fun _ _ => same.idExIn_same
  exLatch := same.wire nextExLatch fun _ => rfl
  exMem :=
    same.wire (fun core => core.exMem.next core.globalTrapFlush core.exMemIn
      core.idEx.validOut core.memReady) fun _ => rfl
  lsu := by
    refine same.lsu_next fun waits => ?_
    by_contra differs
    exact unexposed (.response waits differs)
  memWb := by
    change (core.memWb.next _ _ _ _).Same _ (other.memWb.next
      other.globalTrapFlush other.memWbIn other.memValid true)
    rw [same.globalTrapFlush_eq, same.wire memValid fun _ => rfl]
    refine same.memWb.next ⟨rfl, fun _ => ⟨rfl, rfl⟩⟩ fun kept handedOver =>
      same.memWbIn_same fun unflagged => ?_
    by_contra differs
    exact unexposed (.exception handedOver kept unflagged differs)
  gpr :=
    same.wire (fun core => core.gpr.write core.rfWe core.memWb.dataOut.rdIdx
      core.wbFinalWdata) fun _ => rfl
  csr := same.csr_next
  bus := by
    change (core.bus.next _ _ _).Same (other.bus.next _ other.busPort _)
    rw [same.wire busPort fun _ => rfl]
    exact same.bus.next platform _ axi
  ecalls := same.ecalls.step axi

theorem not_exposes (sameLsu : other.lsu = core.lsu)
    (sameResponse : other.bus.write.lsuBvalidReg =
      core.bus.write.lsuBvalidReg)
    (sameData : other.icache.dataArray = core.icache.dataArray)
    (axi : AxiIn) : ¬ Exposes core other axi := by
  intro exposes
  cases exposes with
  | exception _ _ _ differs =>
      exact differs (sameLsu ▸ ⟨rfl, fun _ => ⟨rfl, rfl⟩⟩)
  | response _ differs => exact differs sameResponse
  | word _ differs => exact differs sameData

end Same

/-! ## Runs -/

/-- What the core reports of the instruction in WB: its pc, the next pc, the
register and the memory bytes it writes. -/
structure Commit where
  pc : Word
  npc : Word
  rd : Option (BitVec 5 × Word)
  store : Option (Word × Word × BitVec 8)
  deriving DecidableEq, Repr

/-- The commit of this cycle. -/
def commit (core : Core platform) : Option Commit :=
  let data := core.memWb.dataOut
  if core.wbuValid then
    some
      { pc := data.pc
        npc := core.finalWbuNpc
        rd := if core.rfWe then some (data.rdIdx, core.wbFinalWdata) else none
        store :=
          if data.wstrb ≠ 0 then
            some (data.aluResult, data.memWdata, data.wstrb)
          else
            none }
  else
    none

/-- The cause and the value of the trap taken in this cycle. -/
def trap (core : Core platform) : Option (Word × Word) :=
  if core.wbuTrapFire then
    some (core.memWb.dataOut.excCause, core.memWb.dataOut.excTval)
  else
    none

/-- What shows of one cycle: the bus outputs, the commit, the trap or the
return from one, and the registers of the program. -/
structure Observation where
  axi : AxiOut
  commit : Option Commit
  trap : Option (Word × Word)
  mret : Bool
  gpr : Gpr
  csr : Csr

def observe (core : Core platform) : Observation where
  axi := core.bus.axiOut
  commit := core.commit
  trap := core.trap
  mret := core.wbuMretFire
  gpr := core.gpr
  csr := core.csr

theorem observe_trap (core : Core platform) :
    core.observe.trap = core.trap := rfl

theorem Same.trap_eq {core other : Core platform} (same : Same core other) :
    other.trap = core.trap := by
  have payload := same.memWb.2.2
  rw [trap, same.wire wbuTrapFire fun _ => rfl, trap]
  split_ifs with fires
  · simp only [wbuTrapFire, Bool.and_eq_true] at fires
    rw [(payload fires.2).1, (payload fires.2).2]
  · rfl

theorem Same.observe_eq {core other : Core platform}
    (same : Same core other) : other.observe = core.observe := by
  rw [observe, same.trap_eq, same.gpr, same.csr,
    same.wire (·.bus.axiOut) fun _ => rfl, same.wire commit fun _ => rfl,
    same.wire wbuMretFire fun _ => rfl]
  rfl

section Run

variable (inputs : Nat → AxiIn) {power other : Core platform}

theorem run_same (gpr : other.gpr = power.gpr)
    (mscratch : other.csr.mscratch = power.csr.mscratch)
    (alike : WritesAlike power other) (cycle : Nat)
    (unexposed : ∀ earlier, earlier < cycle →
      ¬ Exposes (power.reset.run inputs earlier)
        (other.reset.run inputs earlier) (inputs earlier)) :
    Same (power.reset.run inputs cycle) (other.reset.run inputs cycle) := by
  induction cycle with
  | zero => exact Same.reset gpr mscratch alike
  | succ cycle inductionHypothesis =>
      have same := inductionHypothesis fun earlier before =>
        unexposed earlier (Nat.lt_succ_of_lt before)
      exact same.step _ (unexposed cycle (Nat.lt_succ_self cycle))

/-- Two runs on the same inputs, from power-up states with the same registers
and `mscratch` that write the same register at the first reset edge, show the
same in every cycle up to which no clock edge has read a register that reset
left unset and in which they differ. -/
theorem run_observe_eq (gpr : other.gpr = power.gpr)
    (mscratch : other.csr.mscratch = power.csr.mscratch)
    (alike : WritesAlike power other) (cycle : Nat)
    (unexposed : ∀ earlier, earlier < cycle →
      ¬ Exposes (power.reset.run inputs earlier)
        (other.reset.run inputs earlier) (inputs earlier)) :
    (other.reset.run inputs cycle).observe =
      (power.reset.run inputs cycle).observe :=
  (run_same inputs gpr mscratch alike cycle unexposed).observe_eq

/-- The three registers agree. -/
structure Agree (core other : Core platform) : Prop where
  same : Same core other
  lsu : other.lsu = core.lsu
  write : other.bus.write = core.bus.write
  data : other.icache.dataArray = core.icache.dataArray

theorem Agree.step {core : Core platform} {other : Core platform}
    (agree : Agree core other) (axi : AxiIn) :
    Agree (core.step axi) (other.step axi) := by
  obtain ⟨same, lsu, write, data⟩ := agree
  have response : other.bus.write.lsuBvalidReg =
      core.bus.write.lsuBvalidReg := by
    rw [write]
  refine ⟨same.step axi (Same.not_exposes lsu response data axi), ?_, ?_, ?_⟩
  · have port : other.lsuPort =
        { core.lsuPort with lsuBvalid := other.bus.write.lsuBvalidReg } := by
      rw [same.visible]
      rfl
    change other.lsu.next other.lsuPort = core.lsu.next core.lsuPort
    rw [port, lsu, response]
    rfl
  · have blind : other.bus.nextWrite platform other.busPort axi =
        Bus.nextWrite platform { core.bus with write := other.bus.write }
          core.busPort axi := by
      rw [same.visible]
      rfl
    change other.bus.nextWrite platform other.busPort axi = _
    rw [blind, write]
    rfl
  · change (other.icache.next (other.icachePort axi)).dataArray = _
    rw [same.icachePort_eq]
    exact same.icache.dataArray_next _ data

/-- With these three registers in the reset blocks, and the write port of the
register file closed in reset, nothing that power-up leaves behind would ever
show. -/
theorem run_observe_of_agree (gpr : other.gpr = power.gpr)
    (mscratch : other.csr.mscratch = power.csr.mscratch)
    (alike : WritesAlike power other)
    (lsu : other.lsu.reset = power.lsu.reset)
    (response : other.bus.write.lsuBvalidReg =
      power.bus.write.lsuBvalidReg)
    (data : other.icache.dataArray = power.icache.dataArray) (cycle : Nat) :
    (other.reset.run inputs cycle).observe =
      (power.reset.run inputs cycle).observe := by
  have start : Agree power.reset other.reset :=
    { same := Same.reset gpr mscratch alike
      lsu
      write := by
        change Bus.write (Bus.reset _) = Bus.write (Bus.reset _)
        simp only [Bus.reset, response]
      data }
  exact (Machine.run_simulation Agree start
    (fun axi _ _ agree => agree.step axi) cycle).same.observe_eq

end Run

/-! ## Two `nop`s from three power-up states -/

/-- Two `nop`s at the start address. -/
def twoNops : System .npc :=
  System.boot .npc [(0x80000000, 0x00000013), (0x80000004, 0x00000013)]

/-- What a slave that is never late answers to the zeroed core. -/
def nopInputs : Nat → AxiIn := twoNops.inputs fun _ => Axi.Choice.prompt

/-- The return address stack and the trap payload come up with other
values. -/
def stale : Core .npc :=
  { Core.zeroed .npc with
    ras := { stack := fun _ => 0x30000000, sp := 5 }
    lsu := { Lsu.zeroed with excCause := 2, excTval := 7 } }

/-- The exception flag of the load-store unit comes up high. -/
def flagged : Core .npc :=
  { Core.zeroed .npc with lsu := { Lsu.zeroed with excValid := true } }

theorem run_observe_eq_at_stale :
    stale.lsu ≠ (Core.zeroed .npc).lsu ∧
      (stale.reset.run nopInputs 13).observe =
        ((Core.zeroed .npc).reset.run nopInputs 13).observe := by
  have gpr : stale.gpr = (Core.zeroed .npc).gpr := rfl
  have mscratch : stale.csr.mscratch = (Core.zeroed .npc).csr.mscratch := rfl
  have alike : WritesAlike (Core.zeroed .npc) stale := ⟨rfl, nofun⟩
  refine ⟨by decide, run_observe_eq nopInputs gpr mscratch alike 13 ?_⟩
  have quiet : ∀ earlier, earlier < 13 →
      (stale.reset.run nopInputs earlier).lsu.excValid = false ∧
      ((Core.zeroed .npc).reset.run nopInputs earlier).lsu.excValid =
        false ∧
      ((Core.zeroed .npc).reset.run nopInputs earlier).lsu.stateStore ≠
        .resp ∧
      ¬ ((Core.zeroed .npc).reset.run nopInputs earlier).icache.LeavesWord
        (((Core.zeroed .npc).reset.run nopInputs earlier).icachePort
          (nopInputs earlier)) := by
    decide +kernel
  intro earlier before exposes
  obtain ⟨otherFlag, flag, noStore, whole⟩ := quiet earlier before
  cases exposes with
  | exception _ _ _ differs =>
      exact differs ⟨otherFlag.trans flag.symm,
        fun raised => absurd (flag.symm.trans raised) Bool.false_ne_true⟩
  | response waits _ => exact noStore waits
  | word skipped _ => exact whole skipped

/-- The first `nop` traps from one of the two states only. -/
theorem flagged_observe_ne :
    ¬ ∀ (platform : Platform) (inputs : Nat → AxiIn)
      (power other : Core platform), other.gpr = power.gpr →
      other.csr.mscratch = power.csr.mscratch → ∀ cycle,
      (other.reset.run inputs cycle).observe =
        (power.reset.run inputs cycle).observe := by
  intro claimed
  have gpr : flagged.gpr = (Core.zeroed .npc).gpr := rfl
  have mscratch : flagged.csr.mscratch = (Core.zeroed .npc).csr.mscratch :=
    rfl
  have same := congrArg Observation.trap
    (claimed .npc nopInputs (Core.zeroed .npc) flagged gpr mscratch 12)
  have traps : (flagged.reset.run nopInputs 12).trap = some (0, 0) := by
    decide +kernel
  have retires : ((Core.zeroed .npc).reset.run nopInputs 12).trap = none := by
    decide +kernel
  rw [observe_trap, observe_trap, traps, retires] at same
  exact absurd same (Option.some_ne_none _)

end Core

end Ysyx.Rtl
