import Ysyx.Refine.Code
import Ysyx.Pipeline.TwoRuns

/-!
# Commits

The commits of the core are those of the reference run, in its order, without
a gap and without one twice, however late the memory is.
-/

namespace Ysyx.Rtl

open Nemu hiding Word

variable {platform : Platform}

/-- A commit of the core beside those of the reference machine. -/
def Core.Commit.shown (commit : Core.Commit) : Nemu.Commit where
  pc := commit.pc
  npc := commit.npc
  write := commit.rd
  store := commit.store

theorem laneStrobe_ne_zero {len : Nat} (addr : Word)
    (known : len = 1 ∨ len = 2 ∨ len = 4) : laneStrobe addr len ≠ 0 := by
  have bound : addr.toNat % 4 < 4 := Nat.mod_lt _ (by decide)
  unfold laneStrobe
  generalize addr.toNat % 4 = lane at bound
  rcases known with rfl | rfl | rfl <;> interval_cases lane <;> decide

namespace UserProgram

variable {rtcAddr : Word} {start : State}

/-- The store of an instruction. -/
theorem store_eq (program : UserProgram rtcAddr start) (csr : Csr)
    (index : Nat) :
    let data := Datapath.bundle csr (start.run index)
    (start.run index).commit.store =
      if data.ctrlMem.writeMem ≠ 0 then
        some (data.aluResult,
          laneData data.aluResult (Datapath.writeLen data.ctrlMem.writeMem)
            data.memWdata,
          laneStrobe data.aluResult
            (Datapath.writeLen data.ctrlMem.writeMem))
      else none := by
  intro data
  have request := (program.step csr index).1
  have kind : data.ctrlMem.OneKind := controller_oneKind _ _ _ _
  by_cases isStore : data.ctrlMem.writeMem = 0#2
  · by_cases isLoad : data.ctrlMem.readMem = 0#3 <;>
      simp [State.commit, request, Datapath.request, data, isStore, isLoad]
  · have noLoad : data.ctrlMem.readMem = 0#3 := kind.resolve_right isStore
    simp [State.commit, request, Datapath.request, data, isStore, noLoad]

/-- The register that an instruction writes. -/
theorem write_eq (program : UserProgram rtcAddr start) (csr : Csr)
    (index : Nat) :
    let data := Datapath.bundle csr (start.run index)
    (start.run index).commit.write =
      if Gpr.rfWe true data.ctrlWb.writeReg data.rdIdx then
        some (data.rdIdx, Datapath.result (start.run index).pmem data)
      else none := by
  intro data
  obtain ⟨row, decoded, user⟩ := program.instruction index
  obtain ⟨-, -, -, gpr⟩ := program.step csr index
  obtain ⟨opcode, writesRd⟩ := opcode_of_user decoded user
  have rd : (bits (start.run index).inst 11 7).setWidth 5 =
      Id.rd (start.run index).inst := bits_setWidth _ rfl (by decide)
  have writeReg := writeReg_of_user opcode
  rw [← writesRd] at writeReg
  have isRd : data.rdIdx = Id.rd (start.run index).inst := rfl
  have writes : data.ctrlWb.writeReg =
      (control (start.run index).inst).writeReg := rfl
  change (start.run index).step.cpu.gpr =
    Gpr.write _ (Gpr.rfWe true data.ctrlWb.writeReg data.rdIdx) data.rdIdx
      (Datapath.result _ data) at gpr
  simp only [State.commit, rd, decoded, Option.any_some, gpr, isRd, writes,
    Gpr.rfWe, Gpr.write]
  grind

end UserProgram

namespace Core.Follows

variable {rtcAddr : Word} {start : State} {csr : Csr} {base : Nat}
  {core : Core platform}

theorem finalWbuNpc_eq (program : UserProgram rtcAddr start)
    (follows : core.Follows start csr base)
    (valid : core.memWb.validOut = true) :
    core.finalWbuNpc = (start.run base).step.pc := by
  obtain ⟨lsu, served, data⟩ := follows.holds.wb valid
  obtain ⟨ctrlWb, -, -, excValid⟩ := bundle_ctrlWb csr (start.run base)
  have plain := program.plain base
  have npc := (program.step csr base).2.1
  simp only [finalWbuNpc, wbTrap, data, memoryBundle, ctrlWb, excValid,
    plain.isMret, plain.excValid, served.accessFault, served.excValid]
  exact npc.symm

theorem store_shown (program : UserProgram rtcAddr start)
    (follows : core.Follows start csr base)
    (valid : core.memWb.validOut = true) :
    (if core.memWb.dataOut.wstrb ≠ 0 then
        some (core.memWb.dataOut.aluResult, core.memWb.dataOut.memWdata,
          core.memWb.dataOut.wstrb)
      else none) = (start.run base).commit.store := by
  obtain ⟨lsu, served, data⟩ := follows.holds.wb valid
  rw [program.store_eq csr base, data]
  by_cases isStore :
      (Datapath.bundle csr (start.run base)).ctrlMem.writeMem = 0
  · rw [if_neg (not_not.mpr isStore)]
    simp [memoryBundle, served.noStore isStore]
  · obtain ⟨wdata, wstrb⟩ := served.store isStore
    have notZero : lsu.lsuWstrb ≠ 0 := by
      rw [wstrb]
      exact laneStrobe_ne_zero _ (writeLen_cases _)
    rw [if_pos isStore, ← wdata, ← wstrb]
    exact if_pos notZero

/-- The instruction that commits is the next one of the reference run. -/
theorem commit_eq (program : UserProgram rtcAddr start)
    (follows : core.Follows start csr base)
    (valid : core.memWb.validOut = true) :
    core.commit.map Commit.shown = some (start.run base).commit := by
  obtain ⟨lsu, -, data⟩ := follows.holds.wb valid
  obtain ⟨ctrlWb, rdIdx, result⟩ :=
    follows.holds.wbFinalWdata_eq program valid
  have write : (if Gpr.rfWe true
        (Datapath.bundle csr (start.run base)).ctrlWb.writeReg
        (Id.rd (start.run base).inst) then
      some (Id.rd (start.run base).inst, Datapath.result
        (start.run base).pmem (Datapath.bundle csr (start.run base)))
      else none) = (start.run base).commit.write :=
    (program.write_eq csr base).symm
  have store := follows.store_shown program valid
  have npc := follows.finalWbuNpc_eq program valid
  have pc : core.memWb.dataOut.pc = (start.run base).pc := by
    rw [data]
    rfl
  have shown : core.commit.map Commit.shown =
      some ⟨core.memWb.dataOut.pc, core.finalWbuNpc,
        if core.rfWe then
          some (core.memWb.dataOut.rdIdx, core.wbFinalWdata) else none,
        if core.memWb.dataOut.wstrb ≠ 0 then
          some (core.memWb.dataOut.aluResult, core.memWb.dataOut.memWdata,
            core.memWb.dataOut.wstrb)
        else none⟩ := by
    simp [Core.commit, wbuValid, valid, Commit.shown]
  rw [shown, store, npc, pc, rfWe, valid, ctrlWb, rdIdx, result, write]
  rfl

end Core.Follows

/-! ## Runs -/

namespace PowerOn

variable {power : PowerOn platform} {start : State} {base cycle : Nat}

/-- The reference run starts where the core leaves reset, and the control
registers that reset leaves alone are clear. -/
structure Starts (power : PowerOn platform) (start : State) : Prop where
  pc : start.pc = platform.pcInit
  gpr : ∀ rs, rs ≠ 0 → power.core.reset.gpr rs = start.cpu.gpr rs
  pmem : power.bytes = start.pmem
  lsuBvalid : power.core.bus.write.lsuBvalidReg = false
  excValid : power.core.lsu.excValid = false

/-- The system follows the reference run, behind its first `base`
instructions. -/
structure FollowsAt (power : PowerOn platform) (start : State)
    (base cycle : Nat) : Prop where
  system : (power.system cycle).Follows start power.core.reset.csr base
  unsteered : (power.tracked cycle).Unsteered
  delivers : power.DeliversAt (RightCode start) cycle
  noFence : (power.system cycle).core.isFenceI = false
  noWait : (power.system cycle).core.exMispredict = true →
    (power.system cycle).core.ifu.state ≠ .waitR

theorem followsAt_zero (starts : power.Starts start) :
    power.FollowsAt start 0 0 where
  system :=
    { core :=
        { holds :=
            ⟨fun valid => absurd valid Bool.false_ne_true,
              fun valid => absurd valid Bool.false_ne_true⟩
          gpr := starts.gpr
          csr := rfl
          ex := fun valid => absurd valid Bool.false_ne_true
          id := fun valid => absurd valid Bool.false_ne_true
          fetch := fun _ _ => starts.pc.symm }
      owned := Core.lsuOwned_reset power.core
      store := Core.StoreHeld.reset power.core
      load := System.LoadHeld.reset power.core power.bytes
      noFault := System.NoFault.reset starts.excValid power.bytes
      bytes := starts.pmem }
  unsteered := Tracked.unsteered_reset power.core
  delivers := Fetching.delivers_reset _ power.core power.bytes
  noFence := rfl
  noWait := fun _ => by
    have idle : (power.system 0).core.ifu.state = .idle := rfl
    simp [idle]

theorem readWired (power : PowerOn platform) (cycle : Nat) :
    ReadWired (power.system cycle) :=
  Machine.run_invariant (ReadWired.reset power.core power.bytes)
    (fun choice _ wired => wired.step choice) cycle

theorem writeWired_system (power : PowerOn platform)
    (quiet : power.core.bus.write.lsuBvalidReg = false) (cycle : Nat) :
    WriteWired (power.system cycle) := by
  have wired := power.writeWired quiet cycle
  rw [tracked_core] at wired
  exact wired

theorem behind_system (power : PowerOn platform) (cycle : Nat) :
    (power.system cycle).core.OneBehind := by
  rw [← tracked_core]
  exact power.behind cycle

namespace FollowsAt

theorem inLine (follows : power.FollowsAt start base cycle)
    (valid : (power.system cycle).core.idEx.validOut = true)
    (unflagged : (power.system cycle).core.exMispredict = false) :
    (power.system cycle).core.nextInLine =
      (power.system cycle).core.exWnpc := by
  rw [← tracked_core] at valid unflagged ⊢
  exact follows.unsteered.inLine
    (Tracked.run_synced power.axi power.core cycle)
    (Tracked.run_fetchSteered power.axi power.core cycle) valid unflagged

/-- The fetch unit presents the instruction at its pc. -/
theorem inst_of_done (program : UserProgram platform.rtcAddr start)
    (follows : power.FollowsAt start base cycle)
    (done : (power.system cycle).core.ifu.state = .done) (index : Nat)
    (pc : (power.system cycle).core.ifu.pcReg = (start.run index).pc) :
    (power.system cycle).core.ifu.instReg = (start.run index).inst := by
  rw [← tracked_core, ← fetching_core] at done pc ⊢
  apply follows.delivers.done done index
  rw [pc, align_of_aligned (program.pc_aligned index)]

theorem handed (program : UserProgram platform.rtcAddr start)
    (follows : power.FollowsAt start base cycle)
    (hands : (power.system cycle).core.handsOver = true) :
    (power.system cycle).core.ifIdIn.pc =
        (start.run ((power.system cycle).core.nextIndex base)).pc ∧
      (power.system cycle).core.ifIdIn.inst =
        (start.run ((power.system cycle).core.nextIndex base)).inst ∧
      (power.system cycle).core.ifIdIn.excValid = false := by
  have behind := power.behind_system cycle
  have pc := follows.system.core.pcReg_of_handsOver program behind
    follows.inLine hands
  have done : (power.system cycle).core.ifu.state = .done := by
    simp only [Core.handsOver, Bool.and_eq_true] at hands
    simpa [behind.outValid] using hands.1.1
  refine ⟨pc, follows.inst_of_done program done _ pc, ?_⟩
  have sources := Tracked.run_payloadSources power.axi power.core cycle
  have excValid : (power.tracked cycle).core.ifu.excValid = false :=
    sources.ifu
  rw [tracked_core] at excValid
  exact excValid

/-- No flush comes while the cache waits for a burst. -/
theorem keepsBarrier (program : UserProgram platform.rtcAddr start)
    (follows : power.FollowsAt start base cycle) :
    (power.tracked cycle).core.KeepsBarrier (power.axi cycle) := by
  have noFlush := follows.system.core.noFlush program
  have noFence := follows.noFence
  have noWait := follows.noWait
  have resting := follows.delivers.resting
  rw [fetching_core, tracked_core] at resting
  rw [tracked_core]
  refine
    { noSkip := fun skips => ?_
      noCut := fun cuts => ?_
      noOvertake := fun overtakes => ?_
      contained := by simp [Core.trapEscape, noFlush] }
  · have fence : (power.system cycle).core.isFenceI = true := skips.1
    rw [noFence] at fence
    contradiction
  · have jump : (power.system cycle).core.jumpReq = true := cuts.1
    have missR : (power.system cycle).core.icache.state = .missR := cuts.2.1
    rw [Core.jumpReq, noFlush, Bool.false_or] at jump
    rw [resting (noWait jump)] at missR
    contradiction
  · have fence := overtakes.2.1
    rw [noFence] at fence
    contradiction

/-- What the memory holds is right. -/
theorem rightCode (program : UserProgram platform.rtcAddr start)
    (follows : power.FollowsAt start base cycle) (addr : Word) :
    RightCode start (Axi.Bytes.align addr)
      ((power.system cycle).memory.bytes.word addr) := by
  intro index pc
  rw [← Axi.Bytes.word_align, ← pc, follows.system.bytes]
  exact program.word_eq_inst power.core.reset.csr index _

theorem step (program : UserProgram platform.rtcAddr start)
    (starts : power.Starts start)
    (follows : power.FollowsAt start base cycle) :
    power.FollowsAt start ((power.system cycle).core.memIndex base)
      (cycle + 1) where
  system := follows.system.step program
    (power.writeWired_system starts.lsuBvalid cycle) (power.readWired cycle)
    (power.behind_system cycle) follows.inLine (follows.handed program)
    (power.choices cycle)
  unsteered := by
    refine follows.unsteered.step (power.axi cycle) ?_
    rw [tracked_core]
    exact follows.system.core.noReturn program
  delivers := follows.delivers.step (follows.keepsBarrier program)
    (fun _ _ right => right) fun _ => follows.rightCode program
  noFence := by
    have notFence : (power.system cycle).core.handsOver = true →
        iduIsFenceI (power.system cycle).core.ifIdIn.inst = false := by
      intro hands
      rw [(follows.handed program hands).2.1]
      exact (program.plain _).isFenceI
    exact Core.isFenceI_step _ follows.noFence notFence
  noWait := Core.mispredict_step _ (power.behind_system cycle)
    (follows.system.core.noFlush program)

end FollowsAt

/-- The commits of the first cycles. -/
def commits (power : PowerOn platform) (cycle : Nat) : List Nemu.Commit :=
  (List.range cycle).filterMap fun earlier =>
    (power.system earlier).core.commit.map Core.Commit.shown

theorem commits_succ (power : PowerOn platform) (cycle : Nat) :
    power.commits (cycle + 1) = power.commits cycle ++
      ((power.system cycle).core.commit.map Core.Commit.shown).toList := by
  rw [commits, List.range_succ, List.filterMap_append]
  cases shown : (power.system cycle).core.commit.map Core.Commit.shown <;>
    simp [commits, shown]

theorem followsAt (program : UserProgram platform.rtcAddr start)
    (starts : power.Starts start) (cycle : Nat) :
    ∃ base, power.FollowsAt start base cycle ∧
      power.commits cycle = start.commits base := by
  induction cycle with
  | zero => exact ⟨0, followsAt_zero starts, rfl⟩
  | succ cycle inductionHypothesis =>
      obtain ⟨base, follows, same⟩ := inductionHypothesis
      refine ⟨_, follows.step program starts, ?_⟩
      rw [commits_succ, same, Core.memIndex]
      cases valid : (power.system cycle).core.memWb.validOut with
      | false =>
          have noCommit : (power.system cycle).core.commit = none := by
            simp [Core.commit, Core.wbuValid, valid]
          simp [noCommit]
      | true =>
          rw [follows.system.core.commit_eq program valid]
          exact (start.commits_succ base).symm

/-- Whatever the memory chooses, in every cycle the core has committed the
first instructions of the program as the reference machine executes them. -/
theorem commits_refine (program : UserProgram platform.rtcAddr start)
    (starts : power.Starts start) (cycle : Nat) :
    ∃ count, power.commits cycle = start.commits count := by
  obtain ⟨base, -, same⟩ := followsAt program starts cycle
  exact ⟨base, same⟩

theorem step_of_selfLoop {state : State} (selfLoop : state.inst = 0x0000006f) :
    state.step = state := by
  have outcome : state.outcome =
      .done (state.cpu.setR 0 (state.pc + 4)) (state.pc + 0) none := by
    rw [State.outcome, selfLoop]
    rfl
  have cpu : state.cpu.setR 0 (state.pc + 4) = state.cpu := by
    obtain ⟨gpr, sr, zero⟩ := state.cpu
    simp only [CpuState.setR, CpuState.mk.injEq, and_true]
    funext index
    split_ifs with first
    · rw [first, zero]
    · rfl
  have npc : state.pc + 0 = state.pc := BitVec.add_zero _
  rw [State.step, outcome, cpu, npc]
  rfl

/-- A store, a load of the same word, an instruction that uses it and a branch
that nobody has predicted. -/
def branching : PowerOn .npc where
  core := Core.zeroed .npc
  bytes := Axi.Bytes.ofWords
    [(0x80000000, 0x00000097), (0x80000004, 0x00700113),
      (0x80000008, 0x0420a023), (0x8000000c, 0x0400a183),
      (0x80000010, 0x00218233), (0x80000014, 0x00218463),
      (0x80000018, 0x00100293), (0x8000001c, 0x0000006f)]
  choices := fun _ => .prompt

def branchingStart : State where
  pc := 0x80000000
  cpu := ⟨0, 0, rfl⟩
  pmem := branching.bytes

/-- From its seventh instruction on the program stays where it is. -/
theorem branchingStart_run (index : Nat) :
    ∃ early, early < 7 ∧
      branchingStart.run index = branchingStart.run early := by
  induction index with
  | zero => exact ⟨0, by decide, rfl⟩
  | succ index inductionHypothesis =>
      obtain ⟨early, before, same⟩ := inductionHypothesis
      rcases Nat.lt_succ_iff_lt_or_eq.mp before with earlier | rfl
      · exact ⟨early + 1, by omega, by rw [State.run, same]; rfl⟩
      · refine ⟨6, by decide, ?_⟩
        rw [State.run, same]
        exact step_of_selfLoop (by decide +kernel)

theorem branching_userProgram :
    UserProgram Platform.npc.rtcAddr branchingStart := by
  have instructions : ∀ early, early < 7 →
      (selected (branchingStart.run early).inst).any
        (fun row => row.name.isUser) = true ∧
      idIsRet (branchingStart.run early).inst = false ∧
      (branchingStart.run early).pc &&& 3 = 0 ∧
      (branchingStart.run early).pc ≠ 0x80000040 := by
    decide +kernel
  have requests : ∀ early, early < 7 →
      (branchingStart.run early).request = none ∨
      (branchingStart.run early).request =
        some (.write 0x80000040 4 7) ∨
      (branchingStart.run early).request = some (.read 0x80000040 4) := by
    decide +kernel
  refine ⟨?_, ?_, ?_, ?_, ?_⟩
  · intro index
    obtain ⟨early, before, same⟩ := branchingStart_run index
    rw [same]
    exact (Option.any_eq_true _ _).mp (instructions early before).1
  · intro index
    obtain ⟨early, before, same⟩ := branchingStart_run index
    rw [same]
    exact (instructions early before).2.1
  · intro index
    obtain ⟨early, before, same⟩ := branchingStart_run index
    rw [same]
    exact (instructions early before).2.2.1
  · intro index addr len reads
    obtain ⟨early, before, same⟩ := branchingStart_run index
    rw [same] at reads
    rcases requests early before with none | write | read
    · rw [none] at reads
      contradiction
    · rw [write] at reads
      cases reads
    · rw [read] at reads
      cases reads
      decide
  · intro index addr len data writes
    obtain ⟨early, before, same⟩ := branchingStart_run index
    rw [same] at writes
    rcases requests early before with none | write | read
    · rw [none] at writes
      contradiction
    · rw [write] at writes
      cases writes
      refine ⟨by decide, fun executed => ?_⟩
      obtain ⟨other, isEarly, sameOther⟩ := branchingStart_run executed
      rw [sameOther]
      exact (instructions other isEarly).2.2.2.symm
    · rw [read] at writes
      cases writes

theorem branching_starts : branching.Starts branchingStart :=
  ⟨rfl, fun _ _ => rfl, rfl, rfl, rfl⟩

theorem commits_refine_at_branching :
    ∃ count, branching.commits 60 = branchingStart.commits count ∧
      (branching.commits 60).length = 7 := by
  obtain ⟨count, same⟩ :=
    commits_refine branching_userProgram branching_starts 60
  exact ⟨count, same, by decide +kernel⟩

end PowerOn

end Ysyx.Rtl
