import Ysyx.Refine.Flow
import Ysyx.Refine.Accesses

/-!
# The memory follows the reference run

The memory behind the core holds what the instructions of the reference run
have stored: those that have left MEM, and the one in MEM once the memory has
performed its write.
-/

namespace Ysyx.Rtl

open Nemu hiding Word

variable {platform : Platform}

theorem readMem_mem_loadCodes (inst : Word)
    (isLoad : (control inst).readMem ≠ 0) :
    (control inst).readMem ∈ loadCodes := by
  have table : ∀ func3, loadReadMem func3 ≠ 0 →
      loadReadMem func3 ∈ loadCodes := by
    decide
  revert isLoad
  apply controller_cases (fun out => out.readMem ≠ 0 → out.readMem ∈ loadCodes)
  case load =>
    exact fun _ => table _
  all_goals
    intros
    contradiction

theorem writeLen_cases (writeMem : BitVec 2) :
    Datapath.writeLen writeMem = 1 ∨ Datapath.writeLen writeMem = 2 ∨
      Datapath.writeLen writeMem = 4 := by
  revert writeMem
  decide

namespace UserProgram

variable {rtcAddr : Word} {start : State}

/-- A load of the program. -/
theorem load_aligned (program : UserProgram rtcAddr start) (csr : Csr)
    (index : Nat)
    (isLoad : (Datapath.bundle csr (start.run index)).ctrlMem.readMem ≠ 0) :
    let data := Datapath.bundle csr (start.run index)
    data.aluResult.toNat % Datapath.readLen data.ctrlMem.readMem = 0 ∧
      data.aluResult ≠ rtcAddr ∧ data.aluResult ≠ rtcAddr + 4 := by
  intro data
  have request := (program.step csr index).1
  have isRead : Datapath.request data =
      some (.read data.aluResult (Datapath.readLen data.ctrlMem.readMem)) := by
    rw [Datapath.request, if_pos isLoad]
  exact program.reads index _ _ (request.trans isRead)

/-- A store of the program. -/
theorem store_aligned (program : UserProgram rtcAddr start) (csr : Csr)
    (index : Nat)
    (isStore : (Datapath.bundle csr (start.run index)).ctrlMem.writeMem ≠ 0) :
    let data := Datapath.bundle csr (start.run index)
    data.aluResult.toNat % Datapath.writeLen data.ctrlMem.writeMem = 0 ∧
      (∀ executed,
        Axi.Bytes.align data.aluResult ≠ (start.run executed).pc) ∧
      (start.run (index + 1)).pmem =
        hostWrite (start.run index).pmem data.aluResult
          (Datapath.writeLen data.ctrlMem.writeMem) data.memWdata := by
  intro data
  obtain ⟨request, -, pmem, -⟩ := program.step csr index
  have kind : data.ctrlMem.OneKind := controller_oneKind _ _ _ _
  have noLoad : data.ctrlMem.readMem = 0 := kind.resolve_right isStore
  have isWrite : Datapath.request data =
      some (.write data.aluResult (Datapath.writeLen data.ctrlMem.writeMem)
        data.memWdata) := by
    rw [Datapath.request, if_neg (not_not.mpr noLoad), if_pos isStore]
  obtain ⟨aligned, apart⟩ :=
    program.writes index _ _ _ (request.trans isWrite)
  refine ⟨aligned, apart, ?_⟩
  rw [pmem, isWrite]
  rfl

/-- Other instructions leave the memory alone. -/
theorem pmem_of_noStore (program : UserProgram rtcAddr start) (csr : Csr)
    (index : Nat)
    (noStore : (Datapath.bundle csr (start.run index)).ctrlMem.writeMem = 0) :
    (start.run (index + 1)).pmem = (start.run index).pmem := by
  obtain ⟨-, -, pmem, -⟩ := program.step csr index
  rw [pmem, Datapath.request, if_neg (not_not.mpr noStore)]
  split_ifs <;> rfl

end UserProgram

namespace System

/-- The core and its memory follow the reference run. -/
structure Follows (start : State) (csr : Csr) (base : Nat)
    (system : System platform) : Prop where
  core : system.core.Follows start csr base
  owned : system.core.LsuOwned
  store : system.core.StoreHeld
  load : LoadHeld system
  noFault : NoFault system
  bytes : system.memory.bytes =
    (start.run (system.core.memIndex base + system.landed.toNat)).pmem

namespace Follows

variable {start : State} {csr : Csr} {base : Nat} {system : System platform}

/-- The bundle of the instruction in MEM. -/
theorem lsuPort_eq (follows : Follows start csr base system)
    (valid : system.core.exMem.validOut = true) :
    let data := Datapath.bundle csr
      (start.run (system.core.memIndex base))
    system.core.lsuPort.addr = data.aluResult ∧
      system.core.lsuPort.data = data.memWdata ∧
      system.core.lsuPort.readMem = data.ctrlMem.readMem ∧
      system.core.lsuPort.writeMem = data.ctrlMem.writeMem := by
  intro data
  have same := follows.core.holds.mem valid
  simp only [Core.lsuPort, same]
  exact ⟨rfl, rfl, rfl, rfl⟩

theorem noClint (program : UserProgram platform.rtcAddr start)
    (follows : Follows start csr base system)
    (loads : system.core.exMemLoads) :
    Bus.clintEn platform system.core.lsuPort.addr = false := by
  obtain ⟨addr, -, readMem, -⟩ := follows.lsuPort_eq loads.1
  have isLoad : system.core.lsuPort.readMem ≠ 0 := loads.2
  rw [readMem] at isLoad
  obtain ⟨-, notLow, notHigh⟩ := program.load_aligned csr _ isLoad
  rw [addr]
  simp only [Bus.clintEn, Bool.or_eq_false_iff, beq_eq_false_iff_ne]
  exact ⟨notLow, notHigh⟩

/-- When its access is complete, the LSU has served the instruction in MEM. -/
theorem served (program : UserProgram platform.rtcAddr start)
    (follows : Follows start csr base system)
    (wired : WriteWired system)
    (complete : system.core.memValid = true) :
    system.core.lsu.Served (start.run (system.core.memIndex base)).pmem
      system.core.exMem.dataOut := by
  have valid := follows.owned.valid_of_memValid complete
  obtain ⟨addr, data, readMem, writeMem⟩ := follows.lsuPort_eq valid
  rw [follows.core.holds.mem valid]
  refine
    { accessFault := follows.noFault.accessFault
      excValid := follows.noFault.excValid
      load := ?_
      store := ?_
      noStore := ?_ }
  · intro isLoad
    have loads : system.core.exMemLoads := ⟨valid, by
      change system.core.lsuPort.readMem ≠ 0
      rw [readMem]
      exact isLoad⟩
    have done : system.core.lsu.stateLoad = .done := by
      by_contra notDone
      rw [(follows.owned.memValid_of_loads loads notDone).1] at complete
      contradiction
    have storeIdle := (follows.owned.load (by simp [done])).2
    have notLanded : system.landed = false := by
      rw [landed_of_notResp wired (by simp [storeIdle]), storeIdle]
      rfl
    have bytes := follows.bytes
    rw [notLanded] at bytes
    obtain ⟨aligned, -, -⟩ := program.load_aligned csr _ isLoad
    rw [follows.load.loaded done, addr, readMem, bytes]
    exact signExtend_word (readMem_mem_loadCodes _ isLoad) aligned
  · intro isStore
    have busy : system.core.lsu.stateStore ≠ .idle := by
      intro idle
      have stores : system.core.exMemStores := ⟨valid, by
        change system.core.lsuPort.writeMem ≠ 0
        rw [writeMem]
        exact isStore⟩
      rw [(follows.owned.memValid_of_stores stores (by simp [idle])).1]
        at complete
      contradiction
    obtain ⟨-, wdata, wstrb⟩ := follows.store.payload busy
    obtain ⟨aligned, -, -⟩ := program.store_aligned csr _ isStore
    rw [wdata, wstrb, addr, data, writeMem]
    exact ⟨genWdataAligned_eq isStore aligned, genWstrb_eq isStore aligned⟩
  · intro noStore
    apply follows.store.noStrobe
    by_contra busy
    have stores := (follows.owned.store busy).1.2
    change system.core.lsuPort.writeMem ≠ 0 at stores
    rw [writeMem] at stores
    exact stores noStore

/-- The memory performs the store in MEM. -/
theorem performs (program : UserProgram platform.rtcAddr start)
    (follows : Follows start csr base system)
    (wired : WriteWired system) (choice : Axi.Choice)
    (asked : system.memory.request.isSome = true)
    (perform : choice.perform = true) :
    system.memory.nextBytes choice =
      (start.run (system.core.memIndex base + 1)).pmem := by
  obtain ⟨request, resp, notLanded⟩ := request_of_isSome wired asked
  have busy : system.core.lsu.stateStore ≠ .idle := by simp [resp]
  have stores := (follows.owned.store busy).1
  obtain ⟨addr, data, -, writeMem⟩ := follows.lsuPort_eq stores.1
  have isStore : system.core.lsuPort.writeMem ≠ 0 := stores.2
  rw [writeMem] at isStore
  obtain ⟨aligned, -, pmem⟩ := program.store_aligned csr _ isStore
  obtain ⟨awaddr, wdata, wstrb⟩ := follows.store.payload busy
  have bytes := follows.bytes
  rw [notLanded] at bytes
  rw [pmem, Axi.Memory.nextBytes, request]
  simp only [perform, if_true]
  rw [awaddr, wdata, wstrb, addr, data, writeMem, bytes,
    genWdataAligned_eq isStore aligned, genWstrb_eq isStore aligned]
  exact write_lanes _ (writeLen_cases _) aligned

theorem nextBytes_of_quiet {memory : Axi.Memory} {choice : Axi.Choice}
    (quiet : (memory.request.isSome && choice.perform) = false) :
    memory.nextBytes choice = memory.bytes := by
  unfold Axi.Memory.nextBytes
  cases request : memory.request with
  | none => rfl
  | some write =>
      rw [request, Option.isSome_some, Bool.true_and] at quiet
      simp [quiet]

/-- While the store in MEM waits for its response. -/
theorem bytes_step_of_resp (program : UserProgram platform.rtcAddr start)
    (follows : Follows start csr base system)
    (wired : WriteWired system) (choice : Axi.Choice)
    (resp : system.core.lsu.stateStore = .resp) :
    system.memory.nextBytes choice =
      (start.run (system.core.memIndex base +
        (system.step choice).landed.toNat)).pmem := by
  have bytes := follows.bytes
  rw [landed_step_of_resp wired resp]
  cases performs : system.memory.request.isSome && choice.perform with
  | false =>
      rw [nextBytes_of_quiet performs, Bool.or_false]
      exact bytes
  | true =>
      rw [Bool.and_eq_true] at performs
      rw [follows.performs program wired choice performs.1 performs.2,
        Bool.or_true]
      rfl

theorem bytes_step (program : UserProgram platform.rtcAddr start)
    (follows : Follows start csr base system)
    (wired : WriteWired system) (choice : Axi.Choice) :
    (system.step choice).memory.bytes =
      (start.run (system.core.memIndex base +
        system.core.memValid.toNat +
        (system.step choice).landed.toNat)).pmem := by
  change system.memory.nextBytes choice = _
  by_cases resp : system.core.lsu.stateStore = .resp
  · have busy : system.core.lsu.stateStore ≠ .idle := by simp [resp]
    have incomplete := (follows.owned.memValid_of_stores
      (follows.owned.store busy).1 (by simp [resp])).1
    rw [incomplete]
    exact follows.bytes_step_of_resp program wired choice resp
  · have noRequest := (request_eq_none wired resp).1
    have bytes := follows.bytes
    rw [landed_of_notResp wired resp] at bytes
    rw [nextBytes_of_quiet (by simp [noRequest]), bytes, landed_step wired,
      decide_eq_false resp]
    by_cases done : system.core.lsu.stateStore = .done
    · have complete : system.core.memValid = true := by
        simp [Core.memValid, Lsu.outValid, done]
      simp [done, complete]
    · cases complete : system.core.memValid with
      | false => simp [done]
      | true =>
          have valid := follows.owned.valid_of_memValid complete
          have noStore : system.core.lsuPort.writeMem = 0 := by
            by_contra isStore
            rw [(follows.owned.memValid_of_stores ⟨valid, isStore⟩ done).1]
              at complete
            contradiction
          rw [(follows.lsuPort_eq valid).2.2.2] at noStore
          simp [done, program.pmem_of_noStore csr _ noStore]

/-- One clock edge, when the fetch delivers the next instruction. -/
theorem step (program : UserProgram platform.rtcAddr start)
    (follows : Follows start csr base system) (wired : WriteWired system)
    (readWired : ReadWired system) (behind : system.core.OneBehind)
    (inLine : system.core.idEx.validOut = true →
      system.core.exMispredict = false →
      system.core.nextInLine = system.core.exWnpc)
    (handed : system.core.handsOver = true →
      system.core.ifIdIn.pc =
          (start.run (system.core.nextIndex base)).pc ∧
        system.core.ifIdIn.inst =
          (start.run (system.core.nextIndex base)).inst ∧
        system.core.ifIdIn.excValid = false)
    (choice : Axi.Choice) :
    Follows start csr (system.core.memIndex base) (system.step choice) := by
  have noFlush := follows.core.noFlush program
  exact
    { core := follows.core.step _ program follows.owned behind inLine
        (follows.served program wired) handed
      owned := Core.lsuOwned_step _ _ follows.owned
        (by simp [Core.trapEscape, noFlush])
      store := follows.store.step follows.owned noFlush _
      load := follows.load.step follows.owned noFlush wired readWired
        (follows.noClint program) choice
      noFault := follows.noFault.step choice
      bytes := by
        have index : (system.step choice).core.memIndex
            (system.core.memIndex base) =
          system.core.memIndex base + system.core.memValid.toNat :=
          Core.memIndex_step base _ noFlush
        rw [index]
        exact follows.bytes_step program wired choice }

end Follows

end System

end Ysyx.Rtl
