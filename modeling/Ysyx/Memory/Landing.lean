import Ysyx.Memory.Wiring
import Ysyx.Pipeline.Occupancy

/-!
# Stores that the memory performs

A store that the LSU has started keeps its instruction in MEM until the memory
has performed it.
-/

namespace Ysyx.Rtl

variable {platform : Platform}

/-- The write that the LSU asks for with the store in EX/MEM. -/
def Core.storeWrite (core : Core platform) : Word × Word × BitVec 4 :=
  (core.lsuPort.addr,
    genWdataAligned core.lsuPort.writeMem core.lsuPort.addr
      core.lsuPort.data,
    (genWstrb core.lsuPort.writeMem core.lsuPort.addr).extractLsb' 0 4)

/-! ## One clock edge of the machines -/

theorem Lsu.idle_of_storeStart {lsu : Lsu} {port : Lsu.In}
    (starts : lsu.storeStart port = true) : lsu.stateStore = .idle := by
  simp only [storeStart, Bool.and_eq_true, beq_iff_eq] at starts
  exact starts.1.1.1

theorem Lsu.next_of_storeStart {lsu : Lsu} {port : Lsu.In}
    (starts : lsu.storeStart port = true) :
    (lsu.next port).lsuAwaddr = port.addr ∧
      (lsu.next port).lsuWdata =
        genWdataAligned port.writeMem port.addr port.data ∧
      (lsu.next port).lsuWstrb = genWstrb port.writeMem port.addr := by
  have isIdle := idle_of_storeStart starts
  have sameStart := lsu.storeStart_nextLoad port
  have same := lsu.nextLoad_stateStore port
  simp [next, nextStore, same, isIdle, sameStart, starts]

/-- The write machine is done when the slave has responded. -/
theorem Bus.nextWrite_done {bus : Bus} {port : Bus.In} {axi : AxiIn}
    (done : (bus.nextWrite platform port axi).stateStore = .busWriteDone) :
    bus.write.stateStore = .busWriteDone ∨ axi.bvalid = true := by
  unfold nextWrite at done
  cases state : bus.write.stateStore with
  | busWriteDone => exact Or.inl rfl
  | busWriteB =>
      simp only [state] at done
      split_ifs at done with responds
      · exact Or.inr responds.1
      · rw [state] at done
        contradiction
  | busWriteIdle =>
      simp only [state] at done
      split_ifs at done
  | busSync =>
      simp only [state] at done
      split_ifs at done

/-! ## Under way -/

/-- The store of an instruction between its start in the LSU and its response;
`landed` says that the memory has performed it. -/
structure UnderWay (tag : Nat) (write : Word × Word × BitVec 4)
    (landed : Prop) (tracked : Tracked platform) (memory : Axi.Memory) :
    Prop where
  mem : ∃ ticket, tracked.mem = some ticket ∧ ticket.tag = tag
  active : tracked.core.lsu.stateStore = .sync ∨
    tracked.core.lsu.stateStore = .resp
  payload : (tracked.core.lsu.lsuAwaddr, tracked.core.lsu.lsuWdata,
    tracked.core.lsu.lsuWstrb.extractLsb' 0 4) = write
  answered : memory.performed = true ∨
    tracked.core.bus.write.stateStore = .busWriteDone → landed

namespace UnderWay

variable {tracked : Tracked platform} {memory : Axi.Memory}
  {choice : Axi.Choice} {tag : Nat} {write : Word × Word × BitVec 4}
  {landed lands : Prop}

theorem storePending (owned : tracked.core.LsuOwned)
    (underWay : UnderWay tag write landed tracked memory) :
    tracked.core.StorePending := by
  have busy : tracked.core.lsu.stateStore ≠ .idle := by
    rcases underWay.active with sync | resp
    · simp [sync]
    · simp [resp]
  have notDone : tracked.core.lsu.stateStore ≠ .done := by
    rcases underWay.active with sync | resp
    · simp [sync]
    · simp [resp]
  have stores := (owned.store busy).1
  exact ⟨stores, (owned.memValid_of_stores stores notDone).1⟩

/-- The LSU starts the store in EX/MEM. -/
theorem start (wired : WriteWired ⟨tracked.core, memory⟩)
    (owned : tracked.core.LsuOwned)
    (noEscape : tracked.core.trapEscape = false)
    (inMem : ∃ ticket, tracked.mem = some ticket ∧ ticket.tag = tag)
    (starts : tracked.core.lsu.storeStart tracked.core.lsuPort = true) :
    UnderWay tag tracked.core.storeWrite landed
      (tracked.step (memory.drive choice))
      (memory.step choice tracked.core.bus.axiOut) := by
  have next := wired.step choice
  have isIdle := Lsu.idle_of_storeStart starts
  have stores : tracked.core.exMemStores := by
    simp only [Lsu.storeStart, Core.lsuPort, Bool.and_eq_true, bne_iff_ne]
      at starts
    exact ⟨starts.1.1.2, starts.2⟩
  have pending : tracked.core.StorePending :=
    ⟨stores, (owned.memValid_of_stores stores
      (by simp [isIdle])).1⟩
  have sync : (tracked.step (memory.drive choice)).core.lsu.stateStore =
      .sync := by
    change (tracked.core.lsu.next tracked.core.lsuPort).stateStore = _
    rw [Lsu.next_stateStore wired.lsu rfl rfl]
    simp only at isIdle ⊢
    rw [isIdle]
    simp [starts]
  have notBusy :
      (tracked.step (memory.drive choice)).core.bus.write.busy = false := by
    have storing := next.storing
    change decide ((tracked.step
      (memory.drive choice)).core.lsu.stateStore = .resp) =
        (tracked.step (memory.drive choice)).core.bus.write.busy at storing
    rw [← storing, sync]
    rfl
  refine ⟨?_, Or.inl sync, ?_, ?_⟩
  · have access := tracked.core.exMemAccess_iff.mpr (Or.inr stores)
    rw [Tracked.mem_stays owned noEscape access pending.2]
    exact inMem
  · obtain ⟨addr, data, strb⟩ := Lsu.next_of_storeStart starts
    change ((tracked.core.lsu.next _).lsuAwaddr,
      (tracked.core.lsu.next _).lsuWdata,
      (tracked.core.lsu.next _).lsuWstrb.extractLsb' 0 4) = _
    rw [addr, data, strb]
    rfl
  · rintro (performed | done)
    · have sent := BusWrite.busy_of_awSent next.bus
        (next.performed performed).1
      change (tracked.step (memory.drive choice)).core.bus.write.busy = _
        at sent
      rw [notBusy] at sent
      contradiction
    · simp [BusWrite.busy, done] at notBusy

/-- The write that the memory performs is the one of the store. -/
theorem request_eq (wired : WriteWired ⟨tracked.core, memory⟩)
    (underWay : UnderWay tag write landed tracked memory)
    (asked : memory.request.isSome = true) : memory.request = some write := by
  have awaddr := wired.awaddr
  have wdata := wired.wdata
  rw [← underWay.payload]
  simp only [Axi.Memory.request] at asked ⊢
  simp only at awaddr wdata
  rw [awaddr, wdata] at asked ⊢
  split_ifs at asked ⊢ <;> simp_all

/-- One cycle brings the store nearer to its response, or it has been
performed. -/
theorem step (wired : WriteWired ⟨tracked.core, memory⟩)
    (owned : tracked.core.LsuOwned)
    (noEscape : tracked.core.trapEscape = false)
    (underWay : UnderWay tag write landed tracked memory)
    (stays : landed → lands)
    (now : memory.request = some write → choice.perform = true → lands) :
    UnderWay tag write lands (tracked.step (memory.drive choice))
        (memory.step choice tracked.core.bus.axiOut) ∨ lands := by
  have pending := underWay.storePending owned
  by_cases isLanded : landed
  · exact Or.inr (stays isLanded)
  left
  have noResponse : tracked.core.lsuPort.lsuBvalid = false := by
    have bvalid : tracked.core.bus.write.lsuBvalidReg = _ := wired.bus.bvalid
    change tracked.core.bus.write.lsuBvalidReg = false
    rw [bvalid]
    exact decide_eq_false fun done =>
      isLanded (underWay.answered (Or.inr done))
  have nextState : (tracked.step (memory.drive choice)).core.lsu.stateStore =
      _ := Lsu.next_stateStore wired.lsu rfl rfl
  have performs : (memory.step choice
      tracked.core.bus.axiOut).performed = true → lands := by
    intro performed
    simp only [Axi.Memory.step] at performed
    split_ifs at performed
    rcases Bool.or_eq_true_iff.mp performed with before | performing
    · exact stays (underWay.answered (Or.inl before))
    · rw [Bool.and_eq_true] at performing
      exact now (underWay.request_eq wired performing.1) performing.2
  obtain ⟨addr, data, strb⟩ :=
    Lsu.next_payload _ tracked.core.lsuPort underWay.active
  refine ⟨?_, ?_, ?_, ?_⟩
  · have access := tracked.core.exMemAccess_iff.mpr (Or.inr pending.1)
    rw [Tracked.mem_stays owned noEscape access pending.2]
    exact underWay.mem
  · rw [nextState]
    rcases underWay.active with sync | resp
    · simp only [sync]
      split_ifs <;> simp
    · simp [resp, noResponse]
  · change ((tracked.core.lsu.next _).lsuAwaddr,
      (tracked.core.lsu.next _).lsuWdata,
      (tracked.core.lsu.next _).lsuWstrb.extractLsb' 0 4) = _
    rw [addr, data, strb]
    exact underWay.payload
  · rintro (performed | done)
    · exact performs performed
    · rcases Bus.nextWrite_done done with wasDone | responds
      · exact absurd (underWay.answered (Or.inr wasDone)) isLanded
      · simp only [Axi.Memory.drive, Bool.and_eq_true] at responds
        exact absurd (underWay.answered (Or.inl responds.2)) isLanded

end UnderWay

end Ysyx.Rtl
