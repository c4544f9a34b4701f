import Ysyx.Memory.Stores
import Ysyx.Pipeline.SkipRef

/-!
# Device accesses are skipped one to one

An access of the load-store unit raises the flag only while its instruction
waits in MEM behind an empty WB, unless it escaped from a flush or took a
response that was not its own.
-/

namespace Ysyx.Rtl.Skipping

variable {platform : Platform}

/-- A busy machine of the LSU works for the instruction in MEM. -/
structure Working (skipping : Skipping platform) : Prop where
  owned : skipping.core.LsuOwned
  load : skipping.core.lsu.stateLoad ≠ .idle →
    skipping.loadTag = skipping.tracked.mem.map Ticket.tag
  store : skipping.core.lsu.stateStore ≠ .idle →
    skipping.storeTag = skipping.tracked.mem.map Ticket.tag

namespace Working

variable {skipping : Skipping platform}

theorem reset (power : Core platform) :
    Working { tracked := { core := power.reset } } where
  owned := Core.lsuOwned_reset power
  load := fun busy => absurd rfl busy
  store := fun busy => absurd rfl busy

theorem step (working : Working skipping)
    (contained : skipping.core.trapEscape = false) (axi : AxiIn) :
    Working (skipping.step axi) where
  owned := Core.lsuOwned_step axi _ working.owned contained
  load := by
    intro busy
    obtain ⟨loads, notDone⟩ := working.owned.loads_of_busy busy
    have incomplete := (working.owned.memValid_of_loads loads notDone).1
    have access := skipping.core.exMemAccess_iff.mpr (Or.inl loads)
    change ite _ _ _ = (skipping.tracked.step axi).mem.map Ticket.tag
    rw [Tracked.mem_stays working.owned contained access incomplete]
    split_ifs with starts
    · rfl
    · have wasBusy := (Lsu.busyLoad_cases busy rfl).resolve_left starts
      exact working.load wasBusy.1
  store := by
    intro busy
    obtain ⟨stores, notDone⟩ := working.owned.stores_of_busy busy
    have incomplete := (working.owned.memValid_of_stores stores notDone).1
    have access := skipping.core.exMemAccess_iff.mpr (Or.inr stores)
    change ite _ _ _ = (skipping.tracked.step axi).mem.map Ticket.tag
    rw [Tracked.mem_stays working.owned contained access incomplete]
    split_ifs with starts
    · rfl
    · have wasBusy := (Lsu.busyStore_cases busy rfl).resolve_left starts
      exact working.store wasBusy.1

/-- The instruction of a busy machine is the oldest. -/
theorem oldest_of_busy (working : Working skipping)
    (synced : Tracked.Synced skipping.tracked)
    (busy : skipping.core.lsu.stateLoad ≠ .idle ∨
      skipping.core.lsu.stateStore ≠ .idle) :
    ∃ ticket, skipping.tracked.mem = some ticket ∧
      Oldest skipping.tracked ticket.tag := by
  have valid : skipping.core.exMem.validOut = true :=
    busy.elim (fun load => (working.owned.load load).1.1)
      fun store => (working.owned.store store).1.1
  obtain ⟨ticket, inMem⟩ := synced.mem.exists_ticket valid
  have empty : skipping.core.memWb.validOut = false := by
    by_contra filled
    obtain ⟨loadIdle, storeIdle⟩ := working.owned.wb (by simpa using filled)
    exact busy.elim (absurd loadIdle) (absurd storeIdle)
  exact ⟨ticket, inMem, Or.inr ⟨empty, Or.inl (Tracked.mem_tagsOf inMem)⟩⟩

end Working

namespace Working

variable {skipping : Skipping platform}

theorem loadTag_inTurn (working : Working skipping)
    (synced : Tracked.Synced skipping.tracked)
    (busy : skipping.core.lsu.stateLoad ≠ .idle) :
    ∃ tag, skipping.loadTag = some tag ∧ Oldest skipping.tracked tag := by
  obtain ⟨ticket, inMem, oldest⟩ := working.oldest_of_busy synced (Or.inl busy)
  exact ⟨ticket.tag, by rw [working.load busy, inMem, Option.map_some],
    oldest⟩

theorem storeTag_inTurn (working : Working skipping)
    (synced : Tracked.Synced skipping.tracked)
    (busy : skipping.core.lsu.stateStore ≠ .idle) :
    ∃ tag, skipping.storeTag = some tag ∧ Oldest skipping.tracked tag := by
  obtain ⟨ticket, inMem, oldest⟩ := working.oldest_of_busy synced (Or.inr busy)
  exact ⟨ticket.tag, by rw [working.store busy, inMem, Option.map_some],
    oldest⟩

end Working

/-! ## What is on the bus -/

/-- The handshakes between the load machine and the bus. -/
structure ReadHeld (core : Core platform) : Prop where
  bus : core.bus.read.Encoded
  lsu : core.lsu.LoadEncoded
  loading : decide (core.lsu.stateLoad = .data) =
    core.bus.read.stateLoad.forLsu

theorem run_readHeld (inputs : Nat → AxiIn) (power : Core platform)
    (cycle : Nat) : ReadHeld (power.reset.run inputs cycle) :=
  Machine.run_invariant
    ⟨⟨rfl, rfl, rfl, rfl, fun _ => rfl⟩, ⟨rfl, rfl⟩, rfl⟩
    (fun axi _ held =>
      { bus := Bus.encoded_nextRead held.bus _ axi
        lsu := Lsu.loadEncoded_next held.lsu _
        loading := Core.loading_step held.bus held.lsu held.loading axi })
    cycle

/-- A read that the LSU has on the bus keeps its load machine busy. -/
theorem ReadHeld.busy {core : Core platform} (held : ReadHeld core)
    (raised : core.bus.read.arvalidReg = true)
    (notFetch : core.bus.read.stateLoad ≠ .ifuReqAr) :
    core.lsu.stateLoad ≠ .idle := by
  have arvalid := held.bus.arvalid
  have loading := held.loading
  intro idle
  rw [idle] at loading
  rw [raised] at arvalid
  cases state : core.bus.read.stateLoad with
  | ifuReqAr => exact notFetch state
  | lsuReqAr => simp [state, BusLoadState.forLsu] at loading
  | _ => simp [state, BusLoadState.asks] at arvalid

/-- A write on the bus keeps the store machine busy, if the response was low
at power-up. -/
theorem run_storeBusy (inputs : Nat → AxiIn) (power : Core platform)
    (response : power.bus.write.lsuBvalidReg = false) (cycle : Nat)
    (raised :
      (power.reset.run inputs cycle).bus.write.awvalidReg = true) :
    (power.reset.run inputs cycle).lsu.stateStore ≠ .idle := by
  have recorded : Storing.Recorded (Storing.run platform (fun earlier =>
      (power.reset.run inputs earlier).lsuBusIn (inputs earlier))
      power.lsuBus cycle) :=
    Machine.run_invariant (Storing.recorded_reset response)
      (fun input _ recorded => recorded.step platform input) cycle
  have encoded := recorded.bus
  have handed := recorded.handed
  rw [← Core.run_lsuBus] at encoded handed
  change decide ((power.reset.run inputs cycle).lsu.stateStore = .resp) =
    (power.reset.run inputs cycle).bus.write.busy at handed
  have awvalid := encoded.awvalid
  change (power.reset.run inputs cycle).bus.write.awvalidReg = _ at awvalid
  rw [raised] at awvalid
  have onBus : (power.reset.run inputs cycle).bus.write.stateStore =
      .busSync :=
    of_decide_eq_true (Bool.and_eq_true_iff.mp awvalid.symm).1
  intro idle
  simp [idle, BusWrite.busy, onBus] at handed

/-! ## Runs -/

theorem run_working (inputs : Nat → AxiIn) (power : Core platform)
    (cycle : Nat)
    (noEscape : ∀ earlier, earlier < cycle →
      (run inputs power earlier).core.trapEscape = false) :
    Working (run inputs power cycle) :=
  Machine.run_invariant_until (Working.reset power)
    (fun axi _ working contained => working.step contained axi) cycle noEscape

/-- The accesses of the LSU raise the flag in turn. -/
theorem run_inTurn (inputs : Nat → AxiIn) (power : Core platform)
    (cycle : Nat) (response : power.bus.write.lsuBvalidReg = false)
    (noEscape : ∀ earlier, earlier < cycle →
      (run inputs power earlier).core.trapEscape = false)
    (noFenceI : (run inputs power cycle).core.isFenceI = false)
    (noFetch : (run inputs power cycle).core.arSkips = true →
      (run inputs power cycle).core.bus.read.stateLoad ≠ .ifuReqAr) :
    InTurn (run inputs power cycle) := by
  have working := run_working inputs power cycle noEscape
  have synced := Tracked.run_synced inputs power cycle
  have held := run_readHeld inputs power cycle
  have storeBusy := run_storeBusy inputs power response cycle
  rw [← Tracked.run_core, ← run_tracked] at held storeBusy
  rw [← run_tracked] at synced
  intro owner member
  simp only [raises, noFenceI, Bool.false_eq_true, if_false, List.nil_append,
    List.mem_append] at member
  rcases member with (aw | ar) | clint
  · split_ifs at aw with raised
    · rw [List.mem_singleton.mp aw]
      simp only [Core.awSkips, Bool.and_eq_true] at raised
      exact working.storeTag_inTurn synced (storeBusy raised.1)
    · simp at aw
  · split_ifs at ar with raised fetch
    · exact absurd fetch (noFetch raised)
    · rw [List.mem_singleton.mp ar]
      simp only [Core.arSkips, Bool.and_eq_true] at raised
      exact working.loadTag_inTurn synced (held.busy raised.1 fetch)
    · simp at ar
  · split_ifs at clint with raised
    · rw [List.mem_singleton.mp clint]
      refine working.loadTag_inTurn synced fun idle => ?_
      have arvalid := held.lsu.arvalid
      simp only [Core.clintSkips, Bool.and_eq_true] at raised
      rw [idle, raised.1] at arvalid
      contradiction
    · simp at clint

/-- Without `fence.i`, fetches from devices, escapes and a response at
power-up every skip is matched with its commit. -/
theorem run_oneToOne_of_accesses (inputs : Nat → AxiIn)
    (power : Core platform) (cycle : Nat)
    (response : power.bus.write.lsuBvalidReg = false)
    (quiet : ∀ upTo, upTo ≤ cycle →
      (run inputs power upTo).core.trapEscape = false ∧
        (run inputs power upTo).core.isFenceI = false ∧
        ((run inputs power upTo).core.arSkips = true →
          (run inputs power upTo).core.bus.read.stateLoad ≠ .ifuReqAr)) :
    OneToOne (run inputs power cycle) := by
  have matched := run_matched inputs power cycle fun earlier before =>
    run_inTurn inputs power earlier response
      (fun first below => (quiet first (by omega)).1)
      (quiet earlier before.le).2.1 (quiet earlier before.le).2.2
  exact matched.oneToOne (run_inTurn inputs power cycle response
    (fun first below => (quiet first below.le).1)
    (quiet cycle le_rfl).2.1 (quiet cycle le_rfl).2.2)

end Ysyx.Rtl.Skipping
