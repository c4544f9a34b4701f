import Ysyx.Lib.AxiHandshakes
import Ysyx.Memory.Wiring

/-!
# A prompt memory is responsive

A memory that does everything as early as it can takes every handshake that
the core goes on offering.
-/

namespace Ysyx.Rtl

variable {platform : Platform}

namespace System

/-- Every beat of the burst in the memory has been sampled, and the burst is
not over. -/
def Sampled (system : System platform) : Prop :=
  ∀ burst ∈ system.memory.burst,
    (∀ index, (burst.sampled index).isSome = true) ∧
      burst.beat ≤ burst.len.toNat

/-- What holds in every state of a run on a prompt memory. -/
structure Prompt (system : System platform) : Prop where
  reads : ReadWired system
  writes : WriteWired system
  sampled : Sampled system

theorem sampled_step {system : System platform} (sampled : Sampled system) :
    Sampled (system.step .prompt) := by
  have next : (system.step .prompt).memory.burst =
      system.memory.nextBurst .prompt system.core.bus.axiOut := rfl
  intro burst held
  rw [next, Option.mem_def] at held
  cases before : system.memory.burst with
  | none =>
      rw [Axi.Memory.nextBurst_of_none before] at held
      split_ifs at held
      obtain rfl := Option.some.inj held
      exact ⟨fun _ => rfl, Nat.zero_le _⟩
  | some earlier =>
      have notOver := (sampled earlier before).2
      rw [Axi.Memory.nextBurst_of_some before,
        (Axi.Memory.drive_of_some before).2] at held
      split_ifs at held with beat last
      · simp only [Axi.Burst.isLast, beq_iff_eq] at last
        rw [← Option.some.inj held]
        refine ⟨fun _ => rfl, ?_⟩
        change earlier.beat + 1 ≤ earlier.len.toNat
        omega
      · rw [← Option.some.inj held]
        exact ⟨fun _ => rfl, notOver⟩

namespace Prompt

variable {system : System platform}

theorem reset {power : Core platform}
    (quiet : power.bus.write.lsuBvalidReg = false) (bytes : Axi.Bytes) :
    Prompt ⟨power.reset, { bytes }⟩ where
  reads := ReadWired.reset power bytes
  writes := WriteWired.reset quiet bytes
  sampled := nofun

theorem step (prompt : Prompt system) : Prompt (system.step .prompt) where
  reads := prompt.reads.step _
  writes := prompt.writes.step _
  sampled := sampled_step prompt.sampled

theorem run (prompt : Prompt system) (cycle : Nat) :
    Prompt (system.run (fun _ => .prompt) cycle) := by
  induction cycle with
  | zero => exact prompt
  | succ cycle inductionHypothesis => exact inductionHypothesis.step

/-! ## Handshakes -/

theorem arready (prompt : Prompt system)
    (offered : system.core.bus.axiOut.arvalid = true) :
    (system.memory.drive .prompt).arready = true := by
  have asks : system.core.bus.read.stateLoad.asks = true :=
    prompt.reads.bus.arvalid.symm.trans offered
  have free : system.memory.burst = none := by
    rw [← Option.not_isSome_iff_eq_none, prompt.reads.inFlight]
    cases state : system.core.bus.read.stateLoad <;>
      simp [state, BusLoadState.asks, BusLoadState.receives] at asks ⊢
  exact (Axi.Memory.drive_of_none free).1

theorem awready (prompt : Prompt system)
    (offered : system.core.bus.axiOut.awvalid = true) :
    (system.memory.drive .prompt).awready = true := by
  have encoded := prompt.writes.bus.awvalid.symm.trans offered
  simp only [Bool.and_eq_true, decide_eq_true_eq, Bool.not_eq_true']
    at encoded
  have awaddr := prompt.writes.awaddr
  simp only [BusWrite.awSent, encoded, reduceCtorEq, decide_false,
    Bool.or_false, Bool.false_eq_true, if_false] at awaddr
  simp [Axi.Memory.drive, awaddr, Axi.Choice.prompt]

theorem wready (prompt : Prompt system)
    (offered : system.core.bus.axiOut.wvalid = true) :
    (system.memory.drive .prompt).wready = true := by
  have encoded := prompt.writes.bus.wvalid.symm.trans offered
  simp only [Bool.and_eq_true, decide_eq_true_eq, Bool.not_eq_true']
    at encoded
  have wdata := prompt.writes.wdata
  simp only [BusWrite.wSent, encoded, reduceCtorEq, decide_false,
    Bool.or_false, Bool.false_eq_true, if_false] at wdata
  simp [Axi.Memory.drive, wdata, Axi.Choice.prompt]

/-- The memory performs a write that it holds, and then responds. -/
theorem bvalid (prompt : Prompt system)
    (offered : system.core.bus.axiOut.bready = true) :
    (system.memory.drive .prompt).bvalid = true ∨
      ((system.step .prompt).memory.drive .prompt).bvalid = true := by
  have state : system.core.bus.write.stateStore = .busWriteB :=
    of_decide_eq_true (prompt.writes.bus.bready.symm.trans offered)
  have awaddr := prompt.writes.awaddr
  have wdata := prompt.writes.wdata
  simp only [BusWrite.awSent, BusWrite.wSent, state, decide_true,
    Bool.or_true, if_true] at awaddr wdata
  cases performed : system.memory.performed with
  | true =>
      left
      simp [Axi.Memory.drive, performed, Axi.Choice.prompt]
  | false =>
      right
      simp [System.step, Axi.Memory.step, Axi.Memory.drive,
        Axi.Memory.request, performed, awaddr, wdata, Axi.Choice.prompt]

/-- The memory delivers a beat; after any but the last it has fewer of the
burst to deliver. -/
theorem rvalid (prompt : Prompt system)
    (offered : system.core.bus.axiOut.rready = true) :
    ∃ burst, system.memory.burst = some burst ∧
      (system.memory.drive .prompt).rvalid = true ∧
      ((system.memory.drive .prompt).rlast = true ∨
        ∃ next, (system.step .prompt).memory.burst = some next ∧
          next.len.toNat - next.beat < burst.len.toNat - burst.beat) := by
  have receives : system.core.bus.read.stateLoad.receives = true :=
    prompt.reads.bus.rready.symm.trans offered
  obtain ⟨burst, held⟩ := Option.isSome_iff_exists.mp
    (prompt.reads.inFlight.trans receives)
  obtain ⟨sampled, notOver⟩ := prompt.sampled burst held
  have valid : (system.memory.drive .prompt).rvalid = true := by
    simp [Axi.Memory.drive, Axi.Memory.ready, held, sampled,
      Axi.Choice.prompt]
  have next : (system.step .prompt).memory.burst =
      system.memory.nextBurst .prompt system.core.bus.axiOut := rfl
  refine ⟨burst, held, valid, ?_⟩
  rw [next, Axi.Memory.nextBurst_of_some held, if_pos ⟨valid, offered⟩]
  cases last : (system.memory.drive .prompt).rlast with
  | true => exact Or.inl rfl
  | false =>
      rw [(Axi.Memory.drive_of_some held).2] at last
      simp only [Axi.Burst.isLast, beq_eq_false_iff_ne] at last
      refine Or.inr ⟨_, rfl, ?_⟩
      change burst.len.toNat - (burst.beat + 1) < _
      omega

/-! ## Runs -/

/-- A beat of each burst is the last. -/
theorem run_last (prompt : Prompt system) (left : Nat) {start : Nat}
    (offers : ∀ cycle, start ≤ cycle → (system.run (fun _ => .prompt)
      cycle).core.bus.axiOut.rready = true)
    (enough : ∀ burst ∈ (system.run (fun _ => .prompt) start).memory.burst,
      burst.len.toNat - burst.beat ≤ left) :
    ∃ cycle, start ≤ cycle ∧ Axi.Handshake.r.taken
      (system.inputs (fun _ => .prompt) cycle) = true := by
  induction left generalizing start with
  | zero =>
      obtain ⟨burst, held, valid, last | ⟨_, _, fewer⟩⟩ :=
        (prompt.run start).rvalid (offers start le_rfl)
      · exact ⟨start, le_rfl, Bool.and_eq_true_iff.mpr ⟨valid, last⟩⟩
      · have none := enough burst held
        omega
  | succ left inductionHypothesis =>
      obtain ⟨burst, held, valid, last | ⟨next, heldNext, fewer⟩⟩ :=
        (prompt.run start).rvalid (offers start le_rfl)
      · exact ⟨start, le_rfl, Bool.and_eq_true_iff.mpr ⟨valid, last⟩⟩
      · have some := enough burst held
        have fewerLeft : ∀ burst ∈ (system.run (fun _ => .prompt)
            (start + 1)).memory.burst,
            burst.len.toNat - burst.beat ≤ left := by
          intro other isNext
          obtain rfl := Option.some.inj (heldNext.symm.trans isNext)
          omega
        obtain ⟨cycle, afterwards, taken⟩ := inductionHypothesis
          (fun cycle later => offers cycle (Nat.le_of_succ_le later))
          fewerLeft
        exact ⟨cycle, Nat.le_of_succ_le afterwards, taken⟩

theorem responsive (prompt : Prompt system) :
    Axi.Responsive (system.inputs fun _ => .prompt)
      fun cycle => (system.run (fun _ => .prompt) cycle).core.bus.axiOut := by
  intro handshake start offers
  have now := prompt.run start
  have offered := offers start le_rfl
  cases handshake with
  | ar => exact ⟨start, le_rfl, now.arready offered⟩
  | r =>
      obtain ⟨burst, held, -⟩ := now.rvalid offered
      refine prompt.run_last (burst.len.toNat - burst.beat) offers
        fun other isBurst => ?_
      obtain rfl := Option.some.inj (held.symm.trans isBurst)
      exact le_rfl
  | aw => exact ⟨start, le_rfl, now.awready offered⟩
  | w => exact ⟨start, le_rfl, now.wready offered⟩
  | b =>
      rcases now.bvalid offered with responds | responds
      · exact ⟨start, le_rfl, responds⟩
      · exact ⟨start + 1, Nat.le_succ start, responds⟩

end Prompt

end System

end Ysyx.Rtl
