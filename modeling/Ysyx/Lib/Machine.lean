import Mathlib.Order.Nat

/-!
# Synchronous machines

A machine is a step function on states that reads one input in every cycle.
The rules below lift what one clock edge does to what every run does.
-/

namespace Machine

universe u v w

variable {State : Type u} {Input : Type v} {Other : Type w}

/-- The state after `cycle` clock edges. -/
def run (step : Input → State → State) (inputs : Nat → Input)
    (initial : State) : Nat → State
  | 0 => initial
  | cycle + 1 => step (inputs cycle) (run step inputs initial cycle)

variable {step : Input → State → State} {inputs : Nat → Input}
  {initial : State}

@[simp] theorem run_zero : run step inputs initial 0 = initial := rfl

theorem run_succ (cycle : Nat) :
    run step inputs initial (cycle + 1) =
      step (inputs cycle) (run step inputs initial cycle) := rfl

/-! ## Invariants -/

/-- An inductive invariant holds in every state of a run. -/
theorem run_invariant {Holds : State → Prop}
    (start : Holds initial)
    (preserved : ∀ input state, Holds state → Holds (step input state)) :
    ∀ cycle, Holds (run step inputs initial cycle) := by
  intro cycle
  induction cycle with
  | zero =>
      exact start
  | succ cycle inductionHypothesis =>
      exact preserved _ _ inductionHypothesis

/-- An invariant that a step preserves under a guard holds as long as the
guard has held in every earlier state. -/
theorem run_invariant_until {Holds Guard : State → Prop}
    (start : Holds initial)
    (preserved : ∀ input state,
      Holds state → Guard state → Holds (step input state)) :
    ∀ cycle,
      (∀ earlier, earlier < cycle →
        Guard (run step inputs initial earlier)) →
      Holds (run step inputs initial cycle) := by
  intro cycle
  induction cycle with
  | zero =>
      intro _
      exact start
  | succ cycle inductionHypothesis =>
      intro guarded
      refine preserved _ _ (inductionHypothesis ?_) ?_
      · intro earlier before
        exact guarded earlier (Nat.lt_succ_of_lt before)
      · exact guarded cycle (Nat.lt_succ_self cycle)

/-- An inductive invariant holds from any cycle on in which it holds. -/
theorem run_invariant_after {Holds : State → Prop} {start : Nat}
    (base : Holds (run step inputs initial start))
    (preserved : ∀ input state, Holds state → Holds (step input state)) :
    ∀ cycle, start ≤ cycle → Holds (run step inputs initial cycle) := by
  intro cycle later
  induction cycle, later using Nat.le_induction with
  | base =>
      exact base
  | succ cycle _ inductionHypothesis =>
      exact preserved _ _ inductionHypothesis

/-- An invariant from some cycle on, under a guard. -/
theorem run_invariant_from {Holds Guard : State → Prop} {start : Nat}
    (base : Holds (run step inputs initial start))
    (preserved : ∀ input state,
      Holds state → Guard state → Holds (step input state)) :
    ∀ cycle, start ≤ cycle →
      (∀ between, start ≤ between → between < cycle →
        Guard (run step inputs initial between)) →
      Holds (run step inputs initial cycle) := by
  intro cycle later
  induction cycle, later using Nat.le_induction with
  | base =>
      intro _
      exact base
  | succ cycle later inductionHypothesis =>
      intro guarded
      refine preserved _ _ (inductionHypothesis ?_) ?_
      · intro between afterStart before
        exact guarded between afterStart (Nat.lt_succ_of_lt before)
      · exact guarded cycle later (Nat.lt_succ_self cycle)

/-! ## Progress -/

/-- What waits until the machine fires, and then is done, is done in every
run that fires again and again. -/
theorem run_leadsTo (Waits Done Fires : State → Prop) {start : Nat}
    (waiting : Waits (run step inputs initial start))
    (progress : ∀ cycle, Waits (run step inputs initial cycle) →
      Done (run step inputs initial (cycle + 1)) ∨
        ¬ Fires (run step inputs initial cycle) ∧
          Waits (run step inputs initial (cycle + 1)))
    (fires : ∀ cycle, ∃ later, cycle ≤ later ∧
      Fires (run step inputs initial later)) :
    ∃ later, start ≤ later ∧ Done (run step inputs initial later) := by
  obtain ⟨firing, notBefore, firesThere⟩ := fires start
  obtain ⟨delay, rfl⟩ := Nat.exists_eq_add_of_le notBefore
  clear notBefore
  induction delay generalizing start with
  | zero =>
      rcases progress start waiting with done | ⟨notFires, _⟩
      · exact ⟨start + 1, by omega, done⟩
      · exact absurd firesThere notFires
  | succ delay inductionHypothesis =>
      rcases progress start waiting with done | ⟨_, stillWaiting⟩
      · exact ⟨start + 1, by omega, done⟩
      · have firesLater : Fires
            (run step inputs initial (start + 1 + delay)) := by
          rwa [Nat.add_assoc, Nat.add_comm 1 delay]
        obtain ⟨later, afterStart, done⟩ :=
          inductionHypothesis stillWaiting firesLater
        exact ⟨later, by omega, done⟩

section Rank

variable {Signal : Type*} (Waits Done : State → Prop) (rank : State → Nat)
  (signal : State → Signal) (Raised : Signal → Input → Prop)

/-- What waits is done one clock edge later, or waits with a lower rank, or
still waits for a signal that is not raised. -/
def Advances (input : Input) (state next : State) : Prop :=
  Done next ∨ Waits next ∧
    (rank next < rank state ∨
      rank next = rank state ∧ signal next = signal state ∧
        ¬ Raised (signal state) input)

/-- One wait: a signal that is waited for all the time is raised, and what is
not done then has a lower rank. -/
theorem run_leadsTo_lower
    (progress : ∀ cycle, Waits (run step inputs initial cycle) →
      Advances Waits Done rank signal Raised (inputs cycle)
        (run step inputs initial cycle)
        (run step inputs initial (cycle + 1)))
    {start : Nat} (waiting : Waits (run step inputs initial start))
    (fair : (∀ cycle, start ≤ cycle → Waits (run step inputs initial cycle) ∧
        signal (run step inputs initial cycle) =
          signal (run step inputs initial start)) →
      ∃ cycle, start ≤ cycle ∧
        Raised (signal (run step inputs initial start)) (inputs cycle)) :
    ∃ later, start ≤ later ∧ (Done (run step inputs initial later) ∨
      Waits (run step inputs initial later) ∧
        rank (run step inputs initial later) <
          rank (run step inputs initial start)) := by
  by_contra never
  push Not at never
  have stuck : ∀ cycle, start ≤ cycle → Waits (run step inputs initial cycle) ∧
      signal (run step inputs initial cycle) =
        signal (run step inputs initial start) ∧
      rank (run step inputs initial cycle) =
        rank (run step inputs initial start) := by
    intro cycle later
    induction cycle, later using Nat.le_induction with
    | base => exact ⟨waiting, rfl, rfl⟩
    | succ cycle later inductionHypothesis =>
        obtain ⟨waits, sameSignal, sameRank⟩ := inductionHypothesis
        have afterwards := never (cycle + 1) (Nat.le_succ_of_le later)
        rcases progress cycle waits with
          done | ⟨waitsNext, lower | ⟨rankNext, signalNext, _⟩⟩
        · exact absurd done afterwards.1
        · exact absurd (sameRank ▸ lower) (afterwards.2 waitsNext).not_gt
        · exact ⟨waitsNext, signalNext.trans sameSignal,
            rankNext.trans sameRank⟩
  obtain ⟨cycle, later, raised⟩ :=
    fair fun cycle later => ⟨(stuck cycle later).1, (stuck cycle later).2.1⟩
  obtain ⟨waits, sameSignal, sameRank⟩ := stuck cycle later
  have afterwards := never (cycle + 1) (Nat.le_succ_of_le later)
  rcases progress cycle waits with
    done | ⟨waitsNext, lower | ⟨_, _, notRaised⟩⟩
  · exact afterwards.1 done
  · exact (afterwards.2 waitsNext).not_gt (sameRank ▸ lower)
  · exact notRaised (sameSignal ▸ raised)

/-- What waits for one signal after the other is done in every run in which
no signal is waited for for ever. -/
theorem run_leadsTo_rank
    (progress : ∀ cycle, Waits (run step inputs initial cycle) →
      Advances Waits Done rank signal Raised (inputs cycle)
        (run step inputs initial cycle)
        (run step inputs initial (cycle + 1)))
    (fair : ∀ awaited start,
      (∀ cycle, start ≤ cycle → Waits (run step inputs initial cycle) ∧
        signal (run step inputs initial cycle) = awaited) →
      ∃ cycle, start ≤ cycle ∧ Raised awaited (inputs cycle))
    {start : Nat} (waiting : Waits (run step inputs initial start)) :
    ∃ later, start ≤ later ∧ Done (run step inputs initial later) := by
  induction height : rank (run step inputs initial start)
    using Nat.strong_induction_on generalizing start with
  | _ height inductionHypothesis =>
      obtain ⟨later, afterStart, done | ⟨waits, lower⟩⟩ :=
        run_leadsTo_lower Waits Done rank signal Raised progress waiting
          (fair _ start)
      · exact ⟨later, afterStart, done⟩
      · obtain ⟨last, afterLater, done⟩ :=
          inductionHypothesis _ (height ▸ lower) waits rfl
        exact ⟨last, by omega, done⟩

end Rank

/-! ## Projections and simulations -/

/-- A relation between two machines that every pair of steps preserves holds
along every pair of runs on the same inputs. -/
theorem run_simulation (Related : State → Other → Prop)
    {otherStep : Input → Other → Other} {otherInitial : Other}
    (start : Related initial otherInitial)
    (preserved : ∀ input state other,
      Related state other →
        Related (step input state) (otherStep input other)) :
    ∀ cycle,
      Related (run step inputs initial cycle)
        (run otherStep inputs otherInitial cycle) := by
  intro cycle
  induction cycle with
  | zero =>
      exact start
  | succ cycle inductionHypothesis =>
      exact preserved _ _ _ inductionHypothesis

/-- A view that commutes with the step commutes with runs: an observer added
to a machine does not disturb it. -/
theorem run_view {otherStep : Input → Other → Other}
    (view : State → Other)
    (commutes : ∀ input state,
      view (step input state) = otherStep input (view state)) :
    ∀ cycle,
      view (run step inputs initial cycle) =
        run otherStep inputs (view initial) cycle :=
  run_simulation (fun state other => view state = other) rfl
    fun input state other related => by
      rw [commutes, related]

end Machine
