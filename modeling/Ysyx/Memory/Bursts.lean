import Ysyx.Memory.ExactlyOnce

/-!
# Read bursts of the SRAM

The beats that the SRAM delivers for an accepted burst, under any delay and
any back-pressure.
-/

namespace Ysyx.Rtl.Sram.Read

variable {delay : Nat}

/-! ## The cycles of a burst -/

/-- The cycles from `start` up to `cycle` in which something happens. -/
def cyclesWhere (happens : Nat → Bool) (start cycle : Nat) : List Nat :=
  (List.range' start (cycle - start)).filter happens

theorem cyclesWhere_self (happens : Nat → Bool) (start : Nat) :
    cyclesWhere happens start start = [] := by
  simp [cyclesWhere]

theorem cyclesWhere_succ (happens : Nat → Bool) {start cycle : Nat}
    (later : start ≤ cycle) :
    cyclesWhere happens start (cycle + 1) =
      cyclesWhere happens start cycle ++
        if happens cycle then [cycle] else [] := by
  obtain ⟨count, rfl⟩ := Nat.exists_eq_add_of_le later
  have here : start + count + 1 - start = count + 1 := by omega
  have before : start + count - start = count := by omega
  rw [cyclesWhere, cyclesWhere, here, before, List.range'_concat,
    List.filter_append]
  cases isHere : happens (start + count) <;> simp [isHere]

section Runs

variable (inputs : Nat → ReadIn) (initial : Read delay)

def states (inputs : Nat → ReadIn) (initial : Read delay) :
    Nat → Read delay :=
  Machine.run next inputs initial

/-- A beat is handed over. -/
def delivers (cycle : Nat) : Bool :=
  (states inputs initial cycle).rvalid && (inputs cycle).rready

/-- The request of `cycle` is accepted. -/
def Accepts (cycle : Nat) : Prop :=
  (states inputs initial cycle).arready = true ∧
    (inputs cycle).arvalid = true

/-- The address of a beat. -/
def wordAddr (base : Word) (index : Nat) : Word :=
  base + BitVec.ofNat 32 (4 * index)

/-- The beat with this index of a burst from `base`: fetched in one cycle and
delivered in a later one. -/
structure IsBeat (base : Word) (len : BitVec 8) (index fetched delivered : Nat) :
    Prop where
  order : fetched < delivered
  addr : (states inputs initial fetched).beatAddr = wordAddr base index
  data : (states inputs initial delivered).rdataReg =
    (inputs fetched).npcRead (wordAddr base index)
  last : (states inputs initial delivered).rlast = true ↔ index = len.toNat

/-- In the cycles after `start` and before `cycle` the SRAM has handed over
exactly the first `count` beats of the burst that it accepted at `start`. -/
structure Delivered (start cycle count : Nat) : Prop where
  length : (cyclesWhere (delivers inputs initial) (start + 1) cycle).length =
    count
  beat : ∀ index, index < count → ∃ fetched delivered,
    (cyclesWhere (fun now => (states inputs initial now).fetches)
        (start + 1) cycle)[index]? = some fetched ∧
      (cyclesWhere (delivers inputs initial) (start + 1) cycle)[index]? =
        some delivered ∧
      IsBeat inputs initial (inputs start).araddr (inputs start).arlen index
        fetched delivered

/-- The burst accepted at `start` is not over before `cycle`. -/
def Busy (start cycle : Nat) : Prop :=
  ∀ between, start < between → between < cycle →
    (states inputs initial between).arready = false

/-- The master takes every beat at last. -/
def BeatsTaken : Prop :=
  ∀ cycle, (states inputs initial cycle).rvalid = true →
    ∃ later, cycle ≤ later ∧ (inputs later).rready = true

/-- The burst accepted at `start` is served: while it lasts the beats so far
are delivered and at least one is missing, when it is over all `arlen + 1` are
delivered, and it is over if the master takes the beats. -/
structure Served (start : Nat) : Prop where
  running : ∀ cycle, start < cycle → Busy inputs initial start (cycle + 1) →
    ∃ count, count ≤ (inputs start).arlen.toNat ∧
      Delivered inputs initial start cycle count
  complete : ∀ cycle, start < cycle → Busy inputs initial start cycle →
    (states inputs initial cycle).arready = true →
    Delivered inputs initial start cycle ((inputs start).arlen.toNat + 1)
  ends : BeatsTaken inputs initial → ∃ cycle, start < cycle ∧
    Busy inputs initial start cycle ∧
    (states inputs initial cycle).arready = true

end Runs

/-! ## One clock edge -/

section Step

variable {sram : Read delay} {port : ReadIn}

theorem next_of_accepts (state : sram.arready = true)
    (valid : port.arvalid = true) :
    sram.next port =
      { sram with
        readBaseAddr := port.araddr
        burstLen := port.arlen
        beatCnt := 0
        delayCounter := 0
        stateRead := .d } := by
  have isAr : sram.stateRead = .ar := by simpa [arready] using state
  simp [next, isAr, arready, valid]

theorem next_of_d (state : sram.stateRead = .d) :
    sram.next port =
      if delayDone delay sram.delayCounter then
        { sram with
          rdataReg := port.npcRead sram.beatAddr
          rrespReg := axiRespOkay
          stateRead := .r
          delayCounter := 0 }
      else
        { sram with delayCounter := sram.delayCounter + 1 } := by
  simp only [next, state]

theorem next_of_r (state : sram.stateRead = .r) :
    sram.next port =
      if port.rready then
        if sram.beatCnt = sram.burstLen then
          { sram with
            stateRead := .ar
            beatCnt := 0 }
        else
          { sram with
            beatCnt := sram.beatCnt + 1
            delayCounter := 0
            stateRead := .d }
      else
        sram := by
  simp only [next, state, rvalid, beq_self_eq_true, Bool.and_true, beq_iff_eq]

theorem beatAddr_eq (sram : Read delay) :
    sram.beatAddr = wordAddr sram.readBaseAddr sram.beatCnt.toNat := by
  have small := sram.beatCnt.isLt
  have scaled : (sram.beatCnt ++ 0b00#2).setWidth 32 =
      BitVec.ofNat 32 (4 * sram.beatCnt.toNat) := by
    apply BitVec.eq_of_toNat_eq
    rw [BitVec.toNat_setWidth, BitVec.toNat_append, BitVec.toNat_ofNat,
      BitVec.toNat_ofNat, Nat.shiftLeft_eq]
    simp only [Nat.zero_mod, Nat.or_zero]
    omega
  rw [beatAddr, scaled, wordAddr]

end Step

/-! ## A burst in progress -/

section Serving

variable (inputs : Nat → ReadIn) (initial : Read delay)

/-- The fetches since the burst was accepted. -/
def fetchCycles (start cycle : Nat) : List Nat :=
  cyclesWhere (fun now => (states inputs initial now).fetches) (start + 1)
    cycle

/-- `count` beats are handed over and the next one is fetched or waits. -/
structure Serving (start cycle count : Nat) : Prop where
  later : start < cycle
  base : (states inputs initial cycle).readBaseAddr = (inputs start).araddr
  len : (states inputs initial cycle).burstLen = (inputs start).arlen
  beatCnt : (states inputs initial cycle).beatCnt.toNat = count
  missing : count ≤ (inputs start).arlen.toNat
  delivered : Delivered inputs initial start cycle count
  fetching : (states inputs initial cycle).stateRead = .d →
    (fetchCycles inputs initial start cycle).length = count ∧
      (states inputs initial cycle).delayCounter.toNat + 1 ≤ max delay 1
  waiting : (states inputs initial cycle).stateRead = .r →
    (fetchCycles inputs initial start cycle).length = count + 1 ∧
      ∃ fetched, (fetchCycles inputs initial start cycle)[count]? =
          some fetched ∧ fetched < cycle ∧
        (states inputs initial fetched).beatAddr =
          wordAddr (inputs start).araddr count ∧
        (states inputs initial cycle).rdataReg =
          (inputs fetched).npcRead (wordAddr (inputs start).araddr count)
  busy : (states inputs initial cycle).stateRead ≠ .ar

variable {inputs initial} {start cycle count : Nat}

theorem states_succ (inputs : Nat → ReadIn) (initial : Read delay)
    (cycle : Nat) :
    states inputs initial (cycle + 1) =
      (states inputs initial cycle).next (inputs cycle) := rfl

theorem fetchCycles_succ (inputs : Nat → ReadIn) (initial : Read delay)
    (later : start < cycle) :
    fetchCycles inputs initial start (cycle + 1) =
      fetchCycles inputs initial start cycle ++
        if (states inputs initial cycle).fetches then [cycle] else [] :=
  cyclesWhere_succ _ later

theorem getElem?_append_of_eq_some {items : List Nat} {index item : Nat}
    (found : items[index]? = some item) (rest : List Nat) :
    (items ++ rest)[index]? = some item := by
  obtain ⟨isIn, _⟩ := List.getElem?_eq_some_iff.mp found
  rw [List.getElem?_append_left isIn, found]

theorem Delivered.quiet (delivered : Delivered inputs initial start cycle count)
    (later : start < cycle) (noBeat : delivers inputs initial cycle = false) :
    Delivered inputs initial start (cycle + 1) count := by
  constructor
  · rw [cyclesWhere_succ _ later, noBeat]
    simpa using delivered.length
  · intro index before
    obtain ⟨fetched, handedOver, isFetch, isDelivery, beat⟩ :=
      delivered.beat index before
    refine ⟨fetched, handedOver, ?_, ?_, beat⟩
    · rw [cyclesWhere_succ _ later]
      exact getElem?_append_of_eq_some isFetch _
    · rw [cyclesWhere_succ _ later]
      exact getElem?_append_of_eq_some isDelivery _

theorem Delivered.beatTaken
    (delivered : Delivered inputs initial start cycle count)
    (later : start < cycle) (taken : delivers inputs initial cycle = true)
    {fetched : Nat}
    (isFetch : (fetchCycles inputs initial start cycle)[count]? =
      some fetched)
    (beat : IsBeat inputs initial (inputs start).araddr (inputs start).arlen
      count fetched cycle) :
    Delivered inputs initial start (cycle + 1) (count + 1) := by
  constructor
  · rw [cyclesWhere_succ _ later, taken]
    simpa using delivered.length
  · intro index before
    rcases Nat.lt_succ_iff_lt_or_eq.mp before with earlier | rfl
    · obtain ⟨fetched, handedOver, isFetch, isDelivery, beat⟩ :=
        delivered.beat index earlier
      refine ⟨fetched, handedOver, ?_, ?_, beat⟩
      · rw [cyclesWhere_succ _ later]
        exact getElem?_append_of_eq_some isFetch _
      · rw [cyclesWhere_succ _ later]
        exact getElem?_append_of_eq_some isDelivery _
    · refine ⟨fetched, cycle, ?_, ?_, beat⟩
      · rw [cyclesWhere_succ _ later]
        exact getElem?_append_of_eq_some isFetch _
      · rw [cyclesWhere_succ _ later, taken, if_pos rfl,
          List.getElem?_append_right (Nat.le_of_eq delivered.length),
          delivered.length, Nat.sub_self]
        rfl

/-- The first clock edge of a burst. -/
theorem serving_of_accepts (accepts : Accepts inputs initial start) :
    Serving inputs initial start (start + 1) 0 := by
  have after := states_succ inputs initial start
  rw [next_of_accepts accepts.1 accepts.2] at after
  have noCycles (happens : Nat → Bool) :
      cyclesWhere happens (start + 1) (start + 1) = [] :=
    cyclesWhere_self happens _
  refine ⟨Nat.lt_succ_self _, ?_, ?_, ?_, Nat.zero_le _, ?_, ?_, ?_, ?_⟩
  · rw [after]
  · rw [after]
  · rw [after]
    rfl
  · exact ⟨by rw [noCycles]; rfl, fun index before => by omega⟩
  · rw [after]
    intro _
    refine ⟨by rw [fetchCycles, noCycles]; rfl, ?_⟩
    have zero : (0 : Counter delay).toNat = 0 := by simp
    rw [zero]
    omega
  · rw [after]
    intro isR
    cases isR
  · rw [after]
    intro isAr
    cases isAr

/-- The wish of the master is served or the burst is over. -/
def Continues (inputs : Nat → ReadIn) (initial : Read delay)
    (start cycle : Nat) : Prop :=
  (∃ count, Serving inputs initial start cycle count) ∨
    (states inputs initial cycle).arready = true ∧
      Delivered inputs initial start cycle ((inputs start).arlen.toNat + 1)

/-- A clock edge of the delay. -/
theorem Serving.step_d (serving : Serving inputs initial start cycle count)
    (state : (states inputs initial cycle).stateRead = .d) :
    Serving inputs initial start (cycle + 1) count := by
  obtain ⟨length, counter⟩ := serving.fetching state
  have after := states_succ inputs initial cycle
  rw [next_of_d state] at after
  have noBeat : delivers inputs initial cycle = false := by
    simp [delivers, rvalid, state]
  have delivered := serving.delivered.quiet serving.later noBeat
  have later : start < cycle + 1 := Nat.lt_succ_of_lt serving.later
  have fetchList := fetchCycles_succ inputs initial serving.later
  cases isDone : delayDone delay (states inputs initial cycle).delayCounter with
  | true =>
      have fetches : (states inputs initial cycle).fetches = true := by
        simp [Read.fetches, state, isDone]
      have addr : (states inputs initial cycle).beatAddr =
          wordAddr (inputs start).araddr count := by
        rw [beatAddr_eq, serving.base, serving.beatCnt]
      rw [isDone, if_pos rfl] at after
      rw [fetches, if_pos rfl] at fetchList
      refine ⟨later, ?_, ?_, ?_, serving.missing, delivered, ?_, ?_, ?_⟩
      · rw [after]
        exact serving.base
      · rw [after]
        exact serving.len
      · rw [after]
        exact serving.beatCnt
      · rw [after]
        intro isD
        cases isD
      · intro _
        refine ⟨by simp [fetchList, length], cycle, ?_, Nat.lt_succ_self _,
          addr, ?_⟩
        · rw [fetchList, ← length]
          exact List.getElem?_concat_length
        · rw [after, addr]
      · rw [after]
        intro isAr
        cases isAr
  | false =>
      have fetches : (states inputs initial cycle).fetches = false := by
        simp [Read.fetches, isDone]
      have early := (delayDone_iff
        (states inputs initial cycle).delayCounter).not.mp (by simp [isDone])
      have counted := toNat_counter_succ isDone
      rw [isDone, if_neg Bool.false_ne_true] at after
      rw [fetches, if_neg Bool.false_ne_true, List.append_nil] at fetchList
      refine ⟨later, ?_, ?_, ?_, serving.missing, delivered, ?_, ?_, ?_⟩
      · rw [after]
        exact serving.base
      · rw [after]
        exact serving.len
      · rw [after]
        exact serving.beatCnt
      · rw [after, fetchList]
        intro _
        exact ⟨length, by simp only [counted]; omega⟩
      · rw [after]
        intro isR
        cases state.symm.trans isR
      · rw [after]
        intro isAr
        cases state.symm.trans isAr

theorem fetches_of_r (state : (states inputs initial cycle).stateRead = .r) :
    (states inputs initial cycle).fetches = false := by
  simp [fetches, state]

theorem Serving.isLast_iff (serving : Serving inputs initial start cycle count) :
    (states inputs initial cycle).beatCnt =
        (states inputs initial cycle).burstLen ↔
      count = (inputs start).arlen.toNat := by
  rw [← BitVec.toNat_inj, serving.beatCnt, serving.len]

/-- The beat that is handed over in `R`. -/
theorem Serving.beatTaken (serving : Serving inputs initial start cycle count)
    (state : (states inputs initial cycle).stateRead = .r)
    (ready : (inputs cycle).rready = true) :
    Delivered inputs initial start (cycle + 1) (count + 1) := by
  obtain ⟨-, fetched, isFetch, before, addr, data⟩ := serving.waiting state
  have taken : delivers inputs initial cycle = true := by
    simp [delivers, rvalid, state, ready]
  refine serving.delivered.beatTaken serving.later taken isFetch
    ⟨before, addr, data, ?_⟩
  rw [← serving.isLast_iff]
  simp [rlast, state]

/-- A clock edge with a beat on the channel. -/
theorem Serving.step_r (serving : Serving inputs initial start cycle count)
    (state : (states inputs initial cycle).stateRead = .r) :
    Continues inputs initial start (cycle + 1) := by
  obtain ⟨length, fetched, isFetch, before, addr, data⟩ :=
    serving.waiting state
  have after := states_succ inputs initial cycle
  rw [next_of_r state] at after
  have later : start < cycle + 1 := Nat.lt_succ_of_lt serving.later
  have fetchList := fetchCycles_succ inputs initial serving.later
  rw [fetches_of_r state, if_neg Bool.false_ne_true, List.append_nil]
    at fetchList
  cases ready : (inputs cycle).rready with
  | false =>
      rw [ready, if_neg Bool.false_ne_true] at after
      have noBeat : delivers inputs initial cycle = false := by
        simp [delivers, ready]
      refine Or.inl ⟨count, later, ?_, ?_, ?_, serving.missing,
        serving.delivered.quiet serving.later noBeat, ?_, ?_, ?_⟩
      · rw [after]
        exact serving.base
      · rw [after]
        exact serving.len
      · rw [after]
        exact serving.beatCnt
      · rw [after]
        intro isD
        cases state.symm.trans isD
      · rw [after, fetchList]
        intro _
        exact ⟨length, fetched, isFetch, Nat.lt_succ_of_lt before, addr, data⟩
      · rw [after]
        exact serving.busy
  | true =>
      rw [ready, if_pos rfl] at after
      have delivered := serving.beatTaken state ready
      by_cases isLast : (states inputs initial cycle).beatCnt =
          (states inputs initial cycle).burstLen
      · rw [if_pos isLast] at after
        rw [serving.isLast_iff.mp isLast] at delivered
        exact Or.inr ⟨by rw [after]; rfl, delivered⟩
      · rw [if_neg isLast] at after
        have notLast := serving.isLast_iff.not.mp isLast
        have missing := serving.missing
        have small := (inputs start).arlen.isLt
        have beatCnt := serving.beatCnt
        refine Or.inl ⟨count + 1, later, ?_, ?_, ?_, by omega, delivered,
          ?_, ?_, ?_⟩
        · rw [after]
          exact serving.base
        · rw [after]
          exact serving.len
        · rw [after]
          have one : (1 : BitVec 8).toNat = 1 := rfl
          simp only [BitVec.toNat_add, beatCnt, one]
          exact Nat.mod_eq_of_lt (by omega)
        · rw [after, fetchList]
          have zero : (0 : Counter delay).toNat = 0 := by simp
          intro _
          exact ⟨length, by rw [zero]; omega⟩
        · rw [after]
          intro isR
          cases isR
        · rw [after]
          intro isAr
          cases isAr

/-- What one clock edge makes of a burst in progress. -/
theorem Serving.step (serving : Serving inputs initial start cycle count) :
    Continues inputs initial start (cycle + 1) := by
  cases state : (states inputs initial cycle).stateRead with
  | ar =>
      exact absurd state serving.busy
  | d =>
      exact Or.inl ⟨count, serving.step_d state⟩
  | r =>
      exact serving.step_r state

theorem Serving.arready (serving : Serving inputs initial start cycle count) :
    (states inputs initial cycle).arready = false := by
  simp [Read.arready, serving.busy]

/-- A burst is in progress until `arready` is back. -/
theorem continues_of_busy (accepts : Accepts inputs initial start)
    (later : start < cycle) (busy : Busy inputs initial start cycle) :
    Continues inputs initial start cycle := by
  induction cycle, later using Nat.le_induction with
  | base =>
      exact Or.inl ⟨0, serving_of_accepts accepts⟩
  | succ cycle later inductionHypothesis =>
      rcases inductionHypothesis fun between after before =>
          busy between after (Nat.lt_succ_of_lt before) with
        ⟨count, serving⟩ | ⟨ready, -⟩
      · exact serving.step
      · rw [busy cycle later (Nat.lt_succ_self _)] at ready
        cases ready

/-! ## The end of a burst -/

/-- Clock edges that are left, not counting the wait for the master. -/
def rank (sram : Read delay) : Nat :=
  (sram.burstLen.toNat - sram.beatCnt.toNat) * (delay + 2) +
    match sram.stateRead with
    | .ar => 0
    | .d => 1 + (delay - sram.delayCounter.toNat)
    | .r => 0

theorem rank_d (state : (states inputs initial cycle).stateRead = .d) :
    (states inputs initial (cycle + 1)).rank <
      (states inputs initial cycle).rank := by
  rw [states_succ, next_of_d state]
  cases isDone : delayDone delay (states inputs initial cycle).delayCounter with
  | true =>
      simp only [if_true, rank, state]
      omega
  | false =>
      have early := (delayDone_iff
        (states inputs initial cycle).delayCounter).not.mp (by simp [isDone])
      have counted := toNat_counter_succ isDone
      simp only [Bool.false_eq_true, if_false, rank, state, counted]
      omega

theorem Serving.rank_r (serving : Serving inputs initial start cycle count)
    (state : (states inputs initial cycle).stateRead = .r)
    (ready : (inputs cycle).rready = true)
    (goesOn : (states inputs initial (cycle + 1)).arready = false) :
    (states inputs initial (cycle + 1)).rank <
      (states inputs initial cycle).rank := by
  rw [states_succ, next_of_r state, if_pos ready] at goesOn ⊢
  by_cases isLast : (states inputs initial cycle).beatCnt =
      (states inputs initial cycle).burstLen
  · simp [isLast, Read.arready] at goesOn
  · have notLast := serving.isLast_iff.not.mp isLast
    have missing := serving.missing
    have small := (inputs start).arlen.isLt
    have one : (1 : BitVec 8).toNat = 1 := rfl
    have zero : (0 : Counter delay).toNat = 0 := by simp
    have nextBeat : (count + 1) % 2 ^ 8 = count + 1 :=
      Nat.mod_eq_of_lt (by omega)
    obtain ⟨left, isLeft⟩ : ∃ left,
        (inputs start).arlen.toNat = count + 1 + left :=
      Nat.exists_eq_add_of_le (by omega)
    have before : count + 1 + left - count = left + 1 := by omega
    have after : count + 1 + left - (count + 1) = left := by omega
    rw [if_neg isLast]
    simp only [rank, state, BitVec.toNat_add, serving.beatCnt, serving.len,
      one, zero, nextBeat, isLeft, before, after]
    rw [Nat.succ_mul]
    omega

theorem Busy.succ (busy : Busy inputs initial start cycle)
    (notReady : (states inputs initial cycle).arready = false) :
    Busy inputs initial start (cycle + 1) := by
  intro between after before
  rcases Nat.lt_succ_iff_lt_or_eq.mp before with earlier | rfl
  · exact busy between after earlier
  · exact notReady

/-- A beat on the channel is taken: the burst is over or goes on. -/
theorem Serving.goesOn (serving : Serving inputs initial start cycle count)
    (busy : Busy inputs initial start cycle)
    (state : (states inputs initial cycle).stateRead = .r)
    (ready : (inputs cycle).rready = true) :
    ∃ later, start < later ∧ Busy inputs initial start later ∧
      ((states inputs initial later).arready = true ∨
        (∃ count', Serving inputs initial start later count') ∧
          (states inputs initial later).rank <
            (states inputs initial cycle).rank) := by
  refine ⟨cycle + 1, Nat.lt_succ_of_lt serving.later,
    busy.succ serving.arready, ?_⟩
  rcases serving.step_r state with ⟨count', serving'⟩ | ⟨isOver, -⟩
  · exact Or.inr ⟨⟨count', serving'⟩,
      serving.rank_r state ready serving'.arready⟩
  · exact Or.inl isOver

/-- A beat waits on the channel until it is taken. -/
theorem Serving.ends_r {wait : Nat}
    (serving : Serving inputs initial start cycle count)
    (busy : Busy inputs initial start cycle)
    (state : (states inputs initial cycle).stateRead = .r)
    (ready : (inputs (cycle + wait)).rready = true) :
    ∃ later, start < later ∧ Busy inputs initial start later ∧
      ((states inputs initial later).arready = true ∨
        (∃ count', Serving inputs initial start later count') ∧
          (states inputs initial later).rank <
            (states inputs initial cycle).rank) := by
  induction wait generalizing cycle with
  | zero =>
      exact serving.goesOn busy state ready
  | succ wait inductionHypothesis =>
      cases now : (inputs cycle).rready with
      | true =>
          exact serving.goesOn busy state now
      | false =>
          have same : states inputs initial (cycle + 1) =
              states inputs initial cycle := by
            rw [states_succ, next_of_r state, now, if_neg Bool.false_ne_true]
          have stillServing :
              Serving inputs initial start (cycle + 1) count := by
            rcases serving.step_r state with ⟨count', goesOn⟩ | ⟨isOver, -⟩
            · have sameCount : count' = count := by
                rw [← goesOn.beatCnt, same, serving.beatCnt]
              exact sameCount ▸ goesOn
            · rw [same, serving.arready] at isOver
              cases isOver
          rw [← same]
          exact inductionHypothesis stillServing
            (busy.succ serving.arready) (by rw [same]; exact state)
            (by rwa [Nat.add_assoc, Nat.add_comm 1])

theorem Serving.ends (taken : BeatsTaken inputs initial)
    (serving : Serving inputs initial start cycle count)
    (busy : Busy inputs initial start cycle) :
    ∃ later, start < later ∧ Busy inputs initial start later ∧
      (states inputs initial later).arready = true := by
  induction height : (states inputs initial cycle).rank
    using Nat.strong_induction_on generalizing cycle count with
  | _ height inductionHypothesis =>
      cases state : (states inputs initial cycle).stateRead with
      | ar =>
          exact absurd state serving.busy
      | d =>
          exact inductionHypothesis _ (height ▸ rank_d state)
            (serving.step_d state) (busy.succ serving.arready) rfl
      | r =>
          obtain ⟨firing, after, ready⟩ :=
            taken cycle (by simp [rvalid, state])
          obtain ⟨wait, rfl⟩ := Nat.exists_eq_add_of_le after
          obtain ⟨later, isLater, stillBusy, isOver | ⟨⟨count', goesOn⟩,
            lower⟩⟩ := serving.ends_r busy state ready
          · exact ⟨later, isLater, stillBusy, isOver⟩
          · exact inductionHypothesis _ (height ▸ lower) goesOn stillBusy rfl

theorem served_of_accepts (accepts : Accepts inputs initial start) :
    Served inputs initial start where
  running cycle later busy := by
    have notReady := busy cycle later (Nat.lt_succ_self _)
    have before : Busy inputs initial start cycle :=
      fun between after earlier => busy between after (by omega)
    rcases continues_of_busy accepts later before with
      ⟨count, serving⟩ | ⟨ready, -⟩
    · exact ⟨count, serving.missing, serving.delivered⟩
    · rw [notReady] at ready
      cases ready
  complete cycle later busy ready := by
    rcases continues_of_busy accepts later busy with
      ⟨count, serving⟩ | ⟨-, delivered⟩
    · rw [serving.arready] at ready
      cases ready
    · exact delivered
  ends taken :=
    (serving_of_accepts accepts).ends taken
      fun between after before => by omega

end Serving

end Ysyx.Rtl.Sram.Read

namespace Ysyx.Rtl

/-- The SRAM serves every burst that it accepts, and the SRAM and the UART
perform and answer each write of a conforming master once. -/
theorem slaves_serve (delay : Nat) (positive : 1 ≤ delay) :
    (∀ (inputs : Nat → Sram.ReadIn) (initial : Sram.Read delay) (start : Nat),
      Sram.Read.Accepts inputs initial start →
      Sram.Read.Served inputs initial start) ∧
    (Sram.Write.slave delay).ServesOnce Sram.Write.call
      (Sram.Write.reset delay) ∧
    Uart.Write.slave.ServesOnce Uart.Write.lowByte Uart.Write.reset := by
  refine ⟨fun inputs initial start => Sram.Read.served_of_accepts, ?_, ?_⟩
  · exact (Sram.Write.contract positive).servesOnce
      ⟨fun _ => ⟨rfl, rfl⟩, fun isW => by cases isW⟩ rfl rfl rfl
  · exact Uart.Write.contract.servesOnce ⟨rfl, by simp [Uart.Write.reset], rfl⟩
      rfl rfl rfl

/-- A delay of three cycles. -/
theorem slaves_serve_at_three :
    1 ≤ 3 ∧ ((∀ (inputs : Nat → Sram.ReadIn) (initial : Sram.Read 3)
        (start : Nat), Sram.Read.Accepts inputs initial start →
      Sram.Read.Served inputs initial start) ∧
    (Sram.Write.slave 3).ServesOnce Sram.Write.call (Sram.Write.reset 3) ∧
    Uart.Write.slave.ServesOnce Uart.Write.lowByte Uart.Write.reset) :=
  ⟨by decide, slaves_serve 3 (by decide)⟩

end Ysyx.Rtl
