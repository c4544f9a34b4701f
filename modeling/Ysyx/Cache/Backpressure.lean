import Mathlib.Data.Nat.Count
import Ysyx.Cache.Flush

/-!
# The response handshake

The instruction cache between any client and any bus delay, without flushes.
A hit waits for `rready`; the answers of a refill and of an uncached read do
not, and a request is latched on `arvalid` alone.
-/

namespace Ysyx.Rtl

namespace Cached

variable {params : ICacheParams}

/-- A request is taken: a lookup begins. -/
def Takes (bytes : Axi.Bytes) (input : Input) (cached : Cached params) :
    Prop :=
  cached.cache.state = .idle ∧
    (cached.step bytes input).cache.state = .lookup

/-- `ifu_arvalid` and `ifu_arready` are high. -/
def accepts (input : Input) (cached : Cached params) : Bool :=
  input.ifuArvalid && cached.cache.ifuArready

/-- `ifu_rvalid` and `ifu_rready` are high. -/
def responds (bytes : Axi.Bytes) (input : Input) (cached : Cached params) :
    Bool :=
  cached.rvalid bytes input && input.ifuRready

/-- A request is in the cache, or its refill has just ended. -/
def Busy (cached : Cached params) : Prop :=
  cached.cache.state ≠ .idle ∨ cached.cache.refillComplete = true

instance (cached : Cached params) : Decidable cached.Busy :=
  inferInstanceAs (Decidable (_ ∨ _))

/-- The client does not ask beside the answer of a refill, and is ready for
that answer and for an uncached one; no `fence.i` meets a hit that waits. -/
structure Accommodates (bytes : Axi.Bytes) (input : Input)
    (cached : Cached params) : Prop where
  asks : cached.cache.refillComplete = true → input.ifuArvalid = false
  refill : cached.cache.refillComplete = true → input.ifuRready = true
  uncached : cached.cache.isCacheable = false → cached.cache.state = .missR →
    (cached.port bytes input).busRvalid = true → input.ifuRready = true
  fences : cached.cache.state = .lookup → cached.cache.cacheHit = true →
    input.isFenceI = true → input.ifuRready = true

/-! ## Where the bus is -/

/-- The bus works for the cache exactly in `MISS_R`, and the answer of a
refill comes in `IDLE`. -/
structure Follows (cached : Cached params) : Prop where
  complete : cached.cache.refillComplete = true →
    cached.cache.state = .idle ∧ cached.cache.isCacheable = true
  fetching : cached.cache.state = .missR → ∃ burst,
    cached.fetch = some burst ∧ burst.len = cached.cache.busArlen ∧
      burst.beat ≤ burst.len.toNat
  free : cached.cache.state ≠ .missR → cached.fetch = none

theorem Follows.notComplete {cached : Cached params}
    (follows : Follows cached) (working : cached.cache.state ≠ .idle) :
    cached.cache.refillComplete ≠ true :=
  fun complete => working (follows.complete complete).1

theorem follows_reset (cache : ICache params) :
    Follows ⟨cache.reset, none⟩ where
  complete := fun complete => by cases complete
  fetching := fun missR => by cases missR
  free := fun _ => rfl

section Step

variable {bytes : Axi.Bytes} {input : Input} {cached : Cached params}

theorem step_state (noFlush : input.flush = false) :
    (cached.step bytes input).cache.state =
      cached.cache.nextState (cached.port bytes input) := by
  simp [step, ICache.next, port, noFlush]

theorem step_refillComplete :
    (cached.step bytes input).cache.refillComplete = true ↔
      cached.cache.state = .missR ∧ cached.cache.isCacheable = true ∧
        (cached.port bytes input).busRvalid = true ∧
        (cached.port bytes input).busRlast = true := by
  change (cached.cache.refillBeat (cached.port bytes input) &&
    (cached.port bytes input).busRlast) = true ↔ _
  rw [Bool.and_eq_true, ICache.refillBeat_iff]
  tauto

theorem step_isCacheable (notLookup : cached.cache.state ≠ .lookup) :
    (cached.step bytes input).cache.isCacheable =
      cached.cache.isCacheable :=
  (ICache.next_request _ notLookup).1

variable (bytes input) in
/-- A beat of the burst under way. -/
theorem Follows.beat (follows : Follows cached)
    (missR : cached.cache.state = .missR) : ∃ burst,
      cached.fetch = some burst ∧ burst.len = cached.cache.busArlen ∧
        burst.beat ≤ burst.len.toNat ∧
        (cached.port bytes input).busRvalid = input.rvalid ∧
        (cached.port bytes input).busRlast = burst.isLast ∧
        (cached.step bytes input).fetch =
          if input.rvalid = true then burst.advance else some burst := by
  obtain ⟨burst, held, len, inBurst⟩ := follows.fetching missR
  refine ⟨burst, held, len, inBurst, by simp [port, held], by simp [port, held],
    ?_⟩
  simp [step, nextFetch, held, ICache.busRready, missR]

variable (bytes input) in
/-- An uncached burst has one beat. -/
theorem Follows.last_of_uncached (follows : Follows cached)
    (uncached : cached.cache.isCacheable = false)
    (missR : cached.cache.state = .missR) :
    (cached.port bytes input).busRlast = true := by
  obtain ⟨burst, -, len, inBurst, -, last, -⟩ :=
    follows.beat bytes input missR
  rw [ICache.busArlen, uncached] at len
  rw [last, Fetch.isLast, len]
  rw [len] at inBurst
  simpa using inBurst

theorem follows_step (follows : Follows cached)
    (noFlush : input.flush = false) : Follows (cached.step bytes input) where
  complete := by
    intro complete
    obtain ⟨missR, cacheable, valid, last⟩ := step_refillComplete.mp complete
    constructor
    · rw [step_state noFlush]
      simp [ICache.nextState, ICache.busRready, missR, valid, last]
    · rw [step_isCacheable (by simp [missR]), cacheable]
  fetching := by
    intro missR
    obtain ⟨-, ⟨missAr, accepted⟩ | ⟨before, noLast⟩⟩ :=
      ICache.next_state_missR missR
    · have idle := follows.free (by simp [missAr])
      have sameLen := (ICache.next_request (cached.port bytes input)
        (by simp [missAr] : cached.cache.state ≠ .lookup)).2.2
      have accepts : input.arready = true := by
        simpa [port, idle] using accepted
      refine ⟨⟨cached.cache.busAraddr, cached.cache.busArlen, 0⟩, ?_,
        sameLen.symm, Nat.zero_le _⟩
      simp [step, nextFetch, idle, ICache.busArvalid, missAr, accepts]
    · have sameLen := (ICache.next_request (cached.port bytes input)
        (by simp [before] : cached.cache.state ≠ .lookup)).2.2
      obtain ⟨burst, -, len, inBurst, valid, last, moved⟩ :=
        follows.beat bytes input before
      rw [moved]
      by_cases beat : input.rvalid = true
      · have goesOn : burst.isLast = false := by
          rw [← last, noLast (valid.trans beat)]
        refine ⟨{ burst with beat := burst.beat + 1 }, ?_,
          len.trans sameLen.symm, ?_⟩
        · simp [beat, Fetch.advance, goesOn]
        · simp only [Fetch.isLast, beq_eq_false_iff_ne] at goesOn
          exact Nat.lt_of_le_of_ne inBurst goesOn
      · exact ⟨burst, by rw [if_neg beat], len.trans sameLen.symm, inBurst⟩
  free := by
    intro noMissR
    rw [step_state noFlush] at noMissR
    cases state : cached.cache.state with
    | missR =>
        obtain ⟨burst, -, -, -, valid, last, moved⟩ :=
          follows.beat bytes input state
        simp only [ICache.nextState, ICache.busRready, state, valid, last,
          beq_self_eq_true, true_and, ne_eq, ite_eq_right_iff,
          reduceCtorEq, imp_false, not_not] at noMissR
        rw [moved, if_pos noMissR.1, Fetch.advance, if_pos noMissR.2]
    | idle =>
        have free := follows.free (by simp [state])
        simp [step, nextFetch, free, ICache.busArvalid, state]
    | lookup =>
        have free := follows.free (by simp [state])
        simp [step, nextFetch, free, ICache.busArvalid, state]
    | missAr =>
        have free := follows.free (by simp [state])
        simp only [ICache.nextState, state, port, free, Option.isNone_none,
          Bool.and_true] at noMissR
        have refused : input.arready = false := by
          by_contra accepted
          simp [accepted] at noMissR
        simp [step, nextFetch, free, refused]

/-! ## One cycle -/

variable (bytes) in
/-- A hit that waits keeps its line unless a `fence.i` drops it. -/
theorem hit_step (lookup : cached.cache.state = .lookup)
    (noFence : input.isFenceI = false) :
    (cached.step bytes input).cache.cacheHit = cached.cache.cacheHit ∧
      (cached.step bytes input).cache.cacheData =
        cached.cache.cacheData := by
  have noBeat : cached.cache.refillBeat (cached.port bytes input) = false := by
    simp [ICache.refillBeat, lookup]
  have addr : (cached.step bytes input).cache.reqAddrReg =
      cached.cache.reqAddrReg := by
    simp [step, ICache.next, lookup]
  have tags : (cached.step bytes input).cache.tagArray =
      cached.cache.tagArray := by
    funext way index
    simp [step, ICache.next, ICache.nextTagArray, noBeat]
  have data : (cached.step bytes input).cache.dataArray =
      cached.cache.dataArray := by
    funext way index word
    simp [step, ICache.next, ICache.nextDataArray, noBeat]
  have unfenced : (cached.port bytes input).isFenceI = false := noFence
  have valid : (cached.step bytes input).cache.validArray =
      cached.cache.validArray := by
    funext way index
    simp [step, ICache.next, ICache.nextValidArray, noBeat, unfenced]
  simp [ICache.cacheHit, ICache.cacheData, ICache.hitWay, ICache.reqIndex,
    ICache.reqTag, ICache.reqWordIdx, addr, tags, data, valid]

/-- A `fence.i` leaves nothing to hit. -/
theorem fence_step (fence : input.isFenceI = true) :
    (cached.step bytes input).cache.cacheHit = false := by
  simp [step, ICache.next, ICache.cacheHit, ICache.hitWay,
    ICache.nextValidArray, port, fence]

/-- Back in `IDLE` without a refill, the cache answers nothing. -/
theorem silent_step (noFlush : input.flush = false)
    (idle : cached.cache.nextState (cached.port bytes input) = .idle)
    (noRefill : (cached.step bytes input).cache.refillComplete ≠ true)
    (next : Input) :
    (cached.step bytes input).rvalid bytes next = false := by
  rw [← Bool.not_eq_true, rvalid_iff, step_state noFlush, idle]
  simp [noRefill]

/-- While a request is in the cache, only a hit and an uncached beat are
answers. -/
theorem rvalid_iff_of_working (follows : Follows cached)
    (working : cached.cache.state ≠ .idle) :
    cached.rvalid bytes input = true ↔
      cached.cache.state = .lookup ∧ cached.cache.cacheHit = true ∨
        cached.cache.isCacheable = false ∧ cached.cache.state = .missR ∧
          (cached.port bytes input).busRvalid = true := by
  have notComplete := follows.notComplete working
  rw [rvalid_iff]
  simp [notComplete]

theorem accepts_of_busy (busy : cached.Busy) :
    cached.accepts input = false := by
  rcases busy with working | complete
  · simp [accepts, ICache.ifuArready, working]
  · simp [accepts, ICache.ifuArready, complete]

theorem accepts_of_free (free : ¬ cached.Busy) :
    cached.accepts input = input.ifuArvalid := by
  simp only [Busy, not_or, not_not, Bool.not_eq_true] at free
  simp [accepts, ICache.ifuArready, free]

theorem responds_of_free (free : ¬ cached.Busy) :
    cached.responds bytes input = false := by
  simp only [Busy, not_or, not_not, Bool.not_eq_true] at free
  have silent : cached.rvalid bytes input = false := by
    rw [← Bool.not_eq_true, rvalid_iff, free.1, free.2]
    simp
  rw [responds, silent, Bool.false_and]

theorem takes_of_asks (noFlush : input.flush = false)
    (idle : cached.cache.state = .idle) (asks : input.ifuArvalid = true) :
    cached.Takes bytes input := by
  refine ⟨idle, ?_⟩
  rw [step_state noFlush]
  simp [ICache.nextState, idle, port, asks]

/-! ## Answers that are lost -/

theorem refill_lost (follows : Follows cached) (noFlush : input.flush = false)
    (complete : cached.cache.refillComplete = true)
    (noAsk : input.ifuArvalid = false) (next : Input) :
    cached.rvalid bytes input = true ∧
      (cached.step bytes input).rvalid bytes next = false := by
  obtain ⟨idle, cacheable⟩ := follows.complete complete
  refine ⟨rvalid_iff.mpr (.inr (.inr ⟨cacheable, complete⟩)), ?_⟩
  apply silent_step noFlush
  · simp [ICache.nextState, idle, port, noAsk]
  · rw [ne_eq, step_refillComplete, idle]
    simp

theorem uncached_lost (follows : Follows cached)
    (noFlush : input.flush = false)
    (uncached : cached.cache.isCacheable = false)
    (missR : cached.cache.state = .missR)
    (valid : (cached.port bytes input).busRvalid = true) (next : Input) :
    cached.rvalid bytes input = true ∧
      (cached.step bytes input).rvalid bytes next = false := by
  have last := follows.last_of_uncached bytes input uncached missR
  refine ⟨rvalid_iff.mpr (.inr (.inl ⟨uncached, missR, valid⟩)), ?_⟩
  apply silent_step noFlush
  · simp [ICache.nextState, ICache.busRready, missR, valid, last]
  · rw [ne_eq, step_refillComplete, uncached]
    simp

theorem hit_lost (noFlush : input.flush = false)
    (lookup : cached.cache.state = .lookup)
    (hit : cached.cache.cacheHit = true) (fence : input.isFenceI = true)
    (notReady : input.ifuRready = false) (next : Input) :
    cached.rvalid bytes input = true ∧
      (cached.step bytes input).rvalid bytes next = false := by
  refine ⟨rvalid_iff.mpr (.inl ⟨lookup, hit⟩), ?_⟩
  rw [← Bool.not_eq_true, rvalid_iff, fence_step fence, step_state noFlush,
    step_refillComplete, lookup]
  simp [ICache.nextState, lookup, hit, port, notReady]

/-! ## Requests and responses -/

/-- A free cache becomes busy with a request. -/
theorem busy_step_of_free (noFlush : input.flush = false)
    (free : ¬ cached.Busy) :
    (cached.step bytes input).Busy ↔ cached.accepts input = true := by
  rw [accepts_of_free free]
  simp only [Busy, not_or, not_not, Bool.not_eq_true] at free
  have noRefill :
      (cached.step bytes input).cache.refillComplete ≠ true := by
    rw [ne_eq, step_refillComplete, free.1]
    simp
  rw [Busy, or_iff_left noRefill, step_state noFlush]
  simp only [ICache.nextState, free.1, port]
  by_cases asks : input.ifuArvalid = true <;> simp [asks]

/-- The answer of a refill is taken. -/
theorem responds_of_complete (follows : Follows cached)
    (accommodates : Accommodates bytes input cached)
    (complete : cached.cache.refillComplete = true) :
    cached.responds bytes input = true := by
  have answers : cached.rvalid bytes input = true :=
    rvalid_iff.mpr (.inr (.inr ⟨(follows.complete complete).2, complete⟩))
  rw [responds, answers, accommodates.refill complete]
  rfl

/-- A hit waits for a client that is not ready. -/
theorem waits_step (accommodates : Accommodates bytes input cached)
    (noFlush : input.flush = false) (lookup : cached.cache.state = .lookup)
    (hit : cached.cache.cacheHit = true)
    (notReady : input.ifuRready = false) :
    (cached.step bytes input).cache.state = .lookup ∧
      (cached.step bytes input).cache.cacheHit = true ∧
      (cached.step bytes input).cache.cacheData =
        cached.cache.cacheData := by
  have noFence : input.isFenceI = false := by
    by_contra fence
    rw [Bool.not_eq_false] at fence
    have ready := accommodates.fences lookup hit fence
    simp [notReady] at ready
  obtain ⟨stillHit, sameData⟩ := hit_step bytes lookup noFence
  refine ⟨?_, stillHit.trans hit, sameData⟩
  rw [step_state noFlush]
  simp [ICache.nextState, lookup, hit, port, notReady]

/-- An uncached beat is the response; a refill goes on, or ends with its
answer in the next cycle. -/
theorem busy_step_missR (follows : Follows cached)
    (accommodates : Accommodates bytes input cached)
    (noFlush : input.flush = false)
    (missR : cached.cache.state = .missR) :
    (cached.step bytes input).Busy ↔
      cached.responds bytes input = false := by
  have working : cached.cache.state ≠ .idle := by simp [missR]
  have leaves : cached.cache.nextState (cached.port bytes input) = .idle ↔
      (cached.port bytes input).busRvalid = true ∧
        (cached.port bytes input).busRlast = true := by
    simp [ICache.nextState, ICache.busRready, missR]
  rw [Busy, step_refillComplete, step_state noFlush, ne_eq, leaves, responds]
  cases cacheable : cached.cache.isCacheable with
  | true =>
      have silent : cached.rvalid bytes input = false := by
        rw [← Bool.not_eq_true, rvalid_iff_of_working follows working]
        simp [missR, cacheable]
      simp only [silent, missR, true_and, Bool.false_and, iff_true]
      tauto
  | false =>
      have last := follows.last_of_uncached bytes input cacheable missR
      have ready := accommodates.uncached cacheable missR
      have answers : cached.rvalid bytes input =
          (cached.port bytes input).busRvalid := by
        rw [Bool.eq_iff_iff, rvalid_iff_of_working follows working]
        simp [missR, cacheable]
      rw [answers, last]
      cases valid : (cached.port bytes input).busRvalid with
      | true => simp [ready valid]
      | false => simp

/-- A busy cache becomes free with a response. -/
theorem busy_step (follows : Follows cached)
    (accommodates : Accommodates bytes input cached)
    (noFlush : input.flush = false) (busy : cached.Busy) :
    (cached.step bytes input).Busy ↔
      cached.responds bytes input = false := by
  cases state : cached.cache.state with
  | idle =>
      have complete : cached.cache.refillComplete = true :=
        busy.resolve_left (not_not.mpr state)
      rw [Busy, step_refillComplete, step_state noFlush,
        responds_of_complete follows accommodates complete]
      simp [ICache.nextState, state, port, accommodates.asks complete]
  | lookup =>
      have working : cached.cache.state ≠ .idle := by simp [state]
      have answers : cached.rvalid bytes input = cached.cache.cacheHit := by
        rw [Bool.eq_iff_iff, rvalid_iff_of_working follows working]
        simp [state]
      rw [Busy, step_refillComplete, step_state noFlush, responds, answers]
      cases hit : cached.cache.cacheHit with
      | true =>
          cases ready : input.ifuRready <;>
            simp [ICache.nextState, state, hit, port, ready]
      | false =>
          simp [ICache.nextState, state, hit]
  | missAr =>
      have working : cached.cache.state ≠ .idle := by simp [state]
      have silent : cached.rvalid bytes input = false := by
        rw [← Bool.not_eq_true, rvalid_iff_of_working follows working]
        simp [state]
      have stays :
          cached.cache.nextState (cached.port bytes input) ≠ .idle := by
        simp only [ICache.nextState, state]
        split <;> simp
      rw [Busy, step_state noFlush, responds, silent]
      simp [stays]
  | missR => exact busy_step_missR follows accommodates noFlush state

/-- What the cache answers while the client is not ready stays. -/
theorem answer_step
    (accommodates : Accommodates bytes input cached)
    (noFlush : input.flush = false)
    (answers : cached.rvalid bytes input = true)
    (notReady : input.ifuRready = false) (next : Input) :
    (cached.step bytes input).rvalid bytes next = true ∧
      (cached.step bytes input).rdata bytes next =
        cached.rdata bytes input := by
  rcases rvalid_iff.mp answers with
    ⟨lookup, hit⟩ | ⟨uncached, missR, valid⟩ | ⟨-, complete⟩
  · obtain ⟨stillLookup, stillHit, sameData⟩ :=
      waits_step accommodates noFlush lookup hit notReady
    refine ⟨rvalid_iff.mpr (.inl ⟨stillLookup, stillHit⟩), ?_⟩
    simp [rdata, ICache.ifuRdata, stillLookup, stillHit, lookup, hit,
      sameData]
  · have ready := accommodates.uncached uncached missR valid
    simp [notReady] at ready
  · have ready := accommodates.refill complete
    simp [notReady] at ready

end Step

/-! ## What a busy cache waits for -/

/-- The signals that end the waits of the cache. -/
inductive Signal where
  | arready
  | rvalid
  | rready
  deriving DecidableEq, Repr

/-- The surroundings raise a signal in this cycle. -/
def Signal.Raised (signal : Signal) (input : Input) : Prop :=
  match signal with
  | .arready => input.arready = true
  | .rvalid => input.rvalid = true
  | .rready => input.ifuRready = true

def awaitedSignal (cached : Cached params) : Signal :=
  match cached.cache.state with
  | .missAr => .arready
  | .missR => .rvalid
  | _ => .rready

/-- An upper bound of the steps that a busy cache still has to take. -/
def distance (cached : Cached params) : Nat :=
  match cached.cache.state with
  | .idle => 1
  | .lookup => if cached.cache.cacheHit then 1 else 259
  | .missAr => 258
  | .missR =>
      cached.cache.busArlen.toNat + 2 -
        (cached.fetch.map Fetch.beat).getD 0

/-- A busy cache in its order of states. -/
def Works (cached : Cached params) : Prop :=
  Follows cached ∧ cached.Busy

section Progress

variable {bytes : Axi.Bytes} {input : Input} {cached : Cached params}

theorem distance_missR (follows : Follows cached)
    (missR : cached.cache.state = .missR) :
    2 ≤ cached.distance ∧ cached.distance ≤ 257 := by
  obtain ⟨burst, held, len, inBurst⟩ := follows.fetching missR
  have bounded := cached.cache.busArlen.isLt
  rw [len] at inBurst
  simp only [distance, missR, held, Option.map_some, Option.getD_some]
  omega

/-- A beat brings a burst nearer to its end. -/
theorem distance_step_missR (follows : Follows cached)
    (noFlush : input.flush = false)
    (missR : cached.cache.state = .missR) :
    (cached.step bytes input).distance < cached.distance ∨
      (cached.step bytes input).distance = cached.distance ∧
        (cached.step bytes input).awaitedSignal = cached.awaitedSignal ∧
        ¬ cached.awaitedSignal.Raised input := by
  have low := (distance_missR follows missR).1
  have sameLen := (ICache.next_request (cached.port bytes input)
    (by simp [missR] : cached.cache.state ≠ .lookup)).2.2
  obtain ⟨burst, held, len, inBurst, valid, last, moved⟩ :=
    follows.beat bytes input missR
  have state : (cached.step bytes input).cache.state =
      if input.rvalid = true ∧ burst.isLast = true then .idle
      else .missR := by
    rw [step_state noFlush]
    simp [ICache.nextState, ICache.busRready, missR, valid, last]
  by_cases beat : input.rvalid = true
  · left
    cases ends : burst.isLast with
    | true =>
        rw [if_pos ⟨beat, ends⟩] at state
        simp only [distance, state]
        exact low
    | false =>
        rw [if_neg (by simp [ends])] at state
        rw [if_pos beat, Fetch.advance, ends] at moved
        simp only [Fetch.isLast, beq_eq_false_iff_ne] at ends
        rw [len] at ends inBurst
        have length : (cached.step bytes input).cache.busArlen =
            cached.cache.busArlen := sameLen
        simp [distance, state, missR, moved, held, length]
        omega
  · right
    rw [if_neg (by simp [beat])] at state
    rw [if_neg beat] at moved
    have length : (cached.step bytes input).cache.busArlen =
        cached.cache.busArlen := sameLen
    simp [distance, awaitedSignal, Signal.Raised, state, missR, moved, held,
      length, beat]

theorem advances (works : Works cached)
    (accommodates : Accommodates bytes input cached)
    (noFlush : input.flush = false) :
    Machine.Advances Works (fun cached => ¬ cached.Busy) distance
      awaitedSignal Signal.Raised input cached (cached.step bytes input) := by
  obtain ⟨follows, busy⟩ := works
  have after : Follows (cached.step bytes input) :=
    follows_step follows noFlush
  by_cases goesOn : (cached.step bytes input).Busy
  · refine Or.inr ⟨⟨after, goesOn⟩, ?_⟩
    have silent := (busy_step follows accommodates noFlush busy).mp goesOn
    cases state : cached.cache.state with
    | idle =>
        have complete : cached.cache.refillComplete = true :=
          busy.resolve_left (not_not.mpr state)
        rw [responds_of_complete follows accommodates complete] at silent
        contradiction
    | lookup =>
        cases hit : cached.cache.cacheHit with
        | true =>
            have notReady : input.ifuRready = false := by
              have answers : cached.rvalid bytes input = true :=
                rvalid_iff.mpr (.inl ⟨state, hit⟩)
              simpa [responds, answers] using silent
            obtain ⟨stillLookup, stillHit, -⟩ :=
              waits_step accommodates noFlush state hit notReady
            right
            simp [distance, awaitedSignal, Signal.Raised, state, hit,
              stillLookup, stillHit, notReady]
        | false =>
            left
            have missAr : (cached.step bytes input).cache.state = .missAr := by
              rw [step_state noFlush]
              simp [ICache.nextState, state, hit]
            simp [distance, state, hit, missAr]
    | missAr =>
        have same : (cached.step bytes input).cache.state =
            if input.arready = true then .missR else .missAr := by
          rw [step_state noFlush]
          simp [ICache.nextState, state, port, follows.free]
        by_cases accepted : input.arready = true
        · left
          rw [if_pos accepted] at same
          have bound := (distance_missR after same).2
          simp only [distance, state] at bound ⊢
          omega
        · right
          rw [if_neg accepted] at same
          simp [distance, awaitedSignal, Signal.Raised, state, same, accepted]
    | missR =>
        exact distance_step_missR follows noFlush state
  · exact Or.inl goesOn

end Progress

/-! ## Runs -/

section Runs

variable (bytes : Axi.Bytes) (inputs : Nat → Input) (cache : ICache params)

/-- The requests accepted before `cycle`. -/
def requests (cycle : Nat) : Nat :=
  Nat.count (fun earlier =>
    (run bytes inputs cache earlier).accepts (inputs earlier) = true) cycle

/-- The responses accepted before `cycle`. -/
def responses (cycle : Nat) : Nat :=
  Nat.count (fun earlier =>
    (run bytes inputs cache earlier).responds bytes (inputs earlier) = true)
    cycle

/-- The bus accepts and delivers, and the client is ready, again and again. -/
def Fair : Prop :=
  ∀ signal cycle, ∃ later, cycle ≤ later ∧
    Signal.Raised signal (inputs later)

/-- The handshakes of a run: a request is taken only when it is accepted, an
answer stays until it is accepted, and every request gets one response. -/
structure Handshakes : Prop where
  takes : ∀ cycle,
    (run bytes inputs cache cycle).Takes bytes (inputs cycle) →
      (run bytes inputs cache cycle).accepts (inputs cycle) = true
  stays : ∀ cycle,
    (run bytes inputs cache cycle).rvalid bytes (inputs cycle) = true →
      (inputs cycle).ifuRready = false →
      (run bytes inputs cache (cycle + 1)).rvalid bytes (inputs (cycle + 1)) =
          true ∧
        (run bytes inputs cache (cycle + 1)).rdata bytes
            (inputs (cycle + 1)) =
          (run bytes inputs cache cycle).rdata bytes (inputs cycle)
  once : ∀ cycle,
    responses bytes inputs cache cycle ≤ requests bytes inputs cache cycle ∧
      requests bytes inputs cache cycle ≤
        responses bytes inputs cache cycle + 1
  answered : Fair inputs → ∀ cycle, ∃ later, cycle ≤ later ∧
    requests bytes inputs cache cycle ≤ responses bytes inputs cache later

variable {bytes inputs cache}

theorem run_follows (noFlush : ∀ cycle, (inputs cycle).flush = false) :
    ∀ cycle, Follows (run bytes inputs cache cycle) := by
  intro cycle
  induction cycle with
  | zero =>
      exact follows_reset cache
  | succ cycle inductionHypothesis =>
      exact follows_step inductionHypothesis (noFlush cycle)

/-- A run that keeps its handshakes has a client that accommodates the
cache. -/
theorem accommodates_of_handshakes
    (noFlush : ∀ cycle, (inputs cycle).flush = false)
    (handshakes : Handshakes bytes inputs cache) (cycle : Nat) :
    Accommodates bytes (inputs cycle) (run bytes inputs cache cycle) := by
  have follows : Follows (run bytes inputs cache cycle) :=
    run_follows noFlush cycle
  have asks : (run bytes inputs cache cycle).cache.refillComplete = true →
      (inputs cycle).ifuArvalid = false := by
    intro complete
    by_contra asks
    rw [Bool.not_eq_false] at asks
    have accepted := handshakes.takes cycle
      (takes_of_asks (noFlush cycle) (follows.complete complete).1 asks)
    rw [accepts_of_busy (.inr complete)] at accepted
    contradiction
  -- An answer that is lost without the client is refuted by its staying.
  have ready (lost : (inputs cycle).ifuRready = false →
      (run bytes inputs cache cycle).rvalid bytes (inputs cycle) = true ∧
        (run bytes inputs cache (cycle + 1)).rvalid bytes
          (inputs (cycle + 1)) = false) :
      (inputs cycle).ifuRready = true := by
    by_contra notReady
    rw [Bool.not_eq_true] at notReady
    obtain ⟨answers, gone⟩ := lost notReady
    rw [(handshakes.stays cycle answers notReady).1] at gone
    contradiction
  exact
    { asks := asks
      refill := fun complete => ready fun _ =>
        refill_lost follows (noFlush cycle) complete (asks complete) _
      uncached := fun uncached missR valid => ready fun _ =>
        uncached_lost follows (noFlush cycle) uncached missR valid _
      fences := fun lookup hit fence => ready fun notReady =>
        hit_lost (noFlush cycle) lookup hit fence notReady _ }

section Accommodated

variable (noFlush : ∀ cycle, (inputs cycle).flush = false)
  (accommodates : ∀ cycle,
    Accommodates bytes (inputs cycle) (run bytes inputs cache cycle))

include noFlush accommodates

/-- One request is open while the cache is busy, and none while it is
free. -/
theorem run_balance (cycle : Nat) :
    requests bytes inputs cache cycle =
      responses bytes inputs cache cycle +
        if (run bytes inputs cache cycle).Busy then 1 else 0 := by
  induction cycle with
  | zero =>
      rw [requests, responses, Nat.count_zero, Nat.count_zero]
      simp [run, Busy, ICache.reset]
  | succ cycle inductionHypothesis =>
      have follows : Follows (run bytes inputs cache cycle) :=
        run_follows noFlush cycle
      have next : run bytes inputs cache (cycle + 1) =
          (run bytes inputs cache cycle).step bytes (inputs cycle) := rfl
      rw [requests, Nat.count_succ, ← requests, responses, Nat.count_succ,
        ← responses, inductionHypothesis, next]
      by_cases busy : (run bytes inputs cache cycle).Busy
      · have after := busy_step follows (accommodates cycle) (noFlush cycle)
          busy
        rw [accepts_of_busy busy]
        cases taken : (run bytes inputs cache cycle).responds bytes
            (inputs cycle) <;> simp [after, taken, busy]
      · have after : ((run bytes inputs cache cycle).step bytes
            (inputs cycle)).Busy ↔ _ :=
          busy_step_of_free (noFlush cycle) busy
        rw [responds_of_free busy]
        cases asked : (run bytes inputs cache cycle).accepts
            (inputs cycle) <;> simp [after, asked, busy]

/-- In a fair run the cache becomes free again. -/
theorem run_free (fair : Fair inputs) (cycle : Nat) :
    ∃ later, cycle ≤ later ∧ ¬ (run bytes inputs cache later).Busy := by
  by_cases busy : (run bytes inputs cache cycle).Busy
  · exact Machine.run_leadsTo_rank Works (fun cached => ¬ cached.Busy)
      distance awaitedSignal Signal.Raised
      (fun cycle works =>
        advances works (accommodates cycle) (noFlush cycle))
      (fun awaited start _ => fair awaited start)
      ⟨run_follows noFlush cycle, busy⟩
  · exact ⟨cycle, le_rfl, busy⟩

theorem handshakes_of_accommodates : Handshakes bytes inputs cache where
  takes := by
    rintro cycle ⟨idle, lookup⟩
    rw [step_state (noFlush cycle)] at lookup
    have asks : (inputs cycle).ifuArvalid = true := by
      by_contra noAsk
      simp [ICache.nextState, idle, port, noAsk] at lookup
    rw [accepts_of_free, asks]
    rintro (working | complete)
    · exact working idle
    · simp [(accommodates cycle).asks complete] at asks
  stays := fun cycle answers notReady =>
    answer_step (accommodates cycle) (noFlush cycle) answers notReady _
  once := by
    intro cycle
    rw [run_balance noFlush accommodates cycle]
    split <;> omega
  answered := by
    intro fair cycle
    obtain ⟨later, afterwards, free⟩ :=
      run_free noFlush accommodates fair cycle
    have balance := run_balance noFlush accommodates later
    rw [if_neg free] at balance
    have more : requests bytes inputs cache cycle ≤
        requests bytes inputs cache later :=
      Nat.count_monotone _ afterwards
    exact ⟨later, afterwards, by omega⟩

end Accommodated

/-- Without flushes the cache keeps its handshakes exactly when the client
never asks beside the answer of a refill, is ready for that answer and for an
uncached one, and is ready for a hit that a `fence.i` meets. -/
theorem handshakes_iff
    (noFlush : ∀ cycle, (inputs cycle).flush = false) :
    Handshakes bytes inputs cache ↔
      ∀ cycle,
        Accommodates bytes (inputs cycle) (run bytes inputs cache cycle) :=
  ⟨accommodates_of_handshakes noFlush,
    handshakes_of_accommodates noFlush⟩

end Runs

/-! ## A client that is not ready for a refill -/

/-- A client keeps a request up until it is accepted. -/
def Obeys (bytes : Axi.Bytes) (inputs : Nat → Input) (cache : ICache params) :
    Prop :=
  ∀ cycle, (inputs cycle).ifuArvalid = true →
    (run bytes inputs cache cycle).cache.ifuArready = false →
    (inputs (cycle + 1)).ifuArvalid = true ∧
      (inputs (cycle + 1)).ifuAraddr = (inputs cycle).ifuAraddr

/-- One request, and a client that is ready in every cycle of `ready`. -/
def oneFetch (ready : Nat → Bool) (cycle : Nat) : Input where
  ifuAraddr := 0x80000000
  ifuArvalid := cycle == 0
  ifuRready := ready cycle

theorem handshakes_iff_at_oneFetch :
    Handshakes threeBlocks (oneFetch fun _ => true)
      (Core.zeroed .npc).icache := by
  refine (handshakes_iff fun _ => rfl).mpr fun cycle => ?_
  refine ⟨?_, fun _ => rfl, fun _ _ _ => rfl, fun _ _ _ => rfl⟩
  cases cycle with
  | zero =>
      intro complete
      cases complete
  | succ cycle => exact fun _ => rfl

/-- The answer of the refill is lost when the client is busy in its only
cycle. -/
theorem refillAnswer_lost :
    ¬ ∀ (params : ICacheParams) (bytes : Axi.Bytes) (inputs : Nat → Input)
        (cache : ICache params),
      (∀ cycle, (inputs cycle).flush = false) →
        Obeys bytes inputs cache → Handshakes bytes inputs cache := by
  intro always
  have handshakes := always Platform.npc.icacheParams threeBlocks
    (oneFetch (· != 5)) (Core.zeroed .npc).icache (fun _ => rfl)
    (by
      intro cycle asks notReady
      cases cycle with
      | zero => cases notReady
      | succ cycle => cases asks)
  have answers := (handshakes.stays 5 (by decide +kernel) rfl).1
  revert answers
  decide +kernel

end Cached

end Ysyx.Rtl
