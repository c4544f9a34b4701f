import Ysyx.Cache.Integrity
import Ysyx.Pipeline.FrontEnd

/-!
# Fetches and their answers

An observer between the fetch unit and the instruction cache.  It numbers the
redirects of the fetch, follows the request that the cache works on, and keeps
the request that the instruction of the fetch unit answers.
-/

namespace Ysyx.Rtl

/-- A request that the cache has accepted: its address, and how many redirects
were before it. -/
structure FetchRequest where
  addr : Word
  redirects : Nat
  deriving DecidableEq, Repr

/-- The core with the request outstanding at its cache, and the last answer
that the fetch unit took. -/
structure Fetching (platform : Platform) where
  core : Core platform
  redirects : Nat := 0
  outstanding : Option FetchRequest := none
  answer : Option (FetchRequest × Word) := none

namespace ICache

variable {params : ICacheParams}

/-- Nothing is asked of the cache: it is idle, or still drains an uncached
burst that was answered before its last beat. -/
def Rests (cache : ICache params) : Prop :=
  cache.state = .idle ∨ cache.state = .missR ∧ cache.isCacheable = false

theorem Rests.next {cache : ICache params} (rests : cache.Rests) {port : In}
    (noRequest : cache.state = .idle → port.ifuArvalid = false) :
    (cache.next port).Rests := by
  rcases rests with idle | ⟨missR, uncached⟩
  · left
    simp [ICache.next, nextState, idle, noRequest idle]
  · have notLookup : cache.state ≠ .lookup := by
      simp [missR]
    have sameAddr := (next_missRegs port notLookup).1
    have stays : (cache.next port).state = .idle ∨
        (cache.next port).state = .missR := by
      simp only [ICache.next, nextState, missR]
      split_ifs <;> simp
    rcases stays with idle | stuck
    · exact Or.inl idle
    · refine Or.inr ⟨stuck, ?_⟩
      rwa [isCacheable, sameAddr]

/-- The address whose word is on `ifu_rdata`. -/
def answeredAddr (cache : ICache params) : Word :=
  if (cache.state == .lookup && cache.cacheHit) ||
      (cache.isCacheable && cache.refillComplete) then
    cache.reqAddrReg
  else
    cache.missAddrReg

end ICache

namespace Core

variable {platform : Platform}

/-- The cache takes the request of the fetch unit. -/
def fetchAccepted (core : Core platform) : Bool :=
  core.icache.state == .idle && core.ifu.ifuArvalid && !core.jumpReq

/-- The cache answers a fetch unit that is ready. -/
def fetchAnswered (core : Core platform) (axi : AxiIn) : Bool :=
  core.ifu.ifuRready && (core.ifuPort axi).ifuRvalid

/-- The fetch unit takes an instruction. -/
def fetchTaken (core : Core platform) (axi : AxiIn) : Bool :=
  core.ifu.state == .waitR && core.fetchAnswered axi && !core.ifuFlushReq

end Core

namespace Fetching

variable {platform : Platform}

/-- One clock edge; a flush of both sides abandons the request. -/
def step (axi : AxiIn) (fetching : Fetching platform) : Fetching platform :=
  let core := fetching.core
  { core := core.step axi
    redirects :=
      if core.ifuFlushReq then fetching.redirects + 1 else fetching.redirects
    outstanding :=
      if core.jumpReq then none
      else if core.fetchAccepted then
        some ⟨core.ifu.pcReg, fetching.redirects⟩
      else if core.fetchAnswered axi then none
      else fetching.outstanding
    answer :=
      if core.fetchTaken axi then
        fetching.outstanding.map (·, (core.ifuPort axi).ifuRdata)
      else fetching.answer }

def run (inputs : Nat → AxiIn) (power : Core platform) (cycle : Nat) :
    Fetching platform :=
  Machine.run step inputs { core := power.reset } cycle

/-- The cache works on a request for the pc of the fetch unit. -/
structure Awaits (fetching : Fetching platform) : Prop where
  outstanding : fetching.outstanding =
    some ⟨fetching.core.ifu.pcReg, fetching.redirects⟩
  reqAddr : fetching.core.icache.reqAddrReg = fetching.core.ifu.pcReg
  refilled : fetching.core.icache.state = .idle →
    fetching.core.icache.refillComplete = true
  missAddr : fetching.core.icache.state ≠ .lookup →
    fetching.core.icache.missAddrReg = fetching.core.ifu.pcReg

/-- The fetch unit and the cache work on the same request. -/
structure Paired (fetching : Fetching platform) : Prop where
  behind : fetching.core.OneBehind
  arvalid : fetching.core.ifu.ifuArvalid =
    decide (fetching.core.ifu.state = .reqAr)
  rready : fetching.core.ifu.ifuRready =
    decide (fetching.core.ifu.state = .waitR)
  refilled : fetching.core.icache.refillComplete = true →
    fetching.core.icache.state = .idle ∧
      fetching.core.icache.isCacheable = true ∧
      (fetching.core.ifu.state = .waitR ∨ fetching.core.ifu.state = .idle)
  waiting : fetching.core.ifu.state = .waitR → fetching.Awaits
  resting : fetching.core.ifu.state ≠ .waitR →
    fetching.outstanding = none ∧ fetching.core.icache.Rests
  done : fetching.core.ifu.state = .done →
    fetching.answer = some (⟨fetching.core.ifu.pcReg, fetching.redirects⟩,
      fetching.core.ifu.instReg)

theorem paired_reset (power : Core platform) :
    Paired { core := power.reset } where
  behind := Core.oneBehind_reset power
  arvalid := rfl
  rready := rfl
  refilled := nofun
  waiting := nofun
  resting := fun _ => ⟨rfl, Or.inl rfl⟩
  done := nofun

section Step

variable {fetching : Fetching platform} (axi : AxiIn)

/-- Without a mispredict or a trap, only a RAS answer redirects the fetch, and
then the fetch unit is idle. -/
theorem Paired.idle_of_redirect (paired : Paired fetching)
    (redirect : fetching.core.ifuFlushReq = true)
    (noJump : fetching.core.jumpReq = false) :
    fetching.core.ifu.state = .idle := by
  by_contra busy
  have noHit := Core.rasHit_of_invalid (paired.behind.exclusive busy)
  simp [Core.ifuFlushReq, noJump, noHit] at redirect

theorem ifu_step (noFlush : fetching.core.ifuFlushReq = false) :
    (fetching.step axi).core.ifu.state =
      (match fetching.core.ifu.state with
      | .idle => if fetching.core.ifIdReadyOut then .reqAr else .idle
      | .reqAr =>
          if fetching.core.ifu.ifuArvalid ∧ fetching.core.icache.ifuArready
          then .waitR else .reqAr
      | .waitR => if fetching.core.fetchAnswered axi then .done else .waitR
      | .done => if fetching.core.ifIdReadyOut then .idle else .done) := by
  change (fetching.core.ifu.next (fetching.core.ifuPort axi)).state = _
  have flush : (fetching.core.ifuPort axi).flushReq = false := noFlush
  have ready : (fetching.core.ifuPort axi).nextReady =
    fetching.core.ifIdReadyOut := rfl
  have arready : (fetching.core.ifuPort axi).ifuArready =
    fetching.core.icache.ifuArready := rfl
  simp only [Ifu.next, flush, ready, arready, Core.fetchAnswered]
  cases fetching.core.ifu.state <;> simp only <;> grind

theorem instReg_step :
    (fetching.step axi).core.ifu.instReg =
      if fetching.core.fetchTaken axi then
        (fetching.core.ifuPort axi).ifuRdata
      else fetching.core.ifu.instReg := by
  change (fetching.core.ifu.next (fetching.core.ifuPort axi)).instReg = _
  have flush : (fetching.core.ifuPort axi).flushReq =
    fetching.core.ifuFlushReq := rfl
  rw [Core.fetchTaken, Core.fetchAnswered, ← flush, Ifu.next]
  cases state : fetching.core.ifu.state <;> simp only <;> split_ifs <;>
    simp_all

theorem pcReg_step (noFlush : fetching.core.ifuFlushReq = false)
    (notDone : fetching.core.ifu.state ≠ .done ∨
      fetching.core.ifIdReadyOut = false) :
    (fetching.step axi).core.ifu.pcReg = fetching.core.ifu.pcReg := by
  change (fetching.core.step axi).ifu.pcReg = _
  rw [Core.step_pcReg, noFlush]
  grind

theorem noJump_of_noFlush (noFlush : fetching.core.ifuFlushReq = false) :
    fetching.core.jumpReq = false := by
  simp only [Core.ifuFlushReq, Bool.or_eq_false_iff] at noFlush
  exact noFlush.1

theorem noFlush_of_busy
    (busy : (fetching.step axi).core.ifu.state ≠ .idle) :
    fetching.core.ifuFlushReq = false :=
  (Ifu.busy_cases busy).1

namespace Paired

theorem noRequest (paired : Paired fetching)
    (notAsking : fetching.core.ifu.state ≠ .reqAr) :
    fetching.core.ifu.ifuArvalid = false := by
  rw [paired.arvalid, decide_eq_false notAsking]

/-- The cache answers a waiting fetch unit when it hits, when it has refilled
a line, and on the beat of an uncached burst. -/
theorem answered_iff (paired : Paired fetching)
    (waiting : fetching.core.ifu.state = .waitR) :
    fetching.core.fetchAnswered axi = true ↔
      fetching.core.icache.state = .lookup ∧
          fetching.core.icache.cacheHit = true ∨
        fetching.core.icache.state = .missR ∧
          fetching.core.icache.isCacheable = false ∧
          fetching.core.bus.ifuRvalid axi = true ∨
        fetching.core.icache.refillComplete = true := by
  have refilled := paired.refilled
  simp only [Core.fetchAnswered, paired.rready, waiting, Core.ifuPort,
    ICache.ifuRvalid]
  grind

theorem arvalid_step (paired : Paired fetching) :
    (fetching.step axi).core.ifu.ifuArvalid =
        decide ((fetching.step axi).core.ifu.state = .reqAr) ∧
      (fetching.step axi).core.ifu.ifuRready =
        decide ((fetching.step axi).core.ifu.state = .waitR) := by
  have arvalid := paired.arvalid
  have rready := paired.rready
  change (fetching.core.ifu.next _).ifuArvalid =
      decide ((fetching.core.ifu.next _).state = _) ∧
    (fetching.core.ifu.next _).ifuRready =
      decide ((fetching.core.ifu.next _).state = _)
  unfold Ifu.next
  cases state : fetching.core.ifu.state <;>
    simp only [state, reduceCtorEq, decide_true, decide_false]
      at arvalid rready ⊢ <;>
    split_ifs <;> simp_all

theorem refilled_step (paired : Paired fetching)
    (refilled : (fetching.step axi).core.icache.refillComplete = true) :
    (fetching.step axi).core.icache.state = .idle ∧
      (fetching.step axi).core.icache.isCacheable = true ∧
      ((fetching.step axi).core.ifu.state = .waitR ∨
        (fetching.step axi).core.ifu.state = .idle) := by
  have last : fetching.core.icache.refillBeat
        (fetching.core.icachePort axi) = true ∧
      (fetching.core.icachePort axi).busRlast = true := by
    simpa [step, Core.step, ICache.next] using refilled
  obtain ⟨missR, valid, cacheable⟩ := ICache.refillBeat_iff.mp last.1
  have waiting : fetching.core.ifu.state = .waitR := by
    by_contra notWaiting
    rcases (paired.resting notWaiting).2 with idle | ⟨_, uncached⟩
    · rw [missR] at idle
      contradiction
    · rw [cacheable] at uncached
      contradiction
  have notAnswered : fetching.core.fetchAnswered axi = false := by
    have refilled := paired.refilled
    by_contra answered
    rw [Bool.not_eq_false, paired.answered_iff axi waiting] at answered
    grind
  refine ⟨?_, ?_, ?_⟩
  · change (fetching.core.icache.next _).state = _
    simp [ICache.next, ICache.nextState, missR, valid, last.2,
      ICache.busRready]
  · change (fetching.core.icache.next _).isCacheable = _
    rw [ICache.isCacheable, (ICache.next_missRegs _ (by simp [missR])).1]
    exact cacheable
  · cases flush : fetching.core.ifuFlushReq with
    | true =>
        right
        change (fetching.core.ifu.next _).state = _
        have flushed : (fetching.core.ifuPort axi).flushReq = true := flush
        simp [Ifu.next, flushed]
    | false =>
        left
        rw [ifu_step axi flush]
        simp [waiting, notAnswered]

/-- A fetch unit that waits has just asked, or was waiting already and has not
been answered. -/
theorem waiting_cases
    (waiting : (fetching.step axi).core.ifu.state = .waitR) :
    fetching.core.ifuFlushReq = false ∧
      (fetching.core.ifu.state = .reqAr ∧
          fetching.core.icache.state = .idle ∧
          fetching.core.icache.refillComplete = false ∨
        fetching.core.ifu.state = .waitR ∧
          fetching.core.fetchAnswered axi = false) := by
  have noFlush : fetching.core.ifuFlushReq = false :=
    noFlush_of_busy axi (by simp [waiting])
  refine ⟨noFlush, ?_⟩
  rw [ifu_step axi noFlush] at waiting
  cases state : fetching.core.ifu.state with
  | reqAr =>
      simp only [state] at waiting
      split_ifs at waiting with accepted
      left
      simpa [ICache.ifuArready] using accepted.2
  | waitR =>
      simp only [state] at waiting
      split_ifs at waiting with answered
      exact Or.inr ⟨rfl, by simpa using answered⟩
  | idle =>
      simp only [state] at waiting
      split_ifs at waiting
  | done =>
      simp only [state] at waiting
      split_ifs at waiting

theorem awaits_of_asked (paired : Paired fetching)
    (noFlush : fetching.core.ifuFlushReq = false)
    (asking : fetching.core.ifu.state = .reqAr)
    (cacheIdle : fetching.core.icache.state = .idle) :
    Awaits (fetching.step axi) := by
  have noJump := noJump_of_noFlush noFlush
  have arvalid : fetching.core.ifu.ifuArvalid = true := by
    rw [paired.arvalid, asking]
    rfl
  have samePc := pcReg_step axi noFlush (Or.inl (by simp [asking]))
  have accepted : fetching.core.fetchAccepted = true := by
    simp [Core.fetchAccepted, cacheIdle, arvalid, noJump]
  have port : (fetching.core.icachePort axi).ifuArvalid = true ∧
      (fetching.core.icachePort axi).flush = false ∧
      (fetching.core.icachePort axi).ifuAraddr =
        fetching.core.ifu.pcReg := ⟨arvalid, noJump, rfl⟩
  have looksUp : (fetching.step axi).core.icache.state = .lookup := by
    change (fetching.core.icache.next _).state = _
    simp [ICache.next, ICache.nextState, cacheIdle, port]
  refine ⟨?_, ?_, by simp [looksUp], by simp [looksUp]⟩
  · rw [samePc]
    simp [step, noJump, accepted, noFlush]
  · rw [samePc]
    change (fetching.core.icache.next _).reqAddrReg = _
    simp [ICache.next, cacheIdle, port]

theorem awaits_of_waited (paired : Paired fetching)
    (noFlush : fetching.core.ifuFlushReq = false)
    (waited : fetching.core.ifu.state = .waitR)
    (notAnswered : fetching.core.fetchAnswered axi = false) :
    Awaits (fetching.step axi) := by
  have noJump := noJump_of_noFlush noFlush
  obtain ⟨outstanding, sameAddr, refilled, sameMiss⟩ := paired.waiting waited
  have silent := paired.noRequest (by simp [waited])
  have noHit : ¬ _ := fun answers =>
    Bool.false_ne_true
      (notAnswered.symm.trans ((paired.answered_iff axi waited).mpr answers))
  have samePc := pcReg_step axi noFlush (Or.inl (by simp [waited]))
  have port : (fetching.core.icachePort axi).ifuArvalid = false ∧
      (fetching.core.icachePort axi).flush = false ∧
      (fetching.core.icachePort axi).busRvalid =
        fetching.core.bus.ifuRvalid axi := ⟨silent, noJump, rfl⟩
  have notIdle : fetching.core.icache.state ≠ .idle :=
    fun idle => noHit (Or.inr (Or.inr (refilled idle)))
  refine ⟨?_, ?_, ?_, ?_⟩
  · rw [samePc]
    simp [step, noJump, Core.fetchAccepted, silent, notAnswered, outstanding,
      noFlush]
  · rw [samePc, ← sameAddr]
    change (fetching.core.icache.next _).reqAddrReg = _
    simp [ICache.next, port]
  · intro idle
    change (fetching.core.icache.next _).state = _ at idle
    change (fetching.core.icache.next _).refillComplete = _
    cases state : fetching.core.icache.state <;>
      simp only [ICache.next, ICache.nextState, ICache.refillBeat,
        ICache.busRready, port, state] at idle notIdle noHit ⊢ <;>
      grind
  · intro _
    rw [samePc]
    change (fetching.core.icache.next _).missAddrReg = _
    simp only [ICache.next]
    grind

theorem noFlush_of_waiting (paired : Paired fetching)
    (noJump : fetching.core.jumpReq = false)
    (busy : fetching.core.ifu.state ≠ .idle) :
    fetching.core.ifuFlushReq = false := by
  by_contra redirect
  rw [Bool.not_eq_false] at redirect
  exact busy (paired.idle_of_redirect redirect noJump)

theorem answered_of_leaving (paired : Paired fetching)
    (noJump : fetching.core.jumpReq = false)
    (waited : fetching.core.ifu.state = .waitR)
    (leaves : (fetching.step axi).core.ifu.state ≠ .waitR) :
    fetching.core.fetchAnswered axi = true := by
  have noFlush := paired.noFlush_of_waiting noJump (by simp [waited])
  rw [ifu_step axi noFlush, waited] at leaves
  grind

theorem resting_of_answered (paired : Paired fetching)
    (noJump : fetching.core.jumpReq = false)
    (waited : fetching.core.ifu.state = .waitR)
    (answered : fetching.core.fetchAnswered axi = true) :
    (fetching.step axi).outstanding = none ∧
      (fetching.step axi).core.icache.Rests := by
  have silent := paired.noRequest (by simp [waited])
  have idleOfRefilled := fun refilled => (paired.refilled refilled).1
  have rready : fetching.core.ifu.ifuRready = true := by
    rw [paired.rready, waited]
    rfl
  refine ⟨by simp [step, noJump, Core.fetchAccepted, silent, answered], ?_⟩
  rcases (paired.answered_iff axi waited).mp answered with
    ⟨looksUp, hit⟩ | ⟨missR, uncached, _⟩ | refilled
  · left
    change (fetching.core.icache.next _).state = _
    have ready : (fetching.core.icachePort axi).ifuRready = true := rready
    simp [ICache.next, ICache.nextState, looksUp, hit, ready]
  · exact ICache.Rests.next (Or.inr ⟨missR, uncached⟩) (by simp [missR])
  · exact ICache.Rests.next (Or.inl (idleOfRefilled refilled))
      fun _ => silent

theorem resting_of_rested (paired : Paired fetching)
    (noJump : fetching.core.jumpReq = false)
    (rested : fetching.core.ifu.state ≠ .waitR)
    (rests : (fetching.step axi).core.ifu.state ≠ .waitR) :
    (fetching.step axi).outstanding = none ∧
      (fetching.step axi).core.icache.Rests := by
  obtain ⟨none, cacheRests⟩ := paired.resting rested
  -- a fetch unit that asks an idle cache waits in the next cycle
  have noRequest : fetching.core.icache.state = .idle →
      fetching.core.ifu.ifuArvalid = false := by
    intro cacheIdle
    by_cases asking : fetching.core.ifu.state = .reqAr
    · have noFlush := paired.noFlush_of_waiting noJump (by simp [asking])
      have arvalid := paired.arvalid
      have refilled := paired.refilled
      rw [ifu_step axi noFlush, asking] at rests
      simp only [ICache.ifuArready] at rests
      grind
    · exact paired.noRequest asking
  refine ⟨?_, cacheRests.next noRequest⟩
  have notAccepted : fetching.core.fetchAccepted = false := by
    simp only [Core.fetchAccepted]
    grind
  simp [step, noJump, notAccepted, none]

end Paired

theorem Paired.step (paired : Paired fetching) :
    Paired (fetching.step axi) where
  behind := Core.oneBehind_step axi _ paired.behind
  arvalid := (paired.arvalid_step axi).1
  rready := (paired.arvalid_step axi).2
  refilled := paired.refilled_step axi
  waiting waiting := by
    obtain ⟨noFlush, ⟨asking, cacheIdle, _⟩ | ⟨waited, notAnswered⟩⟩ :=
      waiting_cases axi waiting
    · exact paired.awaits_of_asked axi noFlush asking cacheIdle
    · exact paired.awaits_of_waited axi noFlush waited notAnswered
  resting := by
    intro rests
    cases noJump : fetching.core.jumpReq with
    | true =>
        exact ⟨by simp [Fetching.step, noJump],
          Or.inl (Core.frontEmpty_of_jump axi noJump).icache⟩
    | false =>
        by_cases waited : fetching.core.ifu.state = .waitR
        · exact paired.resting_of_answered axi noJump waited
            (paired.answered_of_leaving axi noJump waited rests)
        · exact paired.resting_of_rested axi noJump waited rests
  done := by
    intro done
    have busy : (fetching.step axi).core.ifu.state ≠ .idle := by
      simp [done]
    have noFlush := noFlush_of_busy axi busy
    have cases := ifu_step axi noFlush
    rw [done] at cases
    have samePc := pcReg_step axi noFlush (by grind)
    have sameCount : (fetching.step axi).redirects = fetching.redirects := by
      simp [Fetching.step, noFlush]
    rw [samePc, sameCount, instReg_step]
    change (if fetching.core.fetchTaken axi then _ else _) = _
    cases taken : fetching.core.fetchTaken axi with
    | true =>
        have waited : fetching.core.ifu.state = .waitR := by
          simp only [Core.fetchTaken] at taken
          grind
        simp [(paired.waiting waited).outstanding]
    | false =>
        have wasDone : fetching.core.ifu.state = .done := by
          simp only [Core.fetchTaken] at taken
          grind
        simpa using paired.done wasDone

/-- The answer that is taken is the word at the address of the outstanding
request. -/
theorem Paired.answeredAddr_eq (paired : Paired fetching)
    (taken : fetching.core.fetchTaken axi = true) :
    fetching.outstanding =
      some ⟨fetching.core.icache.answeredAddr, fetching.redirects⟩ := by
  have refilled := paired.refilled
  obtain ⟨waited, answered⟩ : fetching.core.ifu.state = .waitR ∧
      fetching.core.fetchAnswered axi = true := by
    simp only [Core.fetchTaken] at taken
    grind
  obtain ⟨outstanding, reqAddr, -, missAddr⟩ := paired.waiting waited
  rw [paired.answered_iff axi waited] at answered
  have sameAddr : fetching.core.icache.answeredAddr =
      fetching.core.ifu.pcReg := by
    simp only [ICache.answeredAddr]
    grind
  rw [sameAddr, outstanding]

/-- The pc moves under an outstanding request only where both sides drop
it. -/
theorem Paired.abandoned_of_moved (paired : Paired fetching)
    {request : FetchRequest}
    (outstanding : fetching.outstanding = some request)
    (moved : (fetching.step axi).core.ifu.pcReg ≠
      fetching.core.ifu.pcReg) :
    (fetching.step axi).outstanding = none ∧
      (fetching.step axi).core.ifu.state = .idle ∧
      (fetching.step axi).core.icache.state = .idle := by
  have waited : fetching.core.ifu.state = .waitR := by
    by_contra rested
    rw [(paired.resting rested).1] at outstanding
    contradiction
  have jump : fetching.core.jumpReq = true := by
    by_contra noJump
    have noFlush := paired.noFlush_of_waiting
      (Bool.eq_false_iff.mpr noJump) (by simp [waited])
    exact moved (pcReg_step axi noFlush (Or.inl (by simp [waited])))
  have empty := Core.frontEmpty_of_jump axi (by simpa using jump)
  exact ⟨by simp [Fetching.step, jump], empty.ifu, empty.icache⟩

end Step

theorem run_paired (inputs : Nat → AxiIn) (power : Core platform)
    (cycle : Nat) : Paired (run inputs power cycle) :=
  Machine.run_invariant (paired_reset power)
    (fun axi _ paired => paired.step axi) cycle

/-- In every run, whatever redirects the fetch and however late the bus is:
the instruction that the fetch unit presents answers a request for the pc
presented, made after the last redirect; an answer is the word at the address
of its request; and the pc moves under a request only where both sides drop
it. -/
theorem run_answers (inputs : Nat → AxiIn) (power : Core platform)
    (cycle : Nat) :
    let fetching := run inputs power cycle
    let next := run inputs power (cycle + 1)
    (fetching.core.ifu.outValid = true →
        fetching.answer =
          some (⟨fetching.core.ifu.pcReg, fetching.redirects⟩,
            fetching.core.ifu.instReg)) ∧
      (fetching.core.fetchTaken (inputs cycle) = true →
        fetching.outstanding =
          some ⟨fetching.core.icache.answeredAddr, fetching.redirects⟩) ∧
      ∀ request, fetching.outstanding = some request →
        next.core.ifu.pcReg ≠ fetching.core.ifu.pcReg →
        next.outstanding = none ∧ next.core.ifu.state = .idle ∧
          next.core.icache.state = .idle := by
  intro fetching next
  have paired := run_paired inputs power cycle
  refine ⟨?_, paired.answeredAddr_eq _, fun request outstanding moved =>
    paired.abandoned_of_moved (inputs cycle) outstanding moved⟩
  intro valid
  apply paired.done
  change (run inputs power cycle).core.ifu.outValid = true at valid
  simpa [paired.behind.outValid] using valid

theorem run_core (inputs : Nat → AxiIn) (power : Core platform)
    (cycle : Nat) :
    (run inputs power cycle).core = power.reset.run inputs cycle :=
  Machine.run_view Fetching.core (fun _ _ => rfl) cycle

end Fetching

end Ysyx.Rtl
