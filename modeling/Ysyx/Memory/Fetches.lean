import Ysyx.Memory.Wiring
import Ysyx.Pipeline.FetchPairing

/-!
# Fetches from a memory that changes

The bursts that the cache has under way in the memory.  Which data may come
for a word changes with the stores; what the memory samples while the cache
waits is right, and so is every word that the fetch unit takes.
-/

namespace Ysyx.Rtl

namespace ICache

variable {params : ICacheParams} {cache : ICache params}
  {Right Wider : Word → Word → Prop}

theorem Sound.mono {fetch : Option Fetch} (sound : cache.Sound Right fetch)
    (wider : ∀ addr data, Right addr data → Wider addr data) :
    cache.Sound Wider fetch where
  missRegs := sound.missRegs
  fresh := sound.fresh
  fetching := sound.fetching
  filled := fun missR cacheable word below =>
    wider _ _ (sound.filled missR cacheable word below)
  victim := fun missR cacheable valid word above =>
    wider _ _ (sound.victim missR cacheable valid word above)
  lines := fun way index valid notRefilling word =>
    wider _ _ (sound.lines way index valid notRefilling word)

theorem Sound.of_fetch {fetch other : Option Fetch}
    (sound : cache.Sound Right fetch)
    (same : cache.state = .missR → other = fetch) :
    cache.Sound Right other where
  missRegs := sound.missRegs
  fresh := sound.fresh
  fetching := fun missR => by
    rw [same missR]
    exact sound.fetching missR
  filled := sound.filled
  victim := sound.victim
  lines := sound.lines

/-- A hit returns a right word. -/
theorem Sound.cacheData {fetch : Option Fetch}
    (sound : cache.Sound Right fetch) (noRefill : cache.state ≠ .missR)
    (hit : cache.cacheHit = true) :
    Right (Axi.Bytes.align cache.reqAddrReg) cache.cacheData := by
  obtain ⟨valid, tag⟩ := line_of_cacheHit hit
  have right := sound.lines _ _ valid (fun refilling => noRefill refilling.1)
    cache.reqWordIdx
  rw [WordRight, tag, reqTag, reqIndex, reqWordIdx, ICacheParams.lineAddr_of]
    at right
  exact right

/-- Beats do not matter to a cache that does not wait for them. -/
theorem next_busRvalid (other : cache.state ≠ .missR) (port : In)
    (valid : Bool) :
    cache.next { port with busRvalid := valid } = cache.next port := by
  have noBeat : ∀ port, cache.refillBeat port = false := by
    intro port
    simp [refillBeat, other]
  have sameTag : cache.nextTagArray { port with busRvalid := valid } =
      cache.nextTagArray port := by
    funext way index
    simp [nextTagArray, noBeat]
  have sameData : cache.nextDataArray { port with busRvalid := valid } =
      cache.nextDataArray port := by
    funext way index word
    simp [nextDataArray, noBeat]
  have sameValid : cache.nextValidArray { port with busRvalid := valid } =
      cache.nextValidArray port := by
    funext way index
    simp [nextValidArray, noBeat]
  have sameLru : cache.nextLruBit { port with busRvalid := valid } =
      cache.nextLruBit port := by
    funext index
    simp [nextLruBit, noBeat]
  have sameState : cache.nextState { port with busRvalid := valid } =
      cache.nextState port := by
    cases state : cache.state with
    | missR => exact absurd state other
    | idle => simp [nextState, state]
    | lookup => simp [nextState, state]
    | missAr => simp [nextState, state]
  simp only [next, sameState, sameTag, sameData, sameValid, sameLru, noBeat]

end ICache

namespace System

variable {platform : Platform}

/-- The burst that the cache waits for. -/
def fetch (system : System platform) : Option Fetch :=
  if system.core.icache.state = .missR then
    match system.core.bus.read.stateLoad with
    | .ifuReqAr =>
        some ⟨system.core.bus.read.araddrReg,
          system.core.bus.read.arlenReg, 0⟩
    | .ifuWaitR =>
        system.memory.burst.map fun burst => ⟨burst.addr, burst.len, burst.beat⟩
    | _ => none
  else none

/-- The inputs of the cache, without the beats of bursts that it does not wait
for. -/
def cachePort (choice : Axi.Choice) (system : System platform) : ICache.In :=
  let port := system.core.icachePort (system.memory.drive choice)
  { port with
    busRvalid := port.busRvalid && system.core.icache.state == .missR }

def nextFetch (choice : Axi.Choice) (system : System platform) :
    Option Fetch :=
  match system.fetch with
  | none =>
      if system.core.icache.busArvalid ∧
          (system.cachePort choice).busArready then
        some ⟨system.core.icache.busAraddr, system.core.icache.busArlen, 0⟩
      else none
  | some burst =>
      if (system.cachePort choice).busRvalid then burst.advance
      else some burst

/-- The cache in front of a memory.  The values that the memory has sampled
for the cache are right. -/
structure Fetches (Right : Word → Word → Prop) (system : System platform) :
    Prop where
  wired : ReadWired system
  sound : system.core.icache.Sound Right system.fetch
  sampled : system.core.icache.state = .missR → ∀ burst,
    system.memory.burst = some burst → ∀ index data,
      burst.sampled index = some data →
      Right (Axi.Bytes.align (burst.beatAddr index)) data

namespace Fetches

variable {system : System platform} {Right Wider : Word → Word → Prop}

theorem next_cachePort (system : System platform) (choice : Axi.Choice) :
    system.core.icache.next (system.cachePort choice) =
      (system.step choice).core.icache := by
  change _ = system.core.icache.next
    (system.core.icachePort (system.memory.drive choice))
  by_cases missR : system.core.icache.state = .missR
  · simp [cachePort, missR]
  · exact ICache.next_busRvalid missR _ _

/-- The bus works on the burst that the cache waits for. -/
theorem bus_cases (fetches : Fetches Right system)
    (missR : system.core.icache.state = .missR) :
    system.core.bus.read.stateLoad = .ifuReqAr ∧
        system.memory.burst = none ∧
        system.fetch = some ⟨system.core.bus.read.araddrReg,
          system.core.bus.read.arlenReg, 0⟩ ∨
      system.core.bus.read.stateLoad = .ifuWaitR ∧
        ∃ burst, system.memory.burst = some burst ∧
          system.fetch = some ⟨burst.addr, burst.len, burst.beat⟩ := by
  obtain ⟨burst, held, -⟩ := fetches.sound.fetching missR
  have inFlight := fetches.wired.inFlight
  cases state : system.core.bus.read.stateLoad with
  | ifuReqAr =>
      rw [state] at inFlight
      left
      refine ⟨rfl, by simpa [BusLoadState.receives] using inFlight, ?_⟩
      simp [fetch, missR, state]
  | ifuWaitR =>
      rw [state] at inFlight
      obtain ⟨inMemory, isHeld⟩ := Option.isSome_iff_exists.mp inFlight
      right
      refine ⟨rfl, inMemory, isHeld, ?_⟩
      simp [fetch, missR, state, isHeld]
  | busIdle => simp [fetch, missR, state] at held
  | lsuReqAr => simp [fetch, missR, state] at held
  | lsuWaitR => simp [fetch, missR, state] at held
  | lsuDone => simp [fetch, missR, state] at held

/-- No beat comes before the memory has accepted the burst. -/
theorem noBeat_of_asking (wired : ReadWired system) (choice : Axi.Choice)
    (asking : system.core.bus.read.stateLoad = .ifuReqAr) :
    (system.cachePort choice).busRvalid = false := by
  simp [cachePort, Core.icachePort, Bus.ifuRvalid, asking,
    wired.bus.ifuRvalid]

theorem serves (fetches : Fetches Right system) (choice : Axi.Choice) :
    Serves Right system.core.icache (system.cachePort choice) system.fetch
      (system.nextFetch choice) where
  accepts := by
    intro nothing
    have other : system.core.icache.state ≠ .missR := by
      intro missR
      obtain ⟨burst, held, -⟩ := fetches.sound.fetching missR
      rw [nothing] at held
      contradiction
    refine ⟨by simp [cachePort, other], ?_⟩
    simp only [nextFetch, nothing]
  occupied := by
    intro burst held
    have missR : system.core.icache.state = .missR := by
      by_contra other
      simp [fetch, other] at held
    simp [ICache.busArvalid, missR]
  returns := by
    intro burst held valid
    have missR : system.core.icache.state = .missR := by
      by_contra other
      simp [fetch, other] at held
    rcases fetches.bus_cases missR with ⟨asking, -⟩ |
      ⟨waiting, inMemory, isHeld, same⟩
    · rw [noBeat_of_asking fetches.wired choice asking] at valid
      contradiction
    · rw [same] at held
      cases held
      have arrives : (system.memory.drive choice).rvalid = true := by
        simpa [cachePort, Core.icachePort, Bus.ifuRvalid, waiting, missR]
          using valid
      have data : (system.cachePort choice).busRdata =
          (system.memory.drive choice).rdata := by
        simp [cachePort, Core.icachePort, Bus.ifuRdata, waiting]
      have last : (system.memory.drive choice).rlast = inMemory.isLast :=
        (Axi.Memory.drive_of_some isHeld).2
      refine ⟨last, ?_⟩
      rw [data]
      exact fetches.sampled missR inMemory isHeld _ _
        (Axi.Memory.sampled_of_rvalid isHeld arrives)
  moves := by
    intro burst held
    by_cases valid : (system.cachePort choice).busRvalid = true
    · left
      exact ⟨valid, by simp [nextFetch, held, valid]⟩
    · right
      exact ⟨fun taken => valid taken.1, by simp [nextFetch, held, valid]⟩

/-- The bus takes the request of the cache. -/
theorem fetch_of_accepted (system : System platform) (choice : Axi.Choice)
    (missAr : system.core.icache.state = .missAr)
    (accepted : system.core.bus.ifuArready system.core.lsu.lsuArvalid = true)
    (missR : (system.step choice).core.icache.state = .missR) :
    (system.step choice).fetch = system.nextFetch choice := by
  have nothing : system.fetch = none := by simp [fetch, missAr]
  have asks : system.core.icache.busArvalid = true := by
    simp [ICache.busArvalid, missAr]
  have ready : (system.cachePort choice).busArready = true := accepted
  simp only [Bus.ifuArready, Bus.busReadIdle, Bool.and_eq_true, beq_iff_eq,
    Bool.not_eq_true'] at accepted
  obtain ⟨⟨readIdle, writeIdle⟩, noLoad⟩ := accepted
  have read : (system.step choice).core.bus.read =
      { system.core.bus.read with
        araddrReg := system.core.icache.busAraddr
        arlenReg := system.core.icache.busArlen
        arvalidReg := true
        stateLoad := .ifuReqAr } := by
    change system.core.bus.nextRead platform system.core.busPort _ = _
    simp [Bus.nextRead, readIdle, writeIdle, Core.busPort, noLoad, asks]
  rw [nextFetch, nothing, fetch, if_pos missR, read]
  simp [asks, ready]

/-- The memory takes the burst, or has yet to take it. -/
theorem fetch_of_asking (wired : ReadWired system) (choice : Axi.Choice)
    (asking : system.core.bus.read.stateLoad = .ifuReqAr)
    (nothing : system.memory.burst = none)
    (before : system.core.icache.state = .missR)
    (missR : (system.step choice).core.icache.state = .missR) :
    (system.step choice).fetch = system.nextFetch choice := by
  have held : system.fetch = some ⟨system.core.bus.read.araddrReg,
      system.core.bus.read.arlenReg, 0⟩ := by
    simp [fetch, before, asking]
  have noBeat := noBeat_of_asking wired choice asking
  have asks : system.core.bus.read.arvalidReg = true := by
    rw [wired.bus.arvalid, asking]
    rfl
  have read : (system.step choice).core.bus.read =
      if (system.memory.drive choice).arready = true then
        { system.core.bus.read with
          rreadyReg := true, arvalidReg := false, stateLoad := .ifuWaitR }
      else system.core.bus.read := by
    change system.core.bus.nextRead platform system.core.busPort _ = _
    simp [Bus.nextRead, asking, asks]
  have burst : (system.step choice).memory.burst =
      if (system.memory.drive choice).arready = true then
        some (Axi.Burst.sample ⟨system.core.bus.read.araddrReg,
          system.core.bus.read.arlenReg, 0, fun _ => none⟩
          system.memory.bytes choice.sample)
      else none := by
    change system.memory.nextBurst choice system.core.bus.axiOut = _
    rw [Axi.Memory.nextBurst_of_none nothing]
    simp [Bus.axiOut, asks]
  rw [nextFetch, held, fetch, if_pos missR, read, burst]
  cases taken : (system.memory.drive choice).arready with
  | true => simp [noBeat, Axi.Burst.sample]
  | false => simp [noBeat, asking]

/-- A beat that is not the last is delivered, or none is. -/
theorem fetch_of_waiting (wired : ReadWired system) (choice : Axi.Choice)
    (waiting : system.core.bus.read.stateLoad = .ifuWaitR)
    {burst : Axi.Burst} (isHeld : system.memory.burst = some burst)
    (before : system.core.icache.state = .missR)
    (notLast : (system.memory.drive choice).rvalid = true →
      (system.memory.drive choice).rlast = false)
    (missR : (system.step choice).core.icache.state = .missR) :
    (system.step choice).fetch = system.nextFetch choice := by
  have held : system.fetch = some ⟨burst.addr, burst.len, burst.beat⟩ := by
    simp [fetch, before, waiting, isHeld]
  have valid : (system.cachePort choice).busRvalid =
      (system.memory.drive choice).rvalid := by
    simp [cachePort, Core.icachePort, Bus.ifuRvalid, waiting, before]
  have receives : system.core.bus.read.rreadyReg = true := by
    rw [wired.bus.rready, waiting]
    rfl
  have read : (system.step choice).core.bus.read = system.core.bus.read := by
    change system.core.bus.nextRead platform system.core.busPort _ = _
    simp only [Bus.nextRead, waiting]
    rw [if_neg]
    rintro ⟨-, arrives, last⟩
    rw [notLast arrives] at last
    contradiction
  have next : (system.step choice).memory.burst =
      system.memory.nextBurst choice system.core.bus.axiOut := rfl
  rw [nextFetch, held, fetch, if_pos missR, read, waiting, next,
    Axi.Memory.nextBurst_of_some isHeld]
  simp only [Bus.axiOut, receives, and_true, valid]
  cases arrives : (system.memory.drive choice).rvalid with
  | true =>
      have goesOn := notLast arrives
      have last : burst.isLast = false := by
        rw [← (Axi.Memory.drive_of_some isHeld).2, goesOn]
      have lastBeat : Fetch.isLast ⟨burst.addr, burst.len, burst.beat⟩ =
          false := last
      simp [goesOn, Fetch.advance, lastBeat, Axi.Burst.sample]
  | false => simp [Axi.Burst.sample]

theorem fetch_step (fetches : Fetches Right system) (choice : Axi.Choice)
    (missR : (system.step choice).core.icache.state = .missR) :
    (system.step choice).fetch = system.nextFetch choice := by
  have cases := (ICache.next_state_missR missR).2
  rcases cases with ⟨missAr, accepted⟩ | ⟨before, notLast⟩
  · exact fetch_of_accepted system choice missAr accepted missR
  · rcases fetches.bus_cases before with ⟨asking, nothing, -⟩ |
      ⟨waiting, burst, isHeld, -⟩
    · exact fetch_of_asking fetches.wired choice asking nothing before missR
    · refine fetch_of_waiting fetches.wired choice waiting isHeld before ?_
        missR
      intro arrives
      apply notLast
      simpa [Core.icachePort, Bus.ifuRvalid, waiting] using arrives

/-- What the memory has sampled after a cycle was sampled before, or in this
cycle. -/
theorem sampled_cases {memory : Axi.Memory} {choice : Axi.Choice}
    {out : Axi.MasterOut} {burst : Axi.Burst}
    (next : memory.nextBurst choice out = some burst) :
    ∀ index data, burst.sampled index = some data →
      data = memory.bytes.word (burst.beatAddr index) ∨
        ∃ before, memory.burst = some before ∧
          before.sampled index = some data ∧
          before.beatAddr index = burst.beatAddr index := by
  intro index data isSampled
  cases held : memory.burst with
  | none =>
      rw [Axi.Memory.nextBurst_of_none held] at next
      split_ifs at next with accepted
      cases next
      left
      simp only [Axi.Burst.sample] at isSampled ⊢
      split_ifs at isSampled
      exact (Option.some.inj isSampled).symm
  | some before =>
      rw [Axi.Memory.nextBurst_of_some held] at next
      have sampledNow :
          (before.sample memory.bytes choice.sample).sampled index =
              some data →
            data = memory.bytes.word (before.beatAddr index) ∨
              before.sampled index = some data := by
        intro isSampled
        simp only [Axi.Burst.sample] at isSampled
        split_ifs at isSampled
        · exact Or.inl (Option.some.inj isSampled).symm
        · exact Or.inr isSampled
      split_ifs at next
      · cases next
        exact (sampledNow isSampled).imp id fun old => ⟨before, rfl, old, rfl⟩
      · cases next
        exact (sampledNow isSampled).imp id fun old => ⟨before, rfl, old, rfl⟩

theorem refillBeat_cachePort (system : System platform)
    (choice : Axi.Choice) :
    system.core.icache.refillBeat (system.cachePort choice) =
      system.core.icache.refillBeat
        (system.core.icachePort (system.memory.drive choice)) := by
  simp only [ICache.refillBeat, cachePort]
  cases system.core.icache.state == .missR <;> simp

/-- The memory works for the cache only after the bus has taken the
request. -/
theorem missR_of_burst (fetches : Fetches Right system) {choice : Axi.Choice}
    {burst : Axi.Burst}
    (missR : (system.step choice).core.icache.state = .missR)
    (held : (system.step choice).memory.burst = some burst) :
    system.core.icache.state = .missR := by
  rcases (ICache.next_state_missR missR).2 with ⟨-, accepted⟩ | ⟨before, -⟩
  · have readIdle : system.core.bus.read.stateLoad = .busIdle := by
      have ready : system.core.bus.ifuArready system.core.lsu.lsuArvalid =
          true := accepted
      simp only [Bus.ifuArready, Bus.busReadIdle, Bool.and_eq_true,
        beq_iff_eq] at ready
      exact ready.1.1
    have nothing : system.memory.burst = none := by
      have inFlight := fetches.wired.inFlight
      rw [readIdle] at inFlight
      simpa [BusLoadState.receives] using inFlight
    have silent : system.core.bus.read.arvalidReg = false := by
      rw [fetches.wired.bus.arvalid, readIdle]
      rfl
    have next : (system.step choice).memory.burst =
        system.memory.nextBurst choice system.core.bus.axiOut := rfl
    rw [next, Axi.Memory.nextBurst_of_none nothing] at held
    simp [Bus.axiOut, silent] at held
  · exact before

/-- One cycle, in which what the memory holds is right if the cache waits for
it. -/
theorem step (fetches : Fetches Right system) (choice : Axi.Choice)
    (wider : ∀ addr data, Right addr data → Wider addr data)
    (now : system.core.icache.state = .missR → ∀ addr,
      Wider (Axi.Bytes.align addr) (system.memory.bytes.word addr))
    (narrow : platform.icacheParams.blockWidth ≤ 10)
    (noSkip : ¬ system.core.icache.Skips
      (system.core.icachePort (system.memory.drive choice)))
    (noCut : ¬ system.core.icache.Cuts
      (system.core.icachePort (system.memory.drive choice))) :
    Fetches Wider (system.step choice) where
  wired := fetches.wired.step choice
  sound := by
    rw [ICache.Skips, ← refillBeat_cachePort] at noSkip
    rw [ICache.Cuts, ← refillBeat_cachePort] at noCut
    have next := (fetches.sound.next (fetches.serves choice) narrow noSkip
      noCut).mono wider
    rw [next_cachePort] at next
    exact next.of_fetch fun missR => fetches.fetch_step choice missR
  sampled := by
    intro missR burst held index data isSampled
    have before := fetches.missR_of_burst missR held
    rcases sampled_cases held index data isSampled with
      rfl | ⟨old, inMemory, wasSampled, sameAddr⟩
    · exact now before _
    · rw [← sameAddr]
      exact wider _ _ (fetches.sampled before old inMemory index data
        wasSampled)

end Fetches

end System

/-! ## The fetch unit -/

namespace Fetching

variable {platform : Platform}

/-- The word that the fetch unit presents is right. -/
structure Delivers (Right : Word → Word → Prop) (fetching : Fetching platform)
    (memory : Axi.Memory) : Prop where
  fetches : System.Fetches Right ⟨fetching.core, memory⟩
  resting : fetching.core.ifu.state ≠ .waitR →
    fetching.core.icache.state = .idle
  complete : fetching.core.icache.refillComplete = true →
    fetching.core.icache.cacheHit = true
  done : fetching.core.ifu.state = .done →
    Right (Axi.Bytes.align fetching.core.ifu.pcReg)
      fetching.core.ifu.instReg

namespace Delivers

variable {fetching : Fetching platform} {memory : Axi.Memory}
  {Right Wider : Word → Word → Prop} {choice : Axi.Choice}

theorem waiting_of_missR (delivers : Delivers Right fetching memory)
    (missR : fetching.core.icache.state ≠ .idle) :
    fetching.core.ifu.state = .waitR := by
  by_contra rests
  exact missR (delivers.resting rests)

/-- The only beat of an uncached burst. -/
theorem last_of_uncached (delivers : Delivers Right fetching memory)
    (missR : fetching.core.icache.state = .missR)
    (uncached : fetching.core.icache.isCacheable = false)
    (valid : fetching.core.bus.ifuRvalid (memory.drive choice) = true) :
    (memory.drive choice).rlast = true ∧
      Right (Axi.Bytes.align fetching.core.icache.missAddrReg)
        (fetching.core.bus.ifuRdata (memory.drive choice)) := by
  obtain ⟨burst, held, addr, len, beat⟩ :=
    delivers.fetches.sound.fetching missR
  have arrives :
      (System.cachePort choice ⟨fetching.core, memory⟩).busRvalid = true := by
    simp [System.cachePort, Core.icachePort, valid, missR]
  obtain ⟨last, right⟩ :=
    (delivers.fetches.serves choice).returns burst held arrives
  simp only [ICache.busAraddr, ICache.busArlen, uncached, Bool.false_eq_true,
    if_false] at addr len beat
  constructor
  · refine last.trans ?_
    simp [Fetch.isLast, len, beat]
  · have data :
        (System.cachePort choice ⟨fetching.core, memory⟩).busRdata =
          fetching.core.bus.ifuRdata (memory.drive choice) := rfl
    rw [Fetch.beatAddr, addr, beat, data] at right
    simpa using right

/-- The word with which the cache answers is the right one for the pc. -/
theorem right_of_answered (delivers : Delivers Right fetching memory)
    (paired : Paired fetching) (waiting : fetching.core.ifu.state = .waitR)
    (answered :
      fetching.core.fetchAnswered (memory.drive choice) = true) :
    Right (Axi.Bytes.align fetching.core.ifu.pcReg)
      (fetching.core.ifuPort (memory.drive choice)).ifuRdata := by
  obtain ⟨-, reqAddr, -, missAddr⟩ := paired.waiting waiting
  rw [← reqAddr]
  rcases (paired.answered_iff _ waiting).mp answered with
    ⟨lookup, hit⟩ | ⟨missR, uncached, valid⟩ | complete
  · have right := delivers.fetches.sound.cacheData (by simp [lookup]) hit
    simpa [Core.ifuPort, ICache.ifuRdata, lookup, hit] using right
  · have right := (delivers.last_of_uncached missR uncached valid).2
    have sameAddr : fetching.core.icache.missAddrReg =
        fetching.core.icache.reqAddrReg :=
      (missAddr (by simp [missR])).trans reqAddr.symm
    rw [sameAddr] at right
    simpa [Core.ifuPort, ICache.ifuRdata, missR, uncached] using right
  · obtain ⟨idle, cacheable, -⟩ := paired.refilled complete
    have right := delivers.fetches.sound.cacheData (by simp [idle])
      (delivers.complete complete)
    simpa [Core.ifuPort, ICache.ifuRdata, idle, cacheable, complete]
      using right

/-- The cache is idle again when the fetch unit no longer waits. -/
theorem resting_step (delivers : Delivers Right fetching memory)
    (paired : Paired fetching)
    (rests : (fetching.step (memory.drive choice)).core.ifu.state ≠ .waitR) :
    (fetching.step (memory.drive choice)).core.icache.state = .idle := by
  rcases ((paired.step (memory.drive choice)).resting rests).2 with
    idle | ⟨missR, uncached⟩
  · exact idle
  · obtain ⟨noFlush, goesOn⟩ := ICache.next_state_missR missR
    have noJump : fetching.core.jumpReq = false := noFlush
    exfalso
    have waited : fetching.core.ifu.state = .waitR := by
      apply delivers.waiting_of_missR
      rcases goesOn with ⟨missAr, -⟩ | ⟨missR, -⟩
      · simp [missAr]
      · simp [missR]
    have noRedirect := paired.noFlush_of_waiting noJump (by simp [waited])
    have answered : fetching.core.fetchAnswered (memory.drive choice) =
        true := by
      rw [ifu_step _ noRedirect, waited] at rests
      by_contra notAnswered
      simp [notAnswered] at rests
    have answers := (paired.answered_iff _ waited).mp answered
    have idleOfRefilled := fun refilled => (paired.refilled refilled).1
    rcases goesOn with ⟨missAr, -⟩ | ⟨before, notLast⟩
    · simp only [missAr] at answers idleOfRefilled
      grind
    · rcases answers with ⟨lookup, -⟩ | ⟨-, noCache, valid⟩ | refilled
      · rw [before] at lookup
        contradiction
      · have last := (delivers.last_of_uncached before noCache valid).1
        have more := notLast valid
        change (memory.drive choice).rlast = false at more
        rw [last] at more
        contradiction
      · have idle := idleOfRefilled refilled
        rw [before] at idle
        contradiction

/-- The last beat of a refill leaves a line that hits. -/
theorem complete_step (delivers : Delivers Right fetching memory)
    (paired : Paired fetching)
    (noSkip : ¬ fetching.core.icache.Skips
      (fetching.core.icachePort (memory.drive choice)))
    (refilled : (fetching.step
      (memory.drive choice)).core.icache.refillComplete = true) :
    (fetching.step (memory.drive choice)).core.icache.cacheHit = true := by
  obtain ⟨beat, last⟩ : fetching.core.icache.refillBeat
        (fetching.core.icachePort (memory.drive choice)) = true ∧
      (fetching.core.icachePort (memory.drive choice)).busRlast = true := by
    simpa [Fetching.step, Core.step, ICache.next] using refilled
  have missR := (ICache.refillBeat_iff.mp beat).1
  have waiting := delivers.waiting_of_missR (by simp [missR])
  obtain ⟨-, reqAddr, -, missAddr⟩ := paired.waiting waiting
  have sameAddr : fetching.core.icache.missAddrReg =
      fetching.core.icache.reqAddrReg :=
    (missAddr (by simp [missR])).trans reqAddr.symm
  obtain ⟨index, tag⟩ := delivers.fetches.sound.missRegs (Or.inr missR)
  have written : (fetching.core.icachePort
      (memory.drive choice)).isFenceI = false := by
    simpa [ICache.Skips, beat] using noSkip
  rw [sameAddr] at index tag
  exact ICache.cacheHit_of_last beat last written index tag

theorem done_step (delivers : Delivers Right fetching memory)
    (paired : Paired fetching)
    (wider : ∀ addr data, Right addr data → Wider addr data)
    (done : (fetching.step (memory.drive choice)).core.ifu.state = .done) :
    Wider
      (Axi.Bytes.align (fetching.step (memory.drive choice)).core.ifu.pcReg)
      (fetching.step (memory.drive choice)).core.ifu.instReg := by
  have busy : (fetching.step (memory.drive choice)).core.ifu.state ≠
      .idle := by
    simp [done]
  have noFlush := noFlush_of_busy (memory.drive choice) busy
  have cases := ifu_step (memory.drive choice) noFlush
  rw [done] at cases
  rw [pcReg_step _ noFlush (by grind), instReg_step]
  apply wider
  cases taken : fetching.core.fetchTaken (memory.drive choice) with
  | true =>
      obtain ⟨waited, answered⟩ : fetching.core.ifu.state = .waitR ∧
          fetching.core.fetchAnswered (memory.drive choice) = true := by
        simp only [Core.fetchTaken] at taken
        grind
      exact delivers.right_of_answered paired waited answered
  | false =>
      have wasDone : fetching.core.ifu.state = .done := by
        simp only [Core.fetchTaken] at taken
        grind
      exact delivers.done wasDone

/-- One cycle, in which what the memory holds is right if the cache waits for
it. -/
theorem step (delivers : Delivers Right fetching memory)
    (paired : Paired fetching) (choice : Axi.Choice)
    (wider : ∀ addr data, Right addr data → Wider addr data)
    (now : fetching.core.icache.state = .missR → ∀ addr,
      Wider (Axi.Bytes.align addr) (memory.bytes.word addr))
    (noSkip : ¬ fetching.core.icache.Skips
      (fetching.core.icachePort (memory.drive choice)))
    (noCut : ¬ fetching.core.icache.Cuts
      (fetching.core.icachePort (memory.drive choice))) :
    Delivers Wider (fetching.step (memory.drive choice))
      (memory.step choice fetching.core.bus.axiOut) where
  fetches := delivers.fetches.step choice wider now
    (by change 3 ≤ 10; decide) noSkip noCut
  resting := delivers.resting_step paired
  complete := delivers.complete_step paired noSkip
  done := delivers.done_step paired wider

/-- While a `fence.i` is decoded and nothing is fetched, the cache forgets its
lines: whatever is right from then on, nothing wrong is left in it. -/
theorem cleared (delivers : Delivers Right fetching memory)
    (paired : Paired fetching) (choice : Axi.Choice)
    (idle : fetching.core.ifu.state = .idle)
    (fence : fetching.core.isFenceI = true) :
    Delivers Wider (fetching.step (memory.drive choice))
      (memory.step choice fetching.core.bus.axiOut) := by
  have cacheIdle := delivers.resting (by simp [idle])
  have silent := paired.noRequest (by simp [idle])
  have port : (fetching.core.icachePort (memory.drive choice)).isFenceI =
        true ∧
      (fetching.core.icachePort (memory.drive choice)).ifuArvalid = false :=
    ⟨fence, silent⟩
  have staysIdle :
      (fetching.step (memory.drive choice)).core.icache.state = .idle := by
    change (fetching.core.icache.next _).state = _
    simp [ICache.next, ICache.nextState, cacheIdle, port]
  have empty : ∀ way index,
      (fetching.step (memory.drive choice)).core.icache.validArray way index =
        false := by
    intro way index
    change (fetching.core.icache.next _).validArray way index = _
    simp [ICache.next, ICache.nextValidArray, port]
  refine ⟨⟨delivers.fetches.wired.step choice, ?_, ?_⟩, fun _ => staysIdle,
    ?_, ?_⟩
  · change (fetching.step (memory.drive choice)).core.icache.Sound _ _
    constructor <;> simp [staysIdle, empty]
  · intro missR
    change (fetching.step (memory.drive choice)).core.icache.state = _ at missR
    rw [staysIdle] at missR
    contradiction
  · intro refilled
    change (fetching.core.icache.next _).refillComplete = _ at refilled
    simp [ICache.next, ICache.refillBeat, cacheIdle] at refilled
  · intro done
    have busy : (fetching.step (memory.drive choice)).core.ifu.state ≠
        .idle := by
      simp [done]
    rw [ifu_step _ (noFlush_of_busy _ busy), idle] at done
    simp only at done
    split_ifs at done

end Delivers

theorem delivers_reset (Right : Word → Word → Prop) (power : Core platform)
    (bytes : Axi.Bytes) :
    Delivers Right { core := power.reset } { bytes } where
  fetches :=
    { wired := ReadWired.reset power bytes
      sound := ICache.sound_reset _
      sampled := nofun }
  resting := fun _ => rfl
  complete := nofun
  done := nofun

end Fetching

end Ysyx.Rtl
