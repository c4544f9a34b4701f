import Ysyx.Cache.Integrity
import Ysyx.Rtl.System

/-!
# The cache under flush

Runs of the instruction cache on a constant memory, with arbitrary requests,
bus delays and flushes.
-/

namespace Ysyx.Rtl

/-- The cache and the burst that the bus has under way for it. -/
structure Cached (params : ICacheParams) where
  cache : ICache params
  fetch : Option Fetch

namespace Cached

/-- What the surroundings of the cache choose in one cycle. -/
structure Input where
  ifuAraddr : Word := 0
  ifuArvalid : Bool := false
  ifuRready : Bool := true
  flush : Bool := false
  isFenceI : Bool := false
  arready : Bool := true
  rvalid : Bool := true
  /-- A beat that the cache does not take is dropped. -/
  drain : Bool := true
  deriving DecidableEq, Repr

variable {params : ICacheParams}

/-- The cache inputs: requests as chosen, and the next beat of the burst. -/
def port (bytes : Axi.Bytes) (input : Input) (cached : Cached params) :
    ICache.In where
  ifuAraddr := input.ifuAraddr
  ifuArvalid := input.ifuArvalid
  ifuRready := input.ifuRready
  busArready := input.arready && cached.fetch.isNone
  busRdata :=
    (cached.fetch.map fun burst => bytes.word burst.beatAddr).getD 0
  busRlast := (cached.fetch.map Fetch.isLast).getD false
  busRvalid := input.rvalid && cached.fetch.isSome
  flush := input.flush
  isFenceI := input.isFenceI

/-- `ifu_rvalid`. -/
def rvalid (bytes : Axi.Bytes) (input : Input) (cached : Cached params) :
    Bool :=
  cached.cache.ifuRvalid (cached.port bytes input).busRvalid

/-- `ifu_rdata`. -/
def rdata (bytes : Axi.Bytes) (input : Input) (cached : Cached params) :
    Word :=
  cached.cache.ifuRdata (cached.port bytes input).busRdata

/-- The cache answers in the lookup of a hit, in the beat of an uncached
burst and in the cycle after a refill. -/
theorem rvalid_iff {bytes : Axi.Bytes} {input : Input}
    {cached : Cached params} :
    cached.rvalid bytes input = true ↔
      cached.cache.state = .lookup ∧ cached.cache.cacheHit = true ∨
      cached.cache.isCacheable = false ∧ cached.cache.state = .missR ∧
        (cached.port bytes input).busRvalid = true ∨
      cached.cache.isCacheable = true ∧
        cached.cache.refillComplete = true := by
  simp only [rvalid, ICache.ifuRvalid, Bool.or_eq_true, Bool.and_eq_true,
    beq_iff_eq, Bool.not_eq_true']
  tauto

/-- The burst after one cycle. -/
def nextFetch (input : Input) (cached : Cached params) : Option Fetch :=
  match cached.fetch with
  | none =>
      if cached.cache.busArvalid ∧ input.arready then
        some ⟨cached.cache.busAraddr, cached.cache.busArlen, 0⟩
      else none
  | some burst =>
      if input.rvalid ∧ (cached.cache.busRready ∨ input.drain) then
        burst.advance
      else some burst

/-- One clock edge. -/
def step (bytes : Axi.Bytes) (input : Input) (cached : Cached params) :
    Cached params where
  cache := cached.cache.next (cached.port bytes input)
  fetch := cached.nextFetch input

/-- The state after `cycle` cycles out of reset. -/
def run (bytes : Axi.Bytes) (inputs : Nat → Input) (cache : ICache params)
    (cycle : Nat) : Cached params :=
  Machine.run (step bytes) inputs ⟨cache.reset, none⟩ cycle

/-- The memory word of an address is what the bus returns for it. -/
def MemoryWord (bytes : Axi.Bytes) (addr data : Word) : Prop :=
  data = bytes.word addr

/-- The bus of the model serves bursts one at a time and in order. -/
theorem serves (bytes : Axi.Bytes) (input : Input) (cached : Cached params) :
    Serves (MemoryWord bytes) cached.cache (cached.port bytes input)
      cached.fetch (cached.nextFetch input) where
  accepts := by
    intro idle
    simp [port, nextFetch, idle]
  occupied := by
    intro burst inFlight
    simp [port, inFlight]
  returns := by
    intro burst inFlight valid
    refine ⟨by simp [port, inFlight], ?_⟩
    rw [MemoryWord, Axi.Bytes.word_align]
    simp [port, inFlight]
  moves := by
    intro burst inFlight
    simp only [port, nextFetch, inFlight]
    by_cases taken : input.rvalid ∧ (cached.cache.busRready ∨ input.drain)
    · left
      simp [taken]
    · right
      simp only [taken, if_false, and_true]
      simp_all

/-! ## Integrity -/

/-- Every valid line holds the memory block that its tag and index name. -/
def LineIntegrity (bytes : Axi.Bytes) (cached : Cached params) : Prop :=
  ∀ way index, cached.cache.validArray way index = true →
    ∀ word, cached.cache.dataArray way index word =
      bytes.word
        (params.lineAddr (cached.cache.tagArray way index) index word)

/-- A hit is answered with the memory word of the requested address. -/
def HitsRight (bytes : Axi.Bytes) (cached : Cached params) : Prop :=
  cached.cache.state = .lookup → cached.cache.cacheHit = true →
    ∀ busRdata, cached.cache.ifuRdata busRdata =
      bytes.word cached.cache.reqAddrReg

/-- A refill beat that is not the last changes a word of a line that is still
valid. -/
def Overwrites (bytes : Axi.Bytes) (input : Input)
    (cached : Cached params) : Prop :=
  let port := cached.port bytes input
  cached.cache.refillBeat port = true ∧ port.busRlast = false ∧
    port.isFenceI = false ∧
    cached.cache.validArray cached.cache.missWayReg
      cached.cache.missIndexReg = true ∧
    cached.cache.dataArray cached.cache.missWayReg
      cached.cache.missIndexReg cached.cache.refillCnt ≠ port.busRdata

/-- A flush cuts a refill in the middle of a line that is still valid. -/
def Cuts (bytes : Axi.Bytes) (input : Input) (cached : Cached params) : Prop :=
  cached.cache.Cuts (cached.port bytes input)

/-- A `fence.i` suppresses the write of a refill beat. -/
def Skips (bytes : Axi.Bytes) (input : Input) (cached : Cached params) : Prop :=
  cached.cache.Skips (cached.port bytes input)

section Step

variable {bytes : Axi.Bytes} {input : Input} {cached : Cached params}

/-- An overwritten word belongs to a valid line with the wrong block. -/
theorem not_lineIntegrity_of_overwrites
    (overwrites : cached.Overwrites bytes input)
    (integrity : cached.LineIntegrity bytes) :
    ¬ (cached.step bytes input).LineIntegrity bytes := by
  obtain ⟨beat, notLast, written, valid, changed⟩ := overwrites
  obtain ⟨data, tag, stillValid⟩ := ICache.next_line_of_beat beat written
  simp only [notLast, Bool.false_eq_true, if_false] at tag stillValid
  intro after
  have newWord := after cached.cache.missWayReg cached.cache.missIndexReg
    (stillValid.trans valid) cached.cache.refillCnt
  have oldWord := integrity cached.cache.missWayReg
    cached.cache.missIndexReg valid cached.cache.refillCnt
  refine changed (oldWord.trans ?_)
  simp only [step] at newWord
  rw [data, if_pos rfl, tag] at newWord
  exact newWord.symm

/-- Without overwriting, every line keeps its integrity through a beat. -/
theorem lineIntegrity_step
    (sound : cached.cache.Sound (MemoryWord bytes) cached.fetch)
    (narrow : params.blockWidth ≤ 10) (noSkip : ¬ cached.Skips bytes input)
    (noOverwrite : ¬ cached.Overwrites bytes input)
    (integrity : cached.LineIntegrity bytes) :
    (cached.step bytes input).LineIntegrity bytes := by
  intro way index valid word
  by_cases other : cached.cache.refillBeat (cached.port bytes input) = true →
      ¬ (way = cached.cache.missWayReg ∧ index = cached.cache.missIndexReg)
  · obtain ⟨data, tag, stillValid⟩ := ICache.next_line_other way index other
    have before : cached.cache.WordRight (MemoryWord bytes) way index word :=
      integrity way index (stillValid valid) word
    exact before.of_kept (congrFun data word) tag
  · simp only [not_forall, not_not] at other
    obtain ⟨beat, rfl, rfl⟩ := other
    have written : (cached.port bytes input).isFenceI = false := by
      simpa [Skips, ICache.Skips, beat] using noSkip
    cases last : (cached.port bytes input).busRlast with
    | true =>
        exact sound.line_of_last (cached.serves bytes input) narrow written
          beat last word
    | false =>
        obtain ⟨data, tag, sameValid⟩ := ICache.next_line_of_beat beat written
        simp only [last, Bool.false_eq_true, if_false] at tag sameValid
        have oldWord := integrity _ _ (sameValid.symm.trans valid) word
        simp only [step]
        rw [data word, tag, ← oldWord]
        by_cases current : word = cached.cache.refillCnt
        · rw [if_pos current, current]
          by_contra changed
          exact noOverwrite ⟨beat, last, written, sameValid.symm.trans valid,
            fun same => changed same.symm⟩
        · rw [if_neg current]

theorem lineIntegrity_of_sound
    (sound : cached.cache.Sound (MemoryWord bytes) cached.fetch)
    (noRefill : cached.cache.state ≠ .missR) :
    cached.LineIntegrity bytes := fun way index valid word =>
  sound.lines way index valid (fun refilling => noRefill refilling.1) word

theorem cacheData_of_sound
    (sound : cached.cache.Sound (MemoryWord bytes) cached.fetch)
    (noRefill : cached.cache.state ≠ .missR)
    (hit : cached.cache.cacheHit = true) :
    cached.cache.cacheData = bytes.word cached.cache.reqAddrReg := by
  have integrity := lineIntegrity_of_sound sound noRefill
  obtain ⟨valid, tag⟩ := ICache.line_of_cacheHit hit
  have right := integrity _ _ valid cached.cache.reqWordIdx
  rw [tag, ICache.reqTag, ICache.reqIndex, ICache.reqWordIdx,
    ICacheParams.lineAddr_of, Axi.Bytes.word_align] at right
  exact right

theorem hitsRight_of_sound
    (sound : cached.cache.Sound (MemoryWord bytes) cached.fetch) :
    cached.HitsRight bytes := by
  intro lookup hit busRdata
  rw [ICache.ifuRdata, if_pos (by simp [lookup, hit])]
  exact cacheData_of_sound sound (by simp [lookup]) hit

end Step

/-! ## Runs -/

section Runs

variable {bytes : Axi.Bytes} {inputs : Nat → Input} {cache : ICache params}

theorem run_sound (narrow : params.blockWidth ≤ 10)
    (noSkip : ∀ cycle,
      ¬ (run bytes inputs cache cycle).Skips bytes (inputs cycle))
    (noCut : ∀ cycle,
      ¬ (run bytes inputs cache cycle).Cuts bytes (inputs cycle)) :
    ∀ cycle, (run bytes inputs cache cycle).cache.Sound (MemoryWord bytes)
      (run bytes inputs cache cycle).fetch := by
  intro cycle
  induction cycle with
  | zero =>
      exact cache.sound_reset
  | succ cycle inductionHypothesis =>
      exact inductionHypothesis.next (serves bytes (inputs cycle) _) narrow
        (noSkip cycle) (noCut cycle)

/-- Without overwritten lines every line is right at every moment, flushes or
not. -/
theorem run_lineIntegrity (narrow : params.blockWidth ≤ 10)
    (noSkip : ∀ cycle,
      ¬ (run bytes inputs cache cycle).Skips bytes (inputs cycle))
    (noOverwrite : ∀ cycle,
      ¬ (run bytes inputs cache cycle).Overwrites bytes (inputs cycle)) :
    ∀ cycle, (run bytes inputs cache cycle).LineIntegrity bytes ∧
      (run bytes inputs cache cycle).cache.Sound (MemoryWord bytes)
        (run bytes inputs cache cycle).fetch := by
  intro cycle
  induction cycle with
  | zero =>
      refine ⟨fun _ _ valid => ?_, cache.sound_reset⟩
      simp [run, ICache.reset] at valid
  | succ cycle inductionHypothesis =>
      obtain ⟨integrity, sound⟩ := inductionHypothesis
      have after := lineIntegrity_step sound narrow (noSkip cycle)
        (noOverwrite cycle) integrity
      refine ⟨after, ?_⟩
      exact sound.next_of_ended (serves bytes (inputs cycle) _) narrow
        (noSkip cycle) fun way index _ _ valid word =>
          after way index valid word

/-- Every valid line is right in every state exactly when no refill ever
overwrites a line that is still valid; and when no flush cuts such a refill,
lines are right whenever no refill is running, and every hit is. -/
theorem lineIntegrity_under_flush (narrow : params.blockWidth ≤ 10)
    (noSkip : ∀ cycle,
      ¬ (run bytes inputs cache cycle).Skips bytes (inputs cycle)) :
    ((∀ cycle, (run bytes inputs cache cycle).LineIntegrity bytes) ↔
      ∀ cycle,
        ¬ (run bytes inputs cache cycle).Overwrites bytes (inputs cycle)) ∧
    ((∀ cycle, ¬ (run bytes inputs cache cycle).Cuts bytes (inputs cycle)) →
      ∀ cycle, (run bytes inputs cache cycle).HitsRight bytes ∧
        ((run bytes inputs cache cycle).cache.state ≠ .missR →
          (run bytes inputs cache cycle).LineIntegrity bytes)) := by
  refine ⟨⟨?_, ?_⟩, ?_⟩
  · intro integrity cycle overwrites
    exact not_lineIntegrity_of_overwrites overwrites (integrity cycle)
      (integrity (cycle + 1))
  · intro noOverwrite cycle
    exact (run_lineIntegrity narrow noSkip noOverwrite cycle).1
  · intro noCut cycle
    have sound := run_sound narrow noSkip noCut cycle
    exact ⟨hitsRight_of_sound sound, lineIntegrity_of_sound sound⟩

end Runs

/-! ## A cut refill -/

/-- Three blocks of one set. -/
def threeBlocks : Axi.Bytes :=
  .ofWords [(0x80000000, 11), (0x80000004, 12), (0x80000080, 21),
    (0x80000084, 22), (0x80000100, 31), (0x80000104, 32)]

/-- Fetch the three blocks in turn; the refill of the third is flushed with
its first beat, and the first is fetched again. -/
def cutRefill : Nat → Input
  | 0 => { ifuAraddr := 0x80000000, ifuArvalid := true }
  | 6 => { ifuAraddr := 0x80000080, ifuArvalid := true }
  | 12 => { ifuAraddr := 0x80000100, ifuArvalid := true }
  | 15 => { flush := true }
  | 16 => { ifuAraddr := 0x80000000, ifuArvalid := true }
  | _ => {}

/-- The run of `cutRefill`, on the cache of the `CONFIG_SYS_NPC` core. -/
def cutRun (cycle : Nat) : Cached Platform.npc.icacheParams :=
  run threeBlocks cutRefill (Core.zeroed .npc).icache cycle

theorem cutRefill_noFence (cycle : Nat) :
    (cutRefill cycle).isFenceI = false := by
  unfold cutRefill
  split <;> rfl

theorem lineIntegrity_under_flush_at_cutRefill :
    (∀ cycle, (cutRun cycle).LineIntegrity threeBlocks) ↔
      ∀ cycle, ¬ (cutRun cycle).Overwrites threeBlocks (cutRefill cycle) :=
  (lineIntegrity_under_flush (by decide) fun cycle skips =>
    Bool.false_ne_true ((cutRefill_noFence cycle).symm.trans skips.1)).1

/-- The first block is still valid, but starts with a word of the third, and
a hit returns it. -/
theorem cutRun_returnsWrongWord :
    (cutRun 16).cache.state = .idle ∧
      ¬ (cutRun 16).LineIntegrity threeBlocks ∧
      (cutRun 17).cache.state = .lookup ∧
      (cutRun 17).cache.cacheHit = true ∧
      (cutRun 17).cache.reqAddrReg = 0x80000000 ∧
      (cutRun 17).cache.ifuRdata 0 = 31 ∧
      threeBlocks.word 0x80000000 = 11 := by
  refine ⟨by decide +kernel, ?_, by decide +kernel, by decide +kernel,
    by decide +kernel, by decide +kernel, by decide +kernel⟩
  intro integrity
  have line := integrity false 0 (by decide +kernel) 0
  revert line
  decide +kernel

end Cached

end Ysyx.Rtl
