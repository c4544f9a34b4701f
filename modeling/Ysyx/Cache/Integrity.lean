import Ysyx.Cache.Lines
import Ysyx.Lib.Machine

/-!
# Line integrity

What a refill leaves in the arrays of the instruction cache, beat by beat, and
when a flush leaves a line with the words of two blocks.
-/

namespace Ysyx.Rtl

namespace ICache

variable {params : ICacheParams} {cache : ICache params} {port : In}
  {fetch nextFetch : Option Fetch} {Right : Word → Word → Prop}

/-! ## One clock edge -/

theorem next_state_missAr (missAr : (cache.next port).state = .missAr) :
    port.flush = false ∧
      (cache.state = .lookup ∧ cache.cacheHit = false ∨
        cache.state = .missAr) := by
  unfold next nextState at missAr
  cases flush : port.flush <;> cases state : cache.state <;> grind

theorem next_state_missR (missR : (cache.next port).state = .missR) :
    port.flush = false ∧
      (cache.state = .missAr ∧ port.busArready = true ∨
        cache.state = .missR ∧
          (port.busRvalid = true → port.busRlast = false)) := by
  unfold next nextState busRready at missR
  cases flush : port.flush <;> cases state : cache.state <;> grind

theorem next_missRegs (port : In) (notLookup : cache.state ≠ .lookup) :
    (cache.next port).missAddrReg = cache.missAddrReg ∧
      (cache.next port).missIndexReg = cache.missIndexReg ∧
      (cache.next port).missTagReg = cache.missTagReg ∧
      (cache.next port).missWayReg = cache.missWayReg := by
  simp [next, notLookup]

theorem refillBeat_iff :
    cache.refillBeat port = true ↔
      cache.state = .missR ∧ port.busRvalid = true ∧
        cache.isCacheable = true := by
  simp only [refillBeat, busRready, Bool.and_eq_true, beq_iff_eq]
  tauto

theorem line_of_cacheHit (hit : cache.cacheHit = true) :
    cache.validArray (cache.hitWay true) cache.reqIndex = true ∧
      cache.tagArray (cache.hitWay true) cache.reqIndex = cache.reqTag := by
  have hitting : cache.hitWay (cache.hitWay true) = true := by
    cases way1 : cache.hitWay true with
    | true => exact way1
    | false => simpa [cacheHit, way1] using hit
  generalize cache.hitWay true = way at hitting ⊢
  simpa [hitWay] using hitting

/-! ## Invariant -/

/-- The line that a refill is filling. -/
def Refilling (cache : ICache params) (way : Bool)
    (index : BitVec params.indexWidth) : Prop :=
  cache.state = .missR ∧ cache.isCacheable = true ∧
    way = cache.missWayReg ∧ index = cache.missIndexReg

/-- A word of a line is the one that the tag of the line names. -/
def WordRight (Right : Word → Word → Prop) (cache : ICache params)
    (way : Bool) (index : BitVec params.indexWidth)
    (word : BitVec params.wordWidth) : Prop :=
  Right (params.lineAddr (cache.tagArray way index) index word)
    (cache.dataArray way index word)

/-- A cache and the burst it has under way.  The line under refill holds the
new block below `refill_cnt` and, while it is still valid, the old one from
there on; every other valid line holds its block. -/
structure Sound (Right : Word → Word → Prop) (cache : ICache params)
    (fetch : Option Fetch) : Prop where
  missRegs : cache.state = .missAr ∨ cache.state = .missR →
    cache.missIndexReg = params.indexOf cache.missAddrReg ∧
      cache.missTagReg = params.tagOf cache.missAddrReg
  fresh : cache.state = .missAr → cache.refillCnt = 0
  fetching : cache.state = .missR → ∃ burst, fetch = some burst ∧
    burst.addr = cache.busAraddr ∧ burst.len = cache.busArlen ∧
      burst.beat = if cache.isCacheable then cache.refillCnt.toNat else 0
  filled : cache.state = .missR → cache.isCacheable = true →
    ∀ word, word < cache.refillCnt →
      Right (params.lineAddr cache.missTagReg cache.missIndexReg word)
        (cache.dataArray cache.missWayReg cache.missIndexReg word)
  victim : cache.state = .missR → cache.isCacheable = true →
    cache.validArray cache.missWayReg cache.missIndexReg = true →
    ∀ word, cache.refillCnt ≤ word →
      cache.WordRight Right cache.missWayReg cache.missIndexReg word
  lines : ∀ way index, cache.validArray way index = true →
    ¬ cache.Refilling way index →
    ∀ word, cache.WordRight Right way index word

/-- A flush cuts a refill that has written into a line that is still valid,
or is just writing into it. -/
def Cuts (cache : ICache params) (port : In) : Prop :=
  port.flush = true ∧ cache.state = .missR ∧ cache.isCacheable = true ∧
    cache.validArray cache.missWayReg cache.missIndexReg = true ∧
    (cache.refillBeat port = true ∧ port.busRlast = false ∨
      cache.refillBeat port = false ∧ cache.refillCnt ≠ 0)

/-- A `fence.i` suppresses the write of a refill beat. -/
def Skips (cache : ICache params) (port : In) : Prop :=
  port.isFenceI = true ∧ cache.refillBeat port = true

/-! ### Beats -/

theorem align_lineAddr (tag : BitVec params.tagWidth)
    (index : BitVec params.indexWidth) (word : BitVec params.wordWidth) :
    Axi.Bytes.align (params.lineAddr tag index word) =
      params.lineAddr tag index word := by
  have block := params.four_mul_wordsPerLine
  have multiple :
      tag.toNat * 2 ^ (params.indexWidth + params.blockWidth) +
        index.toNat * 2 ^ params.blockWidth + word.toNat * 4 =
      4 * (tag.toNat * 2 ^ params.indexWidth * 2 ^ params.wordWidth +
        index.toNat * 2 ^ params.wordWidth + word.toNat) := by
    rw [Nat.pow_add, ← block]
    ring
  apply BitVec.eq_of_toNat_eq
  rw [Axi.Bytes.toNat_align, ICacheParams.lineAddr, BitVec.toNat_ofNat,
    multiple]
  omega

theorem next_request (port : In) (notLookup : cache.state ≠ .lookup) :
    (cache.next port).isCacheable = cache.isCacheable ∧
      (cache.next port).busAraddr = cache.busAraddr ∧
      (cache.next port).busArlen = cache.busArlen := by
  obtain ⟨addr, -, -, -⟩ := next_missRegs port notLookup
  have cacheable : (cache.next port).isCacheable = cache.isCacheable :=
    congrArg params.inWindow addr
  refine ⟨cacheable, ?_, ?_⟩
  · unfold busAraddr
    rw [cacheable, addr]
  · unfold busArlen
    rw [cacheable]

/-- The last beat of a refill fills the last word of the line. -/
theorem toNat_busArlen (narrow : params.blockWidth ≤ 10)
    (cacheable : cache.isCacheable = true) :
    cache.busArlen.toNat = 2 ^ params.wordWidth - 1 := by
  have width : params.wordWidth ≤ 8 := by
    simp only [ICacheParams.wordWidth]
    omega
  have small : 2 ^ params.wordWidth ≤ 2 ^ 8 :=
    Nat.pow_le_pow_right (by decide) width
  rw [busArlen, if_pos cacheable, BitVec.toNat_ofNat,
    ICacheParams.wordsPerLine]
  omega

/-- What the bus returns in a refill beat, and when it is the last one. -/
theorem Sound.beat (sound : cache.Sound Right fetch)
    (serves : Serves Right cache port fetch nextFetch)
    (narrow : params.blockWidth ≤ 10)
    (beat : cache.refillBeat port = true) :
    Right
        (params.lineAddr cache.missTagReg cache.missIndexReg
          cache.refillCnt) port.busRdata ∧
      (port.busRlast = true ↔
        cache.refillCnt.toNat = 2 ^ params.wordWidth - 1) := by
  obtain ⟨missR, valid, cacheable⟩ := refillBeat_iff.1 beat
  obtain ⟨burst, inFlight, addr, len, count⟩ := sound.fetching missR
  obtain ⟨last, right⟩ := serves.returns burst inFlight valid
  obtain ⟨index, tag⟩ := sound.missRegs (.inr missR)
  have base : cache.busAraddr = params.lineBase cache.missAddrReg :=
    if_pos cacheable
  constructor
  · rw [Fetch.beatAddr, addr, count, if_pos cacheable, base,
      ICacheParams.lineBase_add, align_lineAddr] at right
    rw [index, tag]
    exact right
  · rw [last, Fetch.isLast, count, if_pos cacheable, len,
      toNat_busArlen narrow cacheable, beq_iff_eq]

theorem toNat_next_refillCnt (sound : cache.Sound Right fetch)
    (serves : Serves Right cache port fetch nextFetch)
    (narrow : params.blockWidth ≤ 10)
    (beat : cache.refillBeat port = true) (notLast : port.busRlast = false) :
    (cache.next port).refillCnt.toNat = cache.refillCnt.toNat + 1 := by
  obtain ⟨_, last⟩ := sound.beat serves narrow beat
  have next : (cache.next port).refillCnt = cache.refillCnt + 1 := by
    simp [ICache.next, beat, notLast]
  have bound := cache.refillCnt.isLt
  have room : cache.refillCnt.toNat ≠ 2 ^ params.wordWidth - 1 := by
    intro full
    exact absurd (last.2 full) (by simp [notLast])
  have one : (1 : BitVec params.wordWidth).toNat = 1 % 2 ^ params.wordWidth :=
    BitVec.toNat_ofNat _ _
  rw [next, BitVec.toNat_add, one, Nat.add_mod_mod, Nat.mod_eq_of_lt]
  omega

/-! ### Every field after one cycle -/

theorem Sound.fetching_next (sound : cache.Sound Right fetch)
    (serves : Serves Right cache port fetch nextFetch)
    (narrow : params.blockWidth ≤ 10)
    (missR : (cache.next port).state = .missR) :
    ∃ burst, nextFetch = some burst ∧
      burst.addr = (cache.next port).busAraddr ∧
      burst.len = (cache.next port).busArlen ∧
      burst.beat = if (cache.next port).isCacheable then
        (cache.next port).refillCnt.toNat else 0 := by
  rcases (next_state_missR missR).2 with
    ⟨missAr, ready⟩ | ⟨missR, notLast⟩
  · have notLookup : cache.state ≠ .lookup := by simp [missAr]
    have asks : cache.busArvalid = true := by simp [busArvalid, missAr]
    obtain ⟨-, addr, len⟩ := next_request port notLookup
    have idle : fetch = none := by
      cases inFlight : fetch with
      | none => rfl
      | some burst =>
          exact absurd ⟨asks, ready⟩ (serves.occupied burst inFlight)
    obtain ⟨_, accepted⟩ := serves.accepts idle
    rw [if_pos ⟨asks, ready⟩] at accepted
    have count : (cache.next port).refillCnt = 0 := by
      simp [next, missAr, refillBeat, sound.fresh missAr]
    refine ⟨_, accepted, addr.symm, len.symm, ?_⟩
    simp [count]
  · have notLookup : cache.state ≠ .lookup := by simp [missR]
    obtain ⟨cacheable, sameAddr, sameLen⟩ :=
      next_request port notLookup
    obtain ⟨burst, inFlight, addr, len, count⟩ := sound.fetching missR
    rw [cacheable, sameAddr, sameLen]
    rcases serves.moves burst inFlight with
      ⟨valid, moved⟩ | ⟨still, kept⟩
    · have goesOn : burst.isLast = false := by
        rw [← (serves.returns burst inFlight valid).1]
        exact notLast valid
      -- the single beat of an uncached burst is its last
      have isCacheable : cache.isCacheable = true := by
        by_contra uncached
        simp [Fetch.isLast, count, len, busArlen, uncached] at goesOn
      have beat := refillBeat_iff.2 ⟨missR, valid, isCacheable⟩
      rw [Fetch.advance, if_neg (by simp [goesOn])] at moved
      refine ⟨_, moved, addr, len, ?_⟩
      rw [toNat_next_refillCnt sound serves narrow beat (notLast valid),
        count, if_pos isCacheable, if_pos isCacheable]
    · refine ⟨burst, kept, addr, len, ?_⟩
      have noBeat : cache.refillBeat port = false := by
        cases beat : cache.refillBeat port with
        | false => rfl
        | true =>
            obtain ⟨-, valid, -⟩ := refillBeat_iff.1 beat
            exact absurd ⟨valid, by simp [busRready, missR]⟩ still
      rw [count]
      simp [next, noBeat, missR]

theorem Sound.missRegs_next (sound : cache.Sound Right fetch)
    (missing : (cache.next port).state = .missAr ∨
      (cache.next port).state = .missR) :
    (cache.next port).missIndexReg =
        params.indexOf (cache.next port).missAddrReg ∧
      (cache.next port).missTagReg =
        params.tagOf (cache.next port).missAddrReg := by
  by_cases lookup : cache.state = .lookup
  · have miss : cache.cacheHit = false := by
      rcases missing with missAr | missR
      · have before := (next_state_missAr missAr).2
        simpa [lookup] using before
      · have before := (next_state_missR missR).2
        simp [lookup] at before
    simp [next, lookup, miss, reqIndex, reqTag]
  · obtain ⟨addr, index, tag, -⟩ := next_missRegs port lookup
    have before : cache.state = .missAr ∨ cache.state = .missR := by
      rcases missing with missAr | missR
      · exact .inl ((next_state_missAr missAr).2.resolve_left
          fun looked => lookup looked.1)
      · exact (next_state_missR missR).2.imp And.left And.left
    rw [addr, index, tag]
    exact sound.missRegs before

theorem Sound.fresh_next (sound : cache.Sound Right fetch)
    (missAr : (cache.next port).state = .missAr) :
    (cache.next port).refillCnt = 0 := by
  rcases (next_state_missAr missAr).2 with ⟨lookup, miss⟩ | before
  · simp [next, lookup, miss, refillBeat]
  · simp [next, before, refillBeat, sound.fresh before]

/-! ### The arrays after one cycle -/

/-- A beat that is not suppressed writes one word of the line under refill,
and the last one names the new block. -/
theorem next_line_of_beat (beat : cache.refillBeat port = true)
    (written : port.isFenceI = false) :
    (∀ word,
      (cache.next port).dataArray cache.missWayReg cache.missIndexReg word =
        if word = cache.refillCnt then port.busRdata
        else cache.dataArray cache.missWayReg cache.missIndexReg word) ∧
      (cache.next port).tagArray cache.missWayReg cache.missIndexReg =
        (if port.busRlast then cache.missTagReg
        else cache.tagArray cache.missWayReg cache.missIndexReg) ∧
      (cache.next port).validArray cache.missWayReg cache.missIndexReg =
        (if port.busRlast then true
        else cache.validArray cache.missWayReg cache.missIndexReg) := by
  simp [next, nextDataArray, nextTagArray, nextValidArray, beat, written]

theorem cacheHit_of_last (beat : cache.refillBeat port = true)
    (last : port.busRlast = true) (written : port.isFenceI = false)
    (index : cache.missIndexReg = cache.reqIndex)
    (tag : cache.missTagReg = cache.reqTag) :
    (cache.next port).cacheHit = true := by
  obtain ⟨-, newTag, newValid⟩ := next_line_of_beat beat written
  have missR := (refillBeat_iff.1 beat).1
  have sameAddr : (cache.next port).reqAddrReg = cache.reqAddrReg := by
    simp [next, missR]
  have hits : (cache.next port).hitWay cache.missWayReg = true := by
    rw [hitWay, reqIndex, reqTag, sameAddr, ← reqIndex, ← reqTag, ← index,
      newTag, newValid, if_pos last, if_pos last, tag]
    simp
  unfold cacheHit
  cases way : cache.missWayReg <;> simp [way] at hits <;> simp [hits]

theorem next_line_other (way : Bool) (index : BitVec params.indexWidth)
    (other : cache.refillBeat port = true →
      ¬ (way = cache.missWayReg ∧ index = cache.missIndexReg)) :
    (cache.next port).dataArray way index = cache.dataArray way index ∧
      (cache.next port).tagArray way index = cache.tagArray way index ∧
      ((cache.next port).validArray way index = true →
        cache.validArray way index = true) := by
  refine ⟨?_, ?_, ?_⟩
  · funext word
    simp only [next, nextDataArray]
    grind
  · simp only [next, nextTagArray]
    grind
  · simp only [next, nextValidArray]
    grind

theorem next_line_of_noBeat (noBeat : cache.refillBeat port = false)
    (way : Bool) (index : BitVec params.indexWidth) :
    (cache.next port).dataArray way index = cache.dataArray way index ∧
      (cache.next port).tagArray way index = cache.tagArray way index ∧
      ((cache.next port).validArray way index = true →
        cache.validArray way index = true) :=
  next_line_other way index fun beat => by simp [noBeat] at beat

theorem WordRight.of_kept {way : Bool} {index : BitVec params.indexWidth}
    {word : BitVec params.wordWidth}
    (right : cache.WordRight Right way index word)
    (data : (cache.next port).dataArray way index word =
      cache.dataArray way index word)
    (tag : (cache.next port).tagArray way index = cache.tagArray way index) :
    (cache.next port).WordRight Right way index word := by
  unfold WordRight
  rw [data, tag]
  exact right

/-- The words that are in place after the beat of this cycle, if there is
one. -/
theorem Sound.filled_next (sound : cache.Sound Right fetch)
    (serves : Serves Right cache port fetch nextFetch)
    (narrow : params.blockWidth ≤ 10) (noSkip : ¬ cache.Skips port)
    (missR : (cache.next port).state = .missR)
    (cacheable : (cache.next port).isCacheable = true) :
    ∀ word, word < (cache.next port).refillCnt →
      Right
        (params.lineAddr (cache.next port).missTagReg
          (cache.next port).missIndexReg word)
        ((cache.next port).dataArray (cache.next port).missWayReg
          (cache.next port).missIndexReg word) := by
  intro word below
  rcases (next_state_missR missR).2 with ⟨missAr, _⟩ | ⟨before, notLast⟩
  · have count : (cache.next port).refillCnt = 0 := by
      simp [next, missAr, refillBeat, sound.fresh missAr]
    rw [count] at below
    exact absurd below (by simp)
  · have notLookup : cache.state ≠ .lookup := by simp [before]
    obtain ⟨-, index, tag, way⟩ := next_missRegs port notLookup
    rw [(next_request port notLookup).1] at cacheable
    rw [index, tag, way]
    cases beat : cache.refillBeat port with
    | true =>
        have valid := (refillBeat_iff.1 beat).2.1
        have count :=
          toNat_next_refillCnt sound serves narrow beat (notLast valid)
        have written : port.isFenceI = false := by
          simpa [Skips, beat] using noSkip
        rw [(next_line_of_beat beat written).1 word]
        by_cases current : word = cache.refillCnt
        · rw [if_pos current, current]
          exact (sound.beat serves narrow beat).1
        · rw [if_neg current]
          apply sound.filled before cacheable
          have different : word.toNat ≠ cache.refillCnt.toNat :=
            fun same => current (BitVec.eq_of_toNat_eq same)
          rw [BitVec.lt_def] at below ⊢
          omega
    | false =>
        have count : (cache.next port).refillCnt = cache.refillCnt := by
          simp [next, beat, before]
        rw [(next_line_of_noBeat beat _ _).1]
        rw [count] at below
        exact sound.filled before cacheable word below

theorem Sound.victim_next (sound : cache.Sound Right fetch)
    (serves : Serves Right cache port fetch nextFetch)
    (narrow : params.blockWidth ≤ 10) (noSkip : ¬ cache.Skips port)
    (missR : (cache.next port).state = .missR)
    (cacheable : (cache.next port).isCacheable = true)
    (valid : (cache.next port).validArray (cache.next port).missWayReg
      (cache.next port).missIndexReg = true) :
    ∀ word, (cache.next port).refillCnt ≤ word →
      (cache.next port).WordRight Right (cache.next port).missWayReg
        (cache.next port).missIndexReg word := by
  intro word above
  rcases (next_state_missR missR).2 with ⟨missAr, _⟩ | ⟨before, notLast⟩
  · have notLookup : cache.state ≠ .lookup := by simp [missAr]
    obtain ⟨-, index, -, way⟩ := next_missRegs port notLookup
    have noBeat : cache.refillBeat port = false := by
      simp [refillBeat, missAr]
    obtain ⟨data, tag, stillValid⟩ :=
      next_line_of_noBeat noBeat cache.missWayReg cache.missIndexReg
    rw [index, way] at valid ⊢
    refine (sound.lines _ _ (stillValid valid) ?_ word).of_kept
      (congrFun data word) tag
    simp [Refilling, missAr]
  · have notLookup : cache.state ≠ .lookup := by simp [before]
    obtain ⟨-, index, -, way⟩ := next_missRegs port notLookup
    rw [(next_request port notLookup).1] at cacheable
    rw [index, way] at valid ⊢
    cases beat : cache.refillBeat port with
    | true =>
        have last := notLast (refillBeat_iff.1 beat).2.1
        have count := toNat_next_refillCnt sound serves narrow beat last
        have written : port.isFenceI = false := by
          simpa [Skips, beat] using noSkip
        obtain ⟨data, tag, sameValid⟩ := next_line_of_beat beat written
        simp only [last, Bool.false_eq_true, if_false] at tag sameValid
        rw [BitVec.le_def, count] at above
        have different : word ≠ cache.refillCnt := by
          rintro rfl
          omega
        refine (sound.victim before cacheable (sameValid ▸ valid) word
          (BitVec.le_def.2 (by omega))).of_kept ?_ tag
        rw [data word, if_neg different]
    | false =>
        have count : (cache.next port).refillCnt = cache.refillCnt := by
          simp [next, beat, before]
        obtain ⟨data, tag, stillValid⟩ :=
          next_line_of_noBeat beat cache.missWayReg cache.missIndexReg
        rw [count] at above
        exact (sound.victim before cacheable (stillValid valid) word
          above).of_kept (congrFun data word) tag

theorem Sound.lines_next (sound : cache.Sound Right fetch)
    (ended : ∀ way index, cache.Refilling way index →
      ¬ (cache.next port).Refilling way index →
      (cache.next port).validArray way index = true →
      ∀ word, (cache.next port).WordRight Right way index word) :
    ∀ way index, (cache.next port).validArray way index = true →
      ¬ (cache.next port).Refilling way index →
      ∀ word, (cache.next port).WordRight Right way index word := by
  intro way index valid notRefilling word
  by_cases refilling : cache.Refilling way index
  · exact ended way index refilling notRefilling valid word
  · have other : cache.refillBeat port = true →
        ¬ (way = cache.missWayReg ∧ index = cache.missIndexReg) := by
      rintro beat ⟨sameWay, sameIndex⟩
      obtain ⟨missR, -, cacheable⟩ := refillBeat_iff.1 beat
      exact refilling ⟨missR, cacheable, sameWay, sameIndex⟩
    obtain ⟨data, tag, stillValid⟩ := next_line_other way index other
    exact (sound.lines way index (stillValid valid) refilling word).of_kept
      (congrFun data word) tag

theorem Sound.line_of_last (sound : cache.Sound Right fetch)
    (serves : Serves Right cache port fetch nextFetch)
    (narrow : params.blockWidth ≤ 10) (written : port.isFenceI = false)
    (beat : cache.refillBeat port = true) (last : port.busRlast = true)
    (word : BitVec params.wordWidth) :
    (cache.next port).WordRight Right cache.missWayReg cache.missIndexReg
      word := by
  obtain ⟨missR, -, cacheable⟩ := refillBeat_iff.1 beat
  obtain ⟨right, atEnd⟩ := sound.beat serves narrow beat
  obtain ⟨data, tag, -⟩ := next_line_of_beat beat written
  rw [if_pos last] at tag
  unfold WordRight
  rw [tag, data word]
  by_cases current : word = cache.refillCnt
  · rw [if_pos current, current]
    exact right
  · rw [if_neg current]
    apply sound.filled missR cacheable
    have different : word.toNat ≠ cache.refillCnt.toNat :=
      fun same => current (BitVec.eq_of_toNat_eq same)
    have bound := word.isLt
    have full := atEnd.1 last
    rw [BitVec.lt_def]
    omega

/-- A refill that is not cut leaves a line of one block, valid or not. -/
theorem Sound.ended_of_not_cuts (sound : cache.Sound Right fetch)
    (serves : Serves Right cache port fetch nextFetch)
    (narrow : params.blockWidth ≤ 10) (noSkip : ¬ cache.Skips port)
    (noCut : ¬ cache.Cuts port) :
    ∀ way index, cache.Refilling way index →
      ¬ (cache.next port).Refilling way index →
      (cache.next port).validArray way index = true →
      ∀ word, (cache.next port).WordRight Right way index word := by
  rintro way index ⟨missR, cacheable, rfl, rfl⟩ ends valid word
  have notLookup : cache.state ≠ .lookup := by simp [missR]
  obtain ⟨-, sameIndex, -, sameWay⟩ := next_missRegs port notLookup
  have leaves : (cache.next port).state ≠ .missR := by
    intro stays
    refine ends ⟨stays, ?_, sameWay.symm, sameIndex.symm⟩
    rw [(next_request port notLookup).1, cacheable]
  cases beat : cache.refillBeat port with
  | true =>
      have written : port.isFenceI = false := by
        simpa [Skips, beat] using noSkip
      cases last : port.busRlast with
      | true =>
          exact sound.line_of_last serves narrow written beat last word
      | false =>
          obtain ⟨-, -, sameValid⟩ := next_line_of_beat beat written
          simp only [last, Bool.false_eq_true, if_false] at sameValid
          have flush : port.flush = true := by
            by_contra noFlush
            simp [next, noFlush, nextState, missR, last] at leaves
          exact absurd ⟨flush, missR, cacheable, sameValid ▸ valid,
            .inl ⟨beat, last⟩⟩ noCut
  | false =>
      obtain ⟨data, tag, stillValid⟩ :=
        next_line_of_noBeat beat cache.missWayReg cache.missIndexReg
      have noBeat : port.busRvalid = false := by
        simpa [refillBeat, busRready, missR, cacheable] using beat
      have flush : port.flush = true := by
        by_contra noFlush
        simp [next, noFlush, nextState, missR, noBeat] at leaves
      have unwritten : cache.refillCnt = 0 := by
        by_contra started
        exact noCut ⟨flush, missR, cacheable, stillValid valid,
          .inr ⟨beat, started⟩⟩
      refine (sound.victim missR cacheable (stillValid valid) word ?_).of_kept
        (congrFun data word) tag
      rw [unwritten]
      exact BitVec.le_def.2 (Nat.zero_le _)

theorem Sound.next_of_ended (sound : cache.Sound Right fetch)
    (serves : Serves Right cache port fetch nextFetch)
    (narrow : params.blockWidth ≤ 10) (noSkip : ¬ cache.Skips port)
    (ended : ∀ way index, cache.Refilling way index →
      ¬ (cache.next port).Refilling way index →
      (cache.next port).validArray way index = true →
      ∀ word, (cache.next port).WordRight Right way index word) :
    (cache.next port).Sound Right nextFetch where
  missRegs := sound.missRegs_next
  fresh := sound.fresh_next
  fetching := sound.fetching_next serves narrow
  filled := sound.filled_next serves narrow noSkip
  victim := sound.victim_next serves narrow noSkip
  lines := sound.lines_next ended

theorem Sound.next (sound : cache.Sound Right fetch)
    (serves : Serves Right cache port fetch nextFetch)
    (narrow : params.blockWidth ≤ 10) (noSkip : ¬ cache.Skips port)
    (noCut : ¬ cache.Cuts port) :
    (cache.next port).Sound Right nextFetch :=
  sound.next_of_ended serves narrow noSkip
    (sound.ended_of_not_cuts serves narrow noSkip noCut)

theorem sound_reset (cache : ICache params) :
    cache.reset.Sound Right none where
  missRegs := by simp [reset]
  fresh := by simp [reset]
  fetching := by simp [reset]
  filled := by simp [reset]
  victim := by simp [reset]
  lines := by simp [reset]

end ICache

end Ysyx.Rtl
