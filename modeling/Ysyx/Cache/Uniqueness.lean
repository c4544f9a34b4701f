import Ysyx.Cache.Directory

/-!
# One way for a tag

No set holds a tag in both of its ways, so the way that hits is the only one,
and the LRU bit of a set names the way that was not used last.
-/

namespace Ysyx.Rtl

namespace ICache

variable {params : ICacheParams} {cache : ICache params} {port : In}

/-! ## Tags -/

/-- The line is in this way. -/
def HasLine (cache : ICache params) (way : Bool)
    (index : BitVec params.indexWidth) (tag : BitVec params.tagWidth) : Prop :=
  cache.validArray way index = true ∧ cache.tagArray way index = tag

/-- No set holds a tag twice, and the line of a miss is in neither way until
its refill ends. -/
structure UniqueTags (cache : ICache params) : Prop where
  ways : ∀ index tag,
    ¬(cache.HasLine false index tag ∧ cache.HasLine true index tag)
  missing : cache.state = .missAr ∨ cache.state = .missR →
    ∀ way, ¬cache.HasLine way cache.missIndexReg cache.missTagReg

theorem uniqueTags_reset (power : ICache params) : UniqueTags power.reset where
  ways _ _ both := Bool.false_ne_true both.1.1
  missing _ _ line := Bool.false_ne_true line.1

/-- Where a line of the next cycle comes from. -/
theorem hasLine_next {way : Bool} {index : BitVec params.indexWidth}
    {tag : BitVec params.tagWidth}
    (line : (cache.next port).HasLine way index tag) :
    cache.HasLine way index tag ∨
      cache.refills port = true ∧ way = cache.missWayReg ∧
        index = cache.missIndexReg ∧ tag = cache.missTagReg := by
  obtain ⟨valid, isTag⟩ := line
  simp only [next, nextValidArray] at valid
  simp only [next, nextTagArray] at isTag
  split at valid
  · cases valid
  · rename_i noFence
    by_cases filled : cache.refillBeat port = true ∧ port.busRlast = true ∧
        way = cache.missWayReg ∧ index = cache.missIndexReg
    · rw [if_pos ⟨noFence, filled⟩] at isTag
      obtain ⟨beat, last, isWay, isIndex⟩ := filled
      exact .inr ⟨by rw [refills, beat, last]; rfl, isWay, isIndex, isTag.symm⟩
    · rw [if_neg filled] at valid
      rw [if_neg fun all => filled all.2] at isTag
      exact .inl ⟨valid, isTag⟩

theorem missR_of_refills (refills : cache.refills port = true) :
    cache.state = .missR ∧ port.busRvalid = true ∧ port.busRlast = true := by
  simp only [ICache.refills, refillBeat, Bool.and_eq_true, beq_iff_eq] at refills
  exact ⟨refills.1.1.1.1, refills.1.1.1.2, refills.2⟩

/-- A miss has not found its line. -/
theorem not_hasLine_of_miss (miss : ¬cache.cacheHit = true) (way : Bool) :
    ¬cache.HasLine way cache.reqIndex cache.reqTag := by
  rintro ⟨valid, isTag⟩
  have hit : cache.hitWay way = true := by
    simp [hitWay, valid, isTag]
  cases way with
  | false => exact miss (by simp [cacheHit, hit])
  | true => exact miss (by simp [cacheHit, hit])

theorem ways_next (unique : UniqueTags cache) (index : BitVec params.indexWidth)
    (tag : BitVec params.tagWidth) :
    ¬((cache.next port).HasLine false index tag ∧
      (cache.next port).HasLine true index tag) := by
  rintro ⟨first, second⟩
  rcases hasLine_next first with firstOld | ⟨refills, isFirst, rfl, rfl⟩
  · rcases hasLine_next second with secondOld | ⟨refills, isSecond, rfl, rfl⟩
    · exact unique.ways index tag ⟨firstOld, secondOld⟩
    · exact unique.missing (.inr (missR_of_refills refills).1) false firstOld
  · rcases hasLine_next second with secondOld | ⟨_, isSecond, _⟩
    · exact unique.missing (.inr (missR_of_refills refills).1) true secondOld
    · exact Bool.false_ne_true (isFirst.trans isSecond.symm)

/-- The last beat of a refill ends the wait for it. -/
theorem nextState_of_refills (refills : cache.refills port = true) :
    cache.nextState port = .idle := by
  obtain ⟨state, valid, last⟩ := missR_of_refills refills
  simp [nextState, state, busRready, valid, last]

theorem missing_of_waiting (unique : UniqueTags cache)
    (waiting : cache.state = .missAr ∨ cache.state = .missR)
    (waits : cache.nextState port ≠ .idle) (way : Bool) :
    ¬(cache.next port).HasLine way (cache.next port).missIndexReg
      (cache.next port).missTagReg := by
  intro line
  have notLookup : ¬(cache.state = .lookup ∧ ¬cache.cacheHit = true) := by
    rintro ⟨lookup, _⟩
    simp [lookup] at waiting
  have index : (cache.next port).missIndexReg = cache.missIndexReg :=
    if_neg notLookup
  have tag : (cache.next port).missTagReg = cache.missTagReg :=
    if_neg notLookup
  rw [index, tag] at line
  rcases hasLine_next line with old | ⟨refills, _⟩
  · exact unique.missing waiting way old
  · exact waits (nextState_of_refills refills)

theorem missing_of_miss (state : cache.state = .lookup)
    (miss : ¬cache.cacheHit = true) (way : Bool) :
    ¬(cache.next port).HasLine way (cache.next port).missIndexReg
      (cache.next port).missTagReg := by
  intro line
  have index : (cache.next port).missIndexReg = cache.reqIndex :=
    if_pos ⟨state, miss⟩
  have tag : (cache.next port).missTagReg = cache.reqTag :=
    if_pos ⟨state, miss⟩
  rw [index, tag] at line
  rcases hasLine_next line with old | ⟨refills, _⟩
  · exact not_hasLine_of_miss miss way old
  · have missR := (missR_of_refills refills).1
    rw [state] at missR
    cases missR

theorem missing_next (unique : UniqueTags cache)
    (waits : (cache.next port).state = .missAr ∨
      (cache.next port).state = .missR) (way : Bool) :
    ¬(cache.next port).HasLine way (cache.next port).missIndexReg
      (cache.next port).missTagReg := by
  have noFlush : port.flush = false := by
    by_contra flushed
    rw [Bool.not_eq_false] at flushed
    simp [next, flushed] at waits
  have nextState : (cache.next port).state = cache.nextState port := by
    simp [next, noFlush]
  rw [nextState] at waits
  have notIdle : cache.nextState port ≠ .idle := by
    intro idle
    simp [idle] at waits
  cases state : cache.state with
  | idle =>
      simp only [ICache.nextState, state] at waits
      split at waits <;> simp at waits
  | lookup =>
      by_cases hit : cache.cacheHit = true
      · simp only [ICache.nextState, state, hit, if_true] at waits
        split at waits <;> simp at waits
      · exact missing_of_miss state hit way
  | missAr => exact missing_of_waiting unique (.inl state) notIdle way
  | missR => exact missing_of_waiting unique (.inr state) notIdle way

theorem UniqueTags.next (unique : UniqueTags cache) (port : In) :
    UniqueTags (cache.next port) where
  ways := ways_next unique
  missing := missing_next unique

/-! ## The way used last -/

/-- The way that hits, if one does. -/
def hittingWay (cache : ICache params) : Bool := !cache.hitWay false

/-- With its tags unique, the cache takes the hit of way 1 for the way that
hits. -/
theorem hitWay_eq_hittingWay (unique : UniqueTags cache)
    (hit : cache.cacheHit = true) : cache.hitWay true = cache.hittingWay := by
  have notBoth : ¬(cache.hitWay false = true ∧ cache.hitWay true = true) := by
    rintro ⟨first, second⟩
    simp only [hitWay, Bool.and_eq_true, beq_iff_eq] at first second
    exact unique.ways cache.reqIndex cache.reqTag ⟨first, second⟩
  simp only [cacheHit, Bool.or_eq_true] at hit
  rw [hittingWay]
  cases first : cache.hitWay false with
  | false =>
      rw [first] at hit
      simpa using hit
  | true =>
      rw [first] at notBoth
      simpa using notBoth

/-- The cache, with the way of every set that was last hit and taken or filled
since the last invalidation. -/
structure Watched (params : ICacheParams) where
  cache : ICache params
  lastUsed : BitVec params.indexWidth → Option Bool

namespace Watched

def step (port : In) (watched : Watched params) : Watched params where
  cache := watched.cache.next port
  lastUsed := fun index =>
    if port.isFenceI then none
    else if watched.cache.state = .lookup ∧ watched.cache.cacheHit ∧
        port.ifuRready ∧ index = watched.cache.reqIndex then
      some watched.cache.hittingWay
    else if watched.cache.refills port ∧
        index = watched.cache.missIndexReg then
      some watched.cache.missWayReg
    else watched.lastUsed index

/-- Out of reset no set has been used. -/
def reset (power : ICache params) : Watched params :=
  ⟨power.reset, fun _ => none⟩

structure Sound (watched : Watched params) : Prop where
  unique : UniqueTags watched.cache
  lru : ∀ index way, watched.lastUsed index = some way →
    watched.cache.lruBit index = !way

theorem sound_reset (power : ICache params) : Sound (reset power) where
  unique := uniqueTags_reset power
  lru _ _ used := by cases used

theorem Sound.step {watched : Watched params} (sound : Sound watched)
    (port : In) : Sound (watched.step port) where
  unique := sound.unique.next port
  lru := by
    intro index way used
    simp only [Watched.step] at used ⊢
    simp only [next, nextLruBit]
    split at used
    · cases used
    · rw [if_neg ‹_›]
      split at used
      · rename_i hits
        rw [if_pos hits, hitWay_eq_hittingWay sound.unique hits.2.1]
        exact congrArg _ (Option.some.inj used)
      · rw [if_neg ‹_›]
        simp only [refills, Bool.and_eq_true, and_assoc] at used
        split at used
        · rw [if_pos ‹_›]
          exact congrArg _ (Option.some.inj used)
        · rw [if_neg ‹_›]
          exact sound.lru index way used

end Watched

/-- In every cycle of every run out of reset, no set holds a tag in two valid
ways, and the LRU bit of a used set names the way not used last. -/
theorem tags_unique_lru_other (power : ICache params) (ports : Nat → In)
    (cycle : Nat) :
    let watched := Machine.run Watched.step ports (Watched.reset power) cycle
    (∀ index, ¬(watched.cache.validArray false index = true ∧
        watched.cache.validArray true index = true ∧
        watched.cache.tagArray false index =
          watched.cache.tagArray true index)) ∧
      ∀ index way, watched.lastUsed index = some way →
        watched.cache.lruBit index = !way := by
  intro watched
  have sound : Watched.Sound watched :=
    Machine.run_invariant (Watched.sound_reset power)
      (fun port _ sound => sound.step port) cycle
  refine ⟨fun index => ?_, sound.lru⟩
  rintro ⟨first, second, same⟩
  exact sound.unique.ways index _ ⟨⟨first, same⟩, ⟨second, rfl⟩⟩

end ICache

end Ysyx.Rtl
