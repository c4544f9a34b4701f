import Ysyx.Tools.LruCache
import Mathlib.Data.Finset.Card
import Mathlib.Data.List.Forall2

/-!
# One more way

The simulator with `ways` and with `ways + 1` ways on one trace. A victim is
chosen by its time stamp, which both simulators share, so that the larger one
keeps the blocks of the smaller one until two blocks of a set have the same
time stamp.
-/

namespace Ysyx.Cachesim

open ICache (Victim)

/-! ## One set -/

/-- The set holds a line with this tag. -/
def Has (set : Nat → CacheLine) (ways : Nat) (tag : BitVec 32) : Prop :=
  ∃ way, way < ways ∧ (set way).valid = true ∧ (set way).tag = tag

/-- The line in `way` is about to be overwritten. -/
def Evicts (set : Nat → CacheLine) (way : Nat) (tag : BitVec 32) : Prop :=
  (set way).valid = true ∧ (set way).tag = tag

/-- Where `access_cache` puts a tag: over its own line, or over the victim. -/
inductive Placed (set : Nat → CacheLine) (ways : Nat) (tag : BitVec 32)
    (way : Nat) : Prop where
  | hit (inRange : way < ways) (holds : Evicts set way tag)
  | miss (notHas : ¬ Has set ways tag) (victim : Victim set ways way)

def place (set : Nat → CacheLine) (way : Nat) (line : CacheLine) :
    Nat → CacheLine :=
  Function.update set way line

/-- The lines of a set, where `last` is the number of the last access to each
tag. -/
structure Stamped (set : Nat → CacheLine) (ways : Nat)
    (last : BitVec 32 → Nat) : Prop where
  stamp : ∀ way, way < ways → (set way).valid = true →
    (set way).time = last (set way).tag % 2 ^ 64
  accessed : ∀ way, way < ways → (set way).valid = true →
    1 ≤ last (set way).tag
  empty : ∀ way, way < ways → (set way).valid = false → (set way).time = 0
  distinct : ∀ way other, way < ways → other < ways →
    (set way).valid = true → (set other).valid = true →
    (set way).tag = (set other).tag → way = other

/-- `count` accesses have been made, and each was the last one to at most one
tag. -/
structure Numbered (last : BitVec 32 → Nat) (count : Nat) : Prop where
  bound : ∀ tag, last tag ≤ count
  injective : ∀ tag other, 1 ≤ last tag → last tag = last other → tag = other

theorem Placed.inRange {set : Nat → CacheLine} {ways way : Nat}
    {tag : BitVec 32} (placed : Placed set ways tag way) : way < ways := by
  cases placed with
  | hit inRange holds =>
      exact inRange
  | miss notHas victim =>
      exact victim.inRange

theorem Placed.eq_of_evicts {set : Nat → CacheLine} {ways way : Nat}
    {tag other : BitVec 32} (placed : Placed set ways tag way)
    (has : Has set ways tag) (evicts : Evicts set way other) :
    other = tag := by
  cases placed with
  | hit inRange holds =>
      exact evicts.2.symm.trans holds.2
  | miss notHas victim =>
      exact absurd has notHas

theorem Placed.victim {set : Nat → CacheLine} {ways way : Nat}
    {tag : BitVec 32} (placed : Placed set ways tag way)
    (notHas : ¬ Has set ways tag) : Victim set ways way := by
  cases placed with
  | hit inRange holds =>
      exact absurd ⟨way, inRange, holds⟩ notHas
  | miss _ victim =>
      exact victim

namespace Stamped

variable {set : Nat → CacheLine} {ways way : Nat} {last : BitVec 32 → Nat}
variable {tag : BitVec 32} {time : BitVec 64}

theorem has_place (stamped : Stamped set ways last)
    (placed : Placed set ways tag way) (time : BitVec 64)
    (other : BitVec 32) :
    Has (place set way ⟨true, tag, time⟩) ways other ↔
      other = tag ∨ Has set ways other ∧ ¬ Evicts set way other := by
  constructor
  · rintro ⟨held, inRange, valid, same⟩
    by_cases here : held = way
    · subst here
      simp only [place, Function.update_self] at same
      exact Or.inl same.symm
    · rw [place, Function.update_of_ne here] at valid same
      refine Or.inr ⟨⟨held, inRange, valid, same⟩, ?_⟩
      rintro ⟨valid', same'⟩
      exact here (stamped.distinct held way inRange placed.inRange valid
        valid' (same.trans same'.symm))
  · rintro (rfl | ⟨⟨held, inRange, valid, same⟩, notEvicted⟩)
    · exact ⟨way, placed.inRange, by simp [place]⟩
    · have elsewhere : held ≠ way := by
        rintro rfl
        exact notEvicted ⟨valid, same⟩
      refine ⟨held, inRange, ?_⟩
      rw [place, Function.update_of_ne elsewhere]
      exact ⟨valid, same⟩

/-- No other line has the tag that is placed. -/
theorem tag_ne (stamped : Stamped set ways last)
    (placed : Placed set ways tag way) {other : Nat} (inRange : other < ways)
    (elsewhere : other ≠ way) (valid : (set other).valid = true) :
    (set other).tag ≠ tag := by
  intro same
  have evicts : Evicts set way tag := by
    cases placed with
    | hit _ holds =>
        exact holds
    | miss notHas _ =>
        exact absurd ⟨other, inRange, valid, same⟩ notHas
  exact elsewhere (stamped.distinct other way inRange placed.inRange valid
    evicts.1 (same.trans evicts.2.symm))

theorem place (stamped : Stamped set ways last)
    (placed : Placed set ways tag way) {count : Nat}
    (isTime : time.toNat = (count + 1) % 2 ^ 64) :
    Stamped (place set way ⟨true, tag, time⟩) ways
      (Function.update last tag (count + 1)) := by
  have isNew : Cachesim.place set way ⟨true, tag, time⟩ way =
      ⟨true, tag, time⟩ := Function.update_self ..
  have isOld {other : Nat} (elsewhere : other ≠ way) :
      Cachesim.place set way ⟨true, tag, time⟩ other = set other :=
    Function.update_of_ne elsewhere ..
  constructor
  · intro other inRange valid
    by_cases here : other = way
    · subst here
      rw [isNew, Function.update_self]
      exact isTime
    · rw [isOld here] at valid ⊢
      rw [Function.update_of_ne (stamped.tag_ne placed inRange here valid)]
      exact stamped.stamp other inRange valid
  · intro other inRange valid
    by_cases here : other = way
    · subst here
      rw [isNew, Function.update_self]
      exact Nat.succ_pos _
    · rw [isOld here] at valid ⊢
      rw [Function.update_of_ne (stamped.tag_ne placed inRange here valid)]
      exact stamped.accessed other inRange valid
  · intro other inRange invalid
    by_cases here : other = way
    · subst here
      rw [isNew] at invalid
      cases invalid
    · rw [isOld here] at invalid ⊢
      exact stamped.empty other inRange invalid
  · intro first second firstIn secondIn firstValid secondValid same
    by_cases firstHere : first = way
    · by_cases secondHere : second = way
      · exact firstHere.trans secondHere.symm
      · rw [isOld secondHere] at secondValid same
        rw [firstHere, isNew] at same
        exact absurd same.symm
          (stamped.tag_ne placed secondIn secondHere secondValid)
    · rw [isOld firstHere] at firstValid same
      by_cases secondHere : second = way
      · rw [secondHere, isNew] at same
        exact absurd same
          (stamped.tag_ne placed firstIn firstHere firstValid)
      · rw [isOld secondHere] at secondValid same
        exact stamped.distinct first second firstIn secondIn firstValid
          secondValid same

/-- The time stamp of a tag. -/
theorem time_of_has (stamped : Stamped set ways last)
    (has : Has set ways tag) :
    1 ≤ last tag ∧ ∃ way, way < ways ∧ Evicts set way tag ∧
      (set way).time = last tag % 2 ^ 64 := by
  obtain ⟨way, inRange, valid, same⟩ := has
  refine ⟨?_, way, inRange, ⟨valid, same⟩, ?_⟩
  · rw [← same]
    exact stamped.accessed way inRange valid
  · rw [← same]
    exact stamped.stamp way inRange valid

end Stamped

theorem Numbered.update {last : BitVec 32 → Nat} {count : Nat}
    (numbered : Numbered last count) (tag : BitVec 32) :
    Numbered (Function.update last tag (count + 1)) (count + 1) := by
  constructor
  · intro other
    by_cases here : other = tag
    · rw [here, Function.update_self]
    · rw [Function.update_of_ne here]
      exact Nat.le_succ_of_le (numbered.bound other)
  · intro first second positive same
    by_cases firstHere : first = tag <;> by_cases secondHere : second = tag
    · exact firstHere.trans secondHere.symm
    · rw [firstHere, Function.update_self, Function.update_of_ne secondHere]
        at same
      have bound := numbered.bound second
      omega
    · rw [secondHere, Function.update_self, Function.update_of_ne firstHere]
        at same
      have bound := numbered.bound first
      omega
    · rw [Function.update_of_ne firstHere] at positive same
      rw [Function.update_of_ne secondHere] at same
      exact numbered.injective first second positive same

theorem Numbered.succ {last : BitVec 32 → Nat} {count : Nat}
    (numbered : Numbered last count) : Numbered last (count + 1) where
  bound tag := Nat.le_succ_of_le (numbered.bound tag)
  injective := numbered.injective

/-! ## The same set with one more way -/

/-- Equal lines, up to the tag of an unused one. -/
structure Alike (line line' : CacheLine) : Prop where
  valid : line.valid = line'.valid
  time : line.time = line'.time
  tag : line.valid = true → line.tag = line'.tag

/-- The smaller set is included in the larger one. A block that only the
larger one has is older than the blocks of the smaller one, unless these were
accessed after the clock wrapped; and the sets are alike until the smaller one
is full. -/
structure Included (small big : Nat → CacheLine) (ways : Nat)
    (last : BitVec 32 → Nat) : Prop where
  smallStamped : Stamped small ways last
  bigStamped : Stamped big (ways + 1) last
  subset : ∀ tag, Has small ways tag → Has big (ways + 1) tag
  older : ∀ tag, Has big (ways + 1) tag → ¬ Has small ways tag →
    ∀ other, Has small ways other → last other < 2 ^ 64 →
      last tag % 2 ^ 64 ≤ last other
  alike : ∀ unused, unused < ways → (small unused).valid = false →
    (∀ way, way < ways → Alike (small way) (big way)) ∧
      (big ways).valid = false

namespace Included

variable {small big : Nat → CacheLine} {ways count : Nat}
variable {last : BitVec 32 → Nat} {tag : BitVec 32}

/-- While the smaller set is not full, a miss has the same victim in both. -/
theorem same_victim (included : Included small big ways last)
    {unused : Nat} (inRange : unused < ways)
    (isUnused : (small unused).valid = false) {way way' : Nat}
    (victim : Victim small ways way) (victim' : Victim big (ways + 1) way') :
    way = way' := by
  obtain ⟨alike, -⟩ := included.alike unused inRange isUnused
  have zero : (small way).time = 0 := by
    have older := victim.oldest unused inRange
    rw [included.smallStamped.empty unused inRange isUnused] at older
    omega
  suffices isVictim : Victim big (ways + 1) way from
    isVictim.unique victim'
  refine ⟨?_, ?_, ?_⟩
  · have bound := victim.inRange
    omega
  · intro other _
    rw [← (alike way victim.inRange).time, zero]
    exact Nat.zero_le _
  · intro other before
    have otherIn : other < ways := before.trans victim.inRange
    rw [← (alike way victim.inRange).time, ← (alike other otherIn).time]
    exact victim.first other before

theorem has_iff_of_unused (included : Included small big ways last)
    {unused : Nat} (inRange : unused < ways)
    (isUnused : (small unused).valid = false)
    (has : Has big (ways + 1) tag) :
    ∃ way, way < ways ∧ Evicts small way tag ∧ Evicts big way tag := by
  obtain ⟨alike, lastUnused⟩ := included.alike unused inRange isUnused
  obtain ⟨way, wayIn, valid, same⟩ := has
  rcases Nat.lt_succ_iff_lt_or_eq.mp wayIn with before | rfl
  · have line := alike way before
    have valid' := line.valid.trans valid
    exact ⟨way, before, ⟨valid', (line.tag valid').trans same⟩, valid, same⟩
  · rw [lastUnused] at valid
    cases valid

/-- The larger set has a tag that the smaller one has not. -/
theorem exists_extra (included : Included small big ways last)
    (full : ∀ way, way < ways + 1 → (big way).valid = true) :
    ∃ extra, Has big (ways + 1) extra ∧ ¬ Has small ways extra := by
  by_contra none
  push Not at none
  have inside : (Finset.range (ways + 1)).image (fun way => (big way).tag) ⊆
      (Finset.range ways).image fun way => (small way).tag := by
    intro tag isIn
    obtain ⟨way, wayIn, same⟩ := Finset.mem_image.mp isIn
    have wayIn' := Finset.mem_range.mp wayIn
    obtain ⟨held, heldIn, -, same'⟩ :=
      none tag ⟨way, wayIn', full way wayIn', same⟩
    exact Finset.mem_image.mpr ⟨held, Finset.mem_range.mpr heldIn, same'⟩
  have injective : Set.InjOn (fun way => (big way).tag)
      (Finset.range (ways + 1) : Set Nat) := by
    intro way wayIn other otherIn same
    have wayIn' : way < ways + 1 := by simpa using wayIn
    have otherIn' : other < ways + 1 := by simpa using otherIn
    exact included.bigStamped.distinct way other wayIn' otherIn' (full way wayIn')
      (full other otherIn') same
  have larger := Finset.card_le_card inside
  have atMost := Finset.card_image_le (s := Finset.range ways)
    (f := fun way => (small way).tag)
  rw [Finset.card_image_of_injOn injective, Finset.card_range] at larger
  rw [Finset.card_range] at atMost
  omega

/-- Two numbers of accesses with one time stamp, before the clock wraps for
the second time. -/
theorem wrap_of_same_stamp {first second : Nat} (before : first < second)
    (inTime : second < 2 ^ 65) (same : first % 2 ^ 64 = second % 2 ^ 64) :
    first < 2 ^ 64 ∧ second = first + 2 ^ 64 := by
  omega

/-- Two blocks of the smaller set with the oldest time stamp of the larger
one: not before the clock wraps for the second time. -/
theorem not_tied (included : Included small big ways last)
    (numbered : Numbered last count) (inTime : count < 2 ^ 65)
    {first second : BitVec 32} (firstIn : Has small ways first)
    (secondIn : Has small ways second) (before : last first < last second)
    (same : last first % 2 ^ 64 = last second % 2 ^ 64) {way : Nat}
    (victim : Victim big (ways + 1) way)
    (isOldest : (big way).time = last first % 2 ^ 64) : False := by
  obtain ⟨positive, -⟩ := included.smallStamped.time_of_has firstIn
  have bound := numbered.bound second
  obtain ⟨early, late⟩ := wrap_of_same_stamp before (by omega) same
  rw [Nat.mod_eq_of_lt early] at isOldest
  -- No line of the larger set is unused, so one of its blocks is extra.
  have full : ∀ other, other < ways + 1 → (big other).valid = true := by
    intro other otherIn
    by_contra unused
    have zero := included.bigStamped.empty other otherIn (Bool.eq_false_iff.mpr unused)
    have older := victim.oldest other otherIn
    omega
  obtain ⟨extra, extraIn, notSmall⟩ := included.exists_extra full
  have atMost := included.older extra extraIn notSmall first firstIn early
  obtain ⟨extraPositive, held, heldIn, -, stamp⟩ :=
    included.bigStamped.time_of_has extraIn
  have atLeast := victim.oldest held heldIn
  rw [stamp, isOldest] at atLeast
  have extraBound := numbered.bound extra
  have isFirstOrSecond : last extra = last first ∨ last extra = last second := by
    omega
  rcases isFirstOrSecond with isFirst | isSecond
  · exact notSmall (numbered.injective extra first extraPositive isFirst ▸
      firstIn)
  · exact notSmall (numbered.injective extra second extraPositive isSecond ▸
      secondIn)

/-- What stays in the smaller set stays in the larger one. -/
theorem not_evicts (included : Included small big ways last)
    (numbered : Numbered last count) (inTime : ways = 1 ∨ count < 2 ^ 65)
    {way way' : Nat} (placed : Placed small ways tag way)
    (placed' : Placed big (ways + 1) tag way') {other : BitVec 32}
    (different : other ≠ tag) (has : Has small ways other)
    (stays : ¬ Evicts small way other) : ¬ Evicts big way' other := by
  intro evicts'
  have notBig : ¬ Has big (ways + 1) tag := fun isBig =>
    different (placed'.eq_of_evicts isBig evicts')
  have victim := placed.victim fun isSmall =>
    notBig (included.subset tag isSmall)
  have victim' := placed'.victim notBig
  by_cases full : ∀ held, held < ways → (small held).valid = true
  · -- Both victims have the oldest time stamp of the larger set.
    obtain ⟨_, held, heldIn, holds, heldStamp⟩ :=
      included.smallStamped.time_of_has has
    have valid := full way victim.inRange
    have wayIn : Has small ways (small way).tag :=
      ⟨way, victim.inRange, valid, rfl⟩
    have wayStamp := included.smallStamped.stamp way victim.inRange valid
    have apart : (small way).tag ≠ other := fun same => stays ⟨valid, same⟩
    have otherStamp := included.bigStamped.stamp way' victim'.inRange evicts'.1
    rw [evicts'.2] at otherStamp
    obtain ⟨positive, held', heldIn', -, heldStamp'⟩ :=
      included.bigStamped.time_of_has (included.subset _ wayIn)
    have smallest := victim.oldest held heldIn
    have smallest' := victim'.oldest held' heldIn'
    rw [wayStamp, heldStamp] at smallest
    rw [otherStamp, heldStamp'] at smallest'
    have same := Nat.le_antisymm smallest smallest'
    rcases inTime with rfl | inTime
    · have held0 : held = way := by
        have bound := victim.inRange
        omega
      exact stays (held0 ▸ holds)
    · rcases Nat.lt_trichotomy (last (small way).tag) (last other) with
        before | equal | after
      · exact included.not_tied numbered inTime wayIn has before same
          victim' (otherStamp.trans same.symm)
      · exact apart (numbered.injective _ _ positive equal)
      · exact included.not_tied numbered inTime has wayIn after same.symm
          victim' otherStamp
  · push Not at full
    obtain ⟨unused, unusedIn, isUnused⟩ := full
    have isUnused' := Bool.eq_false_iff.mpr isUnused
    have same := included.same_victim unusedIn isUnused' victim victim'
    obtain ⟨held, heldIn, holds, holds'⟩ := included.has_iff_of_unused unusedIn
      isUnused' ⟨way', victim'.inRange, evicts'⟩
    have here : held = way' := included.bigStamped.distinct held way'
      (Nat.lt_succ_of_lt heldIn) victim'.inRange holds'.1 evicts'.1
      (holds'.2.trans evicts'.2.symm)
    rw [here, ← same] at holds
    exact stays holds

/-- While the smaller set is not full, both place the tag in one way. -/
theorem same_way (included : Included small big ways last)
    {unused : Nat} (unusedIn : unused < ways)
    (isUnused : (small unused).valid = false) {way way' : Nat}
    (placed : Placed small ways tag way)
    (placed' : Placed big (ways + 1) tag way') : way = way' := by
  by_cases isBig : Has big (ways + 1) tag
  · obtain ⟨held, heldIn, holds, holds'⟩ :=
      included.has_iff_of_unused unusedIn isUnused isBig
    have inSmall : held = way := by
      by_contra elsewhere
      exact included.smallStamped.tag_ne placed heldIn elsewhere holds.1 holds.2
    have inBig : held = way' := by
      by_contra elsewhere
      exact included.bigStamped.tag_ne placed' (Nat.lt_succ_of_lt heldIn)
        elsewhere holds'.1 holds'.2
    exact inSmall.symm.trans inBig
  · exact included.same_victim unusedIn isUnused
      (placed.victim fun isSmall => isBig (included.subset tag isSmall))
      (placed'.victim isBig)

/-- One access to the set in both simulators. -/
theorem access (included : Included small big ways last)
    (numbered : Numbered last count) (inTime : ways = 1 ∨ count < 2 ^ 65)
    {way way' : Nat} (placed : Placed small ways tag way)
    (placed' : Placed big (ways + 1) tag way') {time : BitVec 64}
    (isTime : time.toNat = (count + 1) % 2 ^ 64) :
    Included (place small way ⟨true, tag, time⟩)
      (place big way' ⟨true, tag, time⟩) ways
      (Function.update last tag (count + 1)) := by
  have hasSmall := included.smallStamped.has_place placed time
  have hasBig := included.bigStamped.has_place placed' time
  refine ⟨included.smallStamped.place placed isTime,
    included.bigStamped.place placed' isTime, ?_, ?_, ?_⟩
  · intro other
    rw [hasSmall, hasBig]
    rintro (same | ⟨has, stays⟩)
    · exact Or.inl same
    · by_cases same : other = tag
      · exact Or.inl same
      · exact Or.inr ⟨included.subset other has, included.not_evicts numbered
          inTime placed placed' same has stays⟩
  · intro extra extraIn notSmall other otherIn early
    rw [hasSmall, not_or] at notSmall
    obtain ⟨different, gone⟩ := notSmall
    rw [hasBig] at extraIn
    have extraBig := (extraIn.resolve_left different).1
    rw [Function.update_of_ne different]
    rw [hasSmall] at otherIn
    by_cases isTag : other = tag
    · rw [isTag, Function.update_self] at early ⊢
      have bound := numbered.bound extra
      rw [Nat.mod_eq_of_lt (by omega)]
      omega
    · rw [Function.update_of_ne isTag] at early ⊢
      have otherSmall := (otherIn.resolve_left isTag).1
      by_cases wasSmall : Has small ways extra
      · -- The smaller set evicts it now, as its oldest block.
        have evicts : Evicts small way extra := by
          by_contra stays
          exact gone ⟨wasSmall, stays⟩
        have victim := placed.victim fun isSmall =>
          different (placed.eq_of_evicts isSmall evicts)
        have stamp := included.smallStamped.stamp way victim.inRange evicts.1
        obtain ⟨-, held, heldIn, -, otherStamp⟩ :=
          included.smallStamped.time_of_has otherSmall
        have smallest := victim.oldest held heldIn
        rw [stamp, otherStamp, evicts.2, Nat.mod_eq_of_lt early] at smallest
        exact smallest
      · exact included.older extra extraBig wasSmall other otherSmall early
  · intro unused unusedIn isUnused
    have elsewhere : unused ≠ way := by
      rintro rfl
      rw [place, Function.update_self] at isUnused
      cases isUnused
    rw [place, Function.update_of_ne elsewhere] at isUnused
    obtain ⟨alike, lastUnused⟩ := included.alike unused unusedIn isUnused
    have same := included.same_way unusedIn isUnused placed placed'
    subst same
    refine ⟨fun held heldIn => ?_, ?_⟩
    · by_cases here : held = way
      · rw [here, place, place, Function.update_self, Function.update_self]
        exact ⟨rfl, rfl, fun _ => rfl⟩
      · rw [place, place, Function.update_of_ne here,
          Function.update_of_ne here]
        exact alike held heldIn
    · rw [place, Function.update_of_ne placed.inRange.ne']
      exact lastUnused

end Included

/-! ## The two simulators -/

namespace ICache

variable {cache : ICache} {addr : BitVec 32}

theorem placed (positive : 1 ≤ cache.ways) (addr : BitVec 32) :
    ∃ way, Placed (cache.lines (cache.indexOf addr)) cache.ways
        (cache.tagOf addr) way ∧
      (cache.accessCache addr).lines =
        cache.setLine (cache.indexOf addr) way
          ⟨true, cache.tagOf addr, cache.timer + 1⟩ := by
  obtain ⟨way, outcome, lines⟩ := accessCache_spec positive addr
  refine ⟨way, ?_, lines⟩
  cases outcome with
  | hit hits inRange holds =>
      exact .hit inRange holds
  | miss misses notHeld victim =>
      refine .miss ?_ victim
      rintro ⟨other, inRange, holds⟩
      exact notHeld other inRange holds

theorem hits_iff_has (positive : 1 ≤ cache.ways) (addr : BitVec 32) :
    cache.hits addr = true ↔
      Has (cache.lines (cache.indexOf addr)) cache.ways (cache.tagOf addr) :=
  hits_iff positive addr

theorem setLine_self (cache : ICache) (index : BitVec 32) (way : Nat)
    (line : CacheLine) :
    cache.setLine index way line index = place (cache.lines index) way line := by
  funext other
  by_cases here : other = way
  · rw [here, place, Function.update_self, setLine_way]
  · rw [place, Function.update_of_ne here, setLine_other here]

end ICache

/-- Two simulators after the same `count` accesses, the larger one with one
more way. -/
structure OneMore (small big : ICache) (count : Nat)
    (last : BitVec 32 → BitVec 32 → Nat) : Prop where
  setBits : big.setBits = small.setBits
  blockBits : big.blockBits = small.blockBits
  ways : big.ways = small.ways + 1
  positive : 1 ≤ small.ways
  timer : small.timer = BitVec.ofNat 64 count
  timer' : big.timer = BitVec.ofNat 64 count
  numbered : ∀ index, Numbered (last index) count
  sets : ∀ index,
    Included (small.lines index) (big.lines index) small.ways (last index)

namespace OneMore

variable {small big : ICache} {count : Nat}
variable {last : BitVec 32 → BitVec 32 → Nat}

theorem indexOf_eq (oneMore : OneMore small big count last)
    (addr : BitVec 32) : big.indexOf addr = small.indexOf addr := by
  rw [ICache.indexOf, ICache.indexOf, oneMore.setBits, oneMore.blockBits]

theorem tagOf_eq (oneMore : OneMore small big count last)
    (addr : BitVec 32) : big.tagOf addr = small.tagOf addr := by
  rw [ICache.tagOf, ICache.tagOf, oneMore.setBits, oneMore.blockBits]

theorem positive' (oneMore : OneMore small big count last) :
    1 ≤ big.ways :=
  oneMore.ways ▸ Nat.le_add_left 1 small.ways

theorem hits_le (oneMore : OneMore small big count last) (addr : BitVec 32)
    (hits : small.hits addr = true) : big.hits addr = true := by
  rw [ICache.hits_iff_has oneMore.positive] at hits
  rw [ICache.hits_iff_has oneMore.positive', oneMore.indexOf_eq,
    oneMore.tagOf_eq, oneMore.ways]
  exact (oneMore.sets _).subset _ hits

theorem access (oneMore : OneMore small big count last)
    (inTime : small.ways = 1 ∨ count < 2 ^ 65) (addr : BitVec 32) :
    ∃ last', OneMore (small.accessCache addr) (big.accessCache addr)
      (count + 1) last' := by
  obtain ⟨way, placed, lines⟩ := ICache.placed oneMore.positive addr
  obtain ⟨way', placed', lines'⟩ := ICache.placed oneMore.positive' addr
  rw [oneMore.indexOf_eq, oneMore.tagOf_eq, oneMore.timer',
    ← oneMore.timer] at lines'
  rw [oneMore.indexOf_eq, oneMore.tagOf_eq, oneMore.ways] at placed'
  have sameSmall := ICache.sameShape_accessCache small addr
  have sameBig := ICache.sameShape_accessCache big addr
  have now : small.timer + 1 = BitVec.ofNat 64 (count + 1) := by
    rw [oneMore.timer]
    exact (BitVec.ofNat_add count 1).symm
  have isTime : (small.timer + 1).toNat = (count + 1) % 2 ^ 64 := by
    rw [now, BitVec.toNat_ofNat]
  refine ⟨Function.update last (small.indexOf addr)
    (Function.update (last (small.indexOf addr)) (small.tagOf addr)
      (count + 1)), ?_⟩
  constructor
  · rw [sameBig.setBits, sameSmall.setBits, oneMore.setBits]
  · rw [sameBig.blockBits, sameSmall.blockBits, oneMore.blockBits]
  · rw [sameBig.ways, sameSmall.ways, oneMore.ways]
  · rw [sameSmall.ways]
    exact oneMore.positive
  · rw [ICache.accessCache_timer, now]
  · rw [ICache.accessCache_timer, oneMore.timer', ← oneMore.timer, now]
  · intro index
    by_cases here : index = small.indexOf addr
    · rw [here, Function.update_self]
      exact (oneMore.numbered _).update _
    · rw [Function.update_of_ne here]
      exact (oneMore.numbered index).succ
  · intro index
    rw [lines, lines', sameSmall.ways]
    by_cases here : index = small.indexOf addr
    · rw [here, ICache.setLine_self, ICache.setLine_self, Function.update_self]
      exact (oneMore.sets _).access (oneMore.numbered _) inTime placed placed'
        isTime
    · rw [ICache.setLine_of_ne _ here, ICache.setLine_of_ne _ here,
        Function.update_of_ne here]
      exact oneMore.sets index

theorem outcomes_le (oneMore : OneMore small big count last)
    (trace : List (BitVec 32))
    (inTime : small.ways = 1 ∨ count + trace.length ≤ 2 ^ 65 + 1) :
    List.Forall₂ (fun hit hit' => hit = true → hit' = true)
      (small.outcomes trace) (big.outcomes trace) := by
  induction trace generalizing small big count last with
  | nil =>
      exact .nil
  | cons addr rest inductionHypothesis =>
      refine .cons (oneMore.hits_le addr) ?_
      cases rest with
      | nil =>
          exact .nil
      | cons next rest =>
          simp only [List.length_cons] at inTime
          obtain ⟨last', oneMore'⟩ := oneMore.access (by omega) addr
          refine inductionHypothesis oneMore' ?_
          rw [(ICache.sameShape_accessCache small addr).ways, List.length_cons]
          omega

theorem start (setBits : Nat) {ways : Nat} (positive : 1 ≤ ways)
    (blockBits : Nat) (tags tags' : BitVec 32 → Nat → BitVec 32) :
    OneMore (ICache.initCache setBits ways blockBits tags)
      (ICache.initCache setBits (ways + 1) blockBits tags') 0
      fun _ _ => 0 where
  setBits := rfl
  blockBits := rfl
  ways := rfl
  positive := positive
  timer := rfl
  timer' := rfl
  numbered _ := ⟨fun _ => le_refl 0, fun _ _ positive _ => by omega⟩
  sets index := by
    have empty (ways : Nat) (tags : BitVec 32 → Nat → BitVec 32) :
        Stamped ((ICache.initCache setBits ways blockBits tags).lines index)
          ways fun _ => 0 :=
      ⟨fun _ _ valid => absurd valid Bool.false_ne_true,
        fun _ _ valid => absurd valid Bool.false_ne_true,
        fun _ _ _ => rfl,
        fun _ _ _ _ valid => absurd valid Bool.false_ne_true⟩
    have noTag (ways ways' : Nat) (tags : BitVec 32 → Nat → BitVec 32)
        (tag : BitVec 32) :
        ¬ Has ((ICache.initCache setBits ways blockBits tags).lines index)
          ways' tag := by
      rintro ⟨way, _, valid, _⟩
      exact Bool.false_ne_true valid
    exact ⟨empty ways tags, empty (ways + 1) tags',
      fun tag has => absurd has (noTag ways ways tags tag),
      fun tag has => absurd has (noTag (ways + 1) (ways + 1) tags' tag),
      fun _ _ _ => ⟨fun _ _ =>
        ⟨rfl, rfl, fun valid => absurd valid Bool.false_ne_true⟩, rfl⟩⟩

end OneMore

/-! ## The number of hits -/

section Sole

variable {cache : ICache} {index tag addr : BitVec 32}

/-- No other block was ever accessed. -/
def Sole (cache : ICache) (index tag : BitVec 32) : Prop :=
  ∀ index' way, way < cache.ways → (cache.lines index' way).valid = true →
    index' = index ∧ (cache.lines index' way).tag = tag

theorem Sole.access (sole : Sole cache index tag) (addr : BitVec 32)
    (positive : 1 ≤ cache.ways)
    (sameIndex : cache.indexOf addr = index)
    (sameTag : cache.tagOf addr = tag) :
    Sole (cache.accessCache addr) index tag := by
  obtain ⟨way, -, lines⟩ := ICache.placed positive addr
  intro index' other inRange
  rw [(ICache.sameShape_accessCache cache addr).ways] at inRange
  rw [lines, ICache.setLine, sameIndex, sameTag]
  split_ifs with here
  · exact fun _ => ⟨here.1, rfl⟩
  · exact sole index' other inRange

theorem Sole.of_hits (sole : Sole cache index tag) (positive : 1 ≤ cache.ways)
    (hits : cache.hits addr = true) :
    cache.indexOf addr = index ∧ cache.tagOf addr = tag := by
  obtain ⟨way, inRange, valid, same⟩ := (ICache.hits_iff positive addr).mp hits
  obtain ⟨sameIndex, sameTag⟩ := sole _ way inRange valid
  exact ⟨sameIndex, same.symm.trans sameTag⟩

theorem has_access (cache : ICache) (positive : 1 ≤ cache.ways)
    (addr : BitVec 32) :
    Has ((cache.accessCache addr).lines (cache.indexOf addr)) cache.ways
      (cache.tagOf addr) := by
  obtain ⟨way, placed, lines⟩ := ICache.placed positive addr
  refine ⟨way, placed.inRange, ?_⟩
  rw [lines, ICache.setLine_self, place, Function.update_self]
  exact ⟨rfl, rfl⟩

end Sole

namespace OneMore

variable {small big : ICache} {count : Nat}
variable {last : BitVec 32 → BitVec 32 → Nat} {index tag : BitVec 32}

/-- If the larger simulator never misses again, both see one block only. -/
theorem all_hits (oneMore : OneMore small big count last)
    (sole : Sole big index tag) (has : Has (small.lines index) small.ways tag)
    {trace : List (BitVec 32)}
    (inTime : small.ways = 1 ∨ count + trace.length ≤ 2 ^ 65)
    (allHit : ∀ hit ∈ big.outcomes trace, hit = true) :
    ∀ hit ∈ small.outcomes trace, hit = true := by
  induction trace generalizing small big count last with
  | nil =>
      simp [ICache.outcomes]
  | cons addr rest inductionHypothesis =>
      rw [ICache.outcomes, List.forall_mem_cons] at allHit ⊢
      obtain ⟨hits, allHit⟩ := allHit
      rw [List.length_cons] at inTime
      obtain ⟨last', oneMore'⟩ := oneMore.access (by omega) addr
      obtain ⟨sameIndex, sameTag⟩ := sole.of_hits oneMore.positive' hits
      have sole' := sole.access addr oneMore.positive' sameIndex sameTag
      rw [oneMore.indexOf_eq] at sameIndex
      rw [oneMore.tagOf_eq] at sameTag
      have sameWays := (ICache.sameShape_accessCache small addr).ways
      have has' := has_access small oneMore.positive addr
      rw [sameIndex, sameTag, ← sameWays] at has'
      refine ⟨?_, inductionHypothesis oneMore' sole' has' ?_ allHit⟩
      · rw [ICache.hits_iff_has oneMore.positive, sameIndex, sameTag]
        exact has
      · rw [sameWays]
        omega

end OneMore

theorem count_le_of_forall₂ {outcomes outcomes' : List Bool}
    (included : List.Forall₂ (fun hit hit' => hit = true → hit' = true)
      outcomes outcomes') :
    outcomes.count true ≤ outcomes'.count true := by
  induction included with
  | nil =>
      exact le_refl _
  | @cons hit hit' _ _ implies _ inductionHypothesis =>
      rw [List.count_cons, List.count_cons]
      cases hit with
      | true =>
          rw [implies rfl]
          omega
      | false =>
          simp only [Bool.false_beq, Bool.not_true, Bool.false_eq_true,
            if_false]
          omega

/-- The hits after a first access, modulo the width of `hit_count`. -/
theorem OneMore.count_mod_le {small big : ICache} {count : Nat}
    {last : BitVec 32 → BitVec 32 → Nat} {index tag : BitVec 32}
    (oneMore : OneMore small big count last) (sole : Sole big index tag)
    (has : Has (small.lines index) small.ways tag)
    {trace : List (BitVec 32)} (short : trace.length ≤ 2 ^ 64)
    (inTime : count + trace.length ≤ 2 ^ 65) :
    (small.outcomes trace).count true % 2 ^ 64 ≤
      (big.outcomes trace).count true % 2 ^ 64 := by
  have atMost := count_le_of_forall₂
    (oneMore.outcomes_le trace (Or.inr (by omega)))
  have bound : (big.outcomes trace).count true ≤ trace.length :=
    List.count_le_length.trans_eq (big.length_outcomes trace)
  rcases Nat.lt_or_ge ((big.outcomes trace).count true) (2 ^ 64) with
    fits | full
  · rw [Nat.mod_eq_of_lt fits, Nat.mod_eq_of_lt (atMost.trans_lt fits)]
    exact atMost
  · -- Then every access hits, in both.
    have every : (big.outcomes trace).count true =
        (big.outcomes trace).length := by
      rw [ICache.length_outcomes]
      omega
    have allHit : ∀ hit ∈ big.outcomes trace, hit = true := fun hit isIn =>
      (List.count_eq_length.mp every hit isIn).symm
    have allHit' := oneMore.all_hits sole has (Or.inr inTime) allHit
    have every' := List.count_eq_length.mpr
      fun hit isIn => (allHit' hit isIn).symm
    rw [every, every', ICache.length_outcomes, ICache.length_outcomes]

theorem start_misses (setBits ways blockBits : Nat) (positive : 1 ≤ ways)
    (tags : BitVec 32 → Nat → BitVec 32) (addr : BitVec 32) :
    (ICache.initCache setBits ways blockBits tags).hits addr = false := by
  refine Bool.eq_false_iff.mpr fun hits => ?_
  obtain ⟨way, _, valid, _⟩ := (ICache.hits_iff positive addr).mp hits
  exact Bool.false_ne_true valid

theorem start_sole (setBits ways blockBits : Nat)
    (tags : BitVec 32 → Nat → BitVec 32) (index tag : BitVec 32) :
    Sole (ICache.initCache setBits ways blockBits tags) index tag :=
  fun _ _ _ valid => absurd valid Bool.false_ne_true

/-- The hits of the two simulators, modulo the width of `hit_count`. -/
theorem count_mod_le (setBits blockBits : Nat) {ways : Nat}
    (positive : 1 ≤ ways) (tags tags' : BitVec 32 → Nat → BitVec 32)
    (trace : List (BitVec 32)) (short : trace.length ≤ 2 ^ 64 + 1) :
    ((ICache.initCache setBits ways blockBits tags).outcomes trace).count
        true % 2 ^ 64 ≤
      ((ICache.initCache setBits (ways + 1) blockBits tags').outcomes
        trace).count true % 2 ^ 64 := by
  cases trace with
  | nil =>
      exact le_refl _
  | cons addr rest =>
      rw [List.length_cons] at short
      have startMore := OneMore.start setBits positive blockBits tags tags'
      obtain ⟨last, oneMore⟩ := startMore.access (Or.inr (by omega)) addr
      have sole := (start_sole setBits (ways + 1) blockBits tags'
        _ _).access addr (Nat.le_add_left 1 ways) rfl rfl
      have has := has_access (ICache.initCache setBits ways blockBits tags)
        positive addr
      have sameWays := (ICache.sameShape_accessCache
        (ICache.initCache setBits ways blockBits tags) addr).ways
      rw [ICache.outcomes, ICache.outcomes,
        start_misses _ _ _ positive, start_misses _ _ _ (Nat.le_add_left 1 _),
        List.count_cons_of_ne Bool.false_ne_true,
        List.count_cons_of_ne Bool.false_ne_true]
      exact oneMore.count_mod_le sole (sameWays ▸ has) (by omega) (by omega)

/-- One more way loses no hit, up to the second wrap of the clock, and no count
of hits that `hit_count` can hold. -/
theorem one_more_way (setBits ways blockBits : Nat) (positive : 1 ≤ ways)
    (tags tags' : BitVec 32 → Nat → BitVec 32) (trace : List (BitVec 32)) :
    (ways = 1 ∨ trace.length ≤ 2 ^ 65 + 1 →
      List.Forall₂ (fun hit hit' => hit = true → hit' = true)
        ((ICache.initCache setBits ways blockBits tags).outcomes trace)
        ((ICache.initCache setBits (ways + 1) blockBits tags').outcomes
          trace)) ∧
    (trace.length ≤ 2 ^ 64 + 1 →
      (trace.foldl ICache.accessCache
          (ICache.initCache setBits ways blockBits tags)).hitCount.toNat ≤
        (trace.foldl ICache.accessCache
          (ICache.initCache setBits (ways + 1) blockBits
            tags')).hitCount.toNat) := by
  constructor
  · intro inTime
    refine (OneMore.start setBits positive blockBits tags tags').outcomes_le
      trace ?_
    rwa [Nat.zero_add]
  · intro short
    have zero (ways : Nat) (tags : BitVec 32 → Nat → BitVec 32) :
        (ICache.initCache setBits ways blockBits tags).hitCount = 0#64 := rfl
    rw [ICache.hitCount_foldl, ICache.hitCount_foldl, zero, zero,
      BitVec.zero_add, BitVec.zero_add, BitVec.toNat_ofNat,
      BitVec.toNat_ofNat]
    exact count_mod_le setBits blockBits positive tags tags' trace short

/-- A loop over three blocks of one set. -/
theorem one_more_way_at_loop :
    1 ≤ 2 ∧
    (2 = 1 ∨ [0x00#32, 0x10#32, 0x20#32, 0x00#32].length ≤ 2 ^ 65 + 1 →
      List.Forall₂ (fun hit hit' => hit = true → hit' = true)
        ((ICache.initCache 0 2 4 fun _ _ => 0).outcomes
          [0x00#32, 0x10#32, 0x20#32, 0x00#32])
        ((ICache.initCache 0 3 4 fun _ _ => 0).outcomes
          [0x00#32, 0x10#32, 0x20#32, 0x00#32])) ∧
    ([0x00#32, 0x10#32, 0x20#32, 0x00#32].length ≤ 2 ^ 64 + 1 →
      ([0x00#32, 0x10#32, 0x20#32, 0x00#32].foldl ICache.accessCache
          (ICache.initCache 0 2 4 fun _ _ => 0)).hitCount.toNat ≤
        ([0x00#32, 0x10#32, 0x20#32, 0x00#32].foldl ICache.accessCache
          (ICache.initCache 0 3 4 fun _ _ => 0)).hitCount.toNat) :=
  ⟨by decide, one_more_way 0 2 4 (by decide) (fun _ _ => 0) (fun _ _ => 0)
    [0x00#32, 0x10#32, 0x20#32, 0x00#32]⟩

/-! ## The clock wraps -/

section Wrap

/-- A line that was never used. -/
def CacheLine.blank : CacheLine := ⟨false, 0, 0⟩

/-- `access_cache` on the lines of a cache with one set, as a list, and whether
it hits. -/
def accessLines (lines : List CacheLine) (time : BitVec 64)
    (tag : BitVec 32) : Bool × List CacheLine :=
  match ICache.scan (fun way => lines.getD way .blank) tag 0
      (BitVec.allOnes 64) 0 lines.length with
  | .hit way => (true, lines.set way ⟨true, tag, time⟩)
  | .miss lruWay => (false, lines.set lruWay ⟨true, tag, time⟩)

/-- A cache with one set of blocks of one byte has these lines after `count`
accesses with `hits` hits. -/
structure Shows (cache : ICache) (lines : List CacheLine) (count hits : Nat) :
    Prop where
  setBits : cache.setBits = 0
  blockBits : cache.blockBits = 0
  ways : cache.ways = lines.length
  timer : cache.timer = BitVec.ofNat 64 count
  hitCount : cache.hitCount = BitVec.ofNat 64 hits
  lines : ∀ way, way < lines.length → cache.lines 0 way = lines.getD way .blank

theorem scan_congr {set set' : Nat → CacheLine} (tag : BitVec 32)
    {remaining way lruWay : Nat} {minTime : BitVec 64}
    (same : ∀ other, other < way + remaining → set other = set' other) :
    ICache.scan set tag lruWay minTime way remaining =
      ICache.scan set' tag lruWay minTime way remaining := by
  induction remaining generalizing way lruWay minTime with
  | zero =>
      rfl
  | succ remaining inductionHypothesis =>
      have here := same way (by omega)
      have later (lruWay : Nat) (minTime : BitVec 64) :
          ICache.scan set tag lruWay minTime (way + 1) remaining =
            ICache.scan set' tag lruWay minTime (way + 1) remaining :=
        inductionHypothesis fun other before => same other (by omega)
      rw [ICache.scan, ICache.scan, here, later, later]

namespace Shows

variable {cache : ICache} {lines : List CacheLine} {count hits : Nat}

theorem start (ways : Nat) :
    Shows (ICache.initCache 0 ways 0 fun _ _ => 0)
      (List.replicate ways .blank) 0 0 where
  setBits := rfl
  blockBits := rfl
  ways := List.length_replicate.symm
  timer := rfl
  hitCount := rfl
  lines way inRange := by
    rw [List.length_replicate] at inRange
    simp [ICache.initCache, CacheLine.blank, inRange]

theorem indexOf_eq (shows : Shows cache lines count hits) (addr : BitVec 32) :
    cache.indexOf addr = 0 := by
  simp [ICache.indexOf, shows.setBits]

theorem tagOf_eq (shows : Shows cache lines count hits) (addr : BitVec 32) :
    cache.tagOf addr = addr := by
  simp [ICache.tagOf, shows.setBits, shows.blockBits]

theorem search_eq (shows : Shows cache lines count hits) (addr : BitVec 32) :
    cache.search addr =
      ICache.scan (fun way => lines.getD way .blank) addr 0
        (BitVec.allOnes 64) 0 lines.length := by
  rw [ICache.search, shows.indexOf_eq, shows.tagOf_eq, shows.ways]
  exact scan_congr addr fun way before =>
    shows.lines way (by rwa [Nat.zero_add] at before)

/-- `set[way] = line` on the list. -/
theorem getD_set (shows : Shows cache lines count hits) (line : CacheLine)
    {way other : Nat} (inRange : other < lines.length) :
    cache.setLine 0 way line 0 other = (lines.set way line).getD other .blank := by
  have here := shows.lines other inRange
  rw [ICache.setLine, List.getD_eq_getElem?_getD, List.getElem?_set, here]
  by_cases same : other = way
  · simp [same, same ▸ inRange]
  · rw [if_neg fun both => same both.2, if_neg (Ne.symm same)]
    exact List.getD_eq_getElem?_getD ..

theorem access (shows : Shows cache lines count hits) {addr : BitVec 32}
    {isHit : Bool} {lines' : List CacheLine}
    (result : accessLines lines (BitVec.ofNat 64 (count + 1)) addr =
      (isHit, lines')) :
    cache.hits addr = isHit ∧
      Shows (cache.accessCache addr) lines' (count + 1)
        (hits + isHit.toNat) := by
  have search := shows.search_eq addr
  have sameShape := ICache.sameShape_accessCache cache addr
  have now : cache.timer + 1 = BitVec.ofNat 64 (count + 1) := by
    rw [shows.timer]
    exact (BitVec.ofNat_add count 1).symm
  have hitCount := ICache.accessCache_hitCount cache addr
  have after := cache.accessCache_lines addr
  rw [shows.indexOf_eq, shows.tagOf_eq, now] at after
  have shown (way : Nat) (isHit : Bool)
      (sameHit : cache.hits addr = isHit)
      (sameWay : (cache.search addr).way = way) :
      Shows (cache.accessCache addr)
        (lines.set way ⟨true, addr, BitVec.ofNat 64 (count + 1)⟩) (count + 1)
        (hits + isHit.toNat) := by
    refine ⟨sameShape.setBits.trans shows.setBits,
      sameShape.blockBits.trans shows.blockBits, ?_, ?_, ?_, ?_⟩
    · rw [sameShape.ways, shows.ways, List.length_set]
    · rw [ICache.accessCache_timer, now]
    · rw [hitCount, sameHit, shows.hitCount, BitVec.ofNat_add]
      cases isHit <;> simp
    · intro other inRange
      rw [List.length_set] at inRange
      rw [after, sameWay]
      exact shows.getD_set _ inRange
  cases scanned : ICache.scan (fun way => lines.getD way .blank) addr 0
      (BitVec.allOnes 64) 0 lines.length with
  | hit way =>
      rw [scanned] at search
      have hits : cache.hits addr = true := by simp [ICache.hits, search]
      simp only [accessLines, scanned, Prod.mk.injEq] at result
      obtain ⟨rfl, rfl⟩ := result
      exact ⟨hits, shown way true hits (by rw [search]; rfl)⟩
  | miss way =>
      rw [scanned] at search
      have misses : cache.hits addr = false := by simp [ICache.hits, search]
      simp only [accessLines, scanned, Prod.mk.injEq] at result
      obtain ⟨rfl, rfl⟩ := result
      exact ⟨misses, shown way false misses (by rw [search]; rfl)⟩

/-- Hits on one line, again and again. -/
theorem repeated {line : BitVec 64 → List CacheLine} {addr : BitVec 32}
    (again : ∀ time time', accessLines (line time) time' addr =
      (true, line time'))
    (shows : Shows cache (line (BitVec.ofNat 64 count)) count hits)
    (repeats : Nat) :
    Shows ((List.replicate repeats addr).foldl ICache.accessCache cache)
      (line (BitVec.ofNat 64 (count + repeats))) (count + repeats)
      (hits + repeats) := by
  induction repeats with
  | zero =>
      exact shows
  | succ repeats inductionHypothesis =>
      rw [List.replicate_succ', List.foldl_append]
      exact (inductionHypothesis.access (again _ _)).2

end Shows

/-- A cache of blocks of one byte in one set. -/
def oneSet (ways : Nat) : ICache := ICache.initCache 0 ways 0 fun _ _ => 0

/-- Blocks 0 and 1 in turn, and then block 0 alone. -/
def overflowTrace (repeats : Nat) : List (BitVec 32) :=
  [0, 1, 0] ++ List.replicate repeats 0

/-- `hit_count` after this trace. -/
theorem hitCount_overflowTrace (ways hits : Nat)
    (line : BitVec 64 → List CacheLine)
    (again : ∀ time time', accessLines (line time) time' 0 =
      (true, line time'))
    (start : Shows ([0, 1, 0].foldl ICache.accessCache (oneSet ways)) (line 3)
      3 hits) (repeats : Nat) :
    ((overflowTrace repeats).foldl ICache.accessCache
      (oneSet ways)).hitCount = BitVec.ofNat 64 (hits + repeats) := by
  rw [overflowTrace, List.foldl_append]
  exact (Shows.repeated again start repeats).hitCount

theorem hitCount_overflowTrace_one (repeats : Nat) :
    ((overflowTrace repeats).foldl ICache.accessCache (oneSet 1)).hitCount =
      BitVec.ofNat 64 repeats := by
  have first : Shows ((oneSet 1).accessCache 0) [⟨true, 0, 1⟩] 1 0 :=
    ((Shows.start 1).access rfl).2
  have second : Shows (((oneSet 1).accessCache 0).accessCache 1)
      [⟨true, 1, 2⟩] 2 0 := (first.access rfl).2
  have third : Shows ((((oneSet 1).accessCache 0).accessCache 1).accessCache 0)
      [⟨true, 0, 3⟩] 3 0 := (second.access rfl).2
  rw [hitCount_overflowTrace 1 0 (fun time => [⟨true, 0, time⟩])
    (fun _ _ => rfl) third, Nat.zero_add]

theorem hitCount_overflowTrace_two (repeats : Nat) :
    ((overflowTrace repeats).foldl ICache.accessCache (oneSet 2)).hitCount =
      BitVec.ofNat 64 (1 + repeats) := by
  have first : Shows ((oneSet 2).accessCache 0) [⟨true, 0, 1⟩, .blank] 1 0 :=
    ((Shows.start 2).access rfl).2
  have second : Shows (((oneSet 2).accessCache 0).accessCache 1)
      [⟨true, 0, 1⟩, ⟨true, 1, 2⟩] 2 0 := (first.access rfl).2
  have third : Shows ((((oneSet 2).accessCache 0).accessCache 1).accessCache 0)
      [⟨true, 0, 3⟩, ⟨true, 1, 2⟩] 3 1 := (second.access rfl).2
  exact hitCount_overflowTrace 2 1
    (fun time => [⟨true, 0, time⟩, ⟨true, 1, 2⟩])
    (fun _ _ => rfl) third repeats

/-- Block 0 until just before the clock wraps, then blocks 1 and 2, and block
1 until it has the time stamp of block 2; then block 3. -/
def tieTrace (before after : Nat) : List (BitVec 32) :=
  [0] ++ List.replicate before 0 ++ [1, 2, 1] ++ List.replicate after 1 ++ [3]

/-- Whether block 1 is a hit after this trace, by the lines after its first
access, before block 1 is repeated, and before its last one. -/
theorem hits_tieTrace {ways before after : Nat} {isHit : Bool}
    (line line' : BitVec 64 → List CacheLine)
    {lines₁ lines₂ lines₃ lines₄ : List CacheLine}
    (start : accessLines (List.replicate ways .blank) 1 0 = (false, line 1))
    (again : ∀ time time', accessLines (line time) time' 0 =
      (true, line time'))
    (block₁ : accessLines (line (BitVec.ofNat 64 (1 + before)))
      (BitVec.ofNat 64 (1 + before + 1)) 1 = (false, lines₁))
    (block₂ : accessLines lines₁ (BitVec.ofNat 64 (1 + before + 1 + 1)) 2 =
      (false, lines₂))
    (back : accessLines lines₂ (BitVec.ofNat 64 (1 + before + 1 + 1 + 1)) 1 =
      (true, line' (BitVec.ofNat 64 (1 + before + 1 + 1 + 1))))
    (again' : ∀ time time', accessLines (line' time) time' 1 =
      (true, line' time'))
    (block₃ : accessLines
        (line' (BitVec.ofNat 64 (1 + before + 1 + 1 + 1 + after)))
        (BitVec.ofNat 64 (1 + before + 1 + 1 + 1 + after + 1)) 3 =
      (false, lines₃))
    (last : accessLines lines₃
        (BitVec.ofNat 64 (1 + before + 1 + 1 + 1 + after + 1 + 1)) 1 =
      (isHit, lines₄)) :
    ((tieTrace before after).foldl ICache.accessCache
      (oneSet ways)).hits 1 = isHit := by
  have first := ((Shows.start ways).access start).2
  have shows₁ := ((first.repeated again before).access block₁).2
  have shows₂ := (shows₁.access block₂).2
  have shows' := (shows₂.access back).2
  have shows₃ := ((shows'.repeated again' after).access block₃).2
  simp only [tieTrace, List.foldl_append]
  exact (shows₃.access last).1

/-- With blocks 1 and 2 tied, the first of their ways is the victim: two ways
lose block 2, three ways lose block 1. -/
theorem hits_tieTrace_two :
    ((tieTrace (2 ^ 64 - 3) (2 ^ 64 - 1)).foldl ICache.accessCache
      (oneSet 2)).hits 1 = true := by
  have block₁ : accessLines
      [⟨true, 0, BitVec.ofNat 64 (1 + (2 ^ 64 - 3))⟩, .blank]
      (BitVec.ofNat 64 (1 + (2 ^ 64 - 3) + 1)) 1 =
      (false, [⟨true, 0, 0xfffffffffffffffe⟩, ⟨true, 1, 0xffffffffffffffff⟩]) := by
    decide +kernel
  have block₂ : accessLines
      [⟨true, 0, 0xfffffffffffffffe⟩, ⟨true, 1, 0xffffffffffffffff⟩]
      (BitVec.ofNat 64 (1 + (2 ^ 64 - 3) + 1 + 1)) 2 =
      (false, [⟨true, 2, 0⟩, ⟨true, 1, 0xffffffffffffffff⟩]) := by
    decide +kernel
  have block₃ : accessLines
      [⟨true, 2, 0⟩, ⟨true, 1, BitVec.ofNat 64
        (1 + (2 ^ 64 - 3) + 1 + 1 + 1 + (2 ^ 64 - 1))⟩]
      (BitVec.ofNat 64
        (1 + (2 ^ 64 - 3) + 1 + 1 + 1 + (2 ^ 64 - 1) + 1)) 3 =
      (false, [⟨true, 3, 1⟩, ⟨true, 1, 0⟩]) := by
    decide +kernel
  generalize 2 ^ 64 - 3 = before at *
  generalize 2 ^ 64 - 1 = after at *
  exact hits_tieTrace (fun time => [⟨true, 0, time⟩, .blank])
    (fun time => [⟨true, 2, 0⟩, ⟨true, 1, time⟩])
    rfl (fun _ _ => rfl) block₁ block₂ rfl (fun _ _ => rfl) block₃ rfl

theorem hits_tieTrace_three :
    ((tieTrace (2 ^ 64 - 3) (2 ^ 64 - 1)).foldl ICache.accessCache
      (oneSet 3)).hits 1 = false := by
  have block₁ : accessLines
      [⟨true, 0, BitVec.ofNat 64 (1 + (2 ^ 64 - 3))⟩, .blank, .blank]
      (BitVec.ofNat 64 (1 + (2 ^ 64 - 3) + 1)) 1 =
      (false, [⟨true, 0, 0xfffffffffffffffe⟩,
        ⟨true, 1, 0xffffffffffffffff⟩, .blank]) := by
    decide +kernel
  have block₂ : accessLines
      [⟨true, 0, 0xfffffffffffffffe⟩, ⟨true, 1, 0xffffffffffffffff⟩, .blank]
      (BitVec.ofNat 64 (1 + (2 ^ 64 - 3) + 1 + 1)) 2 =
      (false, [⟨true, 0, 0xfffffffffffffffe⟩,
        ⟨true, 1, 0xffffffffffffffff⟩, ⟨true, 2, 0⟩]) := by
    decide +kernel
  have block₃ : accessLines
      [⟨true, 0, 0xfffffffffffffffe⟩, ⟨true, 1, BitVec.ofNat 64
        (1 + (2 ^ 64 - 3) + 1 + 1 + 1 + (2 ^ 64 - 1))⟩, ⟨true, 2, 0⟩]
      (BitVec.ofNat 64
        (1 + (2 ^ 64 - 3) + 1 + 1 + 1 + (2 ^ 64 - 1) + 1)) 3 =
      (false, [⟨true, 0, 0xfffffffffffffffe⟩, ⟨true, 3, 1⟩,
        ⟨true, 2, 0⟩]) := by
    decide +kernel
  generalize 2 ^ 64 - 3 = before at *
  generalize 2 ^ 64 - 1 = after at *
  exact hits_tieTrace (fun time => [⟨true, 0, time⟩, .blank, .blank])
    (fun time => [⟨true, 0, 0xfffffffffffffffe⟩, ⟨true, 1, time⟩,
      ⟨true, 2, 0⟩])
    rfl (fun _ _ => rfl) block₁ block₂ rfl (fun _ _ => rfl) block₃ rfl

end Wrap

/-- The inclusion of the last access of a trace. -/
theorem last_of_forall₂ {small big : ICache} {earlier : List (BitVec 32)}
    {addr : BitVec 32}
    (included : List.Forall₂ (fun hit hit' => hit = true → hit' = true)
      (small.outcomes (earlier ++ [addr])) (big.outcomes (earlier ++ [addr])))
    (hits : (earlier.foldl ICache.accessCache small).hits addr = true) :
    (earlier.foldl ICache.accessCache big).hits addr = true := by
  have last := List.forall₂_drop earlier.length included
  rw [ICache.outcomes_append, ICache.outcomes_append,
    List.drop_left' (small.length_outcomes earlier),
    List.drop_left' (big.length_outcomes earlier), List.forall₂_cons] at last
  exact last.1 hits

/-- Two blocks with one time stamp, one wrap of the clock apart, break the
inclusion, and `hit_count` overflows. -/
theorem one_more_way_not_unbounded :
    (¬ ∀ (setBits ways blockBits : Nat)
        (tags tags' : BitVec 32 → Nat → BitVec 32) (trace : List (BitVec 32)),
        1 ≤ ways →
        List.Forall₂ (fun hit hit' => hit = true → hit' = true)
          ((ICache.initCache setBits ways blockBits tags).outcomes trace)
          ((ICache.initCache setBits (ways + 1) blockBits tags').outcomes
            trace)) ∧
    ¬ ∀ (setBits ways blockBits : Nat)
        (tags tags' : BitVec 32 → Nat → BitVec 32) (trace : List (BitVec 32)),
        1 ≤ ways →
        (trace.foldl ICache.accessCache
            (ICache.initCache setBits ways blockBits tags)).hitCount.toNat ≤
          (trace.foldl ICache.accessCache
            (ICache.initCache setBits (ways + 1) blockBits
              tags')).hitCount.toNat := by
  constructor
  · intro includes
    have hits := hits_tieTrace_two
    have misses := hits_tieTrace_three
    generalize tieTrace (2 ^ 64 - 3) (2 ^ 64 - 1) = trace at hits misses
    have included := includes 0 2 0 (fun _ _ => 0) (fun _ _ => 0)
      (trace ++ [1]) (by decide)
    exact Bool.false_ne_true
      (misses.symm.trans (last_of_forall₂ included hits))
  · intro counts
    have large : (BitVec.ofNat 64 (2 ^ 64 - 1)).toNat = 2 ^ 64 - 1 := by
      decide +kernel
    have small : (BitVec.ofNat 64 (1 + (2 ^ 64 - 1))).toNat = 0 := by
      decide +kernel
    have positive : 0 < 2 ^ 64 - 1 := by decide
    generalize 2 ^ 64 - 1 = repeats at large small positive
    have atMost := counts 0 1 0 (fun _ _ => 0) (fun _ _ => 0)
      (overflowTrace repeats) (by decide)
    have one := hitCount_overflowTrace_one repeats
    have two := hitCount_overflowTrace_two repeats
    rw [oneSet] at one two
    rw [one, two, large, small] at atMost
    omega

end Ysyx.Cachesim
