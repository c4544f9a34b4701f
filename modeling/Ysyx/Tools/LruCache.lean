import Ysyx.Lib.Recency
import Ysyx.Tools.CachePrediction

/-!
# The simulator is an LRU cache

One access of `cachesim` with any number of ways, and the recency list that
the time stamps of a set stand for.
-/

namespace Ysyx.Cachesim

/-- The time stamp of a line. -/
def CacheLine.time (line : CacheLine) : Nat := line.lastUseTime.toNat

namespace ICache

variable {cache : ICache} {addr : BitVec 32}

/-! ## One access -/

/-- The line in this way is the block of the address. -/
def Holds (cache : ICache) (addr : BitVec 32) (way : Nat) : Prop :=
  (cache.lines (cache.indexOf addr) way).valid = true ∧
    (cache.lines (cache.indexOf addr) way).tag = cache.tagOf addr

/-- The first of the ways with the oldest time stamp. -/
structure Victim (set : Nat → CacheLine) (ways way : Nat) : Prop where
  inRange : way < ways
  oldest : ∀ other, other < ways → (set way).time ≤ (set other).time
  first : ∀ other, other < way → (set way).time < (set other).time

theorem Victim.unique {set : Nat → CacheLine} {ways way other : Nat}
    (victim : Victim set ways way) (victim' : Victim set ways other) :
    way = other := by
  rcases Nat.lt_trichotomy way other with before | same | after
  · have younger := victim'.first way before
    have older := victim.oldest other victim'.inRange
    omega
  · exact same
  · have younger := victim.first other after
    have older := victim'.oldest way victim.inRange
    omega

/-- The loop over the ways: `lru_way` is the victim among the ways before. -/
theorem scan_spec (set : Nat → CacheLine) (tag : BitVec 32)
    (lruWay : Nat) (minTime : BitVec 64) (way remaining : Nat)
    (noHit : ∀ other, other < way →
      ¬ ((set other).valid = true ∧ (set other).tag = tag))
    (isMin : ∀ other, other < way → minTime.toNat ≤ (set other).time)
    (isLru : lruWay < way ∧ minTime.toNat = (set lruWay).time ∧
        (∀ other, other < lruWay → minTime.toNat < (set other).time) ∨
      lruWay = 0 ∧ minTime = BitVec.allOnes 64) :
    (∃ hit, scan set tag lruWay minTime way remaining = .hit hit ∧
      hit < way + remaining ∧ (set hit).valid = true ∧
      (set hit).tag = tag) ∨
    ∃ lru, scan set tag lruWay minTime way remaining = .miss lru ∧
      (∀ other, other < way + remaining →
        ¬ ((set other).valid = true ∧ (set other).tag = tag)) ∧
      (1 ≤ way + remaining → Victim set (way + remaining) lru) := by
  induction remaining generalizing lruWay way minTime with
  | zero =>
      refine Or.inr ⟨lruWay, rfl, noHit, fun positive => ?_⟩
      rcases isLru with ⟨inRange, isTime, first⟩ | ⟨rfl, isMax⟩
      · exact ⟨inRange, fun other before => isTime ▸ isMin other before,
          fun other before => isTime ▸ first other before⟩
      · -- No time stamp is below `UINT64_MAX`.
        refine ⟨positive, fun other before => ?_, fun other before => ?_⟩
        · have largest := isMin other before
          have bound := (set 0).lastUseTime.isLt
          rw [isMax, BitVec.toNat_allOnes] at largest
          simp only [CacheLine.time] at largest ⊢
          omega
        · omega
  | succ remaining inductionHypothesis =>
      have shift : way + (remaining + 1) = way + 1 + remaining := by omega
      rw [scan, shift]
      by_cases isHit : (set way).valid = true ∧ (set way).tag = tag
      · rw [if_pos isHit]
        exact Or.inl ⟨way, rfl, by omega, isHit⟩
      · rw [if_neg isHit]
        have noHit' : ∀ other, other < way + 1 →
            ¬ ((set other).valid = true ∧ (set other).tag = tag) := by
          intro other before
          rcases Nat.lt_succ_iff_lt_or_eq.mp before with earlier | rfl
          · exact noHit other earlier
          · exact isHit
        by_cases older : (set way).lastUseTime < minTime
        · have olderTime : (set way).time < minTime.toNat := older
          rw [if_pos older]
          refine inductionHypothesis _ _ _ noHit' ?_
            (Or.inl ⟨by omega, rfl, fun other before =>
              olderTime.trans_le (isMin other before)⟩)
          intro other before
          rcases Nat.lt_succ_iff_lt_or_eq.mp before with earlier | rfl
          · exact olderTime.le.trans (isMin other earlier)
          · exact le_refl _
        · rw [if_neg older]
          refine inductionHypothesis _ _ _ noHit' ?_ ?_
          · intro other before
            rcases Nat.lt_succ_iff_lt_or_eq.mp before with earlier | rfl
            · exact isMin other earlier
            · exact Nat.le_of_not_lt older
          · rcases isLru with ⟨inRange, rest⟩ | isDefault
            · exact Or.inl ⟨by omega, rest⟩
            · exact Or.inr isDefault

theorem setLine_way (cache : ICache) (index : BitVec 32) (way : Nat)
    (line : CacheLine) : cache.setLine index way line index way = line :=
  if_pos ⟨rfl, rfl⟩

theorem setLine_other {way other : Nat} (different : other ≠ way)
    (cache : ICache) (index : BitVec 32) (line : CacheLine) :
    cache.setLine index way line index other = cache.lines index other :=
  if_neg fun same => different same.2

theorem setLine_of_ne (cache : ICache) {index index' : BitVec 32}
    (apart : index' ≠ index) (way : Nat) (line : CacheLine) :
    cache.setLine index way line index' = cache.lines index' := by
  funext other
  rw [setLine]
  exact if_neg fun same => apart same.1

/-- How `access_cache` ends: it leaves the block of the address in `way`, where
it was, or which was the victim of a miss. -/
inductive Outcome (cache : ICache) (addr : BitVec 32) (way : Nat) : Prop where
  | hit (hits : cache.hits addr = true) (inRange : way < cache.ways)
      (holds : cache.Holds addr way)
  | miss (misses : cache.hits addr = false)
      (notHeld : ∀ other, other < cache.ways → ¬ cache.Holds addr other)
      (victim : Victim (cache.lines (cache.indexOf addr)) cache.ways way)

/-- The way that `access_cache` writes. -/
def Scan.way : Scan → Nat
  | .hit way => way
  | .miss lruWay => lruWay

theorem search_spec (cache : ICache) (addr : BitVec 32) :
    (∃ way, cache.search addr = .hit way ∧ way < cache.ways ∧
      cache.Holds addr way) ∨
    ∃ way, cache.search addr = .miss way ∧
      (∀ other, other < cache.ways → ¬ cache.Holds addr other) ∧
      (1 ≤ cache.ways →
        Victim (cache.lines (cache.indexOf addr)) cache.ways way) := by
  have spec := scan_spec (cache.lines (cache.indexOf addr))
    (cache.tagOf addr) 0 (BitVec.allOnes 64) 0 cache.ways (by simp) (by simp)
    (Or.inr ⟨rfl, rfl⟩)
  simp only [Nat.zero_add] at spec
  exact spec

theorem accessCache_lines (cache : ICache) (addr : BitVec 32) :
    (cache.accessCache addr).lines =
      cache.setLine (cache.indexOf addr) (cache.search addr).way
        ⟨true, cache.tagOf addr, cache.timer + 1⟩ := by
  rw [accessCache_eq]
  rcases cache.search_spec addr with ⟨way, search, -, valid, tag⟩ |
    ⟨way, search, -⟩
  · rw [search]
    change cache.setLine _ way { cache.lines _ way with lastUseTime := _ } = _
    rw [← valid, ← tag]
    rfl
  · rw [search]
    rfl

theorem accessCache_spec (positive : 1 ≤ cache.ways) (addr : BitVec 32) :
    ∃ way, Outcome cache addr way ∧
      (cache.accessCache addr).lines =
        cache.setLine (cache.indexOf addr) way
          ⟨true, cache.tagOf addr, cache.timer + 1⟩ := by
  refine ⟨(cache.search addr).way, ?_, cache.accessCache_lines addr⟩
  rcases cache.search_spec addr with ⟨way, search, inRange, holds⟩ |
    ⟨way, search, notHeld, victim⟩
  · rw [search]
    exact .hit (by simp [hits, search]) inRange holds
  · rw [search]
    exact .miss (by simp [hits, search]) notHeld (victim positive)

theorem accessCache_timer (cache : ICache) (addr : BitVec 32) :
    (cache.accessCache addr).timer = cache.timer + 1 := by
  rw [accessCache_eq]
  cases cache.search addr <;> rfl

theorem toNat_timer_accessCache (addr : BitVec 32)
    (inTime : cache.timer.toNat + 1 < 2 ^ 64) :
    (cache.accessCache addr).timer.toNat = cache.timer.toNat + 1 := by
  have one : (1 : BitVec 64).toNat = 1 := rfl
  rw [accessCache_timer, BitVec.toNat_add, one, Nat.mod_eq_of_lt inTime]

/-- The geometry of the cache stays. -/
structure SameShape (cache cache' : ICache) : Prop where
  blockBits : cache'.blockBits = cache.blockBits
  setBits : cache'.setBits = cache.setBits
  ways : cache'.ways = cache.ways

theorem sameShape_accessCache (cache : ICache) (addr : BitVec 32) :
    SameShape cache (cache.accessCache addr) := by
  rw [accessCache_eq]
  cases cache.search addr <;> exact ⟨rfl, rfl, rfl⟩

theorem hits_iff (positive : 1 ≤ cache.ways) (addr : BitVec 32) :
    cache.hits addr = true ↔ ∃ way, way < cache.ways ∧
      cache.Holds addr way := by
  obtain ⟨way, outcome, -⟩ := accessCache_spec positive addr
  cases outcome with
  | hit hits inRange holds =>
      exact ⟨fun _ => ⟨way, inRange, holds⟩, fun _ => hits⟩
  | miss misses notHeld =>
      rw [misses]
      refine ⟨fun isHit => absurd isHit Bool.false_ne_true, ?_⟩
      rintro ⟨other, inRange, holds⟩
      exact absurd holds (notHeld other inRange)

end ICache

/-! ## Blocks and sets -/

/-- The lookup of a cache with these powers of two, on natural numbers. -/
def shape (setBits blockBits : Nat) :
    Recency.Shape (BitVec 32) Nat Nat where
  block addr := addr.toNat / 2 ^ blockBits
  set addr := addr.toNat / 2 ^ blockBits % 2 ^ setBits

namespace ICache

variable {cache : ICache} {addr : BitVec 32}

theorem toNat_indexOf (cache : ICache) (addr : BitVec 32) :
    (cache.indexOf addr).toNat =
      (shape cache.setBits cache.blockBits).set addr := by
  have mask : (BitVec.ofNat 32 (2 ^ cache.setBits) - 1).toNat =
      2 ^ (min cache.setBits 32) - 1 := by
    have one : (1 : BitVec 32).toNat = 1 := rfl
    rw [BitVec.toNat_sub, BitVec.toNat_ofNat, one]
    rcases Nat.lt_or_ge cache.setBits 32 with narrow | wide
    · have inWord : 2 ^ cache.setBits < 2 ^ 32 :=
        Nat.pow_lt_pow_right (by decide) narrow
      have positive := Nat.two_pow_pos cache.setBits
      rw [Nat.min_eq_left narrow.le, Nat.mod_eq_of_lt inWord]
      omega
    · rw [Nat.min_eq_right wide,
        Nat.mod_eq_zero_of_dvd (Nat.pow_dvd_pow 2 wide)]
      rfl
  have small : addr.toNat / 2 ^ cache.blockBits < 2 ^ 32 :=
    (Nat.div_le_self ..).trans_lt addr.isLt
  rw [indexOf, BitVec.toNat_and, mask, Nat.and_two_pow_sub_one_eq_mod,
    BitVec.toNat_ushiftRight, Nat.shiftRight_eq_div_pow]
  change _ = addr.toNat / 2 ^ cache.blockBits % 2 ^ cache.setBits
  rcases Nat.lt_or_ge cache.setBits 32 with narrow | wide
  · rw [Nat.min_eq_left narrow.le]
  · have inWord : 2 ^ 32 ≤ 2 ^ cache.setBits :=
      Nat.pow_le_pow_right (by decide) wide
    rw [Nat.min_eq_right wide, Nat.mod_eq_of_lt small,
      Nat.mod_eq_of_lt (small.trans_le inWord)]

theorem toNat_tagOf (cache : ICache) (addr : BitVec 32) :
    (cache.tagOf addr).toNat =
      (shape cache.setBits cache.blockBits).block addr / 2 ^ cache.setBits := by
  rw [tagOf, BitVec.toNat_ushiftRight, Nat.shiftRight_eq_div_pow, shape,
    Nat.div_div_eq_div_mul, Nat.pow_add]

/-- The block of the line in this way. -/
def blockAt (cache : ICache) (index : BitVec 32) (way : Nat) : Nat :=
  2 ^ cache.setBits * (cache.lines index way).tag.toNat + index.toNat

theorem block_eq (cache : ICache) (addr : BitVec 32) :
    2 ^ cache.setBits * (cache.tagOf addr).toNat +
        (cache.indexOf addr).toNat =
      (shape cache.setBits cache.blockBits).block addr := by
  rw [toNat_tagOf, toNat_indexOf]
  exact Nat.div_add_mod _ _

theorem holds_iff (cache : ICache) (addr : BitVec 32) (way : Nat) :
    cache.Holds addr way ↔
      (cache.lines (cache.indexOf addr) way).valid = true ∧
        cache.blockAt (cache.indexOf addr) way =
          (shape cache.setBits cache.blockBits).block addr := by
  rw [Holds, ← block_eq, blockAt, Nat.add_right_cancel_iff,
    Nat.mul_right_inj (Nat.two_pow_pos _).ne', BitVec.toNat_inj]

end ICache

/-! ## The order of a set -/

/-- The ways of a set by their time stamps, the most recent first, with the
blocks that they hold. -/
structure Ordered (cache : ICache) (index : BitVec 32) (recent order : List Nat) :
    Prop where
  nodup : order.Nodup
  inRange : ∀ way ∈ order, way < cache.ways
  valid : ∀ way, way < cache.ways →
    ((cache.lines index way).valid = true ↔ way ∈ order)
  sorted : order.Pairwise fun newer older =>
    (cache.lines index older).time < (cache.lines index newer).time
  used : ∀ way ∈ order, 0 < (cache.lines index way).time
  unused : ∀ way, way < cache.ways → way ∉ order →
    (cache.lines index way).time = 0
  past : ∀ way, way < cache.ways →
    (cache.lines index way).time ≤ cache.timer.toNat
  blocks : order.map (cache.blockAt index) = recent
  distinct : recent.Nodup

namespace Ordered

variable {cache : ICache} {addr index : BitVec 32} {recent order : List Nat}

theorem start (setBits ways blockBits : Nat)
    (tags : BitVec 32 → Nat → BitVec 32) (index : BitVec 32) :
    Ordered (ICache.initCache setBits ways blockBits tags) index [] [] where
  nodup := List.nodup_nil
  inRange := by simp
  valid := by simp [ICache.initCache]
  sorted := List.Pairwise.nil
  used := by simp
  unused := by simp [ICache.initCache, CacheLine.time]
  past := by simp [ICache.initCache, CacheLine.time]
  blocks := rfl
  distinct := List.nodup_nil

theorem length_le (ordered : Ordered cache index recent order) :
    order.length ≤ cache.ways := by
  have inside : order ⊆ List.range cache.ways := fun way isIn =>
    List.mem_range.mpr (ordered.inRange way isIn)
  simpa using (ordered.nodup.subperm inside).length_le

/-- The simulator hits on the blocks of the list. -/
theorem hits_eq (positive : 1 ≤ cache.ways)
    (ordered : Ordered cache (cache.indexOf addr) recent order) :
    cache.hits addr = true ↔
      (shape cache.setBits cache.blockBits).block addr ∈ recent := by
  rw [ICache.hits_iff positive, ← ordered.blocks, List.mem_map]
  constructor
  · rintro ⟨way, inRange, holds⟩
    obtain ⟨valid, block⟩ := (cache.holds_iff addr way).mp holds
    exact ⟨way, (ordered.valid way inRange).mp valid, block⟩
  · rintro ⟨way, isIn, block⟩
    have inRange := ordered.inRange way isIn
    exact ⟨way, inRange, (cache.holds_iff addr way).mpr
      ⟨(ordered.valid way inRange).mpr isIn, block⟩⟩

theorem mem_erase_iff (ordered : Ordered cache index recent order)
    {way other : Nat} :
    other ∈ order.erase way ↔ other ≠ way ∧ other ∈ order :=
  ordered.nodup.mem_erase_iff

/-- A line that another set keeps. -/
theorem other_set (ordered : Ordered cache index recent order)
    (otherSet : index ≠ cache.indexOf addr)
    (positive : 1 ≤ cache.ways) (inTime : cache.timer.toNat + 1 < 2 ^ 64) :
    Ordered (cache.accessCache addr) index recent order := by
  obtain ⟨way, -, lines⟩ := ICache.accessCache_spec positive addr
  have sameShape := ICache.sameShape_accessCache cache addr
  have line : (cache.accessCache addr).lines index = cache.lines index := by
    rw [lines, ICache.setLine_of_ne _ otherSet]
  have blockAt : (cache.accessCache addr).blockAt index =
      cache.blockAt index := by
    funext other
    rw [ICache.blockAt, ICache.blockAt, line, sameShape.setBits]
  constructor
  · exact ordered.nodup
  · rw [sameShape.ways]
    exact ordered.inRange
  · rw [sameShape.ways, line]
    exact ordered.valid
  · rw [line]
    exact ordered.sorted
  · rw [line]
    exact ordered.used
  · rw [sameShape.ways, line]
    exact ordered.unused
  · rw [sameShape.ways, line, ICache.toNat_timer_accessCache addr inTime]
    exact fun other inRange => Nat.le_succ_of_le (ordered.past other inRange)
  · rw [blockAt]
    exact ordered.blocks
  · exact ordered.distinct

/-- The touched way is now the most recent one. -/
theorem touch (ordered : Ordered cache (cache.indexOf addr) recent order)
    {way : Nat} (inRange : way < cache.ways)
    (lines : (cache.accessCache addr).lines =
      cache.setLine (cache.indexOf addr) way
        ⟨true, cache.tagOf addr, cache.timer + 1⟩)
    (inTime : cache.timer.toNat + 1 < 2 ^ 64)
    (apart : ∀ other ∈ order, other ≠ way →
      cache.blockAt (cache.indexOf addr) other ≠
        (shape cache.setBits cache.blockBits).block addr) :
    Ordered (cache.accessCache addr) (cache.indexOf addr)
      ((shape cache.setBits cache.blockBits).block addr ::
        (order.erase way).map (cache.blockAt (cache.indexOf addr)))
      (way :: order.erase way) := by
  have sameShape := ICache.sameShape_accessCache cache addr
  have timer := ICache.toNat_timer_accessCache addr inTime
  have isNew : (cache.accessCache addr).lines (cache.indexOf addr) way =
      ⟨true, cache.tagOf addr, cache.timer + 1⟩ := by
    rw [lines, ICache.setLine_way]
  have isOld {other : Nat} (different : other ≠ way) :
      (cache.accessCache addr).lines (cache.indexOf addr) other =
        cache.lines (cache.indexOf addr) other := by
    rw [lines, ICache.setLine_other different]
  have newTime : ((cache.accessCache addr).lines (cache.indexOf addr)
      way).time = cache.timer.toNat + 1 := by
    rw [isNew, ← timer, ICache.accessCache_timer]
    rfl
  have blockNew : (cache.accessCache addr).blockAt (cache.indexOf addr) way =
      (shape cache.setBits cache.blockBits).block addr := by
    rw [ICache.blockAt, isNew, sameShape.setBits, ICache.block_eq]
  have blockOld : (order.erase way).map
        ((cache.accessCache addr).blockAt (cache.indexOf addr)) =
      (order.erase way).map (cache.blockAt (cache.indexOf addr)) := by
    refine List.map_congr_left fun other isIn => ?_
    have different := (ordered.mem_erase_iff.mp isIn).1
    rw [ICache.blockAt, ICache.blockAt, isOld different, sameShape.setBits]
  have older : ∀ other ∈ order.erase way,
      ((cache.accessCache addr).lines (cache.indexOf addr) other).time <
        ((cache.accessCache addr).lines (cache.indexOf addr) way).time := by
    intro other isIn
    obtain ⟨different, isIn'⟩ := ordered.mem_erase_iff.mp isIn
    rw [newTime, isOld different]
    exact Nat.lt_succ_of_le (ordered.past other (ordered.inRange other isIn'))
  constructor
  · exact List.nodup_cons.mpr
      ⟨fun isIn => (ordered.mem_erase_iff.mp isIn).1 rfl,
        ordered.nodup.erase way⟩
  · rw [sameShape.ways]
    intro other isIn
    rcases List.mem_cons.mp isIn with rfl | isOther
    · exact inRange
    · exact ordered.inRange other (ordered.mem_erase_iff.mp isOther).2
  · rw [sameShape.ways]
    intro other inRange'
    by_cases same : other = way
    · simp [same, isNew]
    · rw [isOld same, ordered.valid other inRange', List.mem_cons,
        ordered.mem_erase_iff]
      simp [same]
  · refine List.pairwise_cons.mpr ⟨older, ?_⟩
    refine (ordered.sorted.sublist List.erase_sublist).imp_of_mem ?_
    intro newer other newerIn otherIn inOrder
    rw [isOld (ordered.mem_erase_iff.mp newerIn).1,
      isOld (ordered.mem_erase_iff.mp otherIn).1]
    exact inOrder
  · intro other isIn
    rcases List.mem_cons.mp isIn with rfl | isOther
    · rw [newTime]
      exact Nat.succ_pos _
    · obtain ⟨different, isIn'⟩ := ordered.mem_erase_iff.mp isOther
      rw [isOld different]
      exact ordered.used other isIn'
  · rw [sameShape.ways]
    intro other inRange' notIn
    rw [List.mem_cons, not_or] at notIn
    rw [isOld notIn.1]
    refine ordered.unused other inRange' fun isIn => notIn.2 ?_
    exact ordered.mem_erase_iff.mpr ⟨notIn.1, isIn⟩
  · rw [sameShape.ways, timer]
    intro other inRange'
    by_cases same : other = way
    · rw [same, newTime]
    · rw [isOld same]
      exact Nat.le_succ_of_le (ordered.past other inRange')
  · rw [List.map_cons, blockNew, blockOld]
  · refine List.nodup_cons.mpr ⟨?_, ?_⟩
    · intro isIn
      obtain ⟨other, otherIn, same⟩ := List.mem_map.mp isIn
      obtain ⟨different, isIn'⟩ := ordered.mem_erase_iff.mp otherIn
      exact apart other isIn' different same
    · have distinct := ordered.distinct
      rw [← ordered.blocks] at distinct
      exact distinct.sublist (List.erase_sublist.map _)

/-- The victim is unused or the last way of the order. -/
theorem erase_victim (ordered : Ordered cache index recent order) {way : Nat}
    (victim : ICache.Victim (cache.lines index) cache.ways way) :
    order.erase way = order.take (cache.ways - 1) := by
  by_cases isUsed : way ∈ order
  · -- Every way is used, and the victim is the last of them.
    have full : List.range cache.ways ⊆ order := by
      intro other isIn
      have inRange := List.mem_range.mp isIn
      by_contra notIn
      have zero := ordered.unused other inRange notIn
      have older := victim.oldest other inRange
      have positive := ordered.used way isUsed
      omega
    have enough : cache.ways ≤ order.length := by
      simpa using (List.nodup_range.subperm full).length_le
    obtain ⟨newer, last, rfl⟩ :=
      (List.eq_nil_or_concat' order).resolve_left (List.ne_nil_of_mem isUsed)
    have isLast : last = way := by
      by_contra different
      have inNewer : way ∈ newer := by
        rcases List.mem_append.mp isUsed with isIn | isIn
        · exact isIn
        · exact absurd (List.mem_singleton.mp isIn).symm different
      have younger := (List.pairwise_append.mp ordered.sorted).2.2 way inNewer
        last (List.mem_singleton_self last)
      have older := victim.oldest last (ordered.inRange last (by simp))
      omega
    have length := ordered.length_le
    rw [List.length_append, List.length_singleton] at length enough
    have notNewer : way ∉ newer := by
      intro isIn
      exact (List.nodup_append.mp ordered.nodup).2.2 way isIn way
        (by simp [isLast]) rfl
    rw [isLast, List.erase_append_right _ notNewer, List.take_left' (by omega)]
    simp
  · rw [List.erase_of_not_mem isUsed, List.take_of_length_le]
    have nodup : (way :: order).Nodup :=
      List.nodup_cons.mpr ⟨isUsed, ordered.nodup⟩
    have inside : way :: order ⊆ List.range cache.ways := by
      intro other isIn
      rcases List.mem_cons.mp isIn with rfl | isIn
      · exact List.mem_range.mpr victim.inRange
      · exact List.mem_range.mpr (ordered.inRange other isIn)
    have fits : order.length + 1 ≤ cache.ways := by
      simpa using (nodup.subperm inside).length_le
    omega

/-- One access to the set: the block becomes the most recent one. -/
theorem access (ordered : Ordered cache (cache.indexOf addr) recent order)
    (positive : 1 ≤ cache.ways) (inTime : cache.timer.toNat + 1 < 2 ^ 64) :
    ∃ order', Ordered (cache.accessCache addr) (cache.indexOf addr)
      (Recency.keep cache.ways
        ((shape cache.setBits cache.blockBits).block addr) recent) order' := by
  obtain ⟨way, outcome, lines⟩ := ICache.accessCache_spec positive addr
  refine ⟨way :: order.erase way, ?_⟩
  have distinct := ordered.distinct
  rw [← ordered.blocks] at distinct
  cases outcome with
  | hit hits inRange holds =>
      obtain ⟨valid, block⟩ := (cache.holds_iff addr way).mp holds
      have isIn := (ordered.valid way inRange).mp valid
      have apart : ∀ other ∈ order, other ≠ way →
          cache.blockAt (cache.indexOf addr) other ≠
            (shape cache.setBits cache.blockBits).block addr := by
        intro other otherIn different same
        exact different (List.inj_on_of_nodup_map distinct otherIn isIn
          (same.trans block.symm))
      have isRecent := (ordered.hits_eq positive).mp hits
      have fits : recent.length ≤ cache.ways := by
        rw [← ordered.blocks, List.length_map]
        exact ordered.length_le
      have touched := ordered.touch inRange lines inTime apart
      rw [Recency.map_erase_of_nodup _ distinct isIn, block,
        ordered.blocks] at touched
      rw [Recency.keep_of_mem isRecent fits]
      exact touched
  | miss misses notHeld victim =>
      have apart : ∀ other ∈ order, other ≠ way →
          cache.blockAt (cache.indexOf addr) other ≠
            (shape cache.setBits cache.blockBits).block addr := by
        intro other otherIn _ same
        have inRange := ordered.inRange other otherIn
        exact notHeld other inRange ((cache.holds_iff addr other).mpr
          ⟨(ordered.valid other inRange).mpr otherIn, same⟩)
      have notRecent :
          (shape cache.setBits cache.blockBits).block addr ∉ recent := by
        rw [← ordered.hits_eq positive, misses]
        exact Bool.false_ne_true
      have touched := ordered.touch victim.inRange lines inTime apart
      rw [ordered.erase_victim victim, List.map_take, ordered.blocks] at touched
      rw [Recency.keep_of_not_mem notRecent positive,
        ordered.erase_victim victim]
      exact touched

end Ordered

/-! ## Traces -/

/-- Every set of the simulator stands for its recency list. -/
structure Represents (cache : ICache) (setBits blockBits : Nat)
    (recents : Nat → List Nat) : Prop where
  setBits : cache.setBits = setBits
  blockBits : cache.blockBits = blockBits
  positive : 1 ≤ cache.ways
  sets : ∀ index : BitVec 32, ∃ order,
    Ordered cache index (recents index.toNat) order

namespace Represents

variable {cache : ICache} {setBits blockBits : Nat} {recents : Nat → List Nat}

theorem hits_eq (represents : Represents cache setBits blockBits recents)
    (addr : BitVec 32) :
    cache.hits addr = (shape setBits blockBits).hits recents addr := by
  obtain ⟨order, ordered⟩ := represents.sets (cache.indexOf addr)
  have hits := ordered.hits_eq represents.positive
  rw [ICache.toNat_indexOf, represents.setBits, represents.blockBits] at hits
  rw [Bool.eq_iff_iff, hits, Recency.Shape.hits, decide_eq_true_eq]

theorem access (represents : Represents cache setBits blockBits recents)
    (inTime : cache.timer.toNat + 1 < 2 ^ 64) (addr : BitVec 32) :
    Represents (cache.accessCache addr) setBits blockBits
      ((shape setBits blockBits).access cache.ways recents addr) := by
  have sameShape := ICache.sameShape_accessCache cache addr
  have set : (cache.indexOf addr).toNat = (shape setBits blockBits).set addr := by
    rw [ICache.toNat_indexOf, represents.setBits, represents.blockBits]
  refine ⟨sameShape.setBits.trans represents.setBits,
    sameShape.blockBits.trans represents.blockBits,
    sameShape.ways ▸ represents.positive, fun index => ?_⟩
  obtain ⟨order, ordered⟩ := represents.sets index
  by_cases here : index = cache.indexOf addr
  · subst here
    have accessed := ordered.access represents.positive inTime
    rw [represents.setBits, represents.blockBits] at accessed
    rw [Recency.Shape.access, ← set, Function.update_self]
    exact accessed
  · have apart : index.toNat ≠ (shape setBits blockBits).set addr := by
      rw [← set]
      exact fun same => here (BitVec.eq_of_toNat_eq same)
    rw [Recency.Shape.access, Function.update_of_ne apart]
    exact ⟨order, ordered.other_set here represents.positive inTime⟩

theorem outcomes_eq (represents : Represents cache setBits blockBits recents)
    (trace : List (BitVec 32))
    (inTime : cache.timer.toNat + trace.length < 2 ^ 64) :
    cache.outcomes trace =
      (shape setBits blockBits).outcomes cache.ways recents trace := by
  induction trace generalizing cache recents with
  | nil =>
      rfl
  | cons addr rest inductionHypothesis =>
      rw [List.length_cons] at inTime
      have timer : (cache.accessCache addr).timer.toNat =
          cache.timer.toNat + 1 :=
        ICache.toNat_timer_accessCache addr (by omega)
      have after := inductionHypothesis
        (represents.access (by omega) addr) (by omega)
      rw [(ICache.sameShape_accessCache cache addr).ways] at after
      rw [ICache.outcomes, Recency.Shape.outcomes, represents.hits_eq, after]

theorem start (setBits : Nat) {ways : Nat} (positive : 1 ≤ ways)
    (blockBits : Nat) (tags : BitVec 32 → Nat → BitVec 32) :
    Represents (ICache.initCache setBits ways blockBits tags) setBits blockBits
      fun _ => [] where
  setBits := rfl
  blockBits := rfl
  positive := positive
  sets index := ⟨[], Ordered.start setBits ways blockBits tags index⟩

end Represents

namespace ICache

/-- `hit_count` counts the hits, modulo its width. -/
theorem hitCount_foldl (cache : ICache) (trace : List (BitVec 32)) :
    (trace.foldl accessCache cache).hitCount =
      cache.hitCount + BitVec.ofNat 64 ((cache.outcomes trace).count true) := by
  induction trace generalizing cache with
  | nil =>
      simp [outcomes]
  | cons addr rest inductionHypothesis =>
      rw [List.foldl_cons, inductionHypothesis, accessCache_hitCount, outcomes,
        List.count_cons]
      cases cache.hits addr with
      | true =>
          simp only [if_true, beq_self_eq_true, BitVec.ofNat_add]
          rw [BitVec.add_assoc, BitVec.add_comm (1 : BitVec 64)]
          rfl
      | false =>
          simp

theorem length_outcomes (cache : ICache) (trace : List (BitVec 32)) :
    (cache.outcomes trace).length = trace.length := by
  induction trace generalizing cache with
  | nil =>
      rfl
  | cons addr rest inductionHypothesis =>
      rw [outcomes, List.length_cons, List.length_cons, inductionHypothesis]

/-- `hit_count` of a trace that cannot overflow it. -/
theorem toNat_hitCount (setBits ways blockBits : Nat)
    (tags : BitVec 32 → Nat → BitVec 32) (trace : List (BitVec 32))
    (fits : ((initCache setBits ways blockBits tags).outcomes trace).count
      true < 2 ^ 64) :
    (trace.foldl accessCache
        (initCache setBits ways blockBits tags)).hitCount.toNat =
      ((initCache setBits ways blockBits tags).outcomes trace).count true := by
  have zero : (initCache setBits ways blockBits tags).hitCount = 0#64 := rfl
  rw [hitCount_foldl, zero, BitVec.zero_add, BitVec.toNat_ofNat,
    Nat.mod_eq_of_lt fits]

end ICache

/-- `cachesim` counts the hits of the cache that keeps, for each set, the last
`ways` distinct blocks in the order of their use. -/
theorem hitCount_eq (setBits ways blockBits : Nat) (positive : 1 ≤ ways)
    (tags : BitVec 32 → Nat → BitVec 32) (trace : List (BitVec 32))
    (short : trace.length < 2 ^ 64) :
    (trace.foldl ICache.accessCache
        (ICache.initCache setBits ways blockBits tags)).hitCount.toNat =
      (shape setBits blockBits).hitCount ways trace := by
  have same := (Represents.start setBits positive blockBits tags).outcomes_eq
    trace (by simpa [ICache.initCache] using short)
  have bound : ((ICache.initCache setBits ways blockBits tags).outcomes
      trace).count true ≤ trace.length :=
    List.count_le_length.trans_eq (ICache.length_outcomes _ trace)
  rw [ICache.toNat_hitCount _ _ _ _ _ (bound.trans_lt short), same]
  rfl

/-- Two blocks of one set with one way evict each other. -/
theorem hitCount_eq_at_conflict :
    1 ≤ 1 ∧ [0x00#32, 0x10#32, 0x14#32, 0x00#32].length < 2 ^ 64 ∧
      ([0x00#32, 0x10#32, 0x14#32, 0x00#32].foldl ICache.accessCache
          (ICache.initCache 0 1 4 fun _ _ => 0)).hitCount.toNat =
        (shape 0 4).hitCount 1 [0x00#32, 0x10#32, 0x14#32, 0x00#32] :=
  ⟨by decide, by decide, hitCount_eq 0 1 4 (by decide) _ _ (by decide)⟩

end Ysyx.Cachesim
