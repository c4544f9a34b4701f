import Ysyx.Cache.Directory
import Ysyx.Rtl.System
import Ysyx.Tools.Cachesim

/-!
# The simulator against the instruction cache

The time stamps of the simulator and the LRU bits of the cache tell the same
order, so that both hit on the same accesses, as long as the clock of the
simulator does not wrap.
-/

namespace Ysyx.Cachesim

open Rtl (Word Directory ICacheParams)

namespace ICache

/-- Whether `access_cache` hits, for each access of a sequence. -/
def outcomes (cache : ICache) : List (BitVec 32) → List Bool
  | [] => []
  | addr :: rest => cache.hits addr :: (cache.accessCache addr).outcomes rest

theorem outcomes_append (cache : ICache) (earlier : List Word)
    (addr : Word) :
    cache.outcomes (earlier ++ [addr]) =
      cache.outcomes earlier ++
        [(earlier.foldl accessCache cache).hits addr] := by
  induction earlier generalizing cache with
  | nil =>
      rfl
  | cons first rest inductionHypothesis =>
      simp only [List.cons_append, outcomes, List.foldl_cons]
      rw [inductionHypothesis]

theorem accessCache_eq (cache : ICache) (addr : BitVec 32) :
    cache.accessCache addr =
      match cache.search addr with
      | .hit way =>
          { cache with
            totalAccess := cache.totalAccess + 1
            timer := cache.timer + 1
            hitCount := cache.hitCount + 1
            lines := cache.setLine (cache.indexOf addr) way
              { cache.lines (cache.indexOf addr) way with
                lastUseTime := cache.timer + 1 } }
      | .miss lruWay =>
          { cache with
            totalAccess := cache.totalAccess + 1
            timer := cache.timer + 1
            lines := cache.setLine (cache.indexOf addr) lruWay
              ⟨true, cache.tagOf addr, cache.timer + 1⟩ } := rfl

theorem accessCache_hitCount (cache : ICache) (addr : BitVec 32) :
    (cache.accessCache addr).hitCount =
      if cache.hits addr then cache.hitCount + 1 else cache.hitCount := by
  rw [accessCache_eq, hits]
  cases cache.search addr <;> rfl

theorem search_eq (cache : ICache) (ways : cache.ways = 2)
    (addr : BitVec 32) :
    cache.search addr =
      let set := cache.lines (cache.indexOf addr)
      if (set 0).valid ∧ (set 0).tag = cache.tagOf addr then .hit 0
      else if (set 1).valid ∧ (set 1).tag = cache.tagOf addr then .hit 1
      else .miss (if (set 1).lastUseTime < (set 0).lastUseTime then 1
        else 0) := by
  simp only [search, ways, scan]
  generalize cache.lines (cache.indexOf addr) = set
  have atMost : ¬ (set 0).lastUseTime < BitVec.allOnes 64 →
      (set 0).lastUseTime = BitVec.allOnes 64 := by
    intro notBelow
    have bound := (set 0).lastUseTime.isLt
    rw [BitVec.lt_def, BitVec.toNat_allOnes] at notBelow
    apply BitVec.eq_of_toNat_eq
    rw [BitVec.toNat_allOnes]
    omega
  by_cases below : (set 0).lastUseTime < BitVec.allOnes 64
  · grind
  · have same := atMost below
    grind

end ICache

variable {params : ICacheParams}

/-- The simulator for a cache of this shape. -/
def simulator (params : ICacheParams) (tags : BitVec 32 → Nat → BitVec 32) :
    ICache :=
  ICache.initCache params.indexWidth 2 params.blockWidth tags

/-- The set of the simulator for an index. -/
def setOf (index : BitVec params.indexWidth) : BitVec 32 :=
  index.setWidth 32

def wayOf : Bool → Nat
  | false => 0
  | true => 1

theorem setOf_injective {index other : BitVec params.indexWidth}
    (same : setOf index = setOf other) : index = other := by
  have narrow := params.width_lt
  have toNat := congrArg BitVec.toNat same
  simp only [setOf] at toNat
  rw [BitVec.toNat_setWidth_of_le (by omega),
    BitVec.toNat_setWidth_of_le (by omega)] at toNat
  exact BitVec.eq_of_toNat_eq toNat

/-- The simulator has the lines of the directory, and before its clock wraps
their order. -/
structure Agrees (directory : Directory params) (cache : ICache)
    (count : Nat) : Prop where
  blockBits : cache.blockBits = params.blockWidth
  setBits : cache.setBits = params.indexWidth
  ways : cache.ways = 2
  timer : cache.timer = BitVec.ofNat 64 count
  valid : ∀ way (index : BitVec params.indexWidth),
    (cache.lines (setOf index) (wayOf way)).valid = directory.valid way index
  tag : ∀ way (index : BitVec params.indexWidth),
    directory.valid way index = true →
      (cache.lines (setOf index) (wayOf way)).tag =
        (directory.tag way index).setWidth 32
  unique : ∀ index, directory.valid false index = true →
    directory.valid true index = true →
      directory.tag false index ≠ directory.tag true index
  ordered : count < 2 ^ 64 → ∀ index : BitVec params.indexWidth,
    (∀ way, (cache.lines (setOf index) (wayOf way)).lastUseTime.toNat ≤
      count) ∧
      directory.lru index =
        decide ((cache.lines (setOf index) 1).lastUseTime <
          (cache.lines (setOf index) 0).lastUseTime)

namespace Agrees

variable {directory : Directory params} {cache : ICache} {count : Nat}

theorem indexOf_eq (agrees : Agrees directory cache count)
    (addr : BitVec 32) :
    cache.indexOf addr = setOf (params.indexOf addr) := by
  have narrow := params.width_lt
  have inWord : 2 ^ params.indexWidth < 2 ^ 32 :=
    Nat.pow_lt_pow_right (by omega) (by omega)
  have mask : (BitVec.ofNat 32 (2 ^ params.indexWidth) - 1).toNat =
      2 ^ params.indexWidth - 1 := by
    have positive := Nat.two_pow_pos params.indexWidth
    have one : (1 : BitVec 32).toNat = 1 := rfl
    rw [BitVec.toNat_sub, BitVec.toNat_ofNat, Nat.mod_eq_of_lt inWord, one]
    omega
  apply BitVec.eq_of_toNat_eq
  rw [ICache.indexOf, agrees.blockBits, agrees.setBits, setOf,
    BitVec.toNat_setWidth_of_le (by omega), ICacheParams.toNat_indexOf,
    BitVec.toNat_and, mask, Nat.and_two_pow_sub_one_eq_mod,
    BitVec.toNat_ushiftRight, Nat.shiftRight_eq_div_pow]

theorem tagOf_eq (agrees : Agrees directory cache count)
    (addr : BitVec 32) :
    cache.tagOf addr = (params.tagOf addr).setWidth 32 := by
  apply BitVec.eq_of_toNat_eq
  rw [ICache.tagOf, agrees.blockBits, agrees.setBits,
    BitVec.toNat_setWidth_of_le (by simp [ICacheParams.tagWidth]; omega),
    ICacheParams.toNat_tagOf, BitVec.toNat_ushiftRight,
    Nat.shiftRight_eq_div_pow, Nat.add_comm]

theorem matches_iff (agrees : Agrees directory cache count)
    (addr : BitVec 32) (way : Bool) :
    ((cache.lines (cache.indexOf addr) (wayOf way)).valid = true ∧
        (cache.lines (cache.indexOf addr) (wayOf way)).tag =
          cache.tagOf addr) ↔
      directory.holds addr way = true := by
  rw [agrees.indexOf_eq, agrees.tagOf_eq, agrees.valid, Directory.holds,
    Bool.and_eq_true, beq_iff_eq]
  refine and_congr_right fun valid => ?_
  rw [agrees.tag way _ valid]
  constructor
  · intro same
    have narrow := params.width_lt
    have toNat := congrArg BitVec.toNat same
    rw [BitVec.toNat_setWidth_of_le (by simp [ICacheParams.tagWidth]; omega),
      BitVec.toNat_setWidth_of_le (by simp [ICacheParams.tagWidth]; omega)]
      at toNat
    exact BitVec.eq_of_toNat_eq toNat
  · intro same
    rw [same]

theorem hits_eq (agrees : Agrees directory cache count) (addr : BitVec 32) :
    cache.hits addr = directory.hits addr := by
  have way0 := agrees.matches_iff addr false
  have way1 := agrees.matches_iff addr true
  simp only [wayOf] at way0 way1
  rw [ICache.hits, cache.search_eq agrees.ways, Directory.hits]
  grind

end Agrees

/-- The way that an access leaves as the most recently used one. -/
def touched (directory : Directory params) (addr : Word) : Bool :=
  if directory.hits addr then directory.holds addr true
  else directory.lru (params.indexOf addr)

/-- After an access the line of its address is in the touched way, and the
other way is the least recently used one. -/
theorem access_eq (directory : Directory params) (addr : Word) :
    let after := directory.access addr
    let way := touched directory addr
    let index := params.indexOf addr
    (∀ way' index', after.valid way' index' =
        if index' = index ∧ way' = way then true
        else directory.valid way' index') ∧
      (∀ way' index', after.tag way' index' =
        if index' = index ∧ way' = way then params.tagOf addr
        else directory.tag way' index') ∧
      ∀ index', after.lru index' =
        if index' = index then !way else directory.lru index' := by
  cases hit : directory.hits addr with
  | true =>
      have holds : directory.holds addr (directory.holds addr true) =
          true := by
        simp only [Directory.hits, Bool.or_eq_true] at hit
        cases way1 : directory.holds addr true <;> simp_all
      obtain ⟨valid, tag⟩ : directory.valid (directory.holds addr true)
            (params.indexOf addr) = true ∧
          directory.tag (directory.holds addr true)
            (params.indexOf addr) = params.tagOf addr := by
        simpa [Directory.holds] using holds
      simp only [touched, hit, if_true, Directory.access]
      refine ⟨?_, ?_, ?_⟩
      · intro way' index'
        split_ifs with here
        · rw [here.1, here.2, valid]
        · rfl
      · intro way' index'
        split_ifs with here
        · rw [here.1, here.2, tag]
        · rfl
      · intro index'
        simp [Function.update_apply]
  | false =>
      simp only [touched, hit, Bool.false_eq_true, if_false,
        Directory.access]
      refine ⟨?_, ?_, ?_⟩
      · intro way' index'
        by_cases here : index' = params.indexOf addr <;>
          by_cases victim : way' = directory.lru (params.indexOf addr) <;>
          simp [here, victim]
      · intro way' index'
        by_cases here : index' = params.indexOf addr <;>
          by_cases victim : way' = directory.lru (params.indexOf addr) <;>
          simp [here, victim]
      · intro index'
        simp [Function.update_apply]

namespace Agrees

variable {directory : Directory params} {cache : ICache} {count : Nat}

theorem holds_unique (agrees : Agrees directory cache count) (addr : Word)
    (way0 : directory.holds addr false = true) :
    directory.holds addr true = false := by
  by_contra way1
  rw [Bool.not_eq_false] at way1
  simp only [Directory.holds, Bool.and_eq_true, beq_iff_eq] at way0 way1
  exact agrees.unique _ way0.1 way1.1 (way0.2.trans way1.2.symm)

theorem holds_other (agrees : Agrees directory cache count) (addr : Word) :
    directory.holds addr (!touched directory addr) = false := by
  by_cases way0 : directory.holds addr false = true
  · have way1 := agrees.holds_unique addr way0
    simp [touched, Directory.hits, way0, way1]
  · by_cases way1 : directory.holds addr true = true
    · simp [touched, Directory.hits, way0, way1]
    · cases lru : directory.lru (params.indexOf addr) <;>
        simp [touched, Directory.hits, way0, way1, lru]

/-- `access_cache` puts the line into the touched way, with a new time
stamp. -/
theorem accessCache_lines (agrees : Agrees directory cache count)
    (inTime : count < 2 ^ 64) (addr : Word) :
    (cache.accessCache addr).lines =
      cache.setLine (cache.indexOf addr) (wayOf (touched directory addr))
        ⟨true, cache.tagOf addr, cache.timer + 1⟩ := by
  have way0 := agrees.matches_iff addr false
  have way1 := agrees.matches_iff addr true
  have unique := agrees.holds_unique addr
  have lru := (agrees.ordered inTime (params.indexOf addr)).2
  rw [← agrees.indexOf_eq] at lru
  simp only [wayOf] at way0 way1
  rw [ICache.accessCache_eq, cache.search_eq agrees.ways, touched,
    Directory.hits]
  generalize cache.lines (cache.indexOf addr) = set at way0 way1 lru ⊢
  cases held0 : directory.holds addr false with
  | true =>
      obtain ⟨valid, tag⟩ := way0.mpr held0
      rw [if_pos ⟨valid, tag⟩, unique held0]
      change cache.setLine _ 0 ⟨(set 0).valid, (set 0).tag, _⟩ = _
      rw [valid, tag]
      rfl
  | false =>
      rw [if_neg (by simp [way0, held0])]
      cases held1 : directory.holds addr true with
      | true =>
          obtain ⟨valid, tag⟩ := way1.mpr held1
          rw [if_pos ⟨valid, tag⟩]
          change cache.setLine _ 1 ⟨(set 1).valid, (set 1).tag, _⟩ = _
          rw [valid, tag]
          rfl
      | false =>
          rw [if_neg (by simp [way1, held1])]
          simp only [Bool.or_self, Bool.false_eq_true, if_false, lru]
          by_cases older : (set 1).lastUseTime < (set 0).lastUseTime <;>
            simp [older, wayOf]

/-- The line of a way after an access. -/
theorem line_accessCache (agrees : Agrees directory cache count)
    (inTime : count < 2 ^ 64) (addr : Word) (way : Bool)
    (index : BitVec params.indexWidth) :
    (cache.accessCache addr).lines (setOf index) (wayOf way) =
      if index = params.indexOf addr ∧ way = touched directory addr then
        ⟨true, (params.tagOf addr).setWidth 32, cache.timer + 1⟩
      else cache.lines (setOf index) (wayOf way) := by
  have sameSet : setOf index = setOf (params.indexOf addr) ↔
      index = params.indexOf addr :=
    ⟨setOf_injective, congrArg setOf⟩
  have sameWay : wayOf way = wayOf (touched directory addr) ↔
      way = touched directory addr := by
    cases way <;> cases touched directory addr <;> simp [wayOf]
  rw [agrees.accessCache_lines inTime addr, agrees.indexOf_eq, agrees.tagOf_eq,
    ICache.setLine]
  simp only [sameSet, sameWay]

/-- The way that an access does not touch holds another line. -/
theorem tag_untouched (agrees : Agrees directory cache count) (addr : Word)
    {way : Bool} (untouched : way ≠ touched directory addr)
    (isValid : directory.valid way (params.indexOf addr) = true) :
    directory.tag way (params.indexOf addr) ≠ params.tagOf addr := by
  have other := agrees.holds_other addr
  rw [← Bool.eq_not.mpr untouched] at other
  intro same
  simp [Directory.holds, isValid, same] at other

/-- The two ways of a set hold different lines after an access, too. -/
theorem unique_access (agrees : Agrees directory cache count) (addr : Word)
    {index : BitVec params.indexWidth}
    (valid0 : (directory.access addr).valid false index = true)
    (valid1 : (directory.access addr).valid true index = true) :
    (directory.access addr).tag false index ≠
      (directory.access addr).tag true index := by
  obtain ⟨valid, tag, -⟩ := access_eq directory addr
  rw [valid] at valid0 valid1
  rw [tag, tag]
  by_cases here : index = params.indexOf addr
  · subst here
    cases way : touched directory addr with
    | false =>
        have isValid : directory.valid true (params.indexOf addr) = true := by
          simpa [way] using valid1
        have different := agrees.tag_untouched addr (by simp [way]) isValid
        simpa using different.symm
    | true =>
        have isValid : directory.valid false (params.indexOf addr) = true := by
          simpa [way] using valid0
        have different := agrees.tag_untouched addr (by simp [way]) isValid
        simpa using different
  · simp only [here, false_and, if_false] at valid0 valid1 ⊢
    exact agrees.unique index valid0 valid1

/-- An access keeps the geometry and counts. -/
theorem geometry_accessCache (cache : ICache) (addr : Word) :
    (cache.accessCache addr).blockBits = cache.blockBits ∧
      (cache.accessCache addr).setBits = cache.setBits ∧
      (cache.accessCache addr).ways = cache.ways ∧
      (cache.accessCache addr).timer = cache.timer + 1 := by
  rw [ICache.accessCache_eq]
  cases cache.search addr <;> exact ⟨rfl, rfl, rfl, rfl⟩

theorem step (agrees : Agrees directory cache count)
    (inTime : count < 2 ^ 64) (addr : Word) :
    Agrees (directory.access addr) (cache.accessCache addr) (count + 1) := by
  obtain ⟨valid, tag, lru⟩ := access_eq directory addr
  have line := agrees.line_accessCache inTime addr
  obtain ⟨blockBits, setBits, ways, timer⟩ := geometry_accessCache cache addr
  constructor
  · rw [blockBits, agrees.blockBits]
  · rw [setBits, agrees.setBits]
  · rw [ways, agrees.ways]
  · rw [timer, agrees.timer, BitVec.ofNat_add]
    rfl
  · intro way index
    rw [line, valid]
    split_ifs
    · rfl
    · exact agrees.valid way index
  · intro way index isValid
    rw [valid] at isValid
    rw [line, tag]
    split_ifs at isValid ⊢ with here
    · rfl
    · exact agrees.tag way index isValid
  · intro index valid0 valid1
    exact agrees.unique_access addr valid0 valid1
  · intro inTime' index
    have now : (cache.timer + 1).toNat = count + 1 := by
      rw [agrees.timer, BitVec.toNat_add, BitVec.toNat_ofNat]
      exact (Nat.mod_eq_of_lt (by
        rw [Nat.mod_eq_of_lt inTime]
        exact inTime')).trans (by rw [Nat.mod_eq_of_lt inTime]; rfl)
    obtain ⟨before, order⟩ := agrees.ordered inTime index
    refine ⟨?_, ?_⟩
    · intro way
      rw [line]
      split_ifs
      · exact now.le
      · exact Nat.le_succ_of_le (before way)
    · have line0 := line false index
      have line1 := line true index
      simp only [wayOf] at line0 line1
      rw [lru, line0, line1]
      have before0 := before false
      have before1 := before true
      simp only [wayOf] at before0 before1
      by_cases here : index = params.indexOf addr
      · subst here
        cases way : touched directory addr <;>
          simp only [true_and, if_true, Bool.false_eq_true,
            reduceCtorEq, if_false, Bool.not_true, Bool.not_false,
            BitVec.lt_def, now] <;>
          simp <;> omega
      · simp only [here, false_and, if_false]
        exact order

theorem start (power : Rtl.ICache params) (tags : BitVec 32 → Nat → BitVec 32) :
    Agrees power.reset.directory (simulator params tags) 0 where
  blockBits := rfl
  setBits := rfl
  ways := rfl
  timer := rfl
  valid := fun _ _ => rfl
  tag := fun _ _ => nofun
  unique := fun _ => nofun
  ordered := fun _ _ => ⟨fun _ => Nat.le_refl 0, rfl⟩

/-- The last access of a sequence may find the clock at zero again. -/
theorem outcomes_eq (agrees : Agrees directory cache count)
    (addrs : List Word) (inTime : count + addrs.length ≤ 2 ^ 64 + 1) :
    cache.outcomes addrs = directory.outcomes addrs := by
  induction addrs generalizing directory cache count with
  | nil =>
      rfl
  | cons addr rest inductionHypothesis =>
      rw [ICache.outcomes, Directory.outcomes, agrees.hits_eq addr]
      rw [List.length_cons] at inTime
      cases rest with
      | nil =>
          rfl
      | cons next rest =>
          rw [List.length_cons] at inTime
          have stepped := agrees.step (by omega) addr
          rw [inductionHypothesis stepped (by
            rw [List.length_cons]
            omega)]

end Agrees

/-! ## The prediction -/

/-- Up to one access after the clock of the simulator is at zero again,
`access_cache` hits on just the accesses on which the cache takes the hit path
of `LOOKUP`.  Every such sequence is the one of a run. -/
theorem run_outcomes (params : ICacheParams) (power : Rtl.ICache params)
    (tags : BitVec 32 → Nat → BitVec 32) (addrs : List Word)
    (cacheable : ∀ addr ∈ addrs, params.inWindow addr = true)
    (inTime : addrs.length ≤ 2 ^ 64 + 1) :
    (∃ ports, (∀ port ∈ ports, Rtl.ICache.Plain params port) ∧
        (Rtl.ICache.Logged.run power ports).addrs = addrs) ∧
      ∀ ports, (∀ port ∈ ports, Rtl.ICache.Plain params port) →
        (Rtl.ICache.Logged.run power ports).addrs = addrs →
        (Rtl.ICache.Logged.run power ports).log.map Prod.snd =
          (simulator params tags).outcomes addrs := by
  constructor
  · obtain ⟨ports, plain, -, same⟩ :=
      Rtl.ICache.Logged.exists_run power cacheable
    exact ⟨ports, plain, same⟩
  · intro ports plain same
    have followed := Rtl.ICache.Logged.run_followed power plain
    rw [followed.outcomes, same]
    exact ((Agrees.start power tags).outcomes_eq addrs (by omega)).symm

abbrev npcParams : ICacheParams := Rtl.Platform.npc.icacheParams

def power : Rtl.ICache npcParams :=
  (Rtl.Core.zeroed .npc).icache

/-- Three lines of one set of this cache. -/
def lineA : Word := 0x80000000
def lineB : Word := 0x80000080
def lineC : Word := 0x80000100

theorem cacheable_line :
    npcParams.inWindow lineA = true ∧ npcParams.inWindow lineB = true ∧
      npcParams.inWindow lineC = true := by
  decide

theorem run_outcomes_at_replacement :
    (∃ ports, (∀ port ∈ ports, Rtl.ICache.Plain npcParams port) ∧
        (Rtl.ICache.Logged.run power ports).addrs =
          [lineA, lineB, lineA, lineC, lineB]) ∧
      ∀ ports, (∀ port ∈ ports, Rtl.ICache.Plain npcParams port) →
        (Rtl.ICache.Logged.run power ports).addrs =
          [lineA, lineB, lineA, lineC, lineB] →
        (Rtl.ICache.Logged.run power ports).log.map Prod.snd =
          (simulator npcParams fun _ _ => 0).outcomes
            [lineA, lineB, lineA, lineC, lineB] :=
  run_outcomes npcParams power (fun _ _ => 0) [lineA, lineB, lineA, lineC, lineB]
    (by simp [cacheable_line]) (by simp)

/-! ## The clock wraps -/

/-- Line A, then line B again and again. -/
def beforeWrap (repeats : Nat) : List Word :=
  [lineA, lineB] ++ List.replicate repeats lineB

def simulatorAt (repeats : Nat) : ICache where
  blockBits := 3
  setBits := 4
  ways := 2
  totalAccess := BitVec.ofNat 64 (repeats + 2)
  hitCount := BitVec.ofNat 64 repeats
  timer := BitVec.ofNat 64 (repeats + 2)
  lines index way :=
    if index = 0 ∧ way = 1 then
      ⟨true, 0x1000001, BitVec.ofNat 64 (repeats + 2)⟩
    else if index = 0 ∧ way = 0 then ⟨true, 0x1000000, 1⟩
    else ⟨false, 0, 0⟩

theorem simulatorAt_step (repeats : Nat) :
    (simulatorAt repeats).accessCache lineB = simulatorAt (repeats + 1) := by
  have index : (simulatorAt repeats).indexOf lineB = 0 := by
    simp [ICache.indexOf, simulatorAt, lineB]
  have tag : (simulatorAt repeats).tagOf lineB = 0x1000001 := by
    simp [ICache.tagOf, simulatorAt, lineB]
  have search : (simulatorAt repeats).search lineB = .hit 1 := by
    rw [ICache.search_eq _ rfl, index, tag]
    simp [simulatorAt]
  have later (count : Nat) :
      BitVec.ofNat 64 count + 1 = BitVec.ofNat 64 (count + 1) :=
    (BitVec.ofNat_add count 1).symm
  simp only [ICache.accessCache_eq, search, index]
  simp only [simulatorAt, later, ICache.mk.injEq,
    Nat.add_right_comm repeats 1 2, true_and]
  funext index' way'
  simp only [ICache.setLine]
  split_ifs <;> simp_all

theorem simulatorAt_zero :
    (beforeWrap 0).foldl ICache.accessCache
      (simulator npcParams fun _ _ => 0) = simulatorAt 0 := by
  let fresh := simulator npcParams fun _ _ => 0
  let filled : ICache :=
    { fresh with
      totalAccess := 1
      timer := 1
      lines := fresh.setLine 0 0 ⟨true, 0x1000000, 1⟩ }
  have first : fresh.accessCache lineA = filled := by
    have miss : fresh.search lineA = .miss 0 := by decide +kernel
    have index : fresh.indexOf lineA = 0 := by decide +kernel
    have tag : fresh.tagOf lineA = 0x1000000 := by decide +kernel
    rw [ICache.accessCache_eq, miss, index, tag]
    rfl
  have second : filled.accessCache lineB = simulatorAt 0 := by
    have miss : filled.search lineB = .miss 1 := by decide +kernel
    have index : filled.indexOf lineB = 0 := by decide +kernel
    have tag : filled.tagOf lineB = 0x1000001 := by decide +kernel
    simp only [ICache.accessCache_eq, miss, index, tag]
    refine congrArg (ICache.mk 3 4 2 2 0 2) ?_
    funext index' way'
    by_cases inSecond : index' = 0 ∧ way' = 1
    · simp [ICache.setLine, inSecond, filled]
    · by_cases inFirst : index' = 0 ∧ way' = 0 <;>
        simp [ICache.setLine, inFirst, filled, fresh, simulator,
          ICache.initCache]
  simp only [beforeWrap, List.replicate_zero, List.append_nil,
    List.foldl_cons, List.foldl_nil]
  exact (congrArg (ICache.accessCache · lineB) first).trans second

theorem simulator_beforeWrap (repeats : Nat) :
    (beforeWrap repeats).foldl ICache.accessCache
        (simulator npcParams fun _ _ => 0) = simulatorAt repeats := by
  induction repeats with
  | zero =>
      exact simulatorAt_zero
  | succ repeats inductionHypothesis =>
      rw [beforeWrap, List.replicate_succ', ← List.append_assoc,
        List.foldl_append, ← beforeWrap, inductionHypothesis]
      exact simulatorAt_step repeats

def twoLines : Directory npcParams :=
  [lineA, lineB].foldl Directory.access power.reset.directory

theorem twoLines_access : twoLines.access lineB = twoLines := by
  have hit : twoLines.hits lineB = true := by decide +kernel
  have lru : Function.update twoLines.lru (npcParams.indexOf lineB)
      (!twoLines.holds lineB true) = twoLines.lru := by
    rw [Function.update_eq_self_iff]
    decide +kernel
  simp only [Directory.access, hit, if_true, lru]

theorem directory_beforeWrap (repeats : Nat) :
    (beforeWrap repeats).foldl Directory.access power.reset.directory =
      twoLines := by
  induction repeats with
  | zero =>
      rfl
  | succ repeats inductionHypothesis =>
      rw [beforeWrap, List.replicate_succ', ← List.append_assoc,
        List.foldl_append, ← beforeWrap, inductionHypothesis]
      exact twoLines_access

/-- With the clock at zero, line B looks older than line A, and line C
replaces it. -/
theorem wrap_hits :
    ((simulatorAt (2 ^ 64 - 2)).accessCache lineC).hits lineB = false ∧
      (twoLines.access lineC).hits lineB = true := by
  constructor
  · decide +kernel
  · decide +kernel

theorem hits_of_outcomes (repeats : Nat)
    (same : power.reset.directory.outcomes
        (beforeWrap repeats ++ [lineC] ++ [lineB]) =
      (simulator npcParams fun _ _ => 0).outcomes
        (beforeWrap repeats ++ [lineC] ++ [lineB])) :
    (twoLines.access lineC).hits lineB =
      ((simulatorAt repeats).accessCache lineC).hits lineB := by
  rw [Directory.outcomes_append, ICache.outcomes_append,
    List.foldl_append, List.foldl_append, directory_beforeWrap,
    simulator_beforeWrap] at same
  have last := (List.append_inj' same rfl).2
  exact (List.cons.inj last).1

theorem cacheable_beforeWrap (repeats : Nat) :
    ∀ addr ∈ beforeWrap repeats ++ [lineC] ++ [lineB],
      npcParams.inWindow addr = true := by
  obtain ⟨cacheableA, cacheableB, cacheableC⟩ := cacheable_line
  simp only [beforeWrap, List.mem_append, List.mem_cons, List.mem_replicate,
    List.not_mem_nil, or_false]
  rintro addr ((((rfl | rfl) | ⟨-, rfl⟩) | rfl) | rfl) <;> assumption

/-- Past the wrap the simulator may miss where the cache hits. -/
theorem run_outcomes_not_unbounded :
    ¬ ∀ (params : ICacheParams) (power : Rtl.ICache params)
        (tags : BitVec 32 → Nat → BitVec 32) (addrs : List Word),
        (∀ addr ∈ addrs, params.inWindow addr = true) →
        ∀ ports, (∀ port ∈ ports, Rtl.ICache.Plain params port) →
          (Rtl.ICache.Logged.run power ports).addrs = addrs →
          (Rtl.ICache.Logged.run power ports).log.map Prod.snd =
            (simulator params tags).outcomes addrs := by
  intro predicts
  obtain ⟨misses, hits⟩ := wrap_hits
  generalize 2 ^ 64 - 2 = repeats at misses
  obtain ⟨ports, plain, -, same⟩ :=
    Rtl.ICache.Logged.exists_run power (cacheable_beforeWrap repeats)
  have outcomes := predicts npcParams power (fun _ _ => 0) _
    (cacheable_beforeWrap repeats) ports plain same
  rw [(Rtl.ICache.Logged.run_followed power plain).outcomes, same] at outcomes
  rw [hits_of_outcomes repeats outcomes, misses] at hits
  contradiction

end Ysyx.Cachesim
