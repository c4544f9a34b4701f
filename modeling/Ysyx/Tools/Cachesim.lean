import Mathlib.Data.BitVec

/-!
# The cache simulator

`access_cache` and the reader loop of `cachesim.cpp`.
-/

namespace Ysyx.Cachesim

/-- `CacheLine`. -/
structure CacheLine where
  valid : Bool
  tag : BitVec 32
  lastUseTime : BitVec 64
  deriving DecidableEq, Repr

/-- The `ICache` of the simulator.  `block_size` and `num_sets` are powers of
two, given by their logarithms; `lines` is indexed by set and way. -/
structure ICache where
  blockBits : Nat
  setBits : Nat
  ways : Nat
  totalAccess : BitVec 64
  hitCount : BitVec 64
  timer : BitVec 64
  lines : BitVec 32 → Nat → CacheLine

namespace ICache

/-- `init_cache`; the tags are not initialised. -/
def initCache (setBits ways blockBits : Nat)
    (tags : BitVec 32 → Nat → BitVec 32) : ICache where
  blockBits
  setBits
  ways
  totalAccess := 0
  hitCount := 0
  timer := 0
  lines index way := ⟨false, tags index way, 0⟩

variable (cache : ICache)

def indexOf (addr : BitVec 32) : BitVec 32 :=
  (addr >>> cache.blockBits) &&& (BitVec.ofNat 32 (2 ^ cache.setBits) - 1)

def tagOf (addr : BitVec 32) : BitVec 32 :=
  addr >>> (cache.blockBits + cache.setBits)

/-- How the loop over the ways ends. -/
inductive Scan where
  | hit (way : Nat)
  | miss (lruWay : Nat)
  deriving DecidableEq, Repr

/-- The loop over the ways from `way` on, with `lru_way` and `min_time`. -/
def scan (set : Nat → CacheLine) (tag : BitVec 32) (lruWay : Nat)
    (minTime : BitVec 64) (way : Nat) : (remaining : Nat) → Scan
  | 0 => .miss lruWay
  | remaining + 1 =>
      if (set way).valid ∧ (set way).tag = tag then
        .hit way
      else if (set way).lastUseTime < minTime then
        scan set tag way (set way).lastUseTime (way + 1) remaining
      else
        scan set tag lruWay minTime (way + 1) remaining

/-- `set[way] = line`. -/
def setLine (index : BitVec 32) (way : Nat) (line : CacheLine) :
    BitVec 32 → Nat → CacheLine :=
  fun index' way' =>
    if index' = index ∧ way' = way then line else cache.lines index' way'

/-- The search of `access_cache` for an address. -/
def search (addr : BitVec 32) : Scan :=
  scan (cache.lines (cache.indexOf addr)) (cache.tagOf addr) 0
    (BitVec.allOnes 64) 0 cache.ways

/-- `access_cache` counts a hit. -/
def hits (addr : BitVec 32) : Bool :=
  match cache.search addr with
  | .hit _ => true
  | .miss _ => false

/-- `access_cache`. -/
def accessCache (addr : BitVec 32) : ICache :=
  let timer := cache.timer + 1
  let index := cache.indexOf addr
  let cache := { cache with totalAccess := cache.totalAccess + 1, timer }
  match cache.search addr with
  | .hit way =>
      { cache with
        hitCount := cache.hitCount + 1
        lines := cache.setLine index way
          { cache.lines index way with lastUseTime := timer } }
  | .miss lruWay =>
      { cache with
        lines := cache.setLine index lruWay
          ⟨true, cache.tagOf addr, timer⟩ }

end ICache

/-! ## The trace -/

/-- A node of the trace file: a run of consecutive instructions. -/
structure Node where
  startPc : BitVec 32
  count : BitVec 32
  deriving DecidableEq, Repr

/-- The addresses the inner loop of the reader passes to `access_cache`. -/
def Node.addresses (node : Node) : List (BitVec 32) :=
  (List.range node.count.toNat).map fun i =>
    node.startPc + BitVec.ofNat 32 i * 4

/-- The addresses of a whole trace file. -/
def addresses (file : List Node) : List (BitVec 32) :=
  file.flatMap Node.addresses

/-- The reader loop of `main`. -/
def replay (cache : ICache) (file : List Node) : ICache :=
  (addresses file).foldl ICache.accessCache cache

end Ysyx.Cachesim
