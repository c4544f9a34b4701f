import Ysyx.Rtl.Bundles

/-!
# Instruction cache

`ysyx_25040131_icache`: two ways, write-allocate by burst refill, one LRU bit
per set, and an uncached bypass.
-/

namespace Ysyx.Rtl

/-- The parameters of `ysyx_25040131_icache` with its burst address window.
The source elaborates only when a tag of at least one bit remains. -/
structure ICacheParams where
  indexWidth : Nat
  blockWidth : Nat
  burstAddrLo : Word
  burstAddrHi : Word
  one_le_indexWidth : 1 ≤ indexWidth
  three_le_blockWidth : 3 ≤ blockWidth
  width_lt : indexWidth + blockWidth < 32

namespace ICacheParams

/-- `TAG_WIDTH`. -/
abbrev tagWidth (params : ICacheParams) : Nat :=
  32 - params.indexWidth - params.blockWidth

/-- The width of a word index inside a line, `$clog2(WORDS_PER_LINE)`. -/
abbrev wordWidth (params : ICacheParams) : Nat :=
  params.blockWidth - 2

/-- `WORDS_PER_LINE`. -/
def wordsPerLine (params : ICacheParams) : Nat :=
  2 ^ params.wordWidth

/-- Bits `XLEN-1 : INDEX_WIDTH+BLOCK_WIDTH` of an address. -/
def tagOf (params : ICacheParams) (addr : Word) : BitVec params.tagWidth :=
  addr.extractLsb' (params.indexWidth + params.blockWidth) params.tagWidth

/-- Bits `INDEX_WIDTH+BLOCK_WIDTH-1 : BLOCK_WIDTH` of an address. -/
def indexOf (params : ICacheParams) (addr : Word) :
    BitVec params.indexWidth :=
  addr.extractLsb' params.blockWidth params.indexWidth

/-- Bits `BLOCK_WIDTH-1 : 2` of an address. -/
def wordIdxOf (params : ICacheParams) (addr : Word) :
    BitVec params.wordWidth :=
  addr.extractLsb' 2 params.wordWidth

/-- The burst window test behind `is_cacheable`. -/
def inWindow (params : ICacheParams) (addr : Word) : Bool :=
  params.burstAddrLo ≤ addr && addr ≤ params.burstAddrHi

/-- The first address of the line that holds `addr`. -/
def lineBase (params : ICacheParams) (addr : Word) : Word :=
  (addr >>> params.blockWidth) <<< params.blockWidth

end ICacheParams

inductive ICacheState where
  | idle
  | lookup
  | missAr
  | missR
  deriving DecidableEq, Repr

/-- The registers of `ysyx_25040131_icache`.  Ways are numbered by `Bool`:
`false` is way 0 and `true` is way 1. -/
structure ICache (params : ICacheParams) where
  tagArray : Bool → BitVec params.indexWidth → BitVec params.tagWidth
  dataArray :
    Bool → BitVec params.indexWidth → BitVec params.wordWidth → Word
  validArray : Bool → BitVec params.indexWidth → Bool
  lruBit : BitVec params.indexWidth → Bool
  state : ICacheState
  reqAddrReg : Word
  missAddrReg : Word
  missIndexReg : BitVec params.indexWidth
  missTagReg : BitVec params.tagWidth
  missWayReg : Bool
  refillCnt : BitVec params.wordWidth
  refillComplete : Bool

namespace ICache

variable {params : ICacheParams}

/-- The input ports of `ysyx_25040131_icache`. -/
structure In where
  ifuAraddr : Word
  ifuArvalid : Bool
  ifuRready : Bool
  busArready : Bool
  busRdata : Word
  busRlast : Bool
  busRvalid : Bool
  flush : Bool
  isFenceI : Bool
  deriving DecidableEq, Repr

/-! ## Wires -/

def reqTag (cache : ICache params) : BitVec params.tagWidth :=
  params.tagOf cache.reqAddrReg

def reqIndex (cache : ICache params) : BitVec params.indexWidth :=
  params.indexOf cache.reqAddrReg

def reqWordIdx (cache : ICache params) : BitVec params.wordWidth :=
  params.wordIdxOf cache.reqAddrReg

/-- `hit_way0` and `hit_way1`. -/
def hitWay (cache : ICache params) (way : Bool) : Bool :=
  cache.validArray way cache.reqIndex &&
    cache.tagArray way cache.reqIndex == cache.reqTag

def cacheHit (cache : ICache params) : Bool :=
  cache.hitWay false || cache.hitWay true

/-- `cache_data`; way 0 is read unless way 1 hits. -/
def cacheData (cache : ICache params) : Word :=
  cache.dataArray (cache.hitWay true) cache.reqIndex cache.reqWordIdx

/-- `is_cacheable`, a function of the last miss address. -/
def isCacheable (cache : ICache params) : Bool :=
  params.inWindow cache.missAddrReg

def busArvalid (cache : ICache params) : Bool :=
  cache.state == .missAr

def busRready (cache : ICache params) : Bool :=
  cache.state == .missR

def busAraddr (cache : ICache params) : Word :=
  if cache.isCacheable then params.lineBase cache.missAddrReg
  else cache.missAddrReg

/-- `bus_arlen`, cut to the eight bits of the port. -/
def busArlen (cache : ICache params) : BitVec 8 :=
  if cache.isCacheable then BitVec.ofNat 8 (params.wordsPerLine - 1)
  else 0

def ifuArready (cache : ICache params) : Bool :=
  cache.state == .idle && !cache.refillComplete

def ifuRvalid (cache : ICache params) (busRvalid : Bool) : Bool :=
  (cache.state == .lookup && cache.cacheHit) ||
    (!cache.isCacheable && cache.state == .missR && busRvalid) ||
    (cache.isCacheable && cache.refillComplete)

def ifuRdata (cache : ICache params) (busRdata : Word) : Word :=
  if (cache.state == .lookup && cache.cacheHit) ||
      (cache.isCacheable && cache.refillComplete) then
    cache.cacheData
  else
    busRdata

/-- A refill beat of a cacheable line is taken in this cycle. -/
def refillBeat (cache : ICache params) (port : In) : Bool :=
  cache.state == .missR && port.busRvalid && cache.busRready &&
    cache.isCacheable

/-! ## Clocked blocks -/

/-- `next_state`. -/
def nextState (cache : ICache params) (port : In) : ICacheState :=
  match cache.state with
  | .idle => if port.ifuArvalid then .lookup else .idle
  | .lookup =>
      if cache.cacheHit then
        if port.ifuRready then .idle else .lookup
      else
        .missAr
  | .missAr => if port.busArready then .missR else .missAr
  | .missR =>
      if port.busRvalid ∧ cache.busRready ∧ port.busRlast then .idle
      else .missR

/-- The power-up arrays with everything under `reset` at its reset value. -/
def reset (cache : ICache params) : ICache params :=
  { cache with
    state := .idle
    missAddrReg := 0
    missIndexReg := 0
    missTagReg := 0
    missWayReg := false
    refillCnt := 0
    refillComplete := false
    validArray := fun _ _ => false
    lruBit := fun _ => false }

/-- The block that fills a line and updates the LRU bits. -/
def nextDataArray (cache : ICache params) (port : In) :
    Bool → BitVec params.indexWidth → BitVec params.wordWidth → Word :=
  fun way index word =>
    if ¬ port.isFenceI ∧ cache.refillBeat port ∧ way = cache.missWayReg ∧
        index = cache.missIndexReg ∧ word = cache.refillCnt then
      port.busRdata
    else
      cache.dataArray way index word

def nextTagArray (cache : ICache params) (port : In) :
    Bool → BitVec params.indexWidth → BitVec params.tagWidth :=
  fun way index =>
    if ¬ port.isFenceI ∧ cache.refillBeat port ∧ port.busRlast ∧
        way = cache.missWayReg ∧ index = cache.missIndexReg then
      cache.missTagReg
    else
      cache.tagArray way index

def nextValidArray (cache : ICache params) (port : In) :
    Bool → BitVec params.indexWidth → Bool :=
  fun way index =>
    if port.isFenceI then false
    else if cache.refillBeat port ∧ port.busRlast ∧
        way = cache.missWayReg ∧ index = cache.missIndexReg then
      true
    else
      cache.validArray way index

def nextLruBit (cache : ICache params) (port : In) :
    BitVec params.indexWidth → Bool :=
  fun index =>
    if port.isFenceI then false
    else if cache.state = .lookup ∧ cache.cacheHit ∧ port.ifuRready ∧
        index = cache.reqIndex then
      !cache.hitWay true
    else if cache.refillBeat port ∧ port.busRlast ∧
        index = cache.missIndexReg then
      !cache.missWayReg
    else
      cache.lruBit index

/-- One clock edge outside reset. -/
def next (cache : ICache params) (port : In) : ICache params :=
  let miss := cache.state = .lookup ∧ ¬ cache.cacheHit
  { tagArray := cache.nextTagArray port
    dataArray := cache.nextDataArray port
    validArray := cache.nextValidArray port
    lruBit := cache.nextLruBit port
    state := if port.flush then .idle else cache.nextState port
    reqAddrReg :=
      if cache.state = .idle ∧ port.ifuArvalid then port.ifuAraddr
      else cache.reqAddrReg
    missAddrReg := if miss then cache.reqAddrReg else cache.missAddrReg
    missIndexReg := if miss then cache.reqIndex else cache.missIndexReg
    missTagReg := if miss then cache.reqTag else cache.missTagReg
    missWayReg :=
      if miss then cache.lruBit cache.reqIndex else cache.missWayReg
    refillCnt :=
      if cache.refillBeat port then
        if port.busRlast then 0 else cache.refillCnt + 1
      else if miss then 0
      else cache.refillCnt
    refillComplete := cache.refillBeat port && port.busRlast }

end ICache

end Ysyx.Rtl
