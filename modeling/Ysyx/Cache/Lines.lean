import Ysyx.Lib.AxiMemory
import Ysyx.Rtl.ICache
import Mathlib.Tactic.Ring

/-!
# Lines and refill bursts

The block of memory that a tag and an index name, and the bursts in which the
bus returns it to the instruction cache.
-/

namespace Ysyx.Rtl

/-! ## Addresses -/

namespace ICacheParams

/-- The address of a word of the block that a tag and an index name. -/
def lineAddr (params : ICacheParams) (tag : BitVec params.tagWidth)
    (index : BitVec params.indexWidth) (word : BitVec params.wordWidth) :
    Word :=
  BitVec.ofNat 32
    (tag.toNat * 2 ^ (params.indexWidth + params.blockWidth) +
      index.toNat * 2 ^ params.blockWidth + word.toNat * 4)

variable {params : ICacheParams}

theorem four_mul_wordsPerLine :
    4 * 2 ^ params.wordWidth = 2 ^ params.blockWidth := by
  have wide := params.three_le_blockWidth
  have width : params.blockWidth = params.wordWidth + 2 := by
    simp only [wordWidth]
    omega
  rw [width]
  ring

theorem toNat_tagOf (addr : Word) :
    (params.tagOf addr).toNat =
      addr.toNat / 2 ^ (params.indexWidth + params.blockWidth) := by
  have narrow := params.width_lt
  have whole :
      params.tagWidth + (params.indexWidth + params.blockWidth) = 32 := by
    simp only [tagWidth]
    omega
  rw [tagOf, BitVec.extractLsb'_toNat, Nat.shiftRight_eq_div_pow,
    Nat.mod_eq_of_lt]
  rw [Nat.div_lt_iff_lt_mul (Nat.two_pow_pos _), ← Nat.pow_add, whole]
  exact addr.isLt

theorem toNat_indexOf (addr : Word) :
    (params.indexOf addr).toNat =
      addr.toNat / 2 ^ params.blockWidth % 2 ^ params.indexWidth := by
  rw [indexOf, BitVec.extractLsb'_toNat, Nat.shiftRight_eq_div_pow]

theorem toNat_wordIdxOf (addr : Word) :
    (params.wordIdxOf addr).toNat =
      addr.toNat / 4 % 2 ^ params.wordWidth := by
  rw [wordIdxOf, BitVec.extractLsb'_toNat, Nat.shiftRight_eq_div_pow]

theorem tagOf_indexOf_eq (addr : Word) :
    (params.tagOf addr).toNat *
        2 ^ (params.indexWidth + params.blockWidth) +
      (params.indexOf addr).toNat * 2 ^ params.blockWidth =
    addr.toNat / 2 ^ params.blockWidth * 2 ^ params.blockWidth := by
  have split := Nat.div_add_mod (addr.toNat / 2 ^ params.blockWidth)
    (2 ^ params.indexWidth)
  rw [toNat_tagOf, toNat_indexOf, Nat.add_comm params.indexWidth,
    Nat.pow_add, ← Nat.div_div_eq_div_mul]
  calc
    _ = (2 ^ params.indexWidth *
          (addr.toNat / 2 ^ params.blockWidth / 2 ^ params.indexWidth) +
          addr.toNat / 2 ^ params.blockWidth % 2 ^ params.indexWidth) *
        2 ^ params.blockWidth := by ring
    _ = _ := by rw [split]

theorem lineAddr_of (addr : Word) :
    params.lineAddr (params.tagOf addr) (params.indexOf addr)
      (params.wordIdxOf addr) = Axi.Bytes.align addr := by
  have block := params.four_mul_wordsPerLine
  have inBlock : addr.toNat / 4 =
      addr.toNat / 2 ^ params.blockWidth * 2 ^ params.wordWidth +
        addr.toNat / 4 % 2 ^ params.wordWidth := by
    have split := Nat.div_add_mod (addr.toNat / 4) (2 ^ params.wordWidth)
    rw [Nat.div_div_eq_div_mul, block, Nat.mul_comm] at split
    exact split.symm
  have sum :
      addr.toNat / 2 ^ params.blockWidth * 2 ^ params.blockWidth +
        addr.toNat / 4 % 2 ^ params.wordWidth * 4 = addr.toNat / 4 * 4 := by
    calc
      _ = (addr.toNat / 2 ^ params.blockWidth * 2 ^ params.wordWidth +
            addr.toNat / 4 % 2 ^ params.wordWidth) * 4 := by
          rw [← block]
          ring
      _ = _ := by rw [← inBlock]
  have inWord := addr.isLt
  apply BitVec.eq_of_toNat_eq
  rw [lineAddr, tagOf_indexOf_eq, Axi.Bytes.toNat_align, toNat_wordIdxOf,
    BitVec.toNat_ofNat, sum]
  omega

/-- The beats of a refill burst run through the block. -/
theorem lineBase_add (addr : Word) (word : BitVec params.wordWidth) :
    params.lineBase addr + BitVec.ofNat 32 (4 * word.toNat) =
      params.lineAddr (params.tagOf addr) (params.indexOf addr) word := by
  apply BitVec.eq_of_toNat_eq
  rw [lineAddr, tagOf_indexOf_eq, lineBase, BitVec.toNat_add]
  simp only [BitVec.toNat_shiftLeft, BitVec.toNat_ushiftRight,
    Nat.shiftLeft_eq, Nat.shiftRight_eq_div_pow, BitVec.toNat_ofNat,
    Nat.mod_add_mod, Nat.add_mod_mod, Nat.mul_comm]

end ICacheParams

/-! ## Bursts -/

/-- A read burst that the bus has accepted from the cache, and the number of
its beats that are past. -/
structure Fetch where
  addr : Word
  len : BitVec 8
  beat : Nat
  deriving DecidableEq, Repr

namespace Fetch

def beatAddr (fetch : Fetch) : Word :=
  fetch.addr + BitVec.ofNat 32 (4 * fetch.beat)

def isLast (fetch : Fetch) : Bool := fetch.beat == fetch.len.toNat

/-- The burst after one more beat. -/
def advance (fetch : Fetch) : Option Fetch :=
  if fetch.isLast then none
  else some { fetch with beat := fetch.beat + 1 }

end Fetch

/-- One cycle of a bus that serves one burst at a time and returns its beats
in order.  `Right` says which data may come for a word of memory.  The beats
of a burst that the cache has abandoned may pass unseen. -/
structure Serves {params : ICacheParams} (Right : Word → Word → Prop)
    (cache : ICache params) (port : ICache.In)
    (fetch next : Option Fetch) : Prop where
  accepts : fetch = none →
    port.busRvalid = false ∧
      next = if cache.busArvalid ∧ port.busArready then
          some ⟨cache.busAraddr, cache.busArlen, 0⟩
        else none
  occupied : ∀ burst, fetch = some burst →
    ¬ (cache.busArvalid ∧ port.busArready)
  returns : ∀ burst, fetch = some burst → port.busRvalid →
    port.busRlast = burst.isLast ∧
      Right (Axi.Bytes.align burst.beatAddr) port.busRdata
  moves : ∀ burst, fetch = some burst →
    port.busRvalid ∧ next = burst.advance ∨
      ¬ (port.busRvalid ∧ cache.busRready) ∧ next = some burst

end Ysyx.Rtl
