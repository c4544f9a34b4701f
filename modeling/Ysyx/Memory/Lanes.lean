import Ysyx.Nemu.Machine
import Ysyx.Lib.AxiMemory
import Ysyx.Rtl.Datapath
import Mathlib.Tactic.IntervalCases

/-!
# Byte lanes

The lanes of the load-store unit move naturally aligned bytes, half words and
words between the registers and an aligned word of memory.
-/

namespace Ysyx.Rtl

open Axi (Bytes)

/-! ## Positions in a word -/

section Positions

variable {addr : Word}

theorem offset_eq (addr : Word) :
    addr.extractLsb' 0 2 = BitVec.ofNat 2 (addr.toNat % 4) := by
  apply BitVec.eq_of_toNat_eq
  simp

/-- An address is a lane of its aligned word. -/
theorem align_add (addr : Word) :
    Bytes.align addr + BitVec.ofNat 32 (addr.toNat % 4) = addr := by
  have inWord := addr.isLt
  apply BitVec.eq_of_toNat_eq
  rw [BitVec.toNat_add, Bytes.toNat_align, BitVec.toNat_ofNat]
  omega

theorem align_of_aligned (aligned : addr.toNat % 4 = 0) :
    Bytes.align addr = addr := by
  apply BitVec.eq_of_toNat_eq
  rw [Bytes.toNat_align]
  omega

end Positions

/-! ## Loads -/

section Loads

variable {bytes : Bytes} {addr : Word}

theorem extract_word_byte {lane : Nat} (inWord : lane < 4) :
    (bytes.word addr).extractLsb' (8 * lane) 8 =
      bytes (Bytes.align addr + BitVec.ofNat 32 lane) := by
  apply BitVec.eq_of_getLsbD_eq
  intro bit inByte
  simp only [Bytes.word, BitVec.getLsbD_extractLsb', BitVec.getLsbD_append]
  interval_cases lane <;> interval_cases bit <;> simp

theorem extract_word_half {lane : Nat} (inWord : lane < 3) :
    (bytes.word addr).extractLsb' (8 * lane) 16 =
      bytes (Bytes.align addr + BitVec.ofNat 32 (lane + 1)) ++
        bytes (Bytes.align addr + BitVec.ofNat 32 lane) := by
  apply BitVec.eq_of_getLsbD_eq
  intro bit inHalf
  simp only [Bytes.word, BitVec.getLsbD_extractLsb', BitVec.getLsbD_append]
  interval_cases lane <;> interval_cases bit <;> simp

theorem byteData_eq (raw addr : Word) :
    byteData raw addr = raw.extractLsb' (8 * (addr.toNat % 4)) 8 := by
  have bound : addr.toNat % 4 < 4 := Nat.mod_lt _ (by decide)
  unfold byteData
  rw [offset_eq]
  generalize addr.toNat % 4 = lane at bound
  interval_cases lane <;> rfl

theorem halfData_eq (raw : Word) (inWord : addr.toNat % 4 < 3) :
    halfData raw addr = raw.extractLsb' (8 * (addr.toNat % 4)) 16 := by
  unfold halfData
  rw [offset_eq]
  generalize addr.toNat % 4 = lane at inWord
  interval_cases lane <;> rfl

theorem byteData_word :
    byteData (bytes.word addr) addr = bytes addr := by
  rw [byteData_eq, extract_word_byte (Nat.mod_lt _ (by decide)), align_add]

theorem halfData_word (inWord : addr.toNat % 4 < 3) :
    halfData (bytes.word addr) addr = bytes (addr + 1) ++ bytes addr := by
  have next : Bytes.align addr + BitVec.ofNat 32 (addr.toNat % 4 + 1) =
      addr + 1 := by
    rw [BitVec.ofNat_add, ← BitVec.add_assoc, align_add]
    rfl
  rw [halfData_eq _ inWord, extract_word_half inWord, next, align_add]

/-- The `read_mem` codes of the loads. -/
def loadCodes : List (BitVec 3) := [0b001, 0b010, 0b011, 0b110, 0b111]

/-- The unit finds the addressed bytes in their lanes. -/
theorem signExtend_word {readMem : BitVec 3} (code : readMem ∈ loadCodes)
    (aligned : addr.toNat % Datapath.readLen readMem = 0) :
    signExtend (bytes.word addr) readMem addr =
      signExtend (Nemu.hostRead bytes addr (Datapath.readLen readMem))
        readMem 0 := by
  have low (half : BitVec 16) : halfData (half.zeroExtend 32) 0 = half := by
    simp [halfData, BitVec.extractLsb'_setWidth_of_le]
  have lowByte (byte : BitVec 8) : byteData (byte.zeroExtend 32) 0 = byte := by
    simp [byteData, BitVec.extractLsb'_setWidth_of_le]
  have half (even : addr.toNat % 2 = 0) :
      halfData (bytes.word addr) addr =
        halfData (Nemu.hostRead bytes addr 2) 0 := by
    rw [halfData_word (by omega)]
    exact (low _).symm
  have byte : byteData (bytes.word addr) addr =
      byteData (Nemu.hostRead bytes addr 1) 0 := by
    rw [byteData_word]
    exact (lowByte _).symm
  simp only [loadCodes, List.mem_cons, List.not_mem_nil, or_false] at code
  rcases code with rfl | rfl | rfl | rfl | rfl
  · have whole : addr.toNat % 4 = 0 := aligned
    simp [signExtend, Bytes.word, Nemu.hostRead, Datapath.readLen,
      align_of_aligned whole]
  · exact congrArg (BitVec.zeroExtend 32) (half aligned)
  · exact congrArg (BitVec.zeroExtend 32) byte
  · exact congrArg (BitVec.signExtend 32) (half aligned)
  · exact congrArg (BitVec.signExtend 32) byte

end Loads

/-! ## Stores -/

section Stores

variable {addr data : Word} {writeMem : BitVec 2} {len : Nat}

theorem getLsbD_mask (width count bit : Nat) :
    (BitVec.ofNat width (2 ^ count - 1)).getLsbD bit =
      (decide (bit < width) && decide (bit < count)) := by
  rw [BitVec.getLsbD_ofNat, Nat.testBit_two_pow_sub_one]

theorem writeMem_cases (isStore : writeMem ≠ 0) :
    writeMem = 0b01 ∨ writeMem = 0b10 ∨ writeMem = 0b11 := by
  revert isStore
  revert writeMem
  decide

theorem genWstrb_eq (isStore : writeMem ≠ 0)
    (aligned : addr.toNat % Datapath.writeLen writeMem = 0) :
    genWstrb writeMem addr =
      Nemu.laneStrobe addr (Datapath.writeLen writeMem) := by
  have bound : addr.toNat % 4 < 4 := Nat.mod_lt _ (by decide)
  unfold genWstrb Nemu.laneStrobe
  rw [offset_eq]
  rcases writeMem_cases isStore with rfl | rfl | rfl
  · have whole : addr.toNat % 4 = 0 := aligned
    rw [whole]
    rfl
  · have even : addr.toNat % 2 = 0 := aligned
    generalize position : addr.toNat % 4 = lane at bound
    interval_cases lane
    · rfl
    · omega
    · rfl
    · omega
  · generalize addr.toNat % 4 = lane at bound
    interval_cases lane <;> rfl

theorem genWdataAligned_eq (isStore : writeMem ≠ 0)
    (aligned : addr.toNat % Datapath.writeLen writeMem = 0) :
    genWdataAligned writeMem addr data =
      Nemu.laneData addr (Datapath.writeLen writeMem) data := by
  have bound : addr.toNat % 4 < 4 := Nat.mod_lt _ (by decide)
  apply BitVec.eq_of_getLsbD_eq
  intro bit inWord
  unfold genWdataAligned Nemu.laneData
  rw [offset_eq, BitVec.getLsbD_shiftLeft, BitVec.getLsbD_and, getLsbD_mask]
  rcases writeMem_cases isStore with rfl | rfl | rfl
  · have whole : addr.toNat % 4 = 0 := aligned
    simp [whole, inWord, Datapath.writeLen]
  · have even : addr.toNat % 2 = 0 := aligned
    generalize position : addr.toNat % 4 = lane at bound
    interval_cases lane
    · simp [Datapath.writeLen]
      grind
    · omega
    · simp [Datapath.writeLen]
      grind
    · omega
  · generalize addr.toNat % 4 = lane at bound
    interval_cases lane <;> simp [Datapath.writeLen] <;> grind

/-- The strobed lanes of an aligned store are the addressed bytes. -/
theorem write_lanes (bytes : Bytes) (known : len = 1 ∨ len = 2 ∨ len = 4)
    (aligned : addr.toNat % len = 0) :
    bytes.write addr (Nemu.laneData addr len data)
        ((Nemu.laneStrobe addr len).extractLsb' 0 4) =
      Nemu.hostWrite bytes addr len data := by
  funext target
  have inSpace := addr.isLt
  have inSpace' := target.isLt
  have strobe (lane : Nat) (inWord : lane < 4) :
      ((Nemu.laneStrobe addr len).extractLsb' 0 4).getLsbD lane =
        decide (addr.toNat % 4 ≤ lane ∧ lane - addr.toNat % 4 < len) := by
    rw [BitVec.getLsbD_extractLsb', Nemu.laneStrobe,
      BitVec.getLsbD_shiftLeft, getLsbD_mask]
    grind
  have position : (target - addr).toNat =
      (2 ^ 32 - addr.toNat + target.toNat) % 2 ^ 32 := BitVec.toNat_sub _ _
  have sameWord : Bytes.align target = Bytes.align addr ↔
      target.toNat / 4 = addr.toNat / 4 := by
    rw [← BitVec.toNat_inj, Bytes.toNat_align, Bytes.toNat_align]
    omega
  unfold Bytes.write Nemu.hostWrite
  simp only [strobe _ (Nat.mod_lt _ (by decide : 0 < 4)), sameWord,
    decide_eq_true_eq]
  by_cases written : target.toNat / 4 = addr.toNat / 4 ∧
      addr.toNat % 4 ≤ target.toNat % 4 ∧
      target.toNat % 4 - addr.toNat % 4 < len
  · have lane : (target - addr).toNat =
        target.toNat % 4 - addr.toNat % 4 := by
      omega
    rw [if_pos written, if_pos ⟨known, by omega⟩, lane]
    apply BitVec.eq_of_getLsbD_eq
    intro bit inByte
    simp only [BitVec.getLsbD_extractLsb', Nemu.laneData,
      BitVec.getLsbD_shiftLeft, BitVec.getLsbD_and, getLsbD_mask]
    have source : 8 * (target.toNat % 4) + bit - 8 * (addr.toNat % 4) =
        8 * (target.toNat % 4 - addr.toNat % 4) + bit := by
      omega
    have inWord : 8 * (target.toNat % 4) + bit < 32 := by omega
    have above : ¬ 8 * (target.toNat % 4) + bit < 8 * (addr.toNat % 4) := by
      omega
    have small : 8 * (target.toNat % 4 - addr.toNat % 4) + bit < 32 := by
      omega
    have inAccess :
        8 * (target.toNat % 4 - addr.toNat % 4) + bit < 8 * len := by
      omega
    simp [source, inWord, above, small, inAccess]
  · have outside : ¬ (target - addr).toNat < len := by
      rcases known with rfl | rfl | rfl <;> omega
    rw [if_neg written, if_neg (fun hit => outside hit.2)]

end Stores

end Ysyx.Rtl
