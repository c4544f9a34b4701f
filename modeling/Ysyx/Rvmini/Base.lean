import Ysyx.Am.Trap

/-!
# The base instructions

The eight instructions that `inst-replace.h` keeps, what they do, and that NEMU
does the same on their encodings.
-/

namespace Ysyx.Rvmini

open Nemu

/-- A register number. -/
abbrev Reg := BitVec 5

/-- `add, addi, lui, lw, lbu, sw, sb, jalr`. -/
inductive Base where
  | add (rd rs1 rs2 : Reg)
  | addi (rd rs1 : Reg) (imm : BitVec 12)
  | lui (rd : Reg) (imm : BitVec 20)
  | lw (rd rs1 : Reg) (imm : BitVec 12)
  | lbu (rd rs1 : Reg) (imm : BitVec 12)
  | sw (rs2 rs1 : Reg) (imm : BitVec 12)
  | sb (rs2 rs1 : Reg) (imm : BitVec 12)
  | jalr (rd rs1 : Reg) (imm : BitVec 12)
  deriving DecidableEq, Repr

namespace Base

/-- The word that the assembler emits. -/
def encode : Base → Word
  | add rd rs1 rs2 => 0#7 ++ rs2 ++ rs1 ++ 0b000#3 ++ rd ++ 0b0110011#7
  | addi rd rs1 imm => imm ++ rs1 ++ 0b000#3 ++ rd ++ 0b0010011#7
  | lui rd imm => imm ++ rd ++ 0b0110111#7
  | lw rd rs1 imm => imm ++ rs1 ++ 0b010#3 ++ rd ++ 0b0000011#7
  | lbu rd rs1 imm => imm ++ rs1 ++ 0b100#3 ++ rd ++ 0b0000011#7
  | sw rs2 rs1 imm =>
      imm.extractLsb' 5 7 ++ rs2 ++ rs1 ++ 0b010#3 ++ imm.extractLsb' 0 5 ++
        0b0100011#7
  | sb rs2 rs1 imm =>
      imm.extractLsb' 5 7 ++ rs2 ++ rs1 ++ 0b000#3 ++ imm.extractLsb' 0 5 ++
        0b0100011#7
  | jalr rd rs1 imm => imm ++ rs1 ++ 0b000#3 ++ rd ++ 0b1100111#7

/-- The effect of one instruction. -/
def exec (state : State) : Base → State
  | add rd rs1 rs2 =>
      ⟨state.pc + 4,
        state.cpu.setR rd (state.cpu.gpr rs1 + state.cpu.gpr rs2), state.pmem⟩
  | addi rd rs1 imm =>
      ⟨state.pc + 4,
        state.cpu.setR rd (state.cpu.gpr rs1 + imm.signExtend 32), state.pmem⟩
  | lui rd imm => ⟨state.pc + 4, state.cpu.setR rd (imm ++ 0#12), state.pmem⟩
  | lw rd rs1 imm =>
      ⟨state.pc + 4, state.cpu.setR rd
        (hostRead state.pmem (state.cpu.gpr rs1 + imm.signExtend 32) 4),
        state.pmem⟩
  | lbu rd rs1 imm =>
      ⟨state.pc + 4, state.cpu.setR rd
        (hostRead state.pmem (state.cpu.gpr rs1 + imm.signExtend 32) 1),
        state.pmem⟩
  | sw rs2 rs1 imm =>
      ⟨state.pc + 4, state.cpu,
        hostWrite state.pmem (state.cpu.gpr rs1 + imm.signExtend 32) 4
          (state.cpu.gpr rs2)⟩
  | sb rs2 rs1 imm =>
      ⟨state.pc + 4, state.cpu,
        hostWrite state.pmem (state.cpu.gpr rs1 + imm.signExtend 32) 1
          (state.cpu.gpr rs2)⟩
  | jalr rd rs1 imm =>
      ⟨(state.cpu.gpr rs1 + imm.signExtend 32) &&& ~~~1,
        state.cpu.setR rd (state.pc + 4), state.pmem⟩

end Base

section Effects

variable (state : State) (rd rs1 rs2 : Reg) (imm : BitVec 12)

@[simp] theorem Base.exec_add :
    (Base.add rd rs1 rs2).exec state =
      ⟨state.pc + 4,
        state.cpu.setR rd (state.cpu.gpr rs1 + state.cpu.gpr rs2),
        state.pmem⟩ := rfl

@[simp] theorem Base.exec_addi :
    (Base.addi rd rs1 imm).exec state =
      ⟨state.pc + 4,
        state.cpu.setR rd (state.cpu.gpr rs1 + imm.signExtend 32),
        state.pmem⟩ := rfl

@[simp] theorem Base.exec_lw :
    (Base.lw rd rs1 imm).exec state =
      ⟨state.pc + 4, state.cpu.setR rd
        (hostRead state.pmem (state.cpu.gpr rs1 + imm.signExtend 32) 4),
        state.pmem⟩ := rfl

@[simp] theorem Base.exec_lbu :
    (Base.lbu rd rs1 imm).exec state =
      ⟨state.pc + 4, state.cpu.setR rd
        (hostRead state.pmem (state.cpu.gpr rs1 + imm.signExtend 32) 1),
        state.pmem⟩ := rfl

@[simp] theorem Base.exec_sw :
    (Base.sw rs2 rs1 imm).exec state =
      ⟨state.pc + 4, state.cpu,
        hostWrite state.pmem (state.cpu.gpr rs1 + imm.signExtend 32) 4
          (state.cpu.gpr rs2)⟩ := rfl

@[simp] theorem Base.exec_sb :
    (Base.sb rs2 rs1 imm).exec state =
      ⟨state.pc + 4, state.cpu,
        hostWrite state.pmem (state.cpu.gpr rs1 + imm.signExtend 32) 1
          (state.cpu.gpr rs2)⟩ := rfl

@[simp] theorem Base.exec_jalr :
    (Base.jalr rd rs1 imm).exec state =
      ⟨(state.cpu.gpr rs1 + imm.signExtend 32) &&& ~~~1,
        state.cpu.setR rd (state.pc + 4), state.pmem⟩ := rfl

end Effects

/-! ## Decoding -/

section Formats

variable {inst : Word} {rd rs1 rs2 : Reg}

theorem matches_rType {funct3 : BitVec 3} {funct7 opcode : BitVec 7}
    (format : inst = funct7 ++ rs2 ++ rs1 ++ funct3 ++ rd ++ opcode) :
    inst &&& 0xfe00707f = funct7 ++ 0#10 ++ funct3 ++ 0#5 ++ opcode ∧
      Am.rs1Of inst = rs1 ∧ Am.rs2Of inst = rs2 ∧ Am.rdOf inst = rd := by
  have field : ∀ k, inst.getLsbD k = _ := fun k =>
    congrArg (BitVec.getLsbD · k) format
  simp only [BitVec.getLsbD_append] at field
  refine ⟨?_, ?_, ?_, ?_⟩
  · apply BitVec.eq_of_getLsbD_eq
    intro k inRange
    simp only [BitVec.getLsbD_and, field, BitVec.getLsbD_append]
    interval_cases k <;> simp
  · apply BitVec.eq_of_getLsbD_eq
    intro k inRange
    rw [Am.rs1Of_eq, BitVec.getLsbD_extractLsb', field]
    interval_cases k <;> simp
  · apply BitVec.eq_of_getLsbD_eq
    intro k inRange
    rw [Am.rs2Of_eq, BitVec.getLsbD_extractLsb', field]
    interval_cases k <;> simp
  · apply BitVec.eq_of_getLsbD_eq
    intro k inRange
    rw [Am.rdOf_eq, BitVec.getLsbD_extractLsb', field]
    interval_cases k <;> simp

theorem matches_uType {imm : BitVec 20} {opcode : BitVec 7}
    (format : inst = imm ++ rd ++ opcode) :
    inst &&& 0x7f = (opcode.setWidth 32 : Word) ∧ Am.rdOf inst = rd ∧
      immU inst = imm ++ 0#12 := by
  have field : ∀ k, inst.getLsbD k = _ := fun k =>
    congrArg (BitVec.getLsbD · k) format
  simp only [BitVec.getLsbD_append] at field
  have upper : (bits inst 31 12).setWidth 20 = imm := by
    rw [show _ = inst.extractLsb' 12 20 from bits_setWidth inst rfl (by decide)]
    apply BitVec.eq_of_getLsbD_eq
    intro k inRange
    rw [BitVec.getLsbD_extractLsb', field]
    interval_cases k <;> simp
  refine ⟨?_, ?_, ?_⟩
  · apply BitVec.eq_of_getLsbD_eq
    intro k inRange
    simp only [BitVec.getLsbD_and, field, BitVec.getLsbD_setWidth]
    interval_cases k <;> simp
  · apply BitVec.eq_of_getLsbD_eq
    intro k inRange
    rw [Am.rdOf_eq, BitVec.getLsbD_extractLsb', field]
    interval_cases k <;> simp
  · rw [immU, sext, upper]
    apply BitVec.eq_of_getLsbD_eq
    intro k inRange
    rw [BitVec.getLsbD_shiftLeft, BitVec.getLsbD_append,
      BitVec.getLsbD_signExtend]
    by_cases low : k < 12
    · simp [low]
    · simp [low, inRange, show k - 12 < 32 by omega, show k - 12 < 20 by omega]

end Formats

/-! ## NEMU -/

theorem selected_at {inst : Word} (place : Nat)
    (inTable : place < instpats.length)
    (notInv : instpats[place].name ≠ .inv)
    (isMatch : instpats[place].pattern.Matches inst) :
    selected inst = instpats[place]? := by
  rw [List.getElem?_eq_getElem inTable]
  exact selected_of_matches (List.getElem_mem inTable) notInv isMatch

section Rows

variable {inst : Word} (state : State)

theorem row_add (found : selected inst = instpats[27]?) :
    Am.exec state inst =
      ⟨state.pc + 4, state.cpu.setR (Am.rdOf inst)
        (state.cpu.gpr (Am.rs1Of inst) + state.cpu.gpr (Am.rs2Of inst)),
        state.pmem⟩ := by
  simp only [Am.exec, decodeExec, found]
  rfl

theorem row_lui (found : selected inst = instpats[0]?) :
    Am.exec state inst =
      ⟨state.pc + 4, state.cpu.setR (Am.rdOf inst) (immU inst),
        state.pmem⟩ := by
  simp only [Am.exec, decodeExec, found]
  rfl

theorem row_lbu (found : Am.rowOf inst = some 13) :
    Am.exec state inst =
      ⟨state.pc + 4, state.cpu.setR (Am.rdOf inst)
        (hostRead state.pmem (state.cpu.gpr (Am.rs1Of inst) + immI inst) 1),
        state.pmem⟩ := by
  simp only [Am.exec, decodeExec, Am.selected_eq found]
  rfl

theorem row_sb (found : Am.rowOf inst = some 15) :
    Am.exec state inst =
      ⟨state.pc + 4, state.cpu,
        hostWrite state.pmem (state.cpu.gpr (Am.rs1Of inst) + immS inst) 1
          (state.cpu.gpr (Am.rs2Of inst))⟩ := by
  simp only [Am.exec, decodeExec, Am.selected_eq found]
  rfl

theorem row_jalr (found : Am.rowOf inst = some 3) :
    Am.exec state inst =
      ⟨(state.cpu.gpr (Am.rs1Of inst) + immI inst) &&& ~~~1,
        state.cpu.setR (Am.rdOf inst) (state.pc + 4), state.pmem⟩ := by
  simp only [Am.exec, decodeExec, Am.selected_eq found]
  rfl

end Rows

namespace Base

/-- NEMU executes every base instruction. -/
theorem exec_encode (state : State) (base : Base) :
    Am.exec state base.encode = base.exec state := by
  cases base with
  | add rd rs1 rs2 =>
      obtain ⟨key, one, two, target⟩ :=
        matches_rType (rfl : (add rd rs1 rs2).encode = _)
      have found : selected (add rd rs1 rs2).encode = instpats[27]? := by
        apply selected_at 27 (by decide) (by decide)
        exact key.trans (by decide)
      rw [row_add state found, one, two, target]
      rfl
  | addi rd rs1 imm =>
      obtain ⟨low, one, target, offset⟩ :=
        Am.decode_iType (rfl : (addi rd rs1 imm).encode = _)
      have row : Am.rowOf (addi rd rs1 imm).encode = some 18 :=
        Am.rowOf_of_selects (by rw [low]; decide +kernel)
      rw [Am.exec_addi state row, one, target, offset]
      rfl
  | lui rd imm =>
      obtain ⟨key, target, upper⟩ :=
        matches_uType (rfl : (lui rd imm).encode = _)
      have found : selected (lui rd imm).encode = instpats[0]? := by
        apply selected_at 0 (by decide) (by decide)
        exact key.trans (by decide)
      rw [row_lui state found, target, upper]
      rfl
  | lw rd rs1 imm =>
      obtain ⟨low, one, target, offset⟩ :=
        Am.decode_iType (rfl : (lw rd rs1 imm).encode = _)
      have row : Am.rowOf (lw rd rs1 imm).encode = some 12 :=
        Am.rowOf_of_selects (by rw [low]; decide +kernel)
      rw [Am.exec_lw state row, one, target, offset]
      rfl
  | lbu rd rs1 imm =>
      obtain ⟨low, one, target, offset⟩ :=
        Am.decode_iType (rfl : (lbu rd rs1 imm).encode = _)
      have row : Am.rowOf (lbu rd rs1 imm).encode = some 13 :=
        Am.rowOf_of_selects (by rw [low]; decide +kernel)
      rw [row_lbu state row, one, target, offset]
      rfl
  | sw rs2 rs1 imm =>
      obtain ⟨low, one, two, offset⟩ :=
        Am.decode_sType (rfl : (sw rs2 rs1 imm).encode = _)
      have row : Am.rowOf (sw rs2 rs1 imm).encode = some 17 :=
        Am.rowOf_of_selects (by rw [low]; decide +kernel)
      rw [Am.exec_sw state row, one, two, offset]
      rfl
  | sb rs2 rs1 imm =>
      obtain ⟨low, one, two, offset⟩ :=
        Am.decode_sType (rfl : (sb rs2 rs1 imm).encode = _)
      have row : Am.rowOf (sb rs2 rs1 imm).encode = some 15 :=
        Am.rowOf_of_selects (by rw [low]; decide +kernel)
      rw [row_sb state row, one, two, offset]
      rfl
  | jalr rd rs1 imm =>
      obtain ⟨low, one, target, offset⟩ :=
        Am.decode_iType (rfl : (jalr rd rs1 imm).encode = _)
      have row : Am.rowOf (jalr rd rs1 imm).encode = some 3 :=
        Am.rowOf_of_selects (by rw [low]; decide +kernel)
      rw [row_jalr state row, one, target, offset]
      rfl

end Base

end Ysyx.Rvmini
