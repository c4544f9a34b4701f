import Ysyx.Rvmini.Arithmetic

/-!
# Shifts

The macros `sll`, `srl`, `sra` and their immediate forms put a shift together
from the shifted bytes, which they look up.
-/

namespace Ysyx.Rvmini

open Nemu Bytes

/-- The words at `lut` are those of `entry`: one row for each amount, one
column for each byte. -/
def IsWordTable (image : Image) (lut : Word)
    (entry : Nat → BitVec 8 → Word) : Prop :=
  ∀ pmem, image.Loaded pmem → ∀ (index : Word) {amount : Nat},
    amount < 32 → ∀ a : BitVec 8,
      index.toNat = 4 * (amount * 256 + a.toNat) →
        hostRead pmem (lut + index) 4 = entry amount a

/-- The address of a row. -/
def row (lut : Word) (amount : Nat) : Word :=
  lut + BitVec.ofNat 32 (1024 * amount)

section Parts

variable {image : Image} {state : State} {lut : Word} {amount : Nat}
  {entry : Nat → BitVec 8 → Word}

theorem touches_getShiftByteInTp (base : Reg) (boffset : Fin 4) :
    ∀ inst ∈ getShiftByteInTp base boffset, inst.Touches [tp] [] := by
  simp [getShiftByteInTp, slli_small, Base.Touches]

theorem gpr_getShiftByteInTp {base : Reg} (isTable : IsWordTable image lut entry)
    (ready : Ready image state) (inRow : amount < 32)
    (atRow : state.cpu.gpr base = row lut amount) (notTp : base ≠ tp)
    (boffset : Fin 4) :
    (execAll state (getShiftByteInTp base boffset)).cpu.gpr tp =
      entry amount
        (byte (scratch state.pmem (state.cpu.gpr sp) .A) boffset) := by
  generalize source : byte (scratch state.pmem (state.cpu.gpr sp) .A)
    boffset = a
  have looked := isTable state.pmem ready.loaded
    (BitVec.ofNat 32 (1024 * amount) + a.setWidth 32 <<< 2) inRow a (by
      have inByte := a.isLt
      rw [BitVec.toNat_add, BitVec.toNat_ofNat, BitVec.toNat_shiftLeft,
        BitVec.toNat_setWidth, Nat.shiftLeft_eq]
      omega)
  rw [← BitVec.add_assoc, ← row, ← atRow] at looked
  let first := execAll state
    (.lbu tp sp (SP_VAR_BYTE .A boffset) :: slli tp tp 2)
  have frame : Frame [tp] [] state first :=
    frame_execAll (by simp [slli_small, Base.Touches]) (by decide)
  have same : first.pmem = state.pmem := by
    simp [first, slli_small]
  have index : first.cpu.gpr tp = a.setWidth 32 <<< 2 := by
    simp only [first, execAll_cons]
    rw [gpr_slli_small _ (by decide) (by decide) (by decide), Base.exec_lbu,
      Am.setR_gpr_self _ (by decide), hostRead_place_byte, source]
  have split : getShiftByteInTp base boffset =
      (.lbu tp sp (SP_VAR_BYTE .A boffset) :: slli tp tp 2) ++
        [.add tp base tp, .lw tp tp 0] := rfl
  rw [split, execAll_append, show execAll state _ = first from rfl]
  simp +decide [gpr_setR, index, same, frame.gpr base (by simp [notTp]), looked]

/-- The amount of a shift by a register. -/
def shamt (x : Word) : Nat := (byte x 0 &&& 0x1f).toNat

theorem shamt_lt (x : Word) : shamt x < 32 := by
  rw [shamt, BitVec.toNat_and]
  exact Nat.lt_of_le_of_lt Nat.and_le_right (by decide)

theorem touches_shiftRow (table : Word) (rs2 : Reg) :
    ∀ base ∈ shiftRow image table rs2, base.Touches [s0, tp] [.B] := by
  simp [shiftRow, getshamt, la, slli_small, Base.Touches]

theorem gpr_getshamt (rs1 : Reg) (ready : Ready image state) :
    (execAll state (getshamt image s0 rs1)).cpu.gpr s0 =
      BitVec.ofNat 32 (shamt (state.cpu.gpr rs1)) := by
  let front := [.sb rs1 sp (SP_VAR_BYTE .B 0), .lbu s0 sp (SP_VAR_BYTE .B 0)] ++
    la tp (image.and8Table + (0x1f#32 <<< 8))
  let first := execAll state front
  have frame : Frame [s0, tp] [.B] state first :=
    frame_execAll (by simp [front, la, Base.Touches]) (by decide)
  have low : first.cpu.gpr s0 = (byte (state.cpu.gpr rs1) 0).setWidth 32 := by
    simp +decide [first, front, execAll_append, execAll_la, gpr_setR]
    rw [byte_zero_eq]
  have table : first.cpu.gpr tp = image.and8Table + (0x1f#32 <<< 8) := by
    simp +decide [first, front, execAll_append, execAll_la, gpr_setR]
  have looked := (ready.frame frame (by decide)).loaded.lbu_and8
    (0x1f#32 <<< 8 + (byte (state.cpu.gpr rs1) 0).setWidth 32) 0x1f
    (byte (state.cpu.gpr rs1) 0) (by simp; omega)
  rw [← BitVec.add_assoc, ← table, BitVec.add_comm] at looked
  have split : getshamt image s0 rs1 =
      front ++ [.add s0 s0 tp, .lbu s0 s0 0] := rfl
  rw [split, execAll_append, show execAll state front = first from rfl]
  simp +decide [gpr_setR, low, looked]
  rw [shamt, BitVec.and_comm, BitVec.ofNat_toNat, BitVec.setWidth_and]
  rfl

theorem gpr_shiftRow (table : Word) (rs2 : Reg) (ready : Ready image state) :
    (execAll state (shiftRow image table rs2)).cpu.gpr s0 =
      row table (shamt (state.cpu.gpr rs2)) := by
  have amount := gpr_getshamt rs2 ready
  have frame : Frame [s0, tp] [.B] state
      (execAll state (getshamt image s0 rs2)) :=
    frame_execAll (by simp [getshamt, la, Base.Touches]) (by decide)
  generalize found : execAll state (getshamt image s0 rs2) = middle
  rw [found] at amount frame
  have split : shiftRow image table rs2 = getshamt image s0 rs2 ++
      ([.sw x0 sp (SP_VAR .B), .sb s0 sp (SP_VAR_BYTE .B 1),
        .lw s0 sp (SP_VAR .B)] ++ (slli s0 s0 2 ++
          (la tp table ++ [.add s0 s0 tp]))) := by
    simp only [shiftRow, List.append_assoc]
  have inRow := shamt_lt (state.cpu.gpr rs2)
  have shifted : setByte 0#32 1 (BitVec.ofNat 8 (shamt (state.cpu.gpr rs2)))
      <<< 2 = BitVec.ofNat 32 (1024 * shamt (state.cpu.gpr rs2)) := by
    apply BitVec.eq_of_toNat_eq
    rw [BitVec.toNat_shiftLeft, setByte, ofBytes_toNat, Nat.shiftLeft_eq]
    simp
    omega
  rw [split, execAll_append, found]
  simp +decide [execAll_append, execAll_la, gpr_setR, slli_small, amount]
  rw [add_self_eq, add_self_eq, ← BitVec.shiftLeft_add, shifted, row,
    BitVec.add_comm]

/-- Ready to look up the bytes of `x`: its row is in `s0`. -/
structure AtRow (image : Image) (lut : Word) (amount : Nat) (x : Word)
    (state : State) : Prop where
  ready : Ready image state
  inRow : amount < 32
  atRow : state.cpu.gpr s0 = row lut amount
  source : scratch state.pmem (state.cpu.gpr sp) .A = x

section AtRow

variable {x : Word} {regs : List Reg} {vars : List Var} {after : State}
  (rowState : AtRow image lut amount x state)
include rowState

theorem AtRow.frame (frame : Frame regs vars state after)
    (stackKept : sp ∉ regs) (rowKept : s0 ∉ regs) (sourceKept : .A ∉ vars) :
    AtRow image lut amount x after where
  ready := rowState.ready.frame frame stackKept
  inRow := rowState.inRow
  atRow := (frame.gpr s0 rowKept).trans rowState.atRow
  source := by
    rw [frame.gpr sp stackKept, frame.var .A sourceKept, rowState.source]

theorem AtRow.getShiftByteInTp (isTable : IsWordTable image lut entry)
    (boffset : Fin 4) :
    let after := execAll state (getShiftByteInTp s0 boffset)
    Frame [tp] [] state after ∧
      after.cpu.gpr tp = entry amount (byte x boffset) := by
  constructor
  · exact frame_execAll (touches_getShiftByteInTp s0 boffset) (by decide)
  · rw [gpr_getShiftByteInTp isTable rowState.ready rowState.inRow
      rowState.atRow (by decide), rowState.source]

end AtRow

/-- The front of a shift by a register. -/
theorem exists_atRow (table : Word) (rs1 rs2 : Reg)
    (ready : Ready image state) :
    let middle := execAll state ([PUSH s0 .one, .sw rs1 sp (SP_VAR .A)] ++
      shiftRow image table rs2)
    Frame [s0, tp] [.one, .A, .B] state middle ∧
      scratch middle.pmem (state.cpu.gpr sp) .one = state.cpu.gpr s0 ∧
      AtRow image table (shamt (state.cpu.gpr rs2)) (state.cpu.gpr rs1)
        middle := by
  intro middle
  let saved := execAll state [PUSH s0 .one, .sw rs1 sp (SP_VAR .A)]
  have savedFrame : Frame [s0, tp] [.one, .A, .B] state saved :=
    frame_execAll (by simp [Base.Touches]) (by decide)
  have rowFrame : Frame [s0, tp] [.B] saved
      (execAll saved (shiftRow image table rs2)) :=
    frame_execAll (touches_shiftRow table rs2) (by decide)
  have savedReady := ready.frame savedFrame (by decide)
  have one : scratch saved.pmem (state.cpu.gpr sp) .one =
      state.cpu.gpr s0 := by
    simp [saved]
  have source : scratch saved.pmem (state.cpu.gpr sp) .A =
      state.cpu.gpr rs1 := by
    simp [saved]
  have stack : saved.cpu.gpr sp = state.cpu.gpr sp := rfl
  have split : middle = execAll saved (shiftRow image table rs2) :=
    execAll_append ..
  have rs2Kept : saved.cpu.gpr rs2 = state.cpu.gpr rs2 := rfl
  rw [split]
  refine ⟨savedFrame.trans (rowFrame.mono (fun _ => id) (by simp)) (by decide),
    ?_, ?_, shamt_lt _, ?_, ?_⟩
  · exact (rowFrame.var .one (by decide)).trans one
  · exact savedReady.frame rowFrame (by decide)
  · rw [gpr_shiftRow table rs2 savedReady, rs2Kept]
  · rw [rowFrame.gpr sp (by decide), rowFrame.var .A (by decide), stack,
      source]

/-- The end of a shift, and its frame. -/
theorem shift_end {rd : Reg} {middle : State}
    (frame : Frame [s0, gp, tp] [.one, .A, .B, .C, .D] state middle)
    (one : scratch middle.pmem (state.cpu.gpr sp) .one = state.cpu.gpr s0)
    (targetNotSp : rd ≠ sp) :
    Frame [rd, gp, tp] [.one, .A, .B, .C, .D] state
      (execAll middle [POP s0 .one, .add rd gp tp]) := by
  apply FrameOff.restore (r := s0)
  · apply (frame.mono (by simp) (fun _ => id)).trans _
      (by simp +decide [targetNotSp.symm])
    exact frame_execAll (by simp [Base.Touches])
      (by simp +decide [targetNotSp.symm])
  · intro outside
    simp only [List.mem_cons, not_or] at outside
    simp +decide [gpr_setR, outside, frame.gpr sp (by decide), one]

end Parts

/-! ## `sll` -/

section Sll

variable {image : Image} {state : State} {amount : Nat} {x : Word}

theorem isWordTable_sll8 (image : Image) :
    IsWordTable image image.sll8Table fun amount a =>
      a.setWidth 32 <<< amount :=
  fun _ loaded index _ inRow a => loaded.lw_sll8 index inRow a

theorem sll_byte_three (rowState : AtRow image image.sll8Table amount x state) :
    let after := execAll state (.sw x0 sp (SP_VAR .B) ::
      (getShiftByteInTp s0 3 ++
        [.sb tp sp (SP_VAR_BYTE .B 3), .lw gp sp (SP_VAR .B)]))
    Frame [gp, tp] [.B] state after ∧
      after.cpu.gpr gp = ((byte x 3).setWidth 32 <<< amount) <<< 24 ∧
      scratch after.pmem (state.cpu.gpr sp) .B = after.cpu.gpr gp := by
  let cleared := (Base.sw x0 sp (SP_VAR .B)).exec state
  have clearedFrame : Frame [] [.B] state cleared :=
    frame_exec (by simp [Base.Touches])
  obtain ⟨frame, value⟩ := (rowState.frame clearedFrame (by decide)
    (by decide) (by decide)).getShiftByteInTp (isWordTable_sll8 image) 3
  have zero : scratch cleared.pmem (state.cpu.gpr sp) .B = 0#32 := by
    simp [cleared]
  have stack := frame.gpr sp (by decide)
  have kept := frame.var .B (by decide)
  rw [show cleared.cpu.gpr sp = state.cpu.gpr sp from rfl] at stack kept
  rw [execAll_cons, execAll_append, show Base.exec state _ = cleared from rfl]
  generalize execAll cleared (getShiftByteInTp s0 3) = middle at *
  have word := setByte_three (middle.cpu.gpr tp)
  rw [byte_zero_eq] at word
  refine ⟨?_, ?_, ?_⟩
  · apply (clearedFrame.mono (by simp) (fun _ => id)).trans _ (by decide)
    apply (frame.mono (by simp) (by simp)).trans _ (by decide)
    exact frame_execAll (by simp [Base.Touches]) (by decide)
  · simp +decide [gpr_setR, stack, kept, zero, word]
    rw [value]
  · simp +decide [gpr_setR, stack, kept, zero]

theorem SP_VAR_BYTE_add_one : SP_VAR_BYTE .B 2 + 1#12 = SP_VAR_BYTE .B 3 := by
  decide

theorem sll_byte_two (rowState : AtRow image image.sll8Table amount x state)
    (zero : byte (scratch state.pmem (state.cpu.gpr sp) .B) 0 = 0)
    (one : byte (scratch state.pmem (state.cpu.gpr sp) .B) 1 = 0) :
    let after := execAll state (getShiftByteInTp s0 2 ++
      (sh tp sp (SP_VAR_BYTE .B 2) ++
        [.lw tp sp (SP_VAR .B), .add gp gp tp]))
    Frame [gp, tp] [.B, .C] state after ∧
      after.cpu.gpr gp = state.cpu.gpr gp +
        ((byte x 2).setWidth 32 <<< amount) <<< 16 := by
  obtain ⟨frame, value⟩ :=
    rowState.getShiftByteInTp (isWordTable_sll8 image) 2
  have stack := frame.gpr sp (by decide)
  have kept := frame.var .B (by decide)
  have sum := frame.gpr gp (by decide)
  rw [execAll_append]
  generalize execAll state (getShiftByteInTp s0 2) = middle at *
  have word := setByte_two_three (scratch state.pmem (state.cpu.gpr sp) .B)
    (middle.cpu.gpr tp) zero one
  rw [byte_zero_eq] at word
  constructor
  · apply (frame.mono (by simp) (by simp)).trans _ (by decide)
    exact frame_execAll (by simp [sh, getbyte, Base.Touches]; decide)
      (by decide)
  · simp +decide [sh, getbyte, SP_VAR_BYTE_add_one, gpr_setR, stack, kept,
      word, sum]
    rw [value]

theorem sll_byte_one (rowState : AtRow image image.sll8Table amount x state) :
    let after := execAll state (getShiftByteInTp s0 1 ++
      (slli tp tp 8 ++ [.add gp gp tp]))
    Frame [gp, tp] [] state after ∧
      after.cpu.gpr gp = state.cpu.gpr gp +
        ((byte x 1).setWidth 32 <<< amount) <<< 8 := by
  obtain ⟨frame, value⟩ :=
    rowState.getShiftByteInTp (isWordTable_sll8 image) 1
  have sum := frame.gpr gp (by decide)
  rw [execAll_append]
  generalize execAll state (getShiftByteInTp s0 1) = middle at *
  have shiftFrame : Frame [tp] [] middle (execAll middle (slli tp tp 8)) :=
    frame_execAll (touches_slli_small (by decide) (by decide)) (by decide)
  constructor
  · apply (frame.mono (by simp) (by simp)).trans _ (by decide)
    exact frame_execAll (by simp [slli_small, Base.Touches]) (by decide)
  · rw [execAll_append, execAll_cons, execAll_nil, Base.exec_add,
      Am.setR_gpr_self _ (by decide),
      gpr_slli_small _ (by decide) (by decide) (by decide), value,
      shiftFrame.gpr gp (by decide), sum]

/-- `sll` up to the sum. -/
theorem exists_sll (rs1 rs2 : Reg) (ready : Ready image state) :
    ∃ middle, (∀ rd, execAll state (sll image rd rs1 rs2) =
        execAll middle [POP s0 .one, .add rd gp tp]) ∧
      Frame [s0, gp, tp] [.one, .A, .B, .C] state middle ∧
      scratch middle.pmem (state.cpu.gpr sp) .one = state.cpu.gpr s0 ∧
      middle.cpu.gpr gp + middle.cpu.gpr tp =
        state.cpu.gpr rs1 <<< shamt (state.cpu.gpr rs2) := by
  obtain ⟨frontFrame, one, atFront⟩ :=
    exists_atRow image.sll8Table rs1 rs2 ready
  obtain ⟨threeFrame, three, word⟩ := sll_byte_three atFront
  have stack := frontFrame.gpr sp (by decide)
  have atThree := atFront.frame threeFrame (by decide) (by decide) (by decide)
  have stackThree := threeFrame.gpr sp (by decide)
  have clear : ∀ k : Fin 4, k < 3 →
      byte (((byte (state.cpu.gpr rs1) 3).setWidth 32 <<<
        shamt (state.cpu.gpr rs2)) <<< 24) k = 0#8 := by
    intro k low
    rw [← setByte_three, byte_setByte, if_neg (by omega), byte_zero]
  obtain ⟨twoFrame, two⟩ := sll_byte_two atThree
    (by rw [stackThree, word, three, clear 0 (by decide)]; rfl)
    (by rw [stackThree, word, three, clear 1 (by decide)]; rfl)
  have atTwo := atThree.frame twoFrame (by decide) (by decide) (by decide)
  obtain ⟨oneFrame, oneValue⟩ := sll_byte_one atTwo
  have atOne := atTwo.frame oneFrame (by decide) (by decide) (by decide)
  obtain ⟨zeroFrame, zero⟩ := atOne.getShiftByteInTp (isWordTable_sll8 image) 0
  have fromFront := ((threeFrame.mono (fun _ => id) (by simp)).trans twoFrame
    (by decide)).trans ((oneFrame.mono (fun _ => id) (by simp)).trans
      (zeroFrame.mono (by simp) (by simp)) (by decide)) (by decide)
  refine ⟨_, fun rd => ?_, (frontFrame.mono (by simp) (by simp)).trans
    (fromFront.mono (by simp) (by simp)) (by decide), ?_, ?_⟩
  · simp only [sll, List.flatten_cons, List.flatten_nil, List.append_nil,
      execAll_append, execAll_cons, execAll_nil]
  · rw [← stack, fromFront.var .one (by decide), stack, one]
  · rw [zero, zeroFrame.gpr gp (by decide), oneValue, two, three]
    exact shiftLeft_bytes _ _

theorem frame_sll {rd : Reg} (rs1 rs2 : Reg) (ready : Ready image state)
    (targetNotSp : rd ≠ sp) :
    Frame [rd, gp, tp] [.one, .A, .B, .C, .D] state
      (execAll state (sll image rd rs1 rs2)) := by
  obtain ⟨middle, same, frame, one, -⟩ := exists_sll rs1 rs2 ready
  rw [same]
  exact shift_end (frame.mono (fun _ => id) (by simp)) one targetNotSp

theorem gpr_sll {rd : Reg} (rs1 rs2 : Reg) (ready : Ready image state)
    (target : rd ≠ 0#5) :
    (execAll state (sll image rd rs1 rs2)).cpu.gpr rd =
      state.cpu.gpr rs1 <<< shamt (state.cpu.gpr rs2) := by
  obtain ⟨middle, same, -, -, sum⟩ := exists_sll rs1 rs2 ready
  rw [same]
  simp +decide [gpr_setR, target, sum]

end Sll

/-! ## `shift_right_template` -/

section ShiftRight

variable {image : Image} {state : State} {amount : Nat} {x : Word}

theorem isWordTable_srl8 (image : Image) :
    IsWordTable image image.srl8Table fun amount a => topShifted a amount :=
  fun _ loaded index _ inRow a => loaded.lw_srl8 index inRow a

theorem isWordTable_sra8 (image : Image) :
    IsWordTable image image.sra8Table fun amount a =>
      (a.setWidth 32 <<< 24).sshiftRight amount :=
  fun _ loaded index _ inRow a => loaded.lw_sra8 index inRow a

/-- The looked up words of the lower three bytes. -/
def lookLow : List Base :=
  getShiftByteInTp s0 2 ++ (.sw tp sp (SP_VAR .B) ::
    (getShiftByteInTp s0 1 ++ (.sw tp sp (SP_VAR .C) ::
      (getShiftByteInTp s0 0 ++ [.sw tp sp (SP_VAR .D)]))))

/-- What the lower three bytes leave, in `gp`. -/
def combineLow : List Base :=
  [.lbu gp sp (SP_VAR_BYTE .B 1), .lbu tp sp (SP_VAR_BYTE .C 2),
    .add gp gp tp, .lbu tp sp (SP_VAR_BYTE .D 3), .add gp gp tp,
    .sw gp sp (SP_VAR .D), .lbu gp sp (SP_VAR_BYTE .B 2),
    .lbu tp sp (SP_VAR_BYTE .C 3), .add gp gp tp,
    .sb gp sp (SP_VAR_BYTE .D 1), .lbu gp sp (SP_VAR_BYTE .B 3),
    .sb gp sp (SP_VAR_BYTE .D 2), .lw gp sp (SP_VAR .D)]

theorem lookLow_effect (rowState : AtRow image image.srl8Table amount x state) :
    let after := execAll state lookLow
    Frame [tp] [.B, .C, .D] state after ∧
      scratch after.pmem (state.cpu.gpr sp) .B =
        topShifted (byte x 2) amount ∧
      scratch after.pmem (state.cpu.gpr sp) .C =
        topShifted (byte x 1) amount ∧
      scratch after.pmem (state.cpu.gpr sp) .D =
        topShifted (byte x 0) amount := by
  have step : ∀ {before : State} (n : Var) (lane : Fin 4), n ≠ .A →
      AtRow image image.srl8Table amount x before →
      let after := (Base.sw tp sp (SP_VAR n)).exec
        (execAll before (getShiftByteInTp s0 lane))
      AtRow image image.srl8Table amount x after ∧
        Frame [tp] [n] before after ∧
        scratch after.pmem (before.cpu.gpr sp) n =
          topShifted (byte x lane) amount := by
    intro before n lane notSource here after
    obtain ⟨frame, value⟩ :=
      here.getShiftByteInTp (isWordTable_srl8 image) lane
    have stack := frame.gpr sp (by decide)
    have whole : Frame [tp] [n] before after := by
      apply (frame.mono (fun _ => id) (by simp)).trans _ (by decide)
      exact frame_exec (by simp [Base.Touches])
    refine ⟨here.frame whole (by decide) (by decide)
      (by simp [notSource.symm]), whole, ?_⟩
    rw [← stack]
    simp only [after, Base.exec_sw, scratch_hostWrite, if_true, value]
  obtain ⟨atTwo, twoFrame, two⟩ := step .B 2 (by decide) rowState
  obtain ⟨atOne, oneFrame, one⟩ := step .C 1 (by decide) atTwo
  obtain ⟨-, zeroFrame, zero⟩ := step .D 0 (by decide) atOne
  have stackTwo := twoFrame.gpr sp (by decide)
  have stackOne := oneFrame.gpr sp (by decide)
  simp only [lookLow, execAll_append, execAll_cons, execAll_nil]
  refine ⟨?_, ?_, ?_, ?_⟩
  · exact ((twoFrame.mono (fun _ => id) (by simp)).trans
      (oneFrame.mono (fun _ => id) (by simp)) (by decide)).trans
        (zeroFrame.mono (fun _ => id) (by simp)) (by decide)
  · rw [← stackTwo, ← stackOne, zeroFrame.var .B (by decide), stackOne,
      oneFrame.var .B (by decide), stackTwo, two]
  · rw [← stackTwo, ← stackOne, zeroFrame.var .C (by decide), stackOne, one]
  · rw [← stackTwo, ← stackOne, zero]

/-- The sum of three bytes, as a word, has no high byte. -/
theorem byte_three_sum (a b c : BitVec 8) :
    byte (a.setWidth 32 + b.setWidth 32 + c.setWidth 32) 3 = 0#8 := by
  apply BitVec.eq_of_toNat_eq
  rw [byte_toNat]
  simp
  omega

theorem setWidth_add_bytes (a b : Word) :
    (a + b).setWidth 8 = a.setWidth 8 + b.setWidth 8 := by
  apply BitVec.eq_of_toNat_eq
  simp [BitVec.toNat_add]

theorem combineLow_effect (y : Fin 4 → Word)
    (two : scratch state.pmem (state.cpu.gpr sp) .B = y 2)
    (one : scratch state.pmem (state.cpu.gpr sp) .C = y 1)
    (zero : scratch state.pmem (state.cpu.gpr sp) .D = y 0) :
    let after := execAll state combineLow
    Frame [gp, tp] [.D] state after ∧
      after.cpu.gpr gp = ofBytes (lowBytes y) := by
  constructor
  · exact frame_execAll (by simp [combineLow, Base.Touches]) (by decide)
  · apply ext_byte
    intro k
    rw [byte_ofBytes]
    simp +decide [combineLow, gpr_setR, two, one, zero, setWidth_add_bytes]
    fin_cases k
    · simp [lowBytes, byte_zero_eq, setWidth_add_bytes]
    · rfl
    · rfl
    · exact byte_three_sum ..

/-- The shifted word. -/
def shiftedRight (isArith : Bool) (x : Word) (amount : Nat) : Word :=
  if isArith then x.sshiftRight amount else x >>> amount

/-- The row of the top byte. -/
def topRow (image : Image) (isArith : Bool) : List Base :=
  if isArith then
    la tp (image.sra8Table - image.srl8Table) ++ [.add s0 s0 tp]
  else []

theorem shiftRightBytes_eq (rd : Reg) (isArith : Bool) :
    shiftRightBytes image rd isArith =
      lookLow ++ (combineLow ++ (topRow image isArith ++
        (getShiftByteInTp s0 3 ++ [POP s0 .one, .add rd gp tp]))) := by
  simp only [shiftRightBytes, lookLow, combineLow, topRow, List.flatten_cons,
    List.flatten_nil, List.append_assoc, List.cons_append, List.nil_append,
    List.append_nil]

theorem topRow_effect (rowState : AtRow image image.srl8Table amount x state)
    (isArith : Bool) :
    let after := execAll state (topRow image isArith)
    Frame [s0, tp] [] state after ∧
      (execAll after (getShiftByteInTp s0 3)).cpu.gpr tp =
        if isArith then ((byte x 3).setWidth 32 <<< 24).sshiftRight amount
        else topShifted (byte x 3) amount := by
  cases isArith with
  | false =>
      exact ⟨FrameOff.refl state,
        (rowState.getShiftByteInTp (isWordTable_srl8 image) 3).2⟩
  | true =>
      have frame : Frame [s0, tp] [] state
          (execAll state (topRow image true)) :=
        frame_execAll (by simp [topRow, la, Base.Touches]) (by decide)
      have arith : AtRow image image.sra8Table amount x
          (execAll state (topRow image true)) := by
        refine ⟨rowState.ready.frame frame (by decide), rowState.inRow, ?_, ?_⟩
        · simp +decide [topRow, execAll_append, execAll_la, gpr_setR,
            rowState.atRow]
          rw [row, row, BitVec.add_comm, ← BitVec.add_assoc,
            BitVec.sub_add_cancel]
        · rw [frame.gpr sp (by decide), frame.var .A (by decide),
            rowState.source]
      exact ⟨frame, (arith.getShiftByteInTp (isWordTable_sra8 image) 3).2⟩

/-- From the row to the sum. -/
theorem exists_shiftRightBytes
    (rowState : AtRow image image.srl8Table amount x state) (isArith : Bool) :
    ∃ middle, (∀ rd, execAll state (shiftRightBytes image rd isArith) =
        execAll middle [POP s0 .one, .add rd gp tp]) ∧
      Frame [s0, gp, tp] [.B, .C, .D] state middle ∧
      middle.cpu.gpr gp + middle.cpu.gpr tp = shiftedRight isArith x amount := by
  obtain ⟨lookFrame, two, one, zero⟩ := lookLow_effect rowState
  have stack := lookFrame.gpr sp (by decide)
  have looked := rowState.frame lookFrame (by decide) (by decide) (by decide)
  rw [← stack] at two one zero
  obtain ⟨combineFrame, low⟩ := combineLow_effect
    (fun i => topShifted (byte x i) amount) two one zero
  have combined := looked.frame combineFrame (by decide) (by decide) (by decide)
  obtain ⟨topFrame, top⟩ := topRow_effect combined isArith
  let chosen := execAll (execAll (execAll state lookLow) combineLow)
    (topRow image isArith)
  have getFrame : Frame [tp] [] chosen
      (execAll chosen (getShiftByteInTp s0 3)) :=
    frame_execAll (touches_getShiftByteInTp s0 3) (by decide)
  have upper := (topFrame.mono (by simp) (fun _ => id)).trans
    (getFrame.mono (by simp : [tp] ⊆ [s0, gp, tp]) (fun _ => id)) (by decide)
  refine ⟨_, fun rd => ?_, ((lookFrame.mono (by simp) (fun _ => id)).trans
    (combineFrame.mono (by simp) (by simp)) (by decide)).trans
      (upper.mono (fun _ => id) (by simp)) (by decide), ?_⟩
  · simp only [shiftRightBytes_eq, execAll_append, chosen]
  · rw [top, getFrame.gpr gp (by decide), topFrame.gpr gp (by decide), low]
    cases isArith with
    | false => exact ushiftRight_bytes x amount
    | true => exact sshiftRight_bytes x amount

/-- `srl` and `sra`. -/
theorem shiftRightReg_effect {rd : Reg} (rs1 rs2 : Reg) (isArith : Bool)
    (ready : Ready image state) (notSp : rd ≠ sp) :
    let after := execAll state (shiftRightReg image rd rs1 rs2 isArith)
    Frame [rd, gp, tp] [.one, .A, .B, .C, .D] state after ∧
      (rd ≠ 0#5 → after.cpu.gpr rd =
        shiftedRight isArith (state.cpu.gpr rs1)
          (shamt (state.cpu.gpr rs2))) := by
  obtain ⟨frontFrame, one, atFront⟩ :=
    exists_atRow image.srl8Table rs1 rs2 ready
  have stack := frontFrame.gpr sp (by decide)
  obtain ⟨middle, same, frame, sum⟩ := exists_shiftRightBytes atFront isArith
  rw [shiftRightReg, execAll_append, same]
  constructor
  · apply shift_end _ _ notSp
    · exact (frontFrame.mono (by simp) (by simp)).trans
        (frame.mono (by simp) (by simp)) (by decide)
    · rw [← stack, frame.var .one (by decide), stack, one]
  · intro target
    simp +decide [gpr_setR, target, sum]

theorem rowOffset (amount : Nat) :
    BitVec.ofNat 32 amount <<< 10 = BitVec.ofNat 32 (1024 * amount) := by
  apply BitVec.eq_of_toNat_eq
  rw [BitVec.toNat_shiftLeft, BitVec.toNat_ofNat, BitVec.toNat_ofNat,
    Nat.shiftLeft_eq]
  omega

theorem lowShifted_24 (x : Word) : lowShifted x 24 = 0#32 := by
  apply BitVec.eq_of_getLsbD_eq
  intro k _
  rw [getLsbD_lowShifted]
  simp

/-- The fast path of `srli rd, rs1, 24`. -/
theorem getbyte_three_effect {rd : Reg} (rs1 : Reg) (notSp : rd ≠ sp) :
    let after := execAll state (getbyte rd rs1 3)
    Frame [rd, gp, tp] [.one, .A, .B, .C, .D] state after ∧
      (rd ≠ 0#5 → after.cpu.gpr rd = state.cpu.gpr rs1 >>> 24) := by
  constructor
  · exact (frame_execAll (touches_getbyte 3)
      (by simp +decide [notSp.symm])).mono (by simp) (by simp)
  · intro target
    rw [gpr_getbyte _ _ target]
    apply BitVec.eq_of_toNat_eq
    rw [BitVec.toNat_setWidth, byte_toNat, BitVec.toNat_ushiftRight,
      Nat.shiftRight_eq_div_pow]
    have inWord := (state.cpu.gpr rs1).isLt
    simp
    omega

/-- The fast path of `srai rd, rs1, 24`. -/
theorem srai_24_effect {rd : Reg} (rs1 : Reg) (ready : Ready image state)
    (notSp : rd ≠ sp) (notTp : rd ≠ tp) :
    let after := execAll state (shiftRightImm image rd rs1 24 true)
    Frame [rd, gp, tp] [.one, .A, .B, .C, .D] state after ∧
      (rd ≠ 0#5 → after.cpu.gpr rd =
        (state.cpu.gpr rs1).sshiftRight 24) := by
  have split : shiftRightImm image rd rs1 24 true =
      (.sw rs1 sp (SP_VAR .A) ::
        la tp (image.sra8Table + (BitVec.ofNat 32 24 <<< 10))) ++
        (.lbu rd sp (SP_VAR_BYTE .A 3) :: (slli rd rd 2 ++
          [.add tp tp rd, .lw rd tp 0])) := by
    simp [shiftRightImm]
  let front := execAll state (.sw rs1 sp (SP_VAR .A) ::
    la tp (image.sra8Table + (BitVec.ofNat 32 24 <<< 10)))
  have frontFrame : Frame [tp] [.A] state front :=
    frame_execAll (by simp [la, Base.Touches]) (by decide)
  have table : front.cpu.gpr tp =
      image.sra8Table + (BitVec.ofNat 32 24 <<< 10) := by
    simp +decide [front, execAll_la, gpr_setR]
  have source : scratch front.pmem (state.cpu.gpr sp) .A =
      state.cpu.gpr rs1 := by
    simp [front, execAll_la]
  have stack := frontFrame.gpr sp (by decide)
  have looked := (ready.frame frontFrame (by decide)).loaded.lw_sra8
    (BitVec.ofNat 32 24 <<< 10 +
      (byte (state.cpu.gpr rs1) 3).setWidth 32 <<< 2)
    (by decide : 24 < 32) (byte (state.cpu.gpr rs1) 3) (by
      rw [BitVec.toNat_add, BitVec.toNat_shiftLeft, BitVec.toNat_shiftLeft,
        BitVec.toNat_setWidth, Nat.shiftLeft_eq, Nat.shiftLeft_eq]
      simp
      omega)
  rw [← BitVec.add_assoc, ← table] at looked
  have value := sshiftRight_bytes (state.cpu.gpr rs1) 24
  rw [lowShifted_24, BitVec.zero_add] at value
  rw [split, execAll_append, show execAll state _ = front from rfl]
  constructor
  · apply (frontFrame.mono (by simp) (by simp)).trans _
      (by simp +decide [notSp.symm])
    exact frame_execAll (by simp [slli_small, Base.Touches])
      (by simp +decide [notSp.symm])
  · intro target
    simp +decide [slli_small, gpr_setR, target, notTp.symm, stack, source]
    rw [add_self_eq, add_self_eq, ← BitVec.shiftLeft_add, looked, value]

/-- `srli` and `srai`. -/
theorem shiftRightImm_effect {rd : Reg} (rs1 : Reg) (isArith : Bool)
    (ready : Ready image state) (inRow : amount < 32) (notSp : rd ≠ sp)
    (notTp : rd ≠ tp) :
    let after := execAll state (shiftRightImm image rd rs1 amount isArith)
    Frame [rd, gp, tp] [.one, .A, .B, .C, .D] state after ∧
      (rd ≠ 0#5 → after.cpu.gpr rd =
        shiftedRight isArith (state.cpu.gpr rs1) amount) := by
  by_cases fast : amount = 24
  · rw [fast]
    cases isArith with
    | false =>
        rw [shiftRightImm, if_pos rfl]
        exact getbyte_three_effect rs1 notSp
    | true =>
        exact srai_24_effect rs1 ready notSp notTp
  let front := [PUSH s0 .one, .sw rs1 sp (SP_VAR .A)] ++
    la s0 (image.srl8Table + (BitVec.ofNat 32 amount <<< 10))
  let first := execAll state front
  have firstFrame : Frame [s0] [.one, .A] state first :=
    frame_execAll (by simp [front, la, Base.Touches]) (by decide)
  have one : scratch first.pmem (state.cpu.gpr sp) .one =
      state.cpu.gpr s0 := by
    simp [first, front, execAll_append, execAll_la]
  have source : scratch first.pmem (state.cpu.gpr sp) .A =
      state.cpu.gpr rs1 := by
    simp [first, front, execAll_append, execAll_la]
  have atRow : first.cpu.gpr s0 = row image.srl8Table amount := by
    rw [row, ← rowOffset amount]
    simp +decide [first, front, execAll_append, execAll_la, gpr_setR]
  have stack := firstFrame.gpr sp (by decide)
  have atFirst : AtRow image image.srl8Table amount (state.cpu.gpr rs1) first :=
    ⟨ready.frame firstFrame (by decide), inRow, atRow, by rw [stack, source]⟩
  obtain ⟨middle, same, frame, sum⟩ := exists_shiftRightBytes atFirst isArith
  rw [shiftRightImm, if_neg fast, execAll_append,
    show execAll state _ = first from rfl, same]
  constructor
  · apply shift_end _ _ notSp
    · exact (firstFrame.mono (by simp) (by simp)).trans
        (frame.mono (fun _ => id) (by simp)) (by decide)
    · rw [← stack, frame.var .one (by decide), stack, one]
  · intro target
    simp +decide [gpr_setR, target, sum]

end ShiftRight

/-! ## `slli` -/

section Slli

variable {rd : Reg} (state : State) (rs1 : Reg)

/-- `slli rd, rd, imm` for an amount that is left over. -/
theorem slli_rest {imm : Nat} (small : imm < 16) (notSp : rd ≠ sp) :
    Frame [rd] [] state (execAll state (slli rd rd imm)) ∧
      (rd ≠ 0#5 → (execAll state (slli rd rd imm)).cpu.gpr rd =
        state.cpu.gpr rd <<< imm) := by
  by_cases zero : imm = 0
  · have nothing : slli rd rd imm = [] := by
      rw [slli, if_pos zero, if_neg (not_not_intro rfl)]
    rw [nothing, execAll_nil, zero, BitVec.shiftLeft_zero]
    exact ⟨FrameOff.refl state, fun _ => rfl⟩
  · exact ⟨frame_execAll (touches_slli_small zero small)
        (by simp [notSp.symm]),
      gpr_slli_small state zero small⟩

theorem SP_VAR_BYTE_A_add_one :
    SP_VAR_BYTE .A 2 + 1#12 = SP_VAR_BYTE .A 3 := by
  decide

theorem slli_effect {imm : Nat} (inWord : imm < 32) (notSp : rd ≠ sp) :
    let after := execAll state (slli rd rs1 imm)
    Frame [rd, gp, tp] [.A, .C] state after ∧
      (rd ≠ 0#5 → after.cpu.gpr rd = state.cpu.gpr rs1 <<< imm) := by
  have stackKept : sp ∉ [rd, gp, tp] := by simp +decide [notSp.symm]
  rw [slli]
  split
  · next zero =>
      rw [zero, BitVec.shiftLeft_zero]
      split
      · constructor
        · exact frame_execAll (by simp [Base.Touches]) stackKept
        · intro target
          simp [gpr_setR, target]
      · next same =>
          rw [not_not.mp same]
          exact ⟨FrameOff.refl state, fun _ => rfl⟩
  split
  · next pos large =>
      let front : List Base := [.sw x0 sp (SP_VAR .A),
        .sb rs1 sp (SP_VAR_BYTE .A 3), .lw rd sp (SP_VAR .A)]
      have frontFrame : Frame [rd, gp, tp] [.A, .C] state
          (execAll state front) :=
        frame_execAll (by simp [front, Base.Touches]) stackKept
      obtain ⟨restFrame, rest⟩ := slli_rest (execAll state front)
        (by omega : imm - 24 < 16) notSp
      rw [execAll_append]
      refine ⟨frontFrame.trans (restFrame.mono (by simp) (by simp)) stackKept,
        fun target => ?_⟩
      have moved : (execAll state front).cpu.gpr rd =
          state.cpu.gpr rs1 <<< 24 := by
        simp [front, gpr_setR, target]
        rw [← byte_zero_eq, setByte_three]
      rw [rest target, moved, ← BitVec.shiftLeft_add,
        Nat.add_sub_cancel' large]
  split
  · next pos notLarge large =>
      let front : List Base := .sw x0 sp (SP_VAR .A) ::
        sh rs1 sp (SP_VAR_BYTE .A 2) ++ [.lw rd sp (SP_VAR .A)]
      have frontFrame : Frame [rd, gp, tp] [.A, .C] state
          (execAll state front) := by
        apply frame_execAll _ stackKept
        simp [front, sh, getbyte, Base.Touches]
        exact Or.inl ⟨3, by decide⟩
      obtain ⟨restFrame, rest⟩ := slli_rest (execAll state front)
        (by omega : imm - 16 < 16) notSp
      rw [execAll_append]
      refine ⟨frontFrame.trans (restFrame.mono (by simp) (by simp)) stackKept,
        fun target => ?_⟩
      have moved : (execAll state front).cpu.gpr rd =
          state.cpu.gpr rs1 <<< 16 := by
        simp +decide [front, sh, getbyte, SP_VAR_BYTE_A_add_one, gpr_setR,
          target]
        rw [← byte_zero_eq, setByte_two_three _ _ (byte_zero 0) (byte_zero 1)]
      rw [rest target, moved, ← BitVec.shiftLeft_add,
        Nat.add_sub_cancel' large]
  · next pos notLarge notMiddle =>
      have whole : .add rd rs1 rs1 :: List.replicate (imm - 1) (.add rd rd rd) =
          slli rd rs1 imm := (slli_small pos (by omega)).symm
      rw [whole]
      exact ⟨(frame_execAll (touches_slli_small pos (by omega))
          (by simp [notSp.symm])).mono (by simp) (by simp),
        gpr_slli_small state pos (by omega)⟩

end Slli

end Ysyx.Rvmini
