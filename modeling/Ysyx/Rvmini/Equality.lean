import Ysyx.Rvmini.Arithmetic
import Ysyx.Rvmini.Rodata

/-!
# Equality

The macros `seqz` and `seq` count the bytes that differ, and look the count up.
-/

namespace Ysyx.Rvmini

open Nemu Bytes

/-! ## Counting -/

/-- What a check of one byte leaves: `1` if it differs. -/
def flag (differs : Bool) : Word := if differs then 1 else 0

/-- The number of bytes that differ. -/
def count (differs : Fin 4 → Bool) : Word :=
  flag (differs 0) + flag (differs 1) + flag (differs 2) + flag (differs 3)

theorem sameResult_count (differs : Fin 4 → Bool) :
    sameResult[(count differs).toNat]? =
      some (if ∃ k, differs k = true then 0 else 1) := by
  have some' : (∃ k, differs k = true) ↔
      (differs 0 || differs 1 || differs 2 || differs 3) = true := by
    simp [Fin.exists_fin_succ, or_assoc]
  simp only [some', count]
  cases differs 0 <;> cases differs 1 <;> cases differs 2 <;>
    cases differs 3 <;> rfl

theorem check8bit0Bytes_getElem? (value : BitVec 8) :
    check8bit0Bytes[value.toNat]? =
      some (if value = 0 then 0 else 1) := by
  have inByte := value.isLt
  split
  · next zero =>
      rw [zero]
      rfl
  · next notZero =>
      have pos : value.toNat ≠ 0 := fun zero =>
        notZero (BitVec.eq_of_toNat_eq zero)
      obtain ⟨place, next⟩ := Nat.exists_eq_succ_of_ne_zero pos
      rw [next, check8bit0Bytes, List.getElem?_cons_succ,
        List.getElem?_replicate, if_pos (by omega)]

section Seqz

variable {image : Image} {state : State} {rd : Reg}

theorem touches_check8bit0 (table : Reg) (boffset : Fin 4) :
    ∀ base ∈ check8bit0 table rd boffset, base.Touches [rd] [] := by
  simp [check8bit0, Base.Touches]

theorem gpr_check8bit0 (ready : Ready image state)
    (table : state.cpu.gpr s0 = image.check8bit0Table) (target : rd ≠ 0#5)
    (notTable : rd ≠ s0) (boffset : Fin 4) :
    (execAll state (check8bit0 s0 rd boffset)).cpu.gpr rd =
      flag (byte (scratch state.pmem (state.cpu.gpr sp) .A) boffset != 0#8) := by
  have looked := ready.loaded.lbu
    ((byte (scratch state.pmem (state.cpu.gpr sp) .A) boffset).setWidth 32)
    (show (image.check8bit0Table, check8bit0Bytes) ∈ image.tables by
        simp [Image.tables])
    (by
      rw [BitVec.toNat_setWidth, Nat.mod_eq_of_lt (by omega)]
      exact check8bit0Bytes_getElem? _)
  simp +decide [check8bit0, gpr_setR, target, notTable.symm, table, looked,
    flag]
  split <;> rfl

/-- One more byte is checked. -/
theorem check8bit0_add (ready : Ready image state)
    (table : state.cpu.gpr s0 = image.check8bit0Table) (boffset : Fin 4) :
    let after := execAll state (check8bit0 s0 tp boffset ++ [.add gp gp tp])
    Frame [gp, tp] [] state after ∧
      after.cpu.gpr gp = state.cpu.gpr gp +
        flag (byte (scratch state.pmem (state.cpu.gpr sp) .A) boffset != 0#8) := by
  have frame : Frame [tp] [] state (execAll state (check8bit0 s0 tp boffset)) :=
    frame_execAll (touches_check8bit0 s0 boffset) (by decide)
  constructor
  · exact frame_execAll (by simp [check8bit0, Base.Touches]) (by decide)
  · rw [execAll_append, execAll_cons, execAll_nil, Base.exec_add,
      Am.setR_gpr_self _ (by decide),
      gpr_check8bit0 ready table (by decide) (by decide),
      frame.gpr gp (by decide)]

/-- `seqz` up to the lookup. -/
theorem exists_seqz_count (rs1 : Reg) (ready : Ready image state) :
    ∃ middle, (∀ rd, execAll state (seqz image rd rs1) =
        execAll middle (la tp image.sameResultTable ++
          [.add tp tp gp, .lbu rd tp 0, POP s0 .one])) ∧
      Frame [s0, gp, tp] [.one, .A] state middle ∧
      scratch middle.pmem (state.cpu.gpr sp) .one = state.cpu.gpr s0 ∧
      middle.cpu.gpr gp = count fun k => byte (state.cpu.gpr rs1) k != 0#8 := by
  let front := [.sw rs1 sp (SP_VAR .A), PUSH s0 .one] ++
    la s0 image.check8bit0Table
  let first := execAll state front
  have firstFrame : Frame [s0, gp, tp] [.one, .A] state first :=
    frame_execAll (by simp [front, la, Base.Touches]) (by decide)
  have firstReady := ready.frame firstFrame (by decide)
  have table : first.cpu.gpr s0 = image.check8bit0Table := by
    simp +decide [first, front, execAll_append, execAll_la, gpr_setR]
  have one : scratch first.pmem (state.cpu.gpr sp) .one =
      state.cpu.gpr s0 := by
    simp +decide [first, front, execAll_append, execAll_la]
  have source : scratch first.pmem (state.cpu.gpr sp) .A =
      state.cpu.gpr rs1 := by
    simp +decide [first, front, execAll_append, execAll_la]
  have stack := firstFrame.gpr sp (by decide)
  have zeroFrame : Frame [gp, tp] [] first
      (execAll first (check8bit0 s0 gp 0)) :=
    frame_execAll (by simp [check8bit0, Base.Touches]) (by decide)
  have zeroValue := gpr_check8bit0 firstReady table (by decide : gp ≠ 0#5)
    (by decide : gp ≠ s0) 0
  obtain ⟨oneFrame, oneValue⟩ := check8bit0_add
    (firstReady.frame zeroFrame (by decide))
    ((zeroFrame.gpr s0 (by decide)).trans table) 1
  have toOne := zeroFrame.trans oneFrame (by decide)
  obtain ⟨twoFrame, twoValue⟩ := check8bit0_add
    (firstReady.frame toOne (by decide))
    ((toOne.gpr s0 (by decide)).trans table) 2
  have toTwo := toOne.trans twoFrame (by decide)
  obtain ⟨threeFrame, threeValue⟩ := check8bit0_add
    (firstReady.frame toTwo (by decide))
    ((toTwo.gpr s0 (by decide)).trans table) 3
  have toThree := toTwo.trans threeFrame (by decide)
  refine ⟨_, fun rd => ?_, firstFrame.trans (toThree.mono (by simp) (by simp))
    (by decide), ?_, ?_⟩
  · simp only [seqz, first, front, List.flatten_cons, List.flatten_nil,
      List.append_nil, execAll_append]
  · rw [← stack, toThree.var .one (by decide), stack, one]
  · have at' : ∀ {after}, Frame [gp, tp] [] first after →
        scratch after.pmem (after.cpu.gpr sp) .A = state.cpu.gpr rs1 := by
      intro after frame
      rw [frame.gpr sp (by decide), frame.var .A (by decide), stack, source]
    rw [threeValue, twoValue, oneValue, zeroValue, at' toTwo, at' toOne,
      at' zeroFrame, stack, source]
    rfl

theorem count_eq_zero_iff (a b : Word) :
    (∃ k, (byte a k != byte b k) = true) ↔ a ≠ b := by
  constructor
  · rintro ⟨k, differs⟩ rfl
    simp at differs
  · intro different
    by_contra none
    apply different
    apply ext_byte
    intro k
    by_contra differs
    exact none ⟨k, by simpa using differs⟩

/-- The lookup that ends `seq` and `seqz`. -/
theorem sameResult_lookup {middle : State} (ready : Ready image middle)
    {differs : Fin 4 → Bool} (counted : middle.cpu.gpr gp = count differs)
    (target : rd ≠ 0#5) :
    (execAll middle (la tp image.sameResultTable ++
      [.add tp tp gp, .lbu rd tp 0])).cpu.gpr rd =
        if ∃ k, differs k = true then 0 else 1 := by
  have looked := ready.loaded.lbu (middle.cpu.gpr gp)
    (show (image.sameResultTable, sameResult) ∈ image.tables by
      simp [Image.tables])
    (by rw [counted]; exact sameResult_count differs)
  simp +decide only [execAll_append, execAll_la, execAll_cons, execAll_nil,
    Base.exec_add, Base.exec_lbu, gpr_setR, target, if_true, if_false]
  rw [show (0 : BitVec 12).signExtend 32 = 0#32 from rfl, BitVec.add_zero,
    looked]
  split <;> rfl

theorem frame_seqz (rs1 : Reg) (ready : Ready image state)
    (targetNotSp : rd ≠ sp) :
    Frame [rd, gp, tp] [.one, .A] state
      (execAll state (seqz image rd rs1)) := by
  obtain ⟨middle, same, frame, one, -⟩ := exists_seqz_count rs1 ready
  have stack := frame.gpr sp (by decide)
  have lastFrame : Frame [s0, rd, gp, tp] [] middle (execAll middle
      (la tp image.sameResultTable ++
        [.add tp tp gp, .lbu rd tp 0, POP s0 .one])) :=
    frame_execAll (by simp [la, Base.Touches])
      (by simp +decide [targetNotSp.symm])
  rw [same]
  apply FrameOff.restore (r := s0)
  · exact (frame.mono (by simp) (fun _ => id)).trans
      (lastFrame.mono (fun _ => id) (by simp))
      (by simp +decide [targetNotSp.symm])
  · intro _
    simp +decide [execAll_append, execAll_la, gpr_setR, stack, one,
      targetNotSp.symm]

/-- `seqz rd, rs1`, for all registers but the one that the macro saves. -/
theorem gpr_seqz (rs1 : Reg) (ready : Ready image state) (target : rd ≠ 0#5)
    (notSaved : rd ≠ s0) :
    (execAll state (seqz image rd rs1)).cpu.gpr rd =
      if state.cpu.gpr rs1 = 0#32 then 1 else 0 := by
  obtain ⟨middle, same, frame, -, counted⟩ := exists_seqz_count rs1 ready
  have looked := sameResult_lookup (ready.frame frame (by decide)) counted
    target
  have zero := count_eq_zero_iff (state.cpu.gpr rs1) 0#32
  simp only [byte_zero] at zero
  have split : la tp image.sameResultTable ++
      [.add tp tp gp, .lbu rd tp 0, POP s0 .one] =
        (la tp image.sameResultTable ++ [.add tp tp gp, .lbu rd tp 0]) ++
          [POP s0 .one] := rfl
  rw [same, split, execAll_append, execAll_cons, execAll_nil, Base.exec_lw,
    Am.setR_gpr_of_ne _ notSaved, looked, if_congr zero rfl rfl]
  exact ite_not ..

/-- `seqz s0, rs1` does not set `s0`: the macro restores it after the
lookup. -/
theorem gpr_seqz_s0 (rs1 : Reg) (ready : Ready image state) :
    (execAll state (seqz image s0 rs1)).cpu.gpr s0 = state.cpu.gpr s0 := by
  obtain ⟨middle, same, frame, one, -⟩ := exists_seqz_count rs1 ready
  rw [same]
  simp +decide [execAll_append, execAll_la, gpr_setR,
    frame.gpr sp (by decide), one]

/-- What `seqz` leaves in its register, whichever it is. -/
theorem seqz_result (rs1 : Reg) (ready : Ready image state)
    (target : rd ≠ 0#5) :
    (execAll state (seqz image rd rs1)).cpu.gpr rd =
      if rd = s0 then state.cpu.gpr s0
      else if state.cpu.gpr rs1 = 0#32 then 1 else 0 := by
  split
  · next saved =>
      rw [saved]
      exact gpr_seqz_s0 rs1 ready
  · next notSaved => exact gpr_seqz rs1 ready target notSaved

/-- `seqz s0, a0` with 5 in `s0` and 0 in `a0`. -/
theorem seqz_result_saved :
    let state : State := ⟨0x80000000,
      ((CpuState.setR ⟨0, 0, rfl⟩ sp 0x80200000).setR s0 5),
      loadFile 0x80100000 0x80000000 []⟩
    (execAll state (seqz (Image.ofRodata 0x80100000) s0 10#5)).cpu.gpr s0 =
      if s0 = s0 then state.cpu.gpr s0
      else if state.cpu.gpr 10#5 = 0#32 then 1 else 0 := by
  intro state
  have noCode : ∀ addr, InCode 0x80000000 [] addr →
      ¬ InRodata 0x80100000 addr :=
    fun _ inCode => absurd inCode (Nat.not_lt_zero _)
  apply seqz_result 10#5 _ (by decide)
  apply ready_ofRodata (loaded_loadFile noCode)
  intro addr inside inRodata
  have stack : state.cpu.gpr sp = 0x80200000#32 := by decide
  rw [InScratch, stack] at inside
  rw [InRodata, BitVec.ofNat_eq_ofNat] at inRodata
  simp only [BitVec.toNat_sub, BitVec.toNat_ofNat] at inside inRodata
  omega

end Seqz

/-! ## `seq` -/

section Seq

variable {image : Image} {state : State} {rd : Reg}

/-- The place of a byte in `_check_same_array`. -/
def cell (image : Image) (value : BitVec 8) : Word :=
  image.checkSameArray + value.setWidth 32

theorem isCheckSame_cell (image : Image) (value : BitVec 8) :
    image.IsCheckSame (cell image value) := by
  rw [Image.IsCheckSame, cell, BitVec.add_comm, BitVec.add_sub_cancel,
    BitVec.toNat_setWidth]
  have inByte := value.isLt
  omega

theorem cell_inj {a b : BitVec 8} (same : cell image a = cell image b) :
    a = b := by
  have words := (BitVec.add_right_inj _).mp same
  have bytes := congrArg (BitVec.setWidth 8) words
  rwa [BitVec.setWidth_setWidth_of_le _ (by decide), BitVec.setWidth_eq,
    BitVec.setWidth_setWidth_of_le _ (by decide), BitVec.setWidth_eq] at bytes

theorem scratch_hostWrite_cell (ready : Ready image state) (pmem : Pmem)
    (a : BitVec 8) (value : Word) (n : Var) :
    scratch (hostWrite pmem (cell image a) 1 value) (state.cpu.gpr sp) n =
      scratch pmem (state.cpu.gpr sp) n := by
  apply ext_byte
  intro k
  rw [byte_scratch, byte_scratch]
  apply hostWrite_of_outside
  by_contra near
  have here : place (state.cpu.gpr sp) n k = cell image a := by
    apply BitVec.eq_of_toNat_eq
    rw [BitVec.toNat_sub] at near
    omega
  have inScratch : InScratch (state.cpu.gpr sp) (cell image a) := by
    rw [← here]
    apply inScratch_of_near (n := n)
    have inWord := k.isLt
    have nLe := n.num_le
    rw [place_sub]
    omega
  exact (ready.clear _ inScratch).2 (isCheckSame_cell image a)

theorem hostWrite_cell_of_ne (pmem : Pmem) (a : BitVec 8) (value : Word)
    {addr : Word} (different : addr ≠ cell image a) :
    hostWrite pmem (cell image a) 1 value addr = pmem addr := by
  apply hostWrite_of_outside
  by_contra near
  apply different
  apply BitVec.eq_of_toNat_eq
  rw [BitVec.toNat_sub] at near
  omega

theorem hostWrite_cell_self (pmem : Pmem) (a : BitVec 8) (value : Word) :
    hostWrite pmem (cell image a) 1 value (cell image a) =
      value.setWidth 8 := by
  have lane : hostWrite pmem (cell image a) 1 value (cell image a + 0#32) = _ :=
    hostWrite_lane (by decide) (by decide) value
  rw [BitVec.add_zero] at lane
  exact lane

/-- A cell is set for one byte, then cleared for the other. -/
theorem read_cells (image : Image) (pmem : Pmem) (a b : BitVec 8) :
    hostRead (hostWrite (hostWrite pmem (cell image a) 1 1#32)
      (cell image b) 1 0#32) (cell image a) 1 = flag (a != b) := by
  rw [hostRead_one]
  by_cases same : a = b
  · rw [same, hostWrite_cell_self]
    simp [flag]
  · rw [hostWrite_cell_of_ne _ _ _ fun cells => same (cell_inj cells),
      hostWrite_cell_self]
    simp [flag, same]

/-- The check of one byte. -/
theorem check8bitSame_effect (ready : Ready image state)
    (table : state.cpu.gpr s0 = image.checkSameArray) (target : rd ≠ 0#5)
    (notSp : rd ≠ sp) (notTp : rd ≠ tp) (notTable : rd ≠ s0)
    (boffset : Fin 4) :
    let after := execAll state (check8bitSame s0 rd boffset)
    FrameOff image.IsCheckSame [rd, tp] [] state after ∧
      after.cpu.gpr rd =
        flag (byte (scratch state.pmem (state.cpu.gpr sp) .A) boffset !=
          byte (scratch state.pmem (state.cpu.gpr sp) .B) boffset) := by
  intro after
  generalize left : byte (scratch state.pmem (state.cpu.gpr sp) .A)
    boffset = a
  generalize right : byte (scratch state.pmem (state.cpu.gpr sp) .B)
    boffset = b
  have cells : ∀ value : BitVec 8,
      image.checkSameArray + value.setWidth 32 = cell image value :=
    fun _ => rfl
  have memory : after.pmem = hostWrite (hostWrite state.pmem
      (cell image a) 1 1#32) (cell image b) 1 0#32 := by
    simp +decide [after, check8bitSame, gpr_setR, target, notSp.symm,
      notTp.symm, notTable.symm, table, left, right, cells,
      scratch_hostWrite_cell ready]
  refine ⟨⟨?_, rfl, ?_, ?_⟩, ?_⟩
  · intro r outside
    simp only [List.mem_cons, List.not_mem_nil, or_false, not_or] at outside
    simp only [after, check8bitSame, execAll_cons, execAll_nil, Base.exec,
      Am.setR_gpr_of_ne _ outside.1, Am.setR_gpr_of_ne _ outside.2]
  · intro n _
    rw [memory, scratch_hostWrite_cell ready, scratch_hostWrite_cell ready]
  · intro addr _ notCell
    have other : ∀ value, addr ≠ cell image value := by
      rintro value rfl
      exact notCell (isCheckSame_cell image value)
    rw [memory, hostWrite_cell_of_ne _ _ _ (other b),
      hostWrite_cell_of_ne _ _ _ (other a)]
  · have looked := read_cells image state.pmem a b
    simp +decide [after, check8bitSame, gpr_setR, target, notSp.symm,
      notTp.symm, notTable.symm, table, left, right, cells,
      scratch_hostWrite_cell ready, looked]

/-- One more byte is checked. -/
theorem check8bitSame_add (ready : Ready image state)
    (table : state.cpu.gpr s0 = image.checkSameArray) (boffset : Fin 4) :
    let after := execAll state
      (check8bitSame s0 s1 boffset ++ [.add gp gp s1])
    FrameOff image.IsCheckSame [gp, s1, tp] [] state after ∧
      after.cpu.gpr gp = state.cpu.gpr gp +
        flag (byte (scratch state.pmem (state.cpu.gpr sp) .A) boffset !=
          byte (scratch state.pmem (state.cpu.gpr sp) .B) boffset) := by
  obtain ⟨frame, value⟩ := check8bitSame_effect ready table
    (by decide : s1 ≠ 0#5) (by decide) (by decide) (by decide) boffset
  have addFrame : Frame [gp] [] (execAll state (check8bitSame s0 s1 boffset))
      (execAll (execAll state (check8bitSame s0 s1 boffset))
        [.add gp gp s1]) :=
    frame_execAll (by simp [Base.Touches]) (by decide)
  rw [execAll_append]
  constructor
  · apply (frame.mono (by simp) (fun _ => id)).trans _ (by decide)
    exact (addFrame.widen fun _ => False.elim).mono (by simp) (fun _ => id)
  · rw [execAll_cons, execAll_nil, Base.exec_add,
      Am.setR_gpr_self _ (by decide), value, frame.gpr gp (by decide)]

/-- `seq` up to the lookup. -/
theorem exists_seq_count (rs1 rs2 : Reg) (ready : Ready image state) :
    ∃ middle, (∀ rd, execAll state (seq image rd rs1 rs2) =
        execAll middle (la tp image.sameResultTable ++
          [.add tp tp gp, .lbu rd tp 0, POP s1 .two, POP s0 .one])) ∧
      FrameOff image.IsCheckSame [s0, s1, gp, tp] [.one, .two, .A, .B] state
        middle ∧
      scratch middle.pmem (state.cpu.gpr sp) .one = state.cpu.gpr s0 ∧
      scratch middle.pmem (state.cpu.gpr sp) .two = state.cpu.gpr s1 ∧
      middle.cpu.gpr gp = count fun k =>
        byte (state.cpu.gpr rs1) k != byte (state.cpu.gpr rs2) k := by
  let front := [.sw rs1 sp (SP_VAR .A), .sw rs2 sp (SP_VAR .B), PUSH s0 .one,
    PUSH s1 .two] ++ la s0 image.checkSameArray
  let first := execAll state front
  have firstFrame : Frame [s0, s1, gp, tp] [.one, .two, .A, .B] state first :=
    frame_execAll (by simp [front, la, Base.Touches]) (by decide)
  have firstReady := ready.frame firstFrame (by decide)
  have table : first.cpu.gpr s0 = image.checkSameArray := by
    simp +decide [first, front, execAll_append, execAll_la, gpr_setR]
  have one : scratch first.pmem (state.cpu.gpr sp) .one =
      state.cpu.gpr s0 := by
    simp +decide [first, front, execAll_append, execAll_la]
  have two : scratch first.pmem (state.cpu.gpr sp) .two =
      state.cpu.gpr s1 := by
    simp +decide [first, front, execAll_append, execAll_la]
  have left : scratch first.pmem (state.cpu.gpr sp) .A =
      state.cpu.gpr rs1 := by
    simp +decide [first, front, execAll_append, execAll_la]
  have right : scratch first.pmem (state.cpu.gpr sp) .B =
      state.cpu.gpr rs2 := by
    simp +decide [first, front, execAll_append, execAll_la]
  have stack := firstFrame.gpr sp (by decide)
  obtain ⟨zeroFrame, zeroValue⟩ := check8bitSame_effect firstReady table
    (by decide : gp ≠ 0#5) (by decide) (by decide) (by decide) 0
  have toZero : FrameOff image.IsCheckSame [gp, s1, tp] [] first _ :=
    zeroFrame.mono (by simp) (fun _ => id)
  obtain ⟨oneFrame, oneValue⟩ := check8bitSame_add
    (firstReady.frameOff toZero (by decide))
    ((toZero.gpr s0 (by decide)).trans table) 1
  have toOne := toZero.trans oneFrame (by decide)
  obtain ⟨twoFrame, twoValue⟩ := check8bitSame_add
    (firstReady.frameOff toOne (by decide))
    ((toOne.gpr s0 (by decide)).trans table) 2
  have toTwo := toOne.trans twoFrame (by decide)
  obtain ⟨threeFrame, threeValue⟩ := check8bitSame_add
    (firstReady.frameOff toTwo (by decide))
    ((toTwo.gpr s0 (by decide)).trans table) 3
  have toThree := toTwo.trans threeFrame (by decide)
  refine ⟨_, fun rd => ?_, (firstFrame.widen fun _ => False.elim).trans
    (toThree.mono (by simp) (by simp)) (by decide), ?_, ?_, ?_⟩
  · simp only [seq, first, front, List.flatten_cons, List.flatten_nil,
      List.append_nil, execAll_append]
  · rw [← stack, toThree.var .one (by decide), stack, one]
  · rw [← stack, toThree.var .two (by decide), stack, two]
  · have atA : ∀ {after}, FrameOff image.IsCheckSame [gp, s1, tp] [] first
        after → scratch after.pmem (after.cpu.gpr sp) .A =
          state.cpu.gpr rs1 := by
      intro after frame
      rw [frame.gpr sp (by decide), frame.var .A (by decide), stack, left]
    have atB : ∀ {after}, FrameOff image.IsCheckSame [gp, s1, tp] [] first
        after → scratch after.pmem (after.cpu.gpr sp) .B =
          state.cpu.gpr rs2 := by
      intro after frame
      rw [frame.gpr sp (by decide), frame.var .B (by decide), stack, right]
    rw [threeValue, twoValue, oneValue, zeroValue, atA toTwo, atA toOne,
      atA toZero, atB toTwo, atB toOne, atB toZero, stack, left, right]
    rfl

/-- `seq tp, rs1, rs2`, which is how the branches use it. -/
theorem seq_tp_effect (rs1 rs2 : Reg) (ready : Ready image state) :
    let after := execAll state (seq image tp rs1 rs2)
    FrameOff image.IsCheckSame [gp, tp] [.one, .two, .A, .B] state after ∧
      after.cpu.gpr tp =
        if state.cpu.gpr rs1 = state.cpu.gpr rs2 then 1 else 0 := by
  obtain ⟨middle, same, frame, one, two, counted⟩ :=
    exists_seq_count rs1 rs2 ready
  have stack := frame.gpr sp (by decide)
  have looked := sameResult_lookup (ready.frameOff frame (by decide)) counted
    (by decide : tp ≠ 0#5)
  have equal := count_eq_zero_iff (state.cpu.gpr rs1) (state.cpu.gpr rs2)
  have lastFrame : Frame [s0, s1, gp, tp] [] middle (execAll middle
      (la tp image.sameResultTable ++
        [.add tp tp gp, .lbu tp tp 0, POP s1 .two, POP s0 .one])) :=
    frame_execAll (by simp [la, Base.Touches]) (by decide)
  have split : la tp image.sameResultTable ++
      [.add tp tp gp, .lbu tp tp 0, POP s1 .two, POP s0 .one] =
        (la tp image.sameResultTable ++ [.add tp tp gp, .lbu tp tp 0]) ++
          [POP s1 .two, POP s0 .one] := rfl
  simp only [same]
  constructor
  · apply FrameOff.restore (r := s0)
    · apply FrameOff.restore (r := s1)
      · exact (frame.mono (by simp) (fun _ => id)).trans
          ((lastFrame.widen fun _ => False.elim).mono (by simp) (by simp))
          (by decide)
      · intro _
        simp +decide [execAll_append, execAll_la, gpr_setR, stack, two]
    · intro _
      simp +decide [execAll_append, execAll_la, gpr_setR, stack, one]
  · rw [split, execAll_append, execAll_cons, execAll_cons, execAll_nil,
      Base.exec_lw, Base.exec_lw, Am.setR_gpr_of_ne _ (by decide),
      Am.setR_gpr_of_ne _ (by decide), looked, if_congr equal rfl rfl]
    exact ite_not ..

end Seq

end Ysyx.Rvmini
