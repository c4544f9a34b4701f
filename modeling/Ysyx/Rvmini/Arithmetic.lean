import Ysyx.Rvmini.Tables

/-!
# Arithmetic and comparison

What the macros `slli` for small amounts, `msb`, `not`, `sub`, `slt` and `sltu`
compute, and their footprints.
-/

namespace Ysyx.Rvmini

open Nemu Bytes

theorem setR_x0 (cpu : CpuState) (value : Word) : cpu.setR 0 value = cpu :=
  Am.setR_zero cpu value

/-! ## `la` -/

theorem hi_append_add_lo (addr : Word) :
    hi addr ++ 0#12 + (lo addr).signExtend 32 = addr := by
  apply BitVec.eq_of_toNat_eq
  have upper : (hi addr ++ 0#12).toNat = (hi addr).toNat * 2 ^ 12 := by
    rw [BitVec.toNat_append, Nat.shiftLeft_eq]
    simp
  have lower : (lo addr).toNat = addr.toNat % 2 ^ 12 := by
    simp [lo]
  have inWord := addr.isLt
  rw [BitVec.toNat_add, upper, BitVec.toNat_signExtend, BitVec.toNat_setWidth,
    BitVec.msb_eq_decide, lower, hi, BitVec.extractLsb'_toNat,
    BitVec.toNat_add, Nat.shiftRight_eq_div_pow]
  simp only [decide_eq_true_eq]
  split <;> simp <;> omega

theorem execAll_la (state : State) (r : Reg) (addr : Word) :
    execAll state (la r addr) =
      ⟨state.pc + 4 + 4, state.cpu.setR r addr, state.pmem⟩ := by
  by_cases zero : r = 0
  · simp only [la, execAll_cons, execAll_nil, Base.exec, zero, setR_x0]
  · simp only [la, execAll_cons, execAll_nil, Base.exec,
      Am.setR_gpr_self _ zero, hi_append_add_lo, setR_setR]

/-! ## `slli`, `getbyte` and `msb` -/

section Small

variable (state : State) {rd rs1 : Reg}

theorem slli_small {imm : Nat} (pos : imm ≠ 0) (small : imm < 16) :
    slli rd rs1 imm =
      .add rd rs1 rs1 :: List.replicate (imm - 1) (.add rd rd rd) := by
  rw [slli, if_neg pos, if_neg (by omega), if_neg (by omega)]

theorem touches_slli_small {imm : Nat} (pos : imm ≠ 0) (small : imm < 16) :
    ∀ base ∈ slli rd rs1 imm, base.Touches [rd] [] := by
  simp [slli_small pos small, Base.Touches]

theorem add_self_eq (x : Word) : x + x = x <<< 1 := by
  apply BitVec.eq_of_toNat_eq
  rw [BitVec.toNat_add, BitVec.toNat_shiftLeft, Nat.shiftLeft_eq]
  omega

theorem gpr_doublings (target : rd ≠ 0#5) (count : Nat) :
    (execAll state (List.replicate count (.add rd rd rd))).cpu.gpr rd =
      state.cpu.gpr rd <<< count := by
  induction count generalizing state with
  | zero =>
      exact (BitVec.shiftLeft_zero _).symm
  | succ count inductionHypothesis =>
      rw [List.replicate_succ, execAll_cons, inductionHypothesis]
      rw [Base.exec_add]
      rw [Am.setR_gpr_self _ target, add_self_eq, ← BitVec.shiftLeft_add,
        Nat.add_comm]

theorem gpr_slli_small {imm : Nat} (pos : imm ≠ 0) (small : imm < 16)
    (target : rd ≠ 0#5) :
    (execAll state (slli rd rs1 imm)).cpu.gpr rd =
      state.cpu.gpr rs1 <<< imm := by
  rw [slli_small pos small, execAll_cons, gpr_doublings _ target]
  rw [Base.exec_add]
  rw [Am.setR_gpr_self _ target, add_self_eq, ← BitVec.shiftLeft_add,
    Nat.add_sub_cancel' (Nat.one_le_iff_ne_zero.mpr pos)]

theorem touches_getbyte (byte : Fin 4) :
    ∀ base ∈ getbyte rd rs1 byte, base.Touches [rd] [.C] := by
  simp [getbyte, Base.Touches]

theorem gpr_getbyte (k : Fin 4) (target : rd ≠ 0#5) :
    (execAll state (getbyte rd rs1 k)).cpu.gpr rd =
      (byte (state.cpu.gpr rs1) k).setWidth 32 := by
  simp only [getbyte, execAll_cons, execAll_nil, Base.exec,
    Am.setR_gpr_self _ target, hostRead_place_byte, scratch_hostWrite,
    ite_true]

theorem touches_msb : ∀ base ∈ msb rd rs1, base.Touches [rd] [.C] := by
  simp [msb, getbyte, slli_small, Base.Touches]

/-- The sign of a word, as `0` or `1`. -/
def sign (x : Word) : Word := if x.msb then 1 else 0

theorem byte_one_double (x : Word) :
    (byte ((byte x 3).setWidth 32 <<< 1) 1).setWidth 32 = sign x := by
  apply BitVec.eq_of_toNat_eq
  have inWord := x.isLt
  rw [sign, BitVec.msb_eq_decide, BitVec.toNat_setWidth, byte_toNat,
    BitVec.toNat_shiftLeft, BitVec.toNat_setWidth, byte_toNat,
    Nat.shiftLeft_eq]
  simp only [decide_eq_true_eq, Fin.val_one, show (3 : Fin 4).val = 3 from rfl]
  split <;> simp <;> omega

theorem gpr_msb (target : rd ≠ 0#5) :
    (execAll state (msb rd rs1)).cpu.gpr rd = sign (state.cpu.gpr rs1) := by
  rw [msb, execAll_append, execAll_append, gpr_getbyte _ _ target,
    gpr_slli_small _ (by decide) (by decide) target,
    gpr_getbyte _ _ target, byte_one_double]

end Small

/-! ## `not` and `sub` -/

section Not

variable {image : Image} {state : State}

theorem touches_notByte (boffset : Fin 4) :
    ∀ base ∈ notByte boffset, base.Touches [gp] [.D] := by
  simp [notByte, Base.Touches]

theorem byte_not (x : Word) (k : Fin 4) : byte (~~~x) k = ~~~byte x k := by
  apply BitVec.eq_of_getLsbD_eq
  intro i inByte
  rw [BitVec.getLsbD_not, getLsbD_byte, getLsbD_byte, BitVec.getLsbD_not]
  have inWord := k.isLt
  simp [inByte]
  omega

theorem scratch_notByte (ready : Ready image state)
    (table : state.cpu.gpr tp = image.xor8Table + (0xff#32 <<< 8))
    (boffset : Fin 4) :
    scratch (execAll state (notByte boffset)).pmem (state.cpu.gpr sp) .D =
      setByte (scratch state.pmem (state.cpu.gpr sp) .D) boffset
        (~~~byte (scratch state.pmem (state.cpu.gpr sp) .C) boffset) := by
  have looked := ready.loaded.lbu_xor8 (0xff#32 <<< 8 +
      (byte (scratch state.pmem (state.cpu.gpr sp) .C) boffset).setWidth 32)
    0xff (byte (scratch state.pmem (state.cpu.gpr sp) .C) boffset) (by
      simp
      omega)
  rw [← BitVec.add_assoc, ← table, BitVec.add_comm] at looked
  simp +decide [notByte, gpr_setR, looked]
  rfl

/-- The bytes inverted so far. -/
theorem byte_notBytes (ready : Ready image state)
    (table : state.cpu.gpr tp = image.xor8Table + (0xff#32 <<< 8))
    (lanes : List (Fin 4)) (k : Fin 4) :
    byte (scratch (execAll state (lanes.flatMap notByte)).pmem
      (state.cpu.gpr sp) .D) k =
        if k ∈ lanes then
          ~~~byte (scratch state.pmem (state.cpu.gpr sp) .C) k
        else byte (scratch state.pmem (state.cpu.gpr sp) .D) k := by
  induction lanes generalizing state with
  | nil =>
      simp
  | cons lane lanes inductionHypothesis =>
      have frame : Frame [gp] [.D] state (execAll state (notByte lane)) :=
        frame_execAll (touches_notByte lane) (by decide)
      have later := inductionHypothesis (ready.frame frame (by decide))
        ((frame.gpr tp (by decide)).trans table)
      rw [frame.gpr sp (by decide), frame.var .C (by decide),
        scratch_notByte ready table, byte_setByte] at later
      rw [List.flatMap_cons, execAll_append, later]
      grind

theorem touches_not (rd rs1 : Reg) :
    ∀ base ∈ not image rd rs1,
      base.Touches [gp, rd, tp] [.three, .C, .D] := by
  simp [not, la, notByte, PUSH, POP, Base.Touches]

theorem mem_lanes (k : Fin 4) : k ∈ ([3, 2, 1, 0] : List (Fin 4)) := by
  revert k
  decide

/-- `not` up to its last two loads. -/
theorem exists_inverted (rs1 : Reg) (ready : Ready image state) :
    ∃ middle, (∀ rd, execAll state (not image rd rs1) =
        execAll middle [POP gp .three, .lw rd sp (SP_VAR .D)]) ∧
      Frame [gp, tp] [.three, .C, .D] state middle ∧
      scratch middle.pmem (state.cpu.gpr sp) .three = state.cpu.gpr gp ∧
      scratch middle.pmem (state.cpu.gpr sp) .D = ~~~state.cpu.gpr rs1 := by
  let front := [PUSH gp .three, .sw rs1 sp (SP_VAR .C)] ++
    la tp (image.xor8Table + (0xff#32 <<< 8))
  let saved := execAll state front
  have savedFrame : Frame [gp, tp] [.three, .C, .D] state saved :=
    frame_execAll (by simp [front, la, Base.Touches]) (by decide)
  have bytesFrame : Frame [gp] [.D] saved
      (execAll saved ([3, 2, 1, 0].flatMap notByte)) :=
    frame_execAll (by simp [notByte, Base.Touches]) (by decide)
  have table : saved.cpu.gpr tp = image.xor8Table + (0xff#32 <<< 8) := by
    simp only [saved, front, execAll_append, execAll_la]
    exact Am.setR_gpr_self _ (by decide) _
  have three : scratch saved.pmem (state.cpu.gpr sp) .three =
      state.cpu.gpr gp := by
    simp [saved, front, execAll_append, execAll_la]
  have source : scratch saved.pmem (state.cpu.gpr sp) .C =
      state.cpu.gpr rs1 := by
    simp [saved, front, execAll_append, execAll_la]
  have stack : saved.cpu.gpr sp = state.cpu.gpr sp :=
    savedFrame.gpr sp (by decide)
  refine ⟨execAll saved ([3, 2, 1, 0].flatMap notByte), ?_, ?_, ?_, ?_⟩
  · intro rd
    simp only [not, saved, front, List.flatten_cons, List.flatten_nil,
      List.append_nil, execAll_append]
  · exact savedFrame.trans (bytesFrame.mono (by simp) (by simp)) (by decide)
  · rw [← stack, bytesFrame.var .three (by decide), stack, three]
  · apply ext_byte
    intro k
    have inverted := byte_notBytes (ready.frame savedFrame (by decide)) table
      [3, 2, 1, 0] k
    rw [if_pos (mem_lanes k), stack, source] at inverted
    rw [byte_not]
    exact inverted

theorem frame_not {rd : Reg} (rs1 : Reg) (ready : Ready image state)
    (targetNotSp : rd ≠ sp) (targetNotGp : rd ≠ gp) :
    Frame [rd, tp] [.three, .C, .D] state
      (execAll state (not image rd rs1)) := by
  apply (frame_execAll (touches_not rd rs1) (by
    simp +decide [targetNotSp.symm])).restore
  intro _
  obtain ⟨middle, same, frame, three, -⟩ := exists_inverted rs1 ready
  rw [same]
  simp +decide [gpr_setR, targetNotGp.symm, three, frame.gpr sp (by decide)]

theorem gpr_not {rd : Reg} (rs1 : Reg) (ready : Ready image state)
    (target : rd ≠ 0#5) :
    (execAll state (not image rd rs1)).cpu.gpr rd = ~~~state.cpu.gpr rs1 := by
  obtain ⟨middle, same, frame, -, inverted⟩ := exists_inverted rs1 ready
  rw [same]
  simp +decide [gpr_setR, target, inverted, frame.gpr sp (by decide)]

theorem frame_sub {rd : Reg} (rs1 rs2 : Reg) (ready : Ready image state)
    (targetNotSp : rd ≠ sp) :
    Frame [rd, tp] [.three, .C, .D] state
      (execAll state (sub image rd rs1 rs2)) := by
  have inverted := frame_not rs2 ready (by decide : tp ≠ sp)
    (by decide : tp ≠ gp)
  rw [sub, execAll_append]
  apply (inverted.mono (by simp) (fun _ => id)).trans
  · exact frame_execAll (by simp [Base.Touches])
      (by simp +decide [targetNotSp.symm])
  · simp +decide [targetNotSp.symm]

theorem gpr_sub {rd rs1 : Reg} (rs2 : Reg) (ready : Ready image state)
    (target : rd ≠ 0#5) (sourceNotTp : rs1 ≠ tp) :
    (execAll state (sub image rd rs1 rs2)).cpu.gpr rd =
      state.cpu.gpr rs1 - state.cpu.gpr rs2 := by
  have inverted := gpr_not rs2 ready (by decide : tp ≠ 0#5)
  have kept := (frame_not rs2 ready (by decide : tp ≠ sp)
    (by decide : tp ≠ gp)).gpr rs1 (by simp [sourceNotTp])
  rw [sub, execAll_append]
  simp only [execAll_cons, execAll_nil, Base.exec_add, Base.exec_addi,
    Am.setR_gpr_self _ target, inverted, kept]
  rw [BitVec.add_assoc, BitVec.sub_eq_add_neg, BitVec.neg_eq_not_add]
  rfl

end Not

/-! ## `slt` and `sltu` -/

section Slt

variable {image : Image} {state : State}

theorem signs_left (state : State) :
    Frame [gp] [.C] state (execAll state (msb gp s0 ++ slli gp gp 1)) ∧
      (execAll state (msb gp s0 ++ slli gp gp 1)).cpu.gpr gp =
        sign (state.cpu.gpr s0) <<< 1 := by
  constructor
  · exact frame_execAll (by simp [msb, getbyte, slli_small, Base.Touches])
      (by decide)
  · rw [execAll_append, gpr_slli_small _ (by decide) (by decide) (by decide),
      gpr_msb _ (by decide)]

theorem signs_right (state : State) :
    Frame [gp, tp] [.C] state
        (execAll state (msb tp s1 ++ .add gp gp tp :: slli gp gp 1)) ∧
      (execAll state (msb tp s1 ++ .add gp gp tp :: slli gp gp 1)).cpu.gpr gp =
        (state.cpu.gpr gp + sign (state.cpu.gpr s1)) <<< 1 := by
  constructor
  · exact frame_execAll (by simp [msb, getbyte, slli_small, Base.Touches])
      (by decide)
  · have frame : Frame [tp] [.C] state (execAll state (msb tp s1)) :=
      frame_execAll touches_msb (by decide)
    rw [execAll_append, execAll_cons,
      gpr_slli_small _ (by decide) (by decide) (by decide), Base.exec_add,
      Am.setR_gpr_self _ (by decide), gpr_msb _ (by decide),
      frame.gpr gp (by decide)]

theorem signs_difference (ready : Ready image state) :
    Frame [gp, tp] [.three, .C, .D] state (execAll state
        (sub image tp s0 s1 ++ (msb tp tp ++ [.add gp gp tp]))) ∧
      (execAll state (sub image tp s0 s1 ++
        (msb tp tp ++ [.add gp gp tp]))).cpu.gpr gp =
          state.cpu.gpr gp + sign (state.cpu.gpr s0 - state.cpu.gpr s1) := by
  have subFrame := frame_sub s0 s1 ready (by decide : tp ≠ sp)
  have difference := gpr_sub s1 ready (by decide : tp ≠ 0#5)
    (by decide : s0 ≠ tp)
  have msbFrame : Frame [tp] [.C] (execAll state (sub image tp s0 s1))
      (execAll (execAll state (sub image tp s0 s1)) (msb tp tp)) :=
    frame_execAll touches_msb (by decide)
  rw [execAll_append]
  constructor
  · apply (subFrame.mono (by simp) (fun _ => id)).trans _ (by decide)
    exact frame_execAll (by simp [msb, getbyte, slli_small, Base.Touches])
      (by decide)
  · rw [execAll_append, execAll_cons, execAll_nil, Base.exec_add,
      Am.setR_gpr_self _ (by decide), gpr_msb _ (by decide), difference,
      msbFrame.gpr gp (by decide), subFrame.gpr gp (by decide)]

/-- The place in the table: the signs of both operands and of their
difference. -/
def signs (a b : Word) : Word :=
  (sign a <<< 1 + sign b) <<< 1 + sign (a - b)

/-- `slt_template` up to the lookup. -/
theorem exists_signs (rs1 rs2 : Reg) (ready : Ready image state) :
    ∃ middle, (∀ rd lut, execAll state (sltTemplate image lut rd rs1 rs2) =
        execAll middle (la tp lut ++
          [.add tp tp gp, POP s1 .two, POP s0 .one, .lbu rd tp 0])) ∧
      Frame [s0, s1, gp, tp] [.one, .two, .three, .A, .C, .D] state middle ∧
      scratch middle.pmem (state.cpu.gpr sp) .one = state.cpu.gpr s0 ∧
      scratch middle.pmem (state.cpu.gpr sp) .two = state.cpu.gpr s1 ∧
      middle.cpu.gpr gp = signs (state.cpu.gpr rs1) (state.cpu.gpr rs2) := by
  let front := [PUSH s0 .one, PUSH s1 .two, .sw rs2 sp (SP_VAR .A),
    mv s0 rs1, .lw s1 sp (SP_VAR .A)]
  let first := execAll state front
  have firstFrame : Frame [s0, s1] [.one, .two, .A] state first :=
    frame_execAll (by simp [front, Base.Touches]) (by decide)
  have one : scratch first.pmem (state.cpu.gpr sp) .one =
      state.cpu.gpr s0 := by
    simp +decide [first, front, gpr_setR]
  have two : scratch first.pmem (state.cpu.gpr sp) .two =
      state.cpu.gpr s1 := by
    simp +decide [first, front, gpr_setR]
  have left : first.cpu.gpr s0 = state.cpu.gpr rs1 := by
    simp +decide [first, front, gpr_setR]
  have right : first.cpu.gpr s1 = state.cpu.gpr rs2 := by
    simp +decide [first, front, gpr_setR]
  obtain ⟨secondFrame, secondValue⟩ := signs_left first
  obtain ⟨thirdFrame, thirdValue⟩ := signs_right
    (execAll first (msb gp s0 ++ slli gp gp 1))
  have moreFrame := (secondFrame.mono (by simp) (fun _ => id)).trans
    thirdFrame (by decide)
  have thirdReady := (ready.frame firstFrame (by decide)).frame moreFrame
    (by decide)
  obtain ⟨fourthFrame, fourthValue⟩ := signs_difference thirdReady
  have lastFrame := (moreFrame.mono (fun _ => id) (by simp)).trans
    fourthFrame (by decide)
  have stack : first.cpu.gpr sp = state.cpu.gpr sp :=
    firstFrame.gpr sp (by decide)
  refine ⟨_, fun rd lut => ?_, (firstFrame.mono (by simp) (by simp)).trans
    (lastFrame.mono (by simp) (by simp)) (by decide), ?_, ?_, ?_⟩
  · simp only [sltTemplate, first, front, List.flatten_cons, List.flatten_nil,
      List.append_nil, execAll_append, execAll_cons, execAll_nil]
  · rw [← stack, lastFrame.var .one (by decide), stack, one]
  · rw [← stack, lastFrame.var .two (by decide), stack, two]
  · rw [fourthValue, thirdValue, secondValue,
      moreFrame.gpr s0 (by decide), moreFrame.gpr s1 (by decide),
      secondFrame.gpr s1 (by decide), left, right]
    rfl

/-- `slt = OF ^ SF`. -/
theorem slt_eq_signs (a b : Word) :
    a.slt b = (((a.msb ^^ b.msb) && (a.msb ^^ (a - b).msb)) ^^
      (a - b).msb) := by
  have one := a.isLt
  have two := b.isLt
  rw [BitVec.slt_eq_decide, BitVec.toInt_eq_toNat_cond,
    BitVec.toInt_eq_toNat_cond, BitVec.msb_eq_decide, BitVec.msb_eq_decide,
    BitVec.msb_eq_decide, BitVec.toNat_sub]
  grind

/-- `sltu = slt ^ sign(A) ^ sign(B)`. -/
theorem ult_eq_signs (a b : Word) :
    a.ult b = (a.slt b ^^ (a.msb ^^ b.msb)) := by
  rw [BitVec.slt_eq_ult]
  cases a.msb <;> cases b.msb <;> simp

theorem slt1_signs (a b : Word) :
    slt1[(signs a b).toNat]? = some (if a.slt b then 1 else 0) := by
  rw [slt_eq_signs, signs, sign, sign, sign]
  cases a.msb <;> cases b.msb <;> cases (a - b).msb <;> rfl

theorem sltu1_signs (a b : Word) :
    sltu1[(signs a b).toNat]? = some (if a.ult b then 1 else 0) := by
  rw [ult_eq_signs, slt_eq_signs, signs, sign, sign, sign]
  cases a.msb <;> cases b.msb <;> cases (a - b).msb <;> rfl

theorem frame_sltTemplate {rd : Reg} (lut : Word) (rs1 rs2 : Reg)
    (ready : Ready image state) (targetNotSp : rd ≠ sp) :
    Frame [rd, gp, tp] [.one, .two, .three, .A, .C, .D] state
      (execAll state (sltTemplate image lut rd rs1 rs2)) := by
  obtain ⟨middle, same, frame, one, two, -⟩ := exists_signs rs1 rs2 ready
  have stack := frame.gpr sp (by decide)
  have lastFrame : Frame [s0, s1, rd, gp, tp] [] middle (execAll middle
      (la tp lut ++ [.add tp tp gp, POP s1 .two, POP s0 .one, .lbu rd tp 0])) :=
    frame_execAll (by simp [la, Base.Touches])
      (by simp +decide [targetNotSp.symm])
  rw [same]
  apply FrameOff.restore (r := s0)
  · apply FrameOff.restore (r := s1)
    · exact (frame.mono (by simp) (fun _ => id)).trans
        (lastFrame.mono (by simp) (by simp))
        (by simp +decide [targetNotSp.symm])
    · intro outside
      simp only [List.mem_cons, not_or] at outside
      simp +decide [execAll_append, execAll_la, gpr_setR, outside, stack, two]
  · intro outside
    simp only [List.mem_cons, not_or] at outside
    simp +decide [execAll_append, execAll_la, gpr_setR, outside, stack, one]

theorem gpr_sltTemplate {rd : Reg} {lut : Word} {bytes : List (BitVec 8)}
    (rs1 rs2 : Reg) (ready : Ready image state) (target : rd ≠ 0#5)
    (inImage : (lut, bytes) ∈ image.tables) {value : BitVec 8}
    (here : bytes[(signs (state.cpu.gpr rs1) (state.cpu.gpr rs2)).toNat]? =
      some value) :
    (execAll state (sltTemplate image lut rd rs1 rs2)).cpu.gpr rd =
      value.setWidth 32 := by
  obtain ⟨middle, same, frame, -, -, index⟩ := exists_signs rs1 rs2 ready
  have looked := (ready.frame frame (by decide)).loaded.lbu _ inImage here
  rw [same]
  simp +decide [execAll_append, execAll_la, gpr_setR, target, index, looked]

theorem gpr_slt {rd : Reg} (rs1 rs2 : Reg) (ready : Ready image state)
    (target : rd ≠ 0#5) :
    (execAll state (slt image rd rs1 rs2)).cpu.gpr rd =
      if (state.cpu.gpr rs1).slt (state.cpu.gpr rs2) then 1 else 0 := by
  rw [slt, gpr_sltTemplate rs1 rs2 ready target (by simp [Image.tables])
    (slt1_signs ..)]
  split <;> rfl

theorem gpr_sltu {rd : Reg} (rs1 rs2 : Reg) (ready : Ready image state)
    (target : rd ≠ 0#5) :
    (execAll state (sltu image rd rs1 rs2)).cpu.gpr rd =
      if (state.cpu.gpr rs1).ult (state.cpu.gpr rs2) then 1 else 0 := by
  rw [sltu, gpr_sltTemplate rs1 rs2 ready target (by simp [Image.tables])
    (sltu1_signs ..)]
  split <;> rfl

end Slt

end Ysyx.Rvmini
