import Ysyx.Rvmini.Equality
import Ysyx.Rvmini.Code

/-!
# Branches

Every branch macro leaves a comparison in `tp` and jumps through a word that it
picks among two.
-/

namespace Ysyx.Rvmini

open Nemu Bytes

/-! ## `branch_resolve` -/

section Resolve

variable {image : Image} {state : State}

/-- `branch_resolve` without its last instruction. -/
def resolveFront (target : Word) (isTpHighSelTarget : Bool) (label : Word) :
    List Base :=
  let (high, low) := if isTpHighSelTarget then (target, label)
    else (label, target)
  slli tp tp 2 ++ (.add tp sp tp :: (la gp high ++ (.sw gp sp (SP_VAR .A) ::
    (la gp low ++ [.sw gp sp (SP_VAR .B), .lw tp tp (SP_VAR .B)]))))

theorem branchResolve_eq (target : Word) (isTpHighSelTarget : Bool)
    (label : Word) :
    branchResolve target isTpHighSelTarget label =
      resolveFront target isTpHighSelTarget label ++ [.jalr x0 tp 0] := by
  cases isTpHighSelTarget <;>
    simp [branchResolve, resolveFront]

theorem touches_resolveFront (target : Word) (isTpHighSelTarget : Bool)
    (label : Word) :
    ∀ base ∈ resolveFront target isTpHighSelTarget label,
      base.Touches [gp, tp] [.A, .B] := by
  cases isTpHighSelTarget <;>
    simp [resolveFront, slli_small, la, Base.Touches]

theorem place_A_eq (stack : Word) :
    stack + 4#32 + (SP_VAR .B).signExtend 32 =
      place stack .A 0 := by
  rw [place, signExtend_SP_VAR_BYTE, signExtend_SP_VAR_BYTE, BitVec.add_assoc]
  rfl

/-- The word that `branch_resolve` picks. -/
theorem gpr_resolveFront {holds : Bool}
    (compared : state.cpu.gpr tp = flag holds) (target : Word)
    (isTpHighSelTarget : Bool) (label : Word) :
    (execAll state (resolveFront target isTpHighSelTarget label)).cpu.gpr tp =
      if holds = isTpHighSelTarget then target else label := by
  cases holds <;> cases isTpHighSelTarget <;>
    simp +decide [resolveFront, slli_small, execAll_append, execAll_la,
      gpr_setR, compared, flag, place_A_eq]

end Resolve

/-! ## Comparisons -/

theorem Base.Touches.falls {base : Base} {regs : List Reg} {vars : List Var}
    (touches : base.Touches regs vars) : base.Falls := by
  cases base with
  | jalr rd rs1 imm => exact touches
  | _ => trivial

/-- All scratch words. -/
def allVars : List Var := [.one, .two, .three, .A, .B, .C, .D]

theorem mem_allVars (n : Var) : n ∈ allVars := by
  cases n <;> decide

/-- Memory that no macro may change. -/
def Keeps (image : Image) (keep : Word → Prop) (state : State) : Prop :=
  ∀ addr, keep addr →
    ¬ InScratch (state.cpu.gpr sp) addr ∧ ¬ image.IsCheckSame addr

/-- Code that leaves a comparison in `tp`. -/
structure Compares (image : Image) (keep : Word → Prop) (state : State)
    (code : List Base) (holds : Bool) : Prop where
  frame : FrameOff image.IsCheckSame [gp, tp] allVars state
    (execAll state code)
  compared : (execAll state code).cpu.gpr tp = flag holds
  quiet : Quiet keep state code
  falls : ∀ base ∈ code, base.Falls

section Comparisons

variable {image : Image} {keep : Word → Prop} {state : State}
  (keeps : Keeps image keep state) (ready : Ready image state)

include keeps in
theorem compares_of_touches {regs : List Reg} {vars : List Var}
    {code : List Base} {holds : Bool}
    (touches : ∀ base ∈ code, base.Touches regs vars) (stackKept : sp ∉ regs)
    (frame : Frame [gp, tp] vars state (execAll state code))
    (compared : (execAll state code).cpu.gpr tp = flag holds) :
    Compares image keep state code holds where
  frame := (frame.mono (fun _ => id) fun n _ => mem_allVars n).widen
    fun _ => False.elim
  compared := compared
  quiet := quiet_of_touches touches stackKept fun addr kept =>
    (keeps addr kept).1
  falls base inCode := (touches base inCode).falls

theorem touches_seqz (rd rs1 : Reg) :
    ∀ base ∈ seqz image rd rs1, base.Touches [s0, rd, gp, tp] [.one, .A] := by
  simp [seqz, la, check8bit0, Base.Touches]

theorem touches_sltTemplate (lut : Word) (rd rs1 rs2 : Reg) :
    ∀ base ∈ sltTemplate image lut rd rs1 rs2,
      base.Touches [s0, s1, rd, gp, tp] [.one, .two, .three, .A, .C, .D] := by
  simp [sltTemplate, la, sub, not, notByte, msb, getbyte, slli_small,
    Base.Touches]

include keeps ready in
theorem compares_seqz (rs1 : Reg) :
    Compares image keep state (seqz image tp rs1)
      (state.cpu.gpr rs1 == 0#32) := by
  apply compares_of_touches keeps (touches_seqz tp rs1) (by decide)
  · exact (frame_seqz rs1 ready (by decide)).mono (by simp) (fun _ => id)
  · rw [gpr_seqz rs1 ready (by decide) (by decide), flag]
    simp only [beq_iff_eq]

include keeps ready in
theorem compares_slt (rs1 rs2 : Reg) :
    Compares image keep state (slt image tp rs1 rs2)
      ((state.cpu.gpr rs1).slt (state.cpu.gpr rs2)) := by
  apply compares_of_touches keeps (touches_sltTemplate _ tp rs1 rs2)
    (by decide)
  · exact (frame_sltTemplate _ rs1 rs2 ready (by decide)).mono (by simp)
      (fun _ => id)
  · exact gpr_slt rs1 rs2 ready (by decide)

include keeps ready in
theorem compares_sltu (rs1 rs2 : Reg) :
    Compares image keep state (sltu image tp rs1 rs2)
      ((state.cpu.gpr rs1).ult (state.cpu.gpr rs2)) := by
  apply compares_of_touches keeps (touches_sltTemplate _ tp rs1 rs2)
    (by decide)
  · exact (frame_sltTemplate _ rs1 rs2 ready (by decide)).mono (by simp)
      (fun _ => id)
  · exact gpr_sltu rs1 rs2 ready (by decide)

include keeps in
theorem compares_msb (rs1 : Reg) :
    Compares image keep state (msb tp rs1)
      ((state.cpu.gpr rs1).slt 0#32) := by
  apply compares_of_touches keeps touches_msb (by decide)
  · exact (frame_execAll touches_msb (by decide)).mono (by simp) (fun _ => id)
  · rw [gpr_msb _ (by decide), sign, flag, BitVec.slt_zero_eq_msb]

/-- The signs of a word and of its predecessor tell whether it is positive. -/
theorem or1_signs (x : Word) :
    or1[(sign x + sign (x - 1#32)).toNat]? =
      some (if (0#32).slt x then 0 else 1) := by
  have inWord := x.isLt
  have positive : (0#32).slt x = (!x.msb && !(x - 1#32).msb) := by
    rw [BitVec.slt_eq_decide, BitVec.toInt_eq_toNat_cond,
      BitVec.toInt_eq_toNat_cond, BitVec.msb_eq_decide, BitVec.msb_eq_decide,
      BitVec.toNat_sub]
    simp
    grind
  rw [positive, sign, sign]
  cases x.msb <;> cases (x - 1#32).msb <;> rfl

theorem touches_nonPositiveInTp (rs2 : Reg) :
    ∀ base ∈ nonPositiveInTp image rs2, base.Touches [gp, tp] [.C] := by
  simp [nonPositiveInTp, la, msb, getbyte, slli_small, Base.Touches]

include keeps ready in
theorem compares_nonPositive (rs2 : Reg) (notGp : rs2 ≠ gp) :
    Compares image keep state (nonPositiveInTp image rs2)
      (!(0#32).slt (state.cpu.gpr rs2)) := by
  apply compares_of_touches keeps (touches_nonPositiveInTp rs2) (by decide)
    (frame_execAll (touches_nonPositiveInTp rs2) (by decide))
  let front := execAll state (msb gp rs2 ++ [.addi tp rs2 (-1)])
  have msbFrame : Frame [gp] [.C] state (execAll state (msb gp rs2)) :=
    frame_execAll touches_msb (by decide)
  have frontFrame : Frame [gp, tp] [.C] state front :=
    frame_execAll (by simp [msb, getbyte, slli_small, Base.Touches])
      (by decide)
  have minus : state.cpu.gpr rs2 + (-1 : BitVec 12).signExtend 32 =
      state.cpu.gpr rs2 - 1#32 := by
    rw [BitVec.sub_eq_add_neg]
    rfl
  have signGp : front.cpu.gpr gp = sign (state.cpu.gpr rs2) := by
    simp only [front, execAll_append, execAll_cons, execAll_nil,
      Base.exec_addi]
    rw [Am.setR_gpr_of_ne _ (by decide), gpr_msb _ (by decide)]
  have less : front.cpu.gpr tp = state.cpu.gpr rs2 - 1#32 := by
    simp only [front, execAll_append, execAll_cons, execAll_nil,
      Base.exec_addi]
    rw [Am.setR_gpr_self _ (by decide), msbFrame.gpr rs2 (by simp [notGp]),
      minus]
  have nextFrame : Frame [tp] [.C] front (execAll front (msb tp tp)) :=
    frame_execAll touches_msb (by decide)
  have sum : (execAll front (msb tp tp ++ [.add gp gp tp])).cpu.gpr gp =
      sign (state.cpu.gpr rs2) + sign (state.cpu.gpr rs2 - 1#32) := by
    rw [execAll_append, execAll_cons, execAll_nil, Base.exec_add,
      Am.setR_gpr_self _ (by decide), gpr_msb _ (by decide),
      nextFrame.gpr gp (by decide), signGp, less]
  have sumFrame : Frame [gp, tp] [.C] front
      (execAll front (msb tp tp ++ [.add gp gp tp])) :=
    frame_execAll (by simp [msb, getbyte, slli_small, Base.Touches])
      (by decide)
  have looked := (ready.frame (frontFrame.trans sumFrame (by decide))
    (by decide)).loaded.lbu
      (sign (state.cpu.gpr rs2) + sign (state.cpu.gpr rs2 - 1#32))
      (show (image.or1Table, or1) ∈ image.tables by simp [Image.tables])
      (or1_signs _)
  have split : nonPositiveInTp image rs2 =
      (msb gp rs2 ++ [.addi tp rs2 (-1)]) ++
        ((msb tp tp ++ [.add gp gp tp]) ++ (la tp image.or1Table ++
          [.add tp gp tp, .lbu tp tp 0])) := by
    simp only [nonPositiveInTp, List.append_assoc]
  rw [split, execAll_append, show execAll state _ = front from rfl,
    execAll_append]
  generalize execAll front (msb tp tp ++ [.add gp gp tp]) = middle at *
  rw [← sum, BitVec.add_comm] at looked
  simp +decide [execAll_append, execAll_la, gpr_setR, looked, flag]
  split <;> simp [*]

include keeps ready in
theorem quiet_check8bitSame {rd : Reg}
    (table : state.cpu.gpr s0 = image.checkSameArray) (target : rd ≠ 0#5)
    (notSp : rd ≠ sp) (notTp : rd ≠ tp) (notTable : rd ≠ s0)
    (boffset : Fin 4) :
    Quiet keep state (check8bitSame s0 rd boffset) := by
  generalize left : byte (scratch state.pmem (state.cpu.gpr sp) .A)
    boffset = a
  generalize right : byte (scratch state.pmem (state.cpu.gpr sp) .B)
    boffset = b
  have cells : ∀ value : BitVec 8,
      image.checkSameArray + value.setWidth 32 = cell image value :=
    fun _ => rfl
  have other : ∀ addr, keep addr → ∀ value, addr ≠ cell image value := by
    rintro addr kept value rfl
    exact (keeps _ kept).2 (isCheckSame_cell image value)
  simp +decide [Quiet, check8bitSame, gpr_setR, target, notSp.symm,
    notTp.symm, notTable.symm, table, left, right, cells,
    scratch_hostWrite_cell ready]
  exact ⟨fun addr kept => hostWrite_cell_of_ne _ _ _ (other addr kept a),
    fun addr kept => hostWrite_cell_of_ne _ _ _ (other addr kept b)⟩

end Comparisons

section Seq

variable {image : Image} {keep : Word → Prop} {state after : State}
  {extra : Word → Prop} {regs : List Reg} {vars : List Var}

theorem Keeps.frame (keeps : Keeps image keep state)
    (frame : FrameOff extra regs vars state after) (stackKept : sp ∉ regs) :
    Keeps image keep after := by
  rw [Keeps, frame.gpr sp stackKept]
  exact keeps

theorem quiet_checks (keeps : Keeps image keep state)
    (ready : Ready image state)
    (table : state.cpu.gpr s0 = image.checkSameArray)
    (lanes : List (Fin 4)) :
    Quiet keep state (lanes.flatMap fun boffset =>
      check8bitSame s0 s1 boffset ++ [.add gp gp s1]) := by
  induction lanes generalizing state with
  | nil =>
      trivial
  | cons lane lanes inductionHypothesis =>
      obtain ⟨frame, -⟩ := check8bitSame_add ready table lane
      rw [List.flatMap_cons, quiet_append, quiet_append]
      refine ⟨⟨?_, ?_⟩, ?_⟩
      · exact quiet_check8bitSame keeps ready table (by decide) (by decide)
          (by decide) (by decide) lane
      · exact ⟨fun _ _ => rfl, trivial⟩
      · exact inductionHypothesis (keeps.frame frame (by decide))
          (ready.frameOff frame (by decide))
          ((frame.gpr s0 (by decide)).trans table)

theorem quiet_seq (keeps : Keeps image keep state) (ready : Ready image state)
    (rs1 rs2 : Reg) : Quiet keep state (seq image tp rs1 rs2) := by
  let front := [.sw rs1 sp (SP_VAR .A), .sw rs2 sp (SP_VAR .B), PUSH s0 .one,
    PUSH s1 .two] ++ la s0 image.checkSameArray
  let rest := la tp image.sameResultTable ++
    [.add tp tp gp, .lbu tp tp 0, POP s1 .two, POP s0 .one]
  have split : seq image tp rs1 rs2 = front ++ (check8bitSame s0 gp 0 ++
      (([1, 2, 3] : List (Fin 4)).flatMap (fun boffset =>
        check8bitSame s0 s1 boffset ++ [.add gp gp s1]) ++ rest)) := by
    simp only [seq, front, rest, List.flatten_cons, List.flatten_nil,
      List.flatMap_cons, List.flatMap_nil, List.append_nil, List.append_assoc]
  have frontTouches : ∀ base ∈ front,
      base.Touches [s0] [.one, .two, .A, .B] := by
    simp [front, la, Base.Touches]
  have frontFrame : Frame [s0] [.one, .two, .A, .B] state
      (execAll state front) := frame_execAll frontTouches (by decide)
  have frontReady := ready.frame frontFrame (by decide)
  have frontKeeps := keeps.frame frontFrame (by decide)
  have table : (execAll state front).cpu.gpr s0 = image.checkSameArray := by
    simp +decide [front, execAll_la, gpr_setR]
  obtain ⟨zeroFrame, -⟩ := check8bitSame_effect frontReady table
    (by decide : gp ≠ 0#5) (by decide) (by decide) (by decide) 0
  have zeroReady := frontReady.frameOff zeroFrame (by decide)
  have zeroKeeps := frontKeeps.frame zeroFrame (by decide)
  have frontQuiet : Quiet keep state front :=
    quiet_of_touches frontTouches (by decide)
      fun addr kept => (keeps addr kept).1
  have zeroQuiet := quiet_check8bitSame frontKeeps frontReady table
    (by decide : gp ≠ 0#5) (by decide) (by decide) (by decide) 0
  have restQuiet := quiet_checks zeroKeeps zeroReady
    ((zeroFrame.gpr s0 (by decide)).trans table) [1, 2, 3]
  rw [split]
  refine quiet_append.mpr ⟨frontQuiet, quiet_append.mpr ⟨zeroQuiet,
    quiet_append.mpr ⟨restQuiet, ?_⟩⟩⟩
  simp [rest, la, Quiet, Base.exec]

theorem compares_seq (keeps : Keeps image keep state)
    (ready : Ready image state) (rs1 rs2 : Reg) :
    Compares image keep state (seq image tp rs1 rs2)
      (state.cpu.gpr rs1 == state.cpu.gpr rs2) := by
  obtain ⟨frame, compared⟩ := seq_tp_effect rs1 rs2 ready
  refine ⟨frame.mono (fun _ => id) fun n _ => mem_allVars n, ?_,
    quiet_seq keeps ready rs1 rs2, ?_⟩
  · rw [compared, flag]
    simp only [beq_iff_eq]
  · simp [seq, la, check8bitSame, Base.Falls]

theorem compares_equal (keeps : Keeps image keep state)
    (ready : Ready image state) (rs1 rs2 : Reg) :
    Compares image keep state (equalInTp image rs1 rs2)
      (state.cpu.gpr rs1 == state.cpu.gpr rs2) := by
  rw [equalInTp]
  split
  · next zero =>
      rw [zero, gpr_x0]
      exact compares_seqz keeps ready rs1
  split
  · next zero =>
      rw [zero, gpr_x0, BEq.comm]
      exact compares_seqz keeps ready rs2
  · exact compares_seq keeps ready rs1 rs2

end Seq

/-! ## The branches -/

/-- The conditional branches of RV32I. -/
inductive BranchOp where
  | beq
  | bne
  | blt
  | bge
  | bltu
  | bgeu
  deriving DecidableEq, Repr

namespace BranchOp

/-- Whether the branch is taken. -/
def taken : BranchOp → Word → Word → Bool
  | beq, a, b => a == b
  | bne, a, b => a != b
  | blt, a, b => a.slt b
  | bge, a, b => b.sle a
  | bltu, a, b => a.ult b
  | bgeu, a, b => b.ule a

/-- The macro of that name. -/
def expand (image : Image) : BranchOp → Reg → Reg → Word → Word → List Base
  | beq => Rvmini.beq image
  | bne => Rvmini.bne image
  | blt => Rvmini.blt image
  | bge => Rvmini.bge image
  | bltu => Rvmini.bltu image
  | bgeu => Rvmini.bgeu image

theorem not_eq_beq_false (b : Bool) : (!b) = (b == false) := by
  cases b <;> rfl

section Expand

variable {image : Image} {keep : Word → Prop} {state : State}

/-- Every branch is a comparison and `branch_resolve`. -/
theorem exists_compares (op : BranchOp) (rs1 : Reg) {rs2 : Reg}
    (keeps : Keeps image keep state) (ready : Ready image state)
    (notGp : rs2 ≠ gp) :
    ∃ code high, (∀ target label, op.expand image rs1 rs2 target label =
        code ++ branchResolve target high label) ∧
      ∃ holds, Compares image keep state code holds ∧
        op.taken (state.cpu.gpr rs1) (state.cpu.gpr rs2) = (holds == high) := by
  cases op with
  | beq =>
      exact ⟨_, true, fun _ _ => rfl, _,
        compares_equal keeps ready rs1 rs2, by simp [taken]⟩
  | bne =>
      exact ⟨_, false, fun _ _ => rfl, _,
        compares_equal keeps ready rs1 rs2, not_eq_beq_false _⟩
  | blt =>
      by_cases zero2 : rs2 = 0#5
      · subst zero2
        exact ⟨_, true, fun _ _ => by rw [expand, Rvmini.blt, if_pos rfl], _,
          compares_msb keeps rs1, by simp [taken]⟩
      by_cases zero1 : rs1 = 0#5
      · subst zero1
        exact ⟨_, false, fun _ _ => by
          rw [expand, Rvmini.blt, if_neg zero2, if_pos rfl], _,
          compares_nonPositive keeps ready rs2 notGp, by simp [taken]⟩
      · exact ⟨_, true, fun _ _ => by
          rw [expand, Rvmini.blt, if_neg zero2, if_neg zero1], _,
          compares_slt keeps ready rs1 rs2, by simp [taken]⟩
  | bge =>
      by_cases zero1 : rs1 = 0#5
      · subst zero1
        exact ⟨_, true, fun _ _ => by rw [expand, Rvmini.bge, if_pos rfl], _,
          compares_nonPositive keeps ready rs2 notGp, by
            simp [taken, BitVec.sle_eq_not_slt]⟩
      · exact ⟨_, false, fun _ _ => by rw [expand, Rvmini.bge, if_neg zero1],
          _, compares_slt keeps ready rs1 rs2, by
            simp [taken, BitVec.sle_eq_not_slt]⟩
  | bltu =>
      exact ⟨_, true, fun _ _ => rfl, _, compares_sltu keeps ready rs1 rs2,
        by simp [taken]⟩
  | bgeu =>
      exact ⟨_, false, fun _ _ => rfl, _, compares_sltu keeps ready rs1 rs2,
        by simp [taken, BitVec.ule_eq_not_ult]⟩

end Expand

end BranchOp

end Ysyx.Rvmini
