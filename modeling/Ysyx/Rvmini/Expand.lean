import Ysyx.Rvmini.Assembly

/-!
# What the macros do

The base code of every line does what RV32I does, apart from `gp`, `tp`, the
scratch words and `_check_same_array`.
-/

namespace Ysyx.Rvmini

open Nemu Bytes

/-- `code` ends as in `after`, and may only jump at its end. -/
structure Follows (image : Image) (keep : Word → Prop) (state : State)
    (code : List Base) (after : State) : Prop where
  pc : (execAll state code).pc = after.pc
  gpr : ∀ r, r ≠ gp → r ≠ tp →
    (execAll state code).cpu.gpr r = after.cpu.gpr r
  sr : (execAll state code).cpu.sr = after.cpu.sr
  off : ∀ addr, ¬ InScratch (state.cpu.gpr sp) addr →
    ¬ image.IsCheckSame addr →
      (execAll state code).pmem addr = after.pmem addr
  quiet : Quiet keep state code
  falls : ∀ base ∈ code.dropLast, base.Falls

/-- `code` puts `value` into `rd`. -/
structure Computes (state : State) (code : List Base) (rd : Reg)
    (value : Word) : Prop where
  touches : ∃ regs vars, sp ∉ regs ∧ ∀ base ∈ code, base.Touches regs vars
  frame : Frame [rd, gp, tp] allVars state (execAll state code)
  value : rd ≠ 0#5 → (execAll state code).cpu.gpr rd = value

section Computes

variable {image : Image} {keep : Word → Prop} {state : State}
  {code : List Base} {rd : Reg} {value : Word}

theorem computes_of_frame {regs frameRegs : List Reg} {vars frameVars : List Var}
    (touches : ∀ base ∈ code, base.Touches regs vars) (stackKept : sp ∉ regs)
    (frame : Frame frameRegs frameVars state (execAll state code))
    (inside : frameRegs ⊆ [rd, gp, tp])
    (value' : rd ≠ 0#5 → (execAll state code).cpu.gpr rd = value) :
    Computes state code rd value where
  touches := ⟨regs, vars, stackKept, touches⟩
  frame := frame.mono inside fun n _ => mem_allVars n
  value := value'

theorem Computes.follows (computes : Computes state code rd value)
    (keeps : Keeps image keep state) :
    Follows image keep state code
      ⟨state.pc + BitVec.ofNat 32 (4 * code.length),
        state.cpu.setR rd value, state.pmem⟩ := by
  obtain ⟨⟨regs, vars, stackKept, touches⟩, frame, value'⟩ := computes
  refine ⟨pc_execAll touches, fun r notGp notTp => ?_, frame.sr,
    fun addr outside _ => frame.off addr outside not_false,
    quiet_of_touches touches stackKept fun addr kept => (keeps addr kept).1,
    fun base inCode => (touches base (List.mem_of_mem_dropLast inCode)).falls⟩
  by_cases same : r = rd
  · rw [same]
    by_cases zero : rd = 0#5
    · rw [zero, gpr_x0, gpr_x0]
    · rw [value' zero, Am.setR_gpr_self _ zero]
  · rw [frame.gpr r (by simp [same, notGp, notTp]), Am.setR_gpr_of_ne _ same]

/-- `li tp, imm` in front. -/
theorem Computes.li {imm : BitVec 12}
    (computes : Computes ((liTp imm).exec state) code rd value)
    (notSp : rd ≠ sp) :
    Computes state (liTp imm :: code) rd value where
  touches := by
    obtain ⟨regs, vars, stackKept, touches⟩ := computes.touches
    refine ⟨tp :: regs, vars, by simp +decide [stackKept], ?_⟩
    rw [List.forall_mem_cons]
    exact ⟨List.mem_cons_self, fun base inCode =>
      (touches base inCode).mono (List.subset_cons_self _ _) fun _ => id⟩
  frame := by
    have first : Frame [rd, gp, tp] allVars state ((liTp imm).exec state) :=
      frame_exec (by simp [liTp, Base.Touches])
    exact first.trans computes.frame (by simp +decide [notSp.symm])
  value := computes.value

end Computes

/-! ## Registers -/

section Registers

variable {image : Image} {state : State} {rd rs1 rs2 : Reg}

theorem shamt_eq (x : Word) : shamt x = x.toNat % 32 := by
  rw [shamt, BitVec.toNat_and, byte_toNat]
  have low := Nat.and_two_pow_sub_one_eq_mod (x.toNat % 256) 5
  simp at low ⊢
  omega

theorem touches_la (addr : Word) :
    ∀ base ∈ la rd addr, base.Touches [rd] [] := by
  simp [la, Base.Touches]

theorem touches_sub :
    ∀ base ∈ sub image rd rs1 rs2,
      base.Touches [gp, tp, rd] [.three, .C, .D] := by
  simp [sub, not, notByte, la, Base.Touches]

theorem touches_logic {lut : Word} {code : List Base}
    (expands : logic lut rd rs1 rs2 = some code) :
    ∀ base ∈ code, base.Touches [rd, tp] [.A, .B, .C, .D] := by
  by_cases zero : rd = 0#5
  · rw [logic, if_pos zero] at expands
    obtain rfl := Option.some.inj expands
    simp
  · obtain ⟨-, rfl⟩ := logic_eq_some zero expands
    simp [logic8ByteInternal, la, Base.Touches]

theorem touches_sll :
    ∀ base ∈ sll image rd rs1 rs2,
      base.Touches [s0, gp, tp, rd] [.one, .A, .B, .C] := by
  simp [sll, shiftRow, getshamt, getShiftByteInTp, sh, getbyte, slli_small, la,
    Base.Touches]
  exact Or.inr (Or.inr (Or.inl ⟨3, SP_VAR_BYTE_add_one⟩))

theorem touches_shiftRightBytes (isArith : Bool) :
    ∀ base ∈ shiftRightBytes image rd isArith,
      base.Touches [s0, gp, tp, rd] [.one, .B, .C, .D] := by
  cases isArith <;>
    simp [shiftRightBytes, getShiftByteInTp, slli_small, la, Base.Touches]

theorem touches_shiftRightReg (isArith : Bool) :
    ∀ base ∈ shiftRightReg image rd rs1 rs2 isArith,
      base.Touches [s0, gp, tp, rd] [.one, .A, .B, .C, .D] := by
  intro base inCode
  rw [shiftRightReg, List.mem_append, List.mem_append] at inCode
  rcases inCode with (front | inRow) | rest
  · revert base
    simp [Base.Touches]
  · exact (touches_shiftRow _ rs2 base inRow).mono (by simp) (by simp)
  · exact (touches_shiftRightBytes isArith base rest).mono (fun _ => id)
      (by simp)

theorem touches_shiftRightImm (imm : Nat) (isArith : Bool) :
    ∀ base ∈ shiftRightImm image rd rs1 imm isArith,
      base.Touches [s0, gp, tp, rd] [.one, .A, .B, .C, .D] := by
  rw [shiftRightImm]
  split
  · cases isArith <;> simp [getbyte, slli_small, la, Base.Touches]
  · intro base inCode
    rw [List.mem_append] at inCode
    rcases inCode with front | rest
    · revert base
      simp [la, Base.Touches]
    · exact (touches_shiftRightBytes isArith base rest).mono (fun _ => id)
        (by simp)

theorem touches_slli_rest {imm : Nat} (small : imm < 16) :
    ∀ base ∈ slli rd rd imm, base.Touches [rd] [] := by
  by_cases zero : imm = 0
  · rw [slli, if_pos zero, if_neg (not_not_intro rfl)]
    simp
  · exact touches_slli_small zero small

theorem touches_slli {imm : Nat} (inWord : imm < 32) :
    ∀ base ∈ slli rd rs1 imm, base.Touches [rd, tp] [.A, .C] := by
  intro base inCode
  rw [slli] at inCode
  split at inCode
  · split at inCode
    · revert base
      simp [Base.Touches]
    · simp at inCode
  split at inCode
  · rw [List.mem_append] at inCode
    rcases inCode with front | rest
    · revert base
      simp [Base.Touches]
    · exact (touches_slli_rest (by omega) base rest).mono (by simp) (by simp)
  split at inCode
  · rw [List.mem_append] at inCode
    rcases inCode with front | rest
    · revert base
      simp [sh, getbyte, Base.Touches]
      exact Or.inl ⟨3, SP_VAR_BYTE_A_add_one⟩
    · exact (touches_slli_rest (by omega) base rest).mono (by simp) (by simp)
  · next pos notLarge notMiddle =>
      rw [← slli_small pos (by omega)] at inCode
      exact (touches_slli_small pos (by omega) base inCode).mono (by simp)
        (by simp)

/-- `rd`, `rs1` and `rs2` are registers that a compiler uses. -/
structure Operands (rd rs1 rs2 : Reg) : Prop where
  notSp : rd ≠ sp
  rdNotGp : rd ≠ gp
  rdNotTp : rd ≠ tp
  rs1NotGp : rs1 ≠ gp
  rs1NotTp : rs1 ≠ tp
  rs2NotGp : rs2 ≠ gp

theorem computes_logic {lut value : Word} {code : List Base}
    (expands : logic lut rd rs1 rs2 = some code) (notSp : rd ≠ sp)
    (value' : rd ≠ 0#5 → (execAll state code).cpu.gpr rd = value) :
    Computes state code rd value := by
  have touches := touches_logic expands
  have stackKept : sp ∉ [rd, tp] := by simp +decide [notSp.symm]
  exact computes_of_frame touches stackKept (frame_execAll touches stackKept)
    (by simp) value'

theorem computes_sltTemplate {lut value : Word} (ready : Ready image state)
    (notSp : rd ≠ sp)
    (value' : rd ≠ 0#5 →
      (execAll state (sltTemplate image lut rd rs1 rs2)).cpu.gpr rd = value) :
    Computes state (sltTemplate image lut rd rs1 rs2) rd value :=
  computes_of_frame (touches_sltTemplate lut rd rs1 rs2)
    (by simp +decide [notSp.symm]) (frame_sltTemplate lut rs1 rs2 ready notSp)
    (fun _ => id) value'

theorem computes_shiftRightReg (isArith : Bool) (ready : Ready image state)
    (notSp : rd ≠ sp) :
    Computes state (shiftRightReg image rd rs1 rs2 isArith) rd
      (shiftedRight isArith (state.cpu.gpr rs1)
        ((state.cpu.gpr rs2).toNat % 32)) := by
  obtain ⟨frame, value⟩ := shiftRightReg_effect rs1 rs2 isArith ready notSp
  rw [shamt_eq] at value
  exact computes_of_frame (touches_shiftRightReg isArith)
    (by simp +decide [notSp.symm]) frame (fun _ => id) value

theorem computes_shiftRightImm (isArith : Bool) {imm : Nat}
    (ready : Ready image state) (inWord : imm < 32) (notSp : rd ≠ sp)
    (notTp : rd ≠ tp) :
    Computes state (shiftRightImm image rd rs1 imm isArith) rd
      (shiftedRight isArith (state.cpu.gpr rs1) imm) := by
  obtain ⟨frame, value⟩ :=
    shiftRightImm_effect rs1 isArith ready inWord notSp notTp
  exact computes_of_frame (touches_shiftRightImm imm isArith)
    (by simp +decide [notSp.symm]) frame (fun _ => id) value

theorem computes_op (kind : Op) (ready : Ready image state)
    (operands : Operands rd rs1 rs2) {code : List Base}
    (expands : kind.expand image rd rs1 rs2 = some code) :
    Computes state code rd
      (kind.result (state.cpu.gpr rs1) (state.cpu.gpr rs2)) := by
  have notSp := operands.notSp
  cases kind with
  | sub =>
      obtain rfl := Option.some.inj expands
      exact computes_of_frame touches_sub (by simp +decide [notSp.symm])
        (frame_sub rs1 rs2 ready notSp) (by simp)
        fun target => gpr_sub rs2 ready target operands.rs1NotTp
  | slt =>
      obtain rfl := Option.some.inj expands
      exact computes_sltTemplate ready notSp fun target =>
        gpr_slt rs1 rs2 ready target
  | sltu =>
      obtain rfl := Option.some.inj expands
      exact computes_sltTemplate ready notSp fun target =>
        gpr_sltu rs1 rs2 ready target
  | and =>
      exact computes_logic expands notSp fun target =>
        gpr_and ready target expands
  | or =>
      exact computes_logic expands notSp fun target =>
        gpr_or ready target expands
  | xor =>
      exact computes_logic expands notSp fun target =>
        gpr_xor ready target expands
  | sll =>
      obtain rfl := Option.some.inj expands
      exact computes_of_frame touches_sll (by simp +decide [notSp.symm])
        (frame_sll rs1 rs2 ready notSp) (fun _ => id) fun target => by
          rw [gpr_sll rs1 rs2 ready target, shamt_eq]
          rfl
  | srl =>
      obtain rfl := Option.some.inj expands
      exact computes_shiftRightReg false ready notSp
  | sra =>
      obtain rfl := Option.some.inj expands
      exact computes_shiftRightReg true ready notSp

/-- `li tp, imm` and the register-register instruction. -/
theorem OpImm.expand_eq {kind : OpImm} {imm : BitVec 12} {code : List Base}
    (expands : kind.expand image rd rs1 imm = some code) :
    ∃ rest, kind.op.expand image rd rs1 tp = some rest ∧
      code = liTp imm :: rest := by
  cases kind with
  | slti =>
      exact ⟨_, rfl, (Option.some.inj expands).symm⟩
  | sltiu =>
      exact ⟨_, rfl, (Option.some.inj expands).symm⟩
  | _ =>
      obtain ⟨rest, found, same⟩ := Option.map_eq_some_iff.mp expands
      exact ⟨rest, found, same.symm⟩

theorem computes_opImm (kind : OpImm) {imm : BitVec 12}
    (ready : Ready image state) (operands : Operands rd rs1 tp)
    {code : List Base}
    (expands : kind.expand image rd rs1 imm = some code) :
    Computes state code rd
      (kind.op.result (state.cpu.gpr rs1) (imm.signExtend 32)) := by
  obtain ⟨rest, found, rfl⟩ := kind.expand_eq expands
  have first : Frame [tp] [] state ((liTp imm).exec state) :=
    frame_exec (by simp [liTp, Base.Touches])
  have value : ((liTp imm).exec state).cpu.gpr tp = imm.signExtend 32 := by
    rw [liTp, Base.exec_addi, Am.setR_gpr_self _ (by decide), gpr_x0,
      BitVec.zero_add]
  have computes := computes_op kind.op (ready.frame first (by decide)) operands
    found
  rw [first.gpr rs1 (by simp [operands.rs1NotTp]), value] at computes
  exact computes.li operands.notSp

theorem computes_shift (kind : ShiftImm) (imm : BitVec 5)
    (ready : Ready image state) (operands : Operands rd rs1 x0) :
    Computes state (kind.expand image rd rs1 imm.toNat) rd
      (kind.result (state.cpu.gpr rs1) imm.toNat) := by
  have notSp := operands.notSp
  cases kind with
  | slli =>
      obtain ⟨frame, value⟩ := slli_effect state rs1 imm.isLt notSp
      exact computes_of_frame (touches_slli imm.isLt)
        (by simp +decide [notSp.symm]) frame (fun _ => id) value
  | srli =>
      exact computes_shiftRightImm false ready imm.isLt notSp operands.rdNotTp
  | srai =>
      exact computes_shiftRightImm true ready imm.isLt notSp operands.rdNotTp

theorem computes_unary (kind : Unary) (ready : Ready image state)
    (operands : Operands rd rs1 x0) (notSaved : kind = .seqz → rd ≠ s0) :
    Computes state (kind.expand image rd rs1) rd
      (kind.result (state.cpu.gpr rs1)) := by
  have notSp := operands.notSp
  cases kind with
  | not =>
      exact computes_of_frame (touches_not rd rs1) (by simp +decide [notSp.symm])
        (frame_not rs1 ready notSp operands.rdNotGp) (by simp)
        (gpr_not rs1 ready)
  | seqz =>
      exact computes_of_frame (touches_seqz rd rs1)
        (by simp +decide [notSp.symm]) (frame_seqz rs1 ready notSp)
        (fun _ => id) fun target => gpr_seqz rs1 ready target (notSaved rfl)
  | sltz =>
      have stackKept : sp ∉ [rd] := by simp [notSp.symm]
      exact computes_of_frame touches_msb stackKept
        (frame_execAll touches_msb stackKept) (by simp) fun target => by
          rw [Unary.expand, gpr_msb _ target, sign, ← BitVec.slt_zero_eq_msb]
          rfl

end Registers

/-! ## Memory -/

section Memory

variable {image : Image} {keep : Word → Prop} {state : State}
  {rd rs1 rs2 : Reg} {imm : BitVec 12}

/-- The addresses of an access. -/
def InAccess (access : Option (Word × Nat)) (addr : Word) : Prop :=
  ∃ span, access = some span ∧ (addr - span.1).toNat < span.2

theorem inAccess_first {addr : Word} {len : Nat} (pos : 0 < len) :
    InAccess (some (addr, len)) addr :=
  ⟨_, rfl, by simpa using pos⟩

theorem inAccess_second (addr : Word) :
    InAccess (some (addr, 2)) (addr + 1) := by
  refine ⟨_, rfl, ?_⟩
  rw [BitVec.add_comm, BitVec.add_sub_cancel]
  exact Nat.one_lt_two

theorem touches_lb :
    ∀ base ∈ lb image rd rs1 imm,
      base.Touches [s0, gp, tp, rd] [.one, .A, .B, .C, .D] := by
  intro base inCode
  rw [lb, List.mem_append] at inCode
  rcases inCode with front | rest
  · revert base
    simp [Base.Touches]
  · exact touches_shiftRightImm 24 true base rest

theorem touches_lh :
    ∀ base ∈ lh image rd rs1 imm,
      base.Touches [s0, gp, tp, rd] [.one, .A, .B, .C, .D] := by
  intro base inCode
  rw [lh, List.mem_append, List.mem_append] at inCode
  rcases inCode with (front | middle) | rest
  · revert base
    simp [Base.Touches]
  · exact (touches_shiftRightImm 16 true base middle).mono (by simp)
      (fun _ => id)
  · revert base
    simp [Base.Touches]

theorem touches_lhu :
    ∀ base ∈ lhu rd rs1 imm, base.Touches [tp, rd] [.A] := by
  simp [lhu, Base.Touches]

theorem computes_load (kind : Load) (ready : Ready image state)
    (operands : Operands rd rs1 x0) {code : List Base}
    (outside : ∀ addr, InAccess (some (addrOf state rs1 imm, kind.len)) addr →
      ¬ InScratch (state.cpu.gpr sp) addr)
    (expands : kind.expand image rd rs1 imm = some code) :
    Computes state code rd
      (kind.result (hostRead state.pmem (addrOf state rs1 imm) kind.len)) := by
  have notSp := operands.notSp
  have stackKept : sp ∉ [s0, gp, tp, rd] := by simp +decide [notSp.symm]
  cases kind with
  | lb =>
      obtain rfl := Option.some.inj expands
      obtain ⟨frame, value⟩ := lb_effect ready notSp operands.rdNotTp
        (outside _ (inAccess_first (by decide)))
      exact computes_of_frame touches_lb stackKept frame (fun _ => id)
        fun target => by
          rw [value target, Load.result, Load.len, hostRead_one,
            BitVec.setWidth_setWidth_of_le _ (by decide), BitVec.setWidth_eq]
  | lh =>
      rw [Load.expand] at expands
      split at expands
      · simp at expands
      next inRange =>
      obtain rfl := Option.some.inj expands
      obtain ⟨frame, value⟩ := lh_effect inRange
        (outside _ (inAccess_first (by decide))) (outside _ (inAccess_second _))
        ready notSp operands.rdNotGp operands.rs1NotGp operands.rs1NotTp
      exact computes_of_frame touches_lh stackKept frame (fun _ => id)
        fun target => by
          rw [value target, Load.result, Load.len, hostRead_two,
            BitVec.setWidth_setWidth_of_le _ (by decide), BitVec.setWidth_eq]
  | lhu =>
      rw [Load.expand] at expands
      split at expands
      · simp at expands
      next inRange =>
      obtain rfl := Option.some.inj expands
      obtain ⟨frame, value⟩ := lhu_effect inRange
        (outside _ (inAccess_first (by decide))) (outside _ (inAccess_second _))
        notSp operands.rdNotTp operands.rs1NotTp
      exact computes_of_frame touches_lhu (by simp +decide [notSp.symm]) frame
        (fun _ => id) value

section Store

variable {addr : Word} {len : Nat}
  (noWrite : ∀ target, InAccess (some (addr, len)) target → ¬ keep target)
include noWrite

theorem hostWrite_of_keep (data : Word) {target : Word} (kept : keep target) :
    hostWrite state.pmem addr len data target = state.pmem target := by
  apply hostWrite_of_outside
  by_contra inside
  exact noWrite target ⟨_, rfl, Nat.lt_of_not_le inside⟩ kept

end Store

theorem follows_base (kept : Base)
    (noWrite : ∀ addr, InAccess ((Inst.base kept).writes state) addr →
      ¬ keep addr) :
    Follows image keep state [kept] (kept.exec state) where
  pc := rfl
  gpr _ _ _ := rfl
  sr := rfl
  off _ _ _ := rfl
  quiet := by
    refine ⟨fun addr kept' => ?_, trivial⟩
    cases kept with
    | sw rs2 rs1 imm => exact hostWrite_of_keep noWrite _ kept'
    | sb rs2 rs1 imm => exact hostWrite_of_keep noWrite _ kept'
    | _ => rfl
  falls := by simp

/-- The two bytes of `sh` are stored at two addresses of its halfword. -/
theorem quiet_sh (keeps : Keeps image keep state) (inRange : imm ≠ 0x7ff#12)
    (baseNotTp : rs1 ≠ tp)
    (noWrite : ∀ addr, InAccess (some (addrOf state rs1 imm, 2)) addr →
      ¬ keep addr) :
    Quiet keep state (sh rs2 rs1 imm) := by
  have first : ∀ addr, keep addr → addr ≠ addrOf state rs1 imm := by
    rintro addr kept rfl
    exact noWrite _ (inAccess_first (by decide)) kept
  have second : ∀ addr, keep addr → addr ≠ addrOf state rs1 imm + 1 := by
    rintro addr kept rfl
    exact noWrite _ (inAccess_second _) kept
  have far : ∀ {addr at' : Word}, addr ≠ at' → 1 ≤ (addr - at').toNat := by
    intro addr at' different
    by_contra near
    apply different
    apply BitVec.eq_of_toNat_eq
    rw [BitVec.toNat_sub] at near
    omega
  refine ⟨fun addr kept => ?_, fun addr kept => ?_, fun addr kept => rfl,
    fun addr kept => ?_, trivial⟩
  · exact hostWrite_of_outside _ (far (first addr kept))
  · exact hostWrite_place_of_off _ (keeps addr kept).1
  · have store : ∀ other : State,
        other.cpu.gpr rs1 = state.cpu.gpr rs1 →
          (Base.exec other (.sb tp rs1 (imm + 1#12))).pmem addr =
            other.pmem addr := by
      intro other same
      rw [Base.exec_sb]
      apply hostWrite_of_outside
      rw [same, addrOf_next inRange]
      exact far (second addr kept)
    exact store _ (Am.setR_gpr_of_ne _ baseNotTp _)

theorem follows_sh (keeps : Keeps image keep state) (inRange : imm ≠ 0x7ff#12)
    (baseNotTp : rs1 ≠ tp)
    (noWrite : ∀ addr, InAccess (some (addrOf state rs1 imm, 2)) addr →
      ¬ keep addr) :
    Follows image keep state (sh rs2 rs1 imm)
      ⟨state.pc + BitVec.ofNat 32 (4 * (sh rs2 rs1 imm).length), state.cpu,
        hostWrite state.pmem (addrOf state rs1 imm) 2
          (state.cpu.gpr rs2)⟩ := by
  obtain ⟨gpr, sr, off⟩ := sh_effect inRange baseNotTp rs2
  refine ⟨?_, fun r _ notTp => gpr r notTp, sr,
    fun addr outside _ => off addr outside,
    quiet_sh keeps inRange baseNotTp noWrite, by
      simp [sh, getbyte, Base.Falls]⟩
  simp [sh, getbyte, Base.exec, BitVec.add_assoc]

end Memory

/-! ## Jumps -/

section Jumps

variable {image : Image} {keep : Word → Prop} {state : State}

/-- An address that `jalr` keeps. -/
def EvenAddr (addr : Word) : Prop := addr &&& ~~~1 = addr

instance (addr : Word) : Decidable (EvenAddr addr) :=
  inferInstanceAs (Decidable (_ = _))

theorem EvenAddr.jalr {addr : Word} (even : EvenAddr addr) :
    (addr + (0 : BitVec 12).signExtend 32) &&& ~~~1 = addr := by
  rw [show (0 : BitVec 12).signExtend 32 = 0#32 from rfl, BitVec.add_zero]
  exact even

theorem execAll_jr (state : State) (rs1 : Reg) :
    execAll state [.jalr x0 rs1 0] =
      ⟨(state.cpu.gpr rs1 + (0 : BitVec 12).signExtend 32) &&& ~~~1, state.cpu,
        state.pmem⟩ :=
  congrArg (State.mk _ · _) (setR_x0 ..)

theorem follows_callTemplate (r : Reg) {target : Word} (even : EvenAddr target)
    (link : r ≠ 0#5) :
    Follows image keep state (callTemplate r target)
      ⟨target, state.cpu.setR r
        (state.pc + BitVec.ofNat 32 (4 * (callTemplate r target).length)),
        state.pmem⟩ := by
  have after : execAll state (callTemplate r target) =
      ⟨target, state.cpu.setR r
        (state.pc + BitVec.ofNat 32 (4 * (callTemplate r target).length)),
        state.pmem⟩ := by
    have address := even.jalr
    rw [callTemplate, execAll_append, execAll_la, execAll_cons, execAll_nil,
      Base.exec_jalr, Am.setR_gpr_self _ link, address, setR_setR]
    simp [la, BitVec.add_assoc]
  rw [← after]
  exact ⟨rfl, fun _ _ _ => rfl, rfl, fun _ _ _ => rfl,
    by simp [callTemplate, la, Quiet, Base.exec],
    by simp [callTemplate, la, Base.Falls]⟩

/-- `j` leaves its link in `tp`. -/
theorem follows_jal (rd : Reg) {target : Word} (even : EvenAddr target) :
    Follows image keep state (jal rd target)
      ⟨target, state.cpu.setR rd
        (state.pc + BitVec.ofNat 32 (4 * (jal rd target).length)),
        state.pmem⟩ := by
  rw [jal]
  split
  · next link =>
      obtain ⟨pc, gpr, sr, off, quiet, falls⟩ :
          Follows image keep state (callTemplate tp target) _ :=
        follows_callTemplate tp even (by decide)
      refine ⟨pc, fun r notGp notTp => ?_, sr, off, quiet, falls⟩
      rw [gpr r notGp notTp, Am.setR_gpr_of_ne _ notTp, link]
      exact congrArg (CpuState.gpr · r) (setR_x0 ..).symm
  · next link =>
      exact follows_callTemplate rd even link

theorem follows_la (rd : Reg) (addr : Word) :
    Follows image keep state (la rd addr)
      ⟨state.pc + BitVec.ofNat 32 (4 * (la rd addr).length),
        state.cpu.setR rd addr, state.pmem⟩ := by
  refine ⟨pc_execAll (touches_la addr), fun _ _ _ => by rw [execAll_la],
    by rw [execAll_la], fun _ _ _ => by rw [execAll_la],
    by simp [la, Quiet, Base.exec], by simp [la, Base.Falls]⟩

/-- `tail` never comes to its `call_template`. -/
theorem follows_tail {target : Word} (even : EvenAddr target) :
    Follows image keep state (la tp target ++ [.jalr x0 tp 0])
      ⟨target, state.cpu, state.pmem⟩ := by
  have after : execAll state (la tp target ++ [.jalr x0 tp 0]) =
      ⟨target, state.cpu.setR tp target, state.pmem⟩ := by
    rw [execAll_append, execAll_la, execAll_jr,
      Am.setR_gpr_self _ (by decide), even.jalr]
  refine ⟨?_, fun r _ notTp => ?_, ?_, fun _ _ _ => ?_,
    by simp [la, Quiet, Base.exec], by simp [la, Base.Falls]⟩
  · rw [after]
  · rw [after]
    exact Am.setR_gpr_of_ne _ notTp _
  · rw [after]
    rfl
  · rw [after]

theorem follows_branch (kind : BranchOp) {rs1 rs2 : Reg} {target label : Word}
    (keeps : Keeps image keep state) (ready : Ready image state)
    (notGp : rs2 ≠ gp) (targetEven : EvenAddr target) (labelEven : EvenAddr label) :
    Follows image keep state (kind.expand image rs1 rs2 target label)
      ⟨if kind.taken (state.cpu.gpr rs1) (state.cpu.gpr rs2) then target
        else label, state.cpu, state.pmem⟩ := by
  obtain ⟨code, high, whole, holds, compares, taken⟩ :=
    kind.exists_compares rs1 keeps ready notGp
  have stackKept : sp ∉ [gp, tp] := by decide
  let middle := execAll state code
  have frontFrame : Frame [gp, tp] [.A, .B] middle
      (execAll middle (resolveFront target high label)) :=
    frame_execAll (touches_resolveFront target high label) stackKept
  have frame := compares.frame.trans ((frontFrame.mono (fun _ => id)
    fun n _ => mem_allVars n).widen fun _ => False.elim) stackKept
  have chosen := gpr_resolveFront compares.compared target high label
  have frontQuiet : Quiet keep middle (resolveFront target high label) :=
    quiet_of_touches (touches_resolveFront target high label) stackKept
      fun addr kept => ((keeps.frame compares.frame stackKept) addr kept).1
  rw [whole, branchResolve_eq, ← List.append_assoc]
  refine ⟨?_, fun r notGp notTp => ?_, ?_, fun addr outside notCell => ?_,
    ?_, ?_⟩
  · rw [execAll_append, execAll_jr, execAll_append, chosen, taken]
    cases holds <;> cases high
    · exact targetEven.jalr
    · exact labelEven.jalr
    · exact labelEven.jalr
    · exact targetEven.jalr
  · rw [execAll_append, execAll_jr, execAll_append]
    exact frame.gpr r (by simp [notGp, notTp])
  · rw [execAll_append, execAll_jr, execAll_append]
    exact frame.sr
  · rw [execAll_append, execAll_jr, execAll_append]
    exact frame.off addr outside notCell
  · exact quiet_append.mpr ⟨quiet_append.mpr ⟨compares.quiet, frontQuiet⟩,
      fun _ _ => rfl, trivial⟩
  · intro base inCode
    rw [List.dropLast_concat, List.mem_append] at inCode
    rcases inCode with inside | inside
    · exact compares.falls base inside
    · exact (touches_resolveFront target high label base inside).falls

end Jumps

/-! ## Every line -/

/-- A register that the compiler uses. -/
def Free (r : Reg) : Prop := r ≠ gp ∧ r ≠ tp

instance (r : Reg) : Decidable (Free r) := inferInstanceAs (Decidable (_ ∧ _))

def Base.regs : Base → List Reg
  | add rd rs1 rs2 => [rd, rs1, rs2]
  | addi rd rs1 _ => [rd, rs1]
  | lui rd _ => [rd]
  | lw rd rs1 _ => [rd, rs1]
  | lbu rd rs1 _ => [rd, rs1]
  | sw rs2 rs1 _ => [rs2, rs1]
  | sb rs2 rs1 _ => [rs2, rs1]
  | jalr rd rs1 _ => [rd, rs1]

namespace Inst

/-- The registers of a line. -/
def regs {α : Type} : Inst α → List Reg
  | base kept => kept.regs
  | op _ rd rs1 rs2 => [rd, rs1, rs2]
  | opImm _ rd rs1 _ => [rd, rs1]
  | shift _ rd rs1 _ => [rd, rs1]
  | unary _ rd rs1 => [rd, rs1]
  | load _ rd rs1 _ => [rd, rs1]
  | sh rs2 rs1 _ => [rs2, rs1]
  | branch _ rs1 rs2 _ => [rs1, rs2]
  | jal rd _ => [rd]
  | tail _ => []
  | la rd _ => [rd]

/-- The register that a macro computes. -/
def macroRd {α : Type} : Inst α → Option Reg
  | op _ rd _ _ => some rd
  | opImm _ rd _ _ => some rd
  | shift _ rd _ _ => some rd
  | unary _ rd _ => some rd
  | load _ rd _ _ => some rd
  | _ => none

/-- The addresses that a line jumps to. -/
def target? {α : Type} : Inst α → Option α
  | branch _ _ _ target => some target
  | jal _ target => some target
  | tail target => some target
  | _ => none

/-- The compiler uses neither `tp` nor `gp`, and computes `sp` with base
instructions only; `seqz` never computes `s0`. -/
structure Clean {α : Type} (inst : Inst α) : Prop where
  free : ∀ r ∈ inst.regs, Free r
  notSp : inst.macroRd ≠ some sp
  notSaved : ∀ rs1, inst ≠ .unary .seqz s0 rs1

end Inst

section Every

variable {image : Image} {keep : Word → Prop} {state : State}

theorem operands_of_free {rd rs1 rs2 : Reg} (rdFree : Free rd)
    (rs1Free : Free rs1) (rs2NotGp : rs2 ≠ gp) (notSp : some rd ≠ some sp) :
    Operands rd rs1 rs2 :=
  ⟨fun same => notSp (congrArg some same), rdFree.1, rdFree.2, rs1Free.1,
    rs1Free.2, rs2NotGp⟩

/-- The base code of every line follows RV32I. -/
theorem exists_follows {inst : Inst Word} (clean : inst.Clean)
    (even : ∀ target ∈ inst.target?, EvenAddr target)
    (keeps : Keeps image keep state) (ready : Ready image state)
    (noRead : ∀ addr, InAccess (inst.reads state) addr →
      ¬ InScratch (state.cpu.gpr sp) addr)
    (noWrite : ∀ addr, InAccess (inst.writes state) addr → ¬ keep addr)
    {next : Word} {code : List Base}
    (expands : inst.expand image next = some code)
    (here : next = state.pc + BitVec.ofNat 32 (4 * code.length))
    (nextEven : EvenAddr next) :
    ∃ used, used <+: code ∧
      Follows image keep state used (inst.exec next state) := by
  have whole := List.prefix_refl code
  have free := clean.free
  have notSp := clean.notSp
  cases inst with
  | base kept =>
      obtain rfl := Option.some.inj expands
      exact ⟨_, whole, follows_base kept noWrite⟩
  | op kind rd rs1 rs2 =>
      have operands := operands_of_free (free rd (by simp [Inst.regs]))
        (free rs1 (by simp [Inst.regs])) (free rs2 (by simp [Inst.regs])).1
        notSp
      rw [here]
      exact ⟨_, whole, (computes_op kind ready operands expands).follows keeps⟩
  | opImm kind rd rs1 imm =>
      have operands := operands_of_free (free rd (by simp [Inst.regs]))
        (free rs1 (by simp [Inst.regs])) (by decide : tp ≠ gp) notSp
      rw [here]
      exact ⟨_, whole,
        (computes_opImm kind ready operands expands).follows keeps⟩
  | shift kind rd rs1 imm =>
      obtain rfl := Option.some.inj expands
      have operands := operands_of_free (free rd (by simp [Inst.regs]))
        (free rs1 (by simp [Inst.regs])) (by decide : x0 ≠ gp) notSp
      rw [here]
      exact ⟨_, whole, (computes_shift kind imm ready operands).follows keeps⟩
  | unary kind rd rs1 =>
      obtain rfl := Option.some.inj expands
      have operands := operands_of_free (free rd (by simp [Inst.regs]))
        (free rs1 (by simp [Inst.regs])) (by decide : x0 ≠ gp) notSp
      have notSaved : kind = .seqz → rd ≠ s0 := by
        rintro rfl rfl
        exact clean.notSaved rs1 rfl
      rw [here]
      exact ⟨_, whole,
        (computes_unary kind ready operands notSaved).follows keeps⟩
  | load kind rd rs1 imm =>
      have operands := operands_of_free (free rd (by simp [Inst.regs]))
        (free rs1 (by simp [Inst.regs])) (by decide : x0 ≠ gp) notSp
      rw [here]
      exact ⟨_, whole,
        (computes_load kind ready operands noRead expands).follows keeps⟩
  | sh rs2 rs1 imm =>
      rw [Inst.expand] at expands
      split at expands
      · simp at expands
      next inRange =>
      obtain rfl := Option.some.inj expands
      rw [here]
      exact ⟨_, whole, follows_sh keeps inRange
        (free rs1 (by simp [Inst.regs])).2 noWrite⟩
  | branch kind rs1 rs2 target =>
      obtain rfl := Option.some.inj expands
      exact ⟨_, whole, follows_branch kind keeps ready
        (free rs2 (by simp [Inst.regs])).1 (even target rfl) nextEven⟩
  | jal rd target =>
      obtain rfl := Option.some.inj expands
      rw [here]
      exact ⟨_, whole, follows_jal rd (even target rfl)⟩
  | tail target =>
      obtain rfl := Option.some.inj expands
      exact ⟨_, List.prefix_append .., follows_tail (even target rfl)⟩
  | la rd symbol =>
      obtain rfl := Option.some.inj expands
      rw [here]
      exact ⟨_, whole, follows_la rd symbol⟩

end Every

end Ysyx.Rvmini
