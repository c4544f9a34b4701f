import Ysyx.Rvmini.Shift

/-!
# Bytes and halfwords

The macros `lb`, `lhu` and `lh`, which put a value together from bytes, and
`sh`, which takes one apart.
-/

namespace Ysyx.Rvmini

open Nemu Bytes

/-- The two bytes of a halfword. -/
def half (pmem : Pmem) (addr : Word) : BitVec 16 :=
  pmem (addr + 1#32) ++ pmem addr

theorem hostRead_two (pmem : Pmem) (addr : Word) :
    hostRead pmem addr 2 = (half pmem addr).setWidth 32 := rfl

theorem next_signExtend {imm : BitVec 12} (inRange : imm ≠ 0x7ff#12) :
    (imm + 1#12).signExtend 32 = imm.signExtend 32 + 1#32 := by
  apply BitVec.eq_of_toNat_eq
  have inside := imm.isLt
  have notLast : imm.toNat ≠ 0x7ff := fun last =>
    inRange (BitVec.eq_of_toNat_eq last)
  rw [BitVec.toNat_add, BitVec.toNat_signExtend, BitVec.toNat_signExtend,
    BitVec.toNat_setWidth, BitVec.toNat_setWidth, BitVec.msb_eq_decide,
    BitVec.msb_eq_decide, BitVec.toNat_add]
  simp only [decide_eq_true_eq]
  split <;> split <;> simp at * <;> omega

section Loads

variable {image : Image} {state : State} {rd base : Reg} {imm : BitVec 12}

/-- The first address of an access. -/
def addrOf (state : State) (base : Reg) (imm : BitVec 12) : Word :=
  state.cpu.gpr base + imm.signExtend 32

theorem addrOf_next (inRange : imm ≠ 0x7ff#12) :
    state.cpu.gpr base + (imm + 1#12).signExtend 32 =
      addrOf state base imm + 1#32 := by
  rw [next_signExtend inRange, addrOf, BitVec.add_assoc]

theorem lbu_afterClear (outside : ¬ InScratch (state.cpu.gpr sp)
    (addrOf state base imm)) :
    hostRead (hostWrite state.pmem (place (state.cpu.gpr sp) .A 0) 4 0#32)
      (state.cpu.gpr base + imm.signExtend 32) 1 =
        (state.pmem (addrOf state base imm)).setWidth 32 := by
  exact congrArg (BitVec.setWidth 32) (hostWrite_place_of_off 0#32 outside)

theorem lb_effect (ready : Ready image state) (notSp : rd ≠ sp)
    (notTp : rd ≠ tp)
    (outside : ¬ InScratch (state.cpu.gpr sp) (addrOf state base imm)) :
    let after := execAll state (lb image rd base imm)
    Frame [rd, gp, tp] [.one, .A, .B, .C, .D] state after ∧
      (rd ≠ 0#5 → after.cpu.gpr rd =
        (state.pmem (addrOf state base imm)).signExtend 32) := by
  let front : List Base := [.sw x0 sp (SP_VAR .A), .lbu rd base imm,
    .sb rd sp (SP_VAR_BYTE .A 3), .lw rd sp (SP_VAR .A)]
  let first := execAll state front
  have stackKept : sp ∉ [rd, gp, tp] := by simp +decide [notSp.symm]
  have firstFrame : Frame [rd, gp, tp] [.one, .A, .B, .C, .D] state first :=
    frame_execAll (by simp [front, Base.Touches]) stackKept
  obtain ⟨frame, shifted⟩ := shiftRightImm_effect rd true
    (ready.frame firstFrame stackKept) (by decide : 24 < 32) notSp notTp
  rw [lb, execAll_append, show execAll state _ = first from rfl]
  refine ⟨firstFrame.trans frame stackKept, fun target => ?_⟩
  have loaded : first.cpu.gpr rd =
      setByte 0#32 3 (state.pmem (addrOf state base imm)) := by
    simp +decide [first, front, gpr_setR, target, notSp.symm,
      lbu_afterClear outside]
  rw [srai, shifted target, loaded]
  exact sshiftRight_setByte_three _

section Half

variable (inRange : imm ≠ 0x7ff#12)
  (outside : ¬ InScratch (state.cpu.gpr sp) (addrOf state base imm))
  (outside' : ¬ InScratch (state.cpu.gpr sp) (addrOf state base imm + 1#32))
include inRange outside outside'

theorem lhu_effect (notSp : rd ≠ sp) (notTp : rd ≠ tp)
    (baseNotTp : base ≠ tp) :
    let after := execAll state (lhu rd base imm)
    Frame [rd, gp, tp] [.one, .A, .B, .C, .D] state after ∧
      (rd ≠ 0#5 → after.cpu.gpr rd =
        (half state.pmem (addrOf state base imm)).setWidth 32) := by
  let front : List Base := [.sw x0 sp (SP_VAR .A), .lbu tp base (imm + 1),
    .sb tp sp (SP_VAR_BYTE .A 1), .lw tp sp (SP_VAR .A)]
  let first := execAll state front
  have firstFrame : Frame [tp] [.A] state first :=
    frame_execAll (by simp [front, Base.Touches]) (by decide)
  have upper : first.cpu.gpr tp =
      setByte 0#32 1 (state.pmem (addrOf state base imm + 1#32)) := by
    have kept : hostWrite state.pmem (place (state.cpu.gpr sp) .A 0) 4 0#32
        (addrOf state base imm + 1#32) = state.pmem (addrOf state base imm + 1#32) :=
      hostWrite_place_of_off 0#32 outside'
    simp +decide [first, front, gpr_setR, addrOf_next inRange]
    rw [hostRead_one, kept, setWidth_setWidth_byte]
  have lower : hostRead first.pmem (first.cpu.gpr base + imm.signExtend 32) 1 =
      (state.pmem (addrOf state base imm)).setWidth 32 := by
    rw [firstFrame.gpr base (by simp [baseNotTp]), ← addrOf, hostRead_one,
      firstFrame.off _ outside not_false]
  have split : lhu rd base imm =
      front ++ [.lbu rd base imm, .add rd rd tp] := rfl
  have stackKept : sp ∉ [rd, gp, tp] := by simp +decide [notSp.symm]
  rw [split, execAll_append, show execAll state front = first from rfl]
  constructor
  · apply (firstFrame.mono (by simp) (by simp)).trans _ stackKept
    exact frame_execAll (by simp [Base.Touches]) stackKept
  · intro target
    rw [execAll_cons, execAll_cons, execAll_nil, Base.exec_add, Base.exec_lbu,
      Am.setR_gpr_self _ target, Am.setR_gpr_self _ target, lower,
      Am.setR_gpr_of_ne _ notTp.symm, upper]
    exact half_unsigned ..

/-- `gp` keeps the upper byte while `srai` runs, and `base` is restored. -/
theorem lh_effect (ready : Ready image state) (notSp : rd ≠ sp)
    (notGp : rd ≠ gp) (baseNotGp : base ≠ gp) (baseNotTp : base ≠ tp) :
    let after := execAll state (lh image rd base imm)
    Frame [rd, gp, tp] [.one, .A, .B, .C, .D] state after ∧
      (rd ≠ 0#5 → after.cpu.gpr rd =
        (half state.pmem (addrOf state base imm)).signExtend 32) := by
  let front : List Base := [.sw x0 sp (SP_VAR .A), .lbu gp base (imm + 1),
    .sb gp sp (SP_VAR_BYTE .A 3), .lw gp sp (SP_VAR .A)]
  let first := execAll state front
  have firstFrame : Frame [gp] [.A] state first :=
    frame_execAll (by simp [front, Base.Touches]) (by decide)
  have upper : first.cpu.gpr gp =
      setByte 0#32 3 (state.pmem (addrOf state base imm + 1#32)) := by
    have kept : hostWrite state.pmem (place (state.cpu.gpr sp) .A 0) 4 0#32 _ =
        _ := hostWrite_place_of_off 0#32 outside'
    simp +decide [first, front, gpr_setR, addrOf_next inRange]
    rw [hostRead_one, kept, setWidth_setWidth_byte]
  obtain ⟨shiftFrame, shifted⟩ := shiftRightImm_effect gp true
    (ready.frame firstFrame (by decide)) (by decide : 16 < 32)
    (by decide : gp ≠ sp) (by decide)
  have whole := (firstFrame.mono (by simp) (by simp)).trans shiftFrame
    (by decide)
  have lower : hostRead (execAll first (srai image gp gp 16)).pmem
      ((execAll first (srai image gp gp 16)).cpu.gpr base +
        imm.signExtend 32) 1 =
      (state.pmem (addrOf state base imm)).setWidth 32 := by
    rw [srai, whole.gpr base (by simp [baseNotGp, baseNotTp]), ← addrOf,
      hostRead_one, whole.off _ outside not_false]
  have stackKept : sp ∉ [rd, gp, tp] := by simp +decide [notSp.symm]
  rw [lh, execAll_append, execAll_append, show execAll state _ = first from rfl]
  constructor
  · apply (whole.mono (by simp) (fun _ => id)).trans _ stackKept
    exact frame_execAll (by simp [Base.Touches]) stackKept
  · intro target
    rw [execAll_cons, execAll_cons, execAll_nil, Base.exec_add, Base.exec_lbu,
      Am.setR_gpr_self _ target, Am.setR_gpr_self _ target, lower,
      Am.setR_gpr_of_ne _ notGp.symm, srai, shifted (by decide), upper]
    exact half_signed ..

end Half

/-- Two stores of a byte are one of a halfword. -/
theorem hostWrite_two (pmem : Pmem) (addr value target : Word) :
    hostWrite (hostWrite pmem addr 1 value) (addr + 1#32) 1
        ((byte value 1).setWidth 32) target =
      hostWrite pmem addr 2 value target := by
  have wrap : (target - (addr + 1#32)).toNat =
      ((target - addr).toNat + (2 ^ 32 - 1)) % 2 ^ 32 := by
    simp only [BitVec.toNat_sub, BitVec.toNat_add, BitVec.toNat_ofNat]
    omega
  have inWord := (target - addr).isLt
  simp only [hostWrite, wrap]
  by_cases first : (target - addr).toNat = 0
  · simp [first]
  · by_cases second : (target - addr).toNat = 1
    · simp only [second]
      exact setWidth_setWidth_byte (byte value 1)
    · rw [if_neg (by omega), if_neg (by omega), if_neg (by omega)]

theorem hostWrite_congr_at {pmem other : Pmem} {target : Word}
    (same : pmem target = other target) (addr : Word) (len : Nat)
    (data : Word) :
    hostWrite pmem addr len data target =
      hostWrite other addr len data target := by
  simp only [hostWrite, same]

theorem sh_effect (inRange : imm ≠ 0x7ff#12) (baseNotTp : base ≠ tp)
    (rs : Reg) :
    let after := execAll state (sh rs base imm)
    (∀ r, r ≠ tp → after.cpu.gpr r = state.cpu.gpr r) ∧
      after.cpu.sr = state.cpu.sr ∧
      ∀ target, ¬ InScratch (state.cpu.gpr sp) target →
        after.pmem target =
          hostWrite state.pmem (addrOf state base imm) 2 (state.cpu.gpr rs)
            target := by
  intro after
  have stored : after.pmem = hostWrite (hostWrite
      (hostWrite state.pmem (addrOf state base imm) 1 (state.cpu.gpr rs))
        (place (state.cpu.gpr sp) .C 0) 4 (state.cpu.gpr rs))
      (addrOf state base imm + 1#32) 1
        ((byte (state.cpu.gpr rs) 1).setWidth 32) := by
    simp +decide [after, sh, getbyte, gpr_setR, baseNotTp]
    rw [addrOf_next inRange]
    rfl
  refine ⟨fun r notTp => ?_, rfl, fun target outside => ?_⟩
  · exact Am.setR_gpr_of_ne _ notTp _
  · rw [stored, ← hostWrite_two]
    apply hostWrite_congr_at
    exact hostWrite_place_of_off _ outside

end Loads

end Ysyx.Rvmini
