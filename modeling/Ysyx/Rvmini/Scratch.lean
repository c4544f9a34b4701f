import Ysyx.Rvmini.Base
import Ysyx.Lib.Bytes

/-!
# The scratch words

The seven words below the stack pointer that the macros use, and what a piece
of base code leaves of registers, scratch words and memory.
-/

namespace Ysyx.Rvmini

open Nemu Bytes

/-! ## Registers -/

abbrev x0 : Reg := 0#5
abbrev ra : Reg := 1#5
abbrev sp : Reg := 2#5
abbrev gp : Reg := 3#5
abbrev tp : Reg := 4#5
abbrev s0 : Reg := 8#5
abbrev s1 : Reg := 9#5

theorem gpr_setR (cpu : CpuState) (rd : Reg) (value : Word) (r : Reg) :
    (cpu.setR rd value).gpr r =
      if r = 0#5 then 0 else if r = rd then value else cpu.gpr r := rfl

@[simp] theorem gpr_x0 (cpu : CpuState) : cpu.gpr x0 = 0#32 := cpu.gpr_zero

@[simp] theorem ite_gpr (cpu : CpuState) (r : Reg) :
    (if r = 0#5 then 0#32 else cpu.gpr r) = cpu.gpr r := by
  split
  · next zero => rw [zero, gpr_x0]
  · rfl

theorem setR_setR (cpu : CpuState) (rd : Reg) (old value : Word) :
    (cpu.setR rd old).setR rd value = cpu.setR rd value := by
  simp only [CpuState.setR, CpuState.mk.injEq, and_true]
  funext r
  grind

/-! ## Addresses -/

/-- The words below `sp`, by the number `n` of `SP_VAR(n)`. -/
inductive Var where
  | one | two | three | A | B | C | D
  deriving DecidableEq, Repr

/-- `1`, `2`, `3`, `VAR_A`, `VAR_B`, `VAR_C` and `VAR_D`. -/
def Var.num : Var → Nat
  | one => 1
  | two => 2
  | three => 3
  | A => 4
  | B => 5
  | C => 6
  | D => 7

theorem Var.num_injective : Function.Injective Var.num := by
  intro n k same
  cases n <;> cases k <;> simp_all [num]

theorem Var.num_pos (n : Var) : 0 < n.num := by
  cases n <;> decide

theorem Var.num_le (n : Var) : n.num ≤ 7 := by
  cases n <;> decide

/-- `SP_VAR_BYTE(n, boffset)`. -/
def SP_VAR_BYTE (n : Var) (boffset : Fin 4) : BitVec 12 :=
  BitVec.ofInt 12 (-(n.num : Int) * 4 + (boffset.val : Int))

/-- `SP_VAR(n)`. -/
abbrev SP_VAR (n : Var) : BitVec 12 := SP_VAR_BYTE n 0

theorem signExtend_SP_VAR_BYTE (n : Var) (boffset : Fin 4) :
    (SP_VAR_BYTE n boffset).signExtend 32 =
      BitVec.ofNat 32 boffset - BitVec.ofNat 32 (4 * n.num) := by
  revert boffset
  cases n <;> decide

/-- The address of byte `boffset` of word `n` below `stack`. -/
abbrev place (stack : Word) (n : Var) (boffset : Fin 4) : Word :=
  stack + (SP_VAR_BYTE n boffset).signExtend 32

theorem place_add (stack : Word) (n : Var) (boffset : Fin 4) :
    place stack n 0 + BitVec.ofNat 32 boffset = place stack n boffset := by
  rw [place, place, signExtend_SP_VAR_BYTE, signExtend_SP_VAR_BYTE,
    BitVec.add_assoc]
  congr 1
  rw [Fin.val_zero, BitVec.zero_sub, BitVec.add_comm, BitVec.sub_eq_add_neg]

theorem place_sub (stack : Word) (n k : Var) (boffset : Fin 4) :
    (place stack k boffset - place stack n 0).toNat =
      (4 * n.num + boffset + (2 ^ 32 - 4 * k.num)) % 2 ^ 32 := by
  have nLe := n.num_le
  have kLe := k.num_le
  rw [place, place, signExtend_SP_VAR_BYTE, signExtend_SP_VAR_BYTE]
  simp only [BitVec.toNat_sub, BitVec.toNat_add, BitVec.toNat_ofNat,
    Fin.val_zero]
  omega

/-- The addresses of the scratch words below `stack`. -/
def InScratch (stack addr : Word) : Prop :=
  (addr - (stack - 28#32)).toNat < 28

instance (stack addr : Word) : Decidable (InScratch stack addr) :=
  inferInstanceAs (Decidable (_ < _))

theorem inScratch_of_near {stack addr : Word} {n : Var}
    (near : (addr - place stack n 0).toNat < 4) : InScratch stack addr := by
  have pos := n.num_pos
  have le := n.num_le
  rw [place, signExtend_SP_VAR_BYTE] at near
  rw [InScratch]
  simp only [BitVec.toNat_sub, BitVec.toNat_add, BitVec.toNat_ofNat,
    Fin.val_zero] at near ⊢
  omega

/-! ## Words and bytes in memory -/

theorem hostRead_four (pmem : Pmem) (addr : Word) :
    hostRead pmem addr 4 =
      ofBytes fun k => pmem (addr + BitVec.ofNat 32 k) := by
  rw [ofBytes, show addr + BitVec.ofNat 32 (0 : Fin 4) = addr from
    BitVec.add_zero addr]
  rfl

theorem hostRead_one (pmem : Pmem) (addr : Word) :
    hostRead pmem addr 1 = (pmem addr).setWidth 32 := rfl

/-- The word `n` below `stack`. -/
def scratch (pmem : Pmem) (stack : Word) (n : Var) : Word :=
  hostRead pmem (place stack n 0) 4

theorem byte_scratch (pmem : Pmem) (stack : Word) (n : Var) (k : Fin 4) :
    byte (scratch pmem stack n) k = pmem (place stack n k) := by
  rw [scratch, hostRead_four, byte_ofBytes, place_add]

/-- `lw rd, SP_VAR(n)`. -/
@[simp] theorem hostRead_place (pmem : Pmem) (stack : Word) (n : Var) :
    hostRead pmem (place stack n 0) 4 = scratch pmem stack n := rfl

/-- `lbu rd, SP_VAR_BYTE(n, boffset)`. -/
@[simp] theorem hostRead_place_byte (pmem : Pmem) (stack : Word) (n : Var)
    (boffset : Fin 4) :
    hostRead pmem (place stack n boffset) 1 =
      (byte (scratch pmem stack n) boffset).setWidth 32 := by
  rw [byte_scratch]
  rfl

/-- `sw r, SP_VAR(n)`. -/
@[simp] theorem scratch_hostWrite (pmem : Pmem) (stack value : Word) (n k : Var) :
    scratch (hostWrite pmem (place stack n 0) 4 value) stack k =
      if k = n then value else scratch pmem stack k := by
  split
  · next same =>
      rw [same]
      exact hostRead_hostWrite_self ..
  · next different =>
      apply hostRead_congr
      intro lane inWord
      have apart : k.num ≠ n.num := fun same =>
        different (Var.num_injective same)
      have nLe := n.num_le
      have kLe := k.num_le
      rw [place_add stack k ⟨lane, inWord⟩]
      apply hostWrite_of_outside
      rw [place_sub]
      omega

/-- `sb r, SP_VAR_BYTE(n, boffset)`. -/
@[simp] theorem scratch_hostWrite_byte (pmem : Pmem) (stack value : Word)
    (n k : Var) (boffset : Fin 4) :
    scratch (hostWrite pmem (place stack n boffset) 1 value) stack k =
      if k = n then
        setByte (scratch pmem stack k) boffset (value.setWidth 8)
      else
        scratch pmem stack k := by
  apply ext_byte
  intro lane
  have same : byte (scratch (hostWrite pmem (place stack n boffset) 1 value)
      stack k) lane = if k = n ∧ lane = boffset then value.setWidth 8
        else byte (scratch pmem stack k) lane := by
    rw [byte_scratch, byte_scratch]
    split
    · next here =>
        rw [here.1, here.2]
        have written : hostWrite pmem (place stack n boffset) 1 value
            (place stack n boffset + 0#32) = _ :=
          hostWrite_lane (by decide) (by decide) value
        rw [BitVec.add_zero] at written
        exact written
    · next elsewhere =>
        apply hostWrite_of_outside
        rw [place, place, signExtend_SP_VAR_BYTE, signExtend_SP_VAR_BYTE]
        have nLe := n.num_le
        have kLe := k.num_le
        have apart : ¬ (k.num = n.num ∧ lane.val = boffset.val) :=
          fun both => elsewhere
            ⟨Var.num_injective both.1, Fin.ext both.2⟩
        simp only [BitVec.toNat_sub, BitVec.toNat_add, BitVec.toNat_ofNat]
        omega
  rw [same]
  grind [byte_setByte]

/-! ## Off the scratch words -/

theorem hostWrite_place_of_off {stack addr : Word} {pmem : Pmem} {n : Var}
    (value : Word) (outside : ¬ InScratch stack addr) :
    hostWrite pmem (place stack n 0) 4 value addr = pmem addr := by
  apply hostWrite_of_outside
  by_contra near
  exact outside (inScratch_of_near (n := n) (by omega))

theorem hostWrite_place_byte_of_off {stack addr : Word} {pmem : Pmem}
    {n : Var} {boffset : Fin 4} (value : Word)
    (outside : ¬ InScratch stack addr) :
    hostWrite pmem (place stack n boffset) 1 value addr = pmem addr := by
  apply hostWrite_of_outside
  by_contra near
  apply outside
  apply inScratch_of_near (n := n)
  have here : addr = place stack n boffset := by
    apply BitVec.eq_of_toNat_eq
    rw [BitVec.toNat_sub] at near
    omega
  have inWord := boffset.isLt
  have nLe := n.num_le
  rw [here, place_sub]
  omega

/-! ## Pieces of code -/

/-- The effect of straight-line code. -/
def execAll (state : State) (code : List Base) : State :=
  code.foldl Base.exec state

@[simp] theorem execAll_nil (state : State) : execAll state [] = state := rfl

@[simp] theorem execAll_cons (state : State) (base : Base) (code : List Base) :
    execAll state (base :: code) = execAll (base.exec state) code := rfl

theorem execAll_append (state : State) (code rest : List Base) :
    execAll state (code ++ rest) = execAll (execAll state code) rest :=
  List.foldl_append ..

/-- What a piece of code leaves as it was: the registers but for `regs`, the
scratch words but for `vars`, and memory off the scratch words and `extra`. -/
structure FrameOff (extra : Word → Prop) (regs : List Reg) (vars : List Var)
    (before after : State) : Prop where
  gpr : ∀ r, r ∉ regs → after.cpu.gpr r = before.cpu.gpr r
  sr : after.cpu.sr = before.cpu.sr
  var : ∀ n, n ∉ vars →
    scratch after.pmem (before.cpu.gpr sp) n =
      scratch before.pmem (before.cpu.gpr sp) n
  off : ∀ addr, ¬ InScratch (before.cpu.gpr sp) addr → ¬ extra addr →
    after.pmem addr = before.pmem addr

/-- No memory but the scratch words changes. -/
abbrev Frame := FrameOff fun _ => False

namespace FrameOff

variable {extra wider : Word → Prop} {regs more : List Reg}
  {vars others : List Var} {before middle after : State}

theorem refl (state : State) : FrameOff extra regs vars state state :=
  ⟨fun _ _ => rfl, rfl, fun _ _ => rfl, fun _ _ _ => rfl⟩

theorem trans (first : FrameOff extra regs vars before middle)
    (second : FrameOff extra regs vars middle after)
    (stackKept : sp ∉ regs) : FrameOff extra regs vars before after where
  gpr r outside := (second.gpr r outside).trans (first.gpr r outside)
  sr := second.sr.trans first.sr
  var n outside := by
    have here := second.var n outside
    rw [first.gpr sp stackKept] at here
    exact here.trans (first.var n outside)
  off addr outside notExtra := by
    have later := second.off addr
    rw [first.gpr sp stackKept] at later
    exact (later outside notExtra).trans (first.off addr outside notExtra)

theorem mono (frame : FrameOff extra regs vars before after)
    (regsSubset : regs ⊆ more) (varsSubset : vars ⊆ others) :
    FrameOff extra more others before after where
  gpr r outside := frame.gpr r fun inside => outside (regsSubset inside)
  sr := frame.sr
  var n outside := frame.var n fun inside => outside (varsSubset inside)
  off := frame.off

theorem widen (frame : FrameOff extra regs vars before after)
    (wider' : ∀ addr, extra addr → wider addr) :
    FrameOff wider regs vars before after :=
  ⟨frame.gpr, frame.sr, frame.var, fun addr outside notWider =>
    frame.off addr outside fun isExtra => notWider (wider' addr isExtra)⟩

/-- A register that holds its old value again. -/
theorem restore {r : Reg} (frame : FrameOff extra (r :: regs) vars before after)
    (back : r ∉ regs → after.cpu.gpr r = before.cpu.gpr r) :
    FrameOff extra regs vars before after where
  gpr k outside := by
    by_cases same : k = r
    · rw [same] at outside ⊢
      exact back outside
    · exact frame.gpr k (by simp [same, outside])
  sr := frame.sr
  var := frame.var
  off := frame.off

end FrameOff

/-! ## Footprints -/

/-- Falls through, writes no register but `regs`, and stores to no memory but
the scratch words `vars`. -/
def Base.Touches (regs : List Reg) (vars : List Var) : Base → Prop
  | .add rd _ _ | .addi rd _ _ | .lui rd _ | .lw rd _ _ | .lbu rd _ _ =>
      rd ∈ regs
  | .sw _ base imm => base = sp ∧ ∃ n ∈ vars, imm = SP_VAR n
  | .sb _ base imm =>
      base = sp ∧ ∃ n ∈ vars, ∃ boffset, imm = SP_VAR_BYTE n boffset
  | .jalr .. => False

section Footprints

variable {regs more : List Reg} {vars others : List Var} {state : State}
  {code : List Base}

theorem Base.Touches.mono {base : Base} (touches : base.Touches regs vars)
    (regsSubset : regs ⊆ more) (varsSubset : vars ⊆ others) :
    base.Touches more others := by
  cases base with
  | sw rs2 rs1 imm =>
      obtain ⟨stack, n, inVars, offset⟩ := touches
      exact ⟨stack, n, varsSubset inVars, offset⟩
  | sb rs2 rs1 imm =>
      obtain ⟨stack, n, inVars, offset⟩ := touches
      exact ⟨stack, n, varsSubset inVars, offset⟩
  | jalr rd rs1 imm =>
      exact touches
  | _ =>
      exact regsSubset touches

theorem frame_setR {rd : Reg} (inRegs : rd ∈ regs) (pc value : Word) :
    Frame regs vars state ⟨pc, state.cpu.setR rd value, state.pmem⟩ where
  gpr r outside := by
    apply Am.setR_gpr_of_ne
    rintro rfl
    exact outside inRegs
  sr := rfl
  var _ _ := rfl
  off _ _ _ := rfl

theorem frame_exec {base : Base} (touches : base.Touches regs vars) :
    Frame regs vars state (base.exec state) := by
  cases base with
  | sw rs2 rs1 imm =>
      obtain ⟨rfl, n, inVars, rfl⟩ := touches
      refine ⟨fun _ _ => rfl, rfl, ?_, fun addr outside _ =>
        hostWrite_place_of_off _ outside⟩
      intro k outside
      have different : k ≠ n := fun same => outside (same ▸ inVars)
      rw [Base.exec_sw, scratch_hostWrite, if_neg different]
  | sb rs2 rs1 imm =>
      obtain ⟨rfl, n, inVars, boffset, rfl⟩ := touches
      refine ⟨fun _ _ => rfl, rfl, ?_, fun addr outside _ =>
        hostWrite_place_byte_of_off _ outside⟩
      intro k outside
      have different : k ≠ n := fun same => outside (same ▸ inVars)
      rw [Base.exec_sb, scratch_hostWrite_byte, if_neg different]
  | jalr rd rs1 imm =>
      exact touches.elim
  | _ =>
      exact frame_setR touches _ _

/-- Code with a footprint leaves the rest as it was. -/
theorem frame_execAll (touches : ∀ base ∈ code, base.Touches regs vars)
    (stackKept : sp ∉ regs) :
    Frame regs vars state (execAll state code) := by
  induction code generalizing state with
  | nil =>
      exact FrameOff.refl state
  | cons base code inductionHypothesis =>
      have head := List.forall_mem_cons.mp touches
      rw [execAll_cons]
      exact (frame_exec head.1).trans (inductionHypothesis head.2) stackKept

/-- Code with a footprint falls through. -/
theorem pc_execAll (touches : ∀ base ∈ code, base.Touches regs vars) :
    (execAll state code).pc =
      state.pc + BitVec.ofNat 32 (4 * code.length) := by
  induction code generalizing state with
  | nil =>
      exact (BitVec.add_zero _).symm
  | cons base code inductionHypothesis =>
      have head := List.forall_mem_cons.mp touches
      have next : (base.exec state).pc = state.pc + 4 := by
        cases base with
        | jalr rd rs1 imm => exact head.1.elim
        | _ => rfl
      rw [execAll_cons, inductionHypothesis head.2, next, List.length_cons,
        Nat.mul_add, BitVec.ofNat_add, BitVec.add_assoc,
        BitVec.add_comm _ (BitVec.ofNat 32 (4 * 1))]
      rfl

end Footprints

end Ysyx.Rvmini
