import Ysyx.Nemu.Agreement

/-!
# Function tracing

`decode_exec` hands the target of a call to `trace_func_call` after it has
computed it.  When the core is simulated, `isa_exec_once` takes the target
from the instruction word itself, with immediates that it puts together by
hand; this module compares the two.
-/

namespace Ysyx.Nemu

/-- What is traced: `trace_func_call(pc, target, is_tail)` or
`trace_func_ret(pc)`. -/
inductive FuncTrace where
  | call (pc target : Word) (isTail : Bool)
  | ret (pc : Word)
  deriving DecidableEq, Repr

/-- `imm` of a `jal`; the sign mask makes the sum of the fields a 64-bit
value, of which `sword_t` keeps the lower half. -/
def traceImmJ (inst : Word) : Word :=
  ((if (inst >>> 31) &&& 1 ≠ 0 then 0xfffffffffffff000#64 else 0) |||
    (((inst >>> 21) &&& 0x3ff) <<< 1).setWidth 64 |||
    (((inst >>> 20) &&& 1) <<< 11).setWidth 64 |||
    (((inst >>> 12) &&& 0xff) <<< 12).setWidth 64).setWidth 32

/-- `imm` of a `jalr`: the casts come after the shift. -/
def traceImmI (inst : Word) : Word := inst >>> 20

/-- The NPC branch of `isa_exec_once` while `difftest_signal` is set. -/
def npcTrace (pc inst : Word) (gpr : BitVec 5 → Word) : Option FuncTrace :=
  let rd := (inst >>> 7) &&& 0x1f
  if inst &&& 0x7f = 0x6f then
    if rd = 1 then
      some (.call pc (pc + traceImmJ inst) false)
    else none
  else if inst &&& 0x707f = 0x67 then
    let rs1 := (inst >>> 15) &&& 0x1f
    let imm := traceImmI inst
    let src1Val := gpr (rs1.setWidth 5)
    let target := (((src1Val + imm).setWidth 64) &&& ~~~1#64).setWidth 32
    if inst = 0x00008067 then
      some (.ret pc)
    else if rd = 1 then
      some (.call pc target false)
    else if rd = 0 ∧ imm = 0 then
      some (.call pc target true)
    else none
  else none

/-! ## The two immediates -/

theorem signBit_iff (inst : Word) :
    (inst >>> 31) &&& 1 ≠ 0 ↔ inst.getLsbD 31 = true := by
  have bit : (inst >>> 31) &&& 1 =
      (BitVec.ofBool (inst.getLsbD 31)).setWidth 32 := by
    have lowest := BitVec.and_one_eq_setWidth_ofBool_getLsbD (x := inst >>> 31)
    rwa [BitVec.getLsbD_ushiftRight] at lowest
  rw [bit]
  cases inst.getLsbD 31 <;> decide

/-- The sign mask covers the bits 19 to 12 too. -/
theorem traceImmJ_eq (inst : Word) :
    traceImmJ inst =
      immJ inst ||| if inst.getLsbD 31 then 0x000ff000 else 0 := by
  apply BitVec.eq_of_getLsbD_eq
  intro k inWord
  simp only [traceImmJ, immJ, sext, signBit_iff]
  cases sign : inst.getLsbD 31
  all_goals
    simp only [getLsbD_bits, BitVec.getLsbD_setWidth,
      BitVec.getLsbD_and, BitVec.getLsbD_or, BitVec.getLsbD_shiftLeft,
      BitVec.getLsbD_signExtend, BitVec.getLsbD_ushiftRight,
      BitVec.msb_eq_getLsbD_last, -Nat.reduceAdd, -Nat.reduceSub]
    interval_cases k <;> simp_all

/-- Zeros stand where the sign belongs. -/
theorem traceImmI_eq (inst : Word) :
    traceImmI inst =
      immI inst + if inst.getLsbD 31 then 0x00001000 else 0 := by
  have sign : (inst.extractLsb' 20 12).msb = inst.getLsbD 31 := by
    simp [BitVec.msb_eq_getLsbD_last]
  have field : (inst.extractLsb' 20 12).toNat = inst.toNat / 2 ^ 20 := by
    simp [Nat.shiftRight_eq_div_pow]
    omega
  apply BitVec.eq_of_toNat_eq
  rw [Rtl.immI_eq]
  change (inst >>> 20).toNat =
    ((inst.extractLsb' 20 12).signExtend 32 + _).toNat
  rw [BitVec.toNat_add, BitVec.toNat_signExtend, sign, BitVec.toNat_setWidth,
    field, BitVec.toNat_ushiftRight, Nat.shiftRight_eq_div_pow]
  have bound := inst.isLt
  cases inst.getLsbD 31
  · simp
    omega
  · simp
    omega

theorem or_mask_eq_iff (x : Word) :
    x ||| 0x000ff000 = x ↔ x.extractLsb' 12 8 = BitVec.allOnes 8 := by
  constructor
  · intro same
    have field : x.extractLsb' 12 8 ||| BitVec.allOnes 8 =
        x.extractLsb' 12 8 := by
      have extracted := congrArg (BitVec.extractLsb' 12 8) same
      rwa [BitVec.extractLsb'_or] at extracted
    rw [← field, BitVec.or_allOnes]
  · intro ones
    apply BitVec.eq_of_getLsbD_eq
    intro k inWord
    have field : 12 ≤ k → k < 20 → x.getLsbD k = true := by
      intro low high
      have bit := congrArg (fun v => v.getLsbD (k - 12)) ones
      simp only [BitVec.getLsbD_extractLsb', BitVec.getLsbD_allOnes,
        Nat.add_sub_cancel' low, show k - 12 < 8 by omega, decide_true,
        Bool.true_and] at bit
      exact bit
    rw [BitVec.getLsbD_or]
    interval_cases k <;> simp_all

theorem immJ_middle (inst : Word) :
    (immJ inst).extractLsb' 12 8 = inst.extractLsb' 12 8 := by
  apply BitVec.eq_of_getLsbD_eq
  intro k inField
  simp only [immJ, sext, getLsbD_bits, BitVec.getLsbD_extractLsb',
    BitVec.getLsbD_setWidth, BitVec.getLsbD_and, BitVec.getLsbD_or,
    BitVec.getLsbD_shiftLeft, BitVec.getLsbD_signExtend,
    BitVec.msb_eq_getLsbD_last, -Nat.reduceAdd, -Nat.reduceSub]
  interval_cases k <;> simp

/-- The J immediate is right if there is no sign, or if the bits that the mask
sets are set anyway. -/
theorem traceImmJ_eq_iff (inst : Word) :
    traceImmJ inst = immJ inst ↔
      inst.getLsbD 31 = false ∨ inst.extractLsb' 12 8 = BitVec.allOnes 8 := by
  rw [traceImmJ_eq]
  cases inst.getLsbD 31
  · simp
  · rw [if_pos rfl, or_mask_eq_iff, immJ_middle]
    simp

theorem and_not_one_toNat (x : Word) :
    (x &&& ~~~1#32).toNat = x.toNat / 2 * 2 := by
  have shifted : x &&& ~~~1#32 = (x >>> 1) <<< 1 := by
    apply BitVec.eq_of_getLsbD_eq
    intro k inWord
    simp only [BitVec.getLsbD_and, BitVec.getLsbD_shiftLeft,
      BitVec.getLsbD_ushiftRight]
    interval_cases k <;> simp
  have bound := x.isLt
  rw [shifted, BitVec.toNat_shiftLeft, BitVec.toNat_ushiftRight,
    Nat.shiftRight_eq_div_pow, Nat.shiftLeft_eq]
  omega

/-- The target of a `jalr` is right if there is no sign: clearing bit 0 does
not hide what the missing sign does to bit 12. -/
theorem jalrTarget_eq_iff (inst src1 : Word) :
    (((src1 + traceImmI inst).setWidth 64) &&& ~~~1#64).setWidth 32 =
        (src1 + immI inst) &&& ~~~1#32 ↔
      inst.getLsbD 31 = false := by
  have narrow (x : Word) :
      ((x.setWidth 64) &&& ~~~1#64).setWidth 32 = x &&& ~~~1#32 := by
    rw [BitVec.setWidth_and, BitVec.setWidth_setWidth_of_le _ (by decide),
      BitVec.setWidth_eq]
    rfl
  rw [narrow, traceImmI_eq]
  cases inst.getLsbD 31
  · simp
  · have moved : (src1 + (immI inst + 0x00001000)) &&& ~~~1#32 ≠
        (src1 + immI inst) &&& ~~~1#32 := by
      intro same
      have values := congrArg BitVec.toNat same
      rw [and_not_one_toNat, and_not_one_toNat, ← BitVec.add_assoc,
        BitVec.toNat_add] at values
      have bound := (src1 + immI inst).isLt
      change ((src1 + immI inst).toNat + 0x1000) % 2 ^ 32 / 2 * 2 = _ at values
      omega
    simpa using moved

/-! ## Calls -/

/-- A `jal` or `jalr` word with `rd` = `x1`. -/
def IsCall (inst : Word) : Prop :=
  ((Pattern.opcode 0b11011).Matches inst ∨
    (Pattern.funct3 0b000 0b11001).Matches inst) ∧ bits inst 11 7 = 1

instance (inst : Word) : Decidable (IsCall inst) :=
  inferInstanceAs (Decidable (_ ∧ _))

section Calls

variable {inst : Word}

theorem decodeExec_jal (isJal : (Pattern.opcode 0b11011).Matches inst)
    (pc : Word) (cpu : CpuState) (pmem : Pmem) :
    ∃ next, decodeExec pc inst cpu pmem =
      .done next (pc + immJ inst) none := by
  have row : selected inst = some ⟨.opcode 0b11011, .jal, .typeJ,
      jumpBody fun pc d => pc + d.imm⟩ :=
    selected_of_matches (by simp [instpats]) (by decide) isJal
  rw [decodeExec, row]
  exact ⟨_, rfl⟩

theorem decodeExec_jalr (isJalr : (Pattern.funct3 0b000 0b11001).Matches inst)
    (pc : Word) (cpu : CpuState) (pmem : Pmem) :
    ∃ next, decodeExec pc inst cpu pmem =
      .done next ((cpu.gpr ((bits inst 19 15).setWidth 5) + immI inst) &&&
        ~~~1#32) none := by
  have row : selected inst = some ⟨.funct3 0b000 0b11001, .jalr, .typeI,
      jumpBody fun _ d => (d.src1 + d.imm) &&& ~~~1⟩ :=
    selected_of_matches (by simp [instpats]) (by decide) isJalr
  rw [decodeExec, row]
  exact ⟨_, rfl⟩

theorem npcTrace_jal (isJal : (Pattern.opcode 0b11011).Matches inst)
    (rd : bits inst 11 7 = 1) (pc : Word) (gpr : BitVec 5 → Word) :
    npcTrace pc inst gpr = some (.call pc (pc + traceImmJ inst) false) := by
  have opcode : inst &&& 0x7f = 0x6f := isJal
  have isRa : (inst >>> 7) &&& 0x1f = 1 := rd
  rw [npcTrace, if_pos opcode, if_pos isRa]

/-- The opcode of a `jalr`. -/
theorem not_jal_of_jalr
    (isJalr : (Pattern.funct3 0b000 0b11001).Matches inst) :
    inst &&& 0x7f ≠ 0x6f := by
  have low : inst &&& 0x7f = (inst &&& 0x707f) &&& 0x7f := by
    rw [BitVec.and_assoc]
    rfl
  rw [low, show inst &&& 0x707f = 0x67 from isJalr]
  decide

theorem npcTrace_jalr (isJalr : (Pattern.funct3 0b000 0b11001).Matches inst)
    (rd : bits inst 11 7 = 1) (pc : Word) (gpr : BitVec 5 → Word) :
    npcTrace pc inst gpr = some (.call pc
      ((((gpr ((bits inst 19 15).setWidth 5) + traceImmI inst).setWidth 64) &&&
        ~~~1#64).setWidth 32) false) := by
  have opcode : inst &&& 0x707f = 0x67 := isJalr
  have isRa : (inst >>> 7) &&& 0x1f = 1 := rd
  have notRet : inst ≠ 0x00008067 := by
    rintro rfl
    exact absurd isRa (by decide)
  rw [npcTrace, if_neg (not_jal_of_jalr isJalr), if_pos opcode,
    if_neg notRet, if_pos isRa]
  rfl

theorem traced_iff {pc target traced : Word} {next : CpuState} :
    (∃ next' target', Outcome.done next target none =
        .done next' target' none ∧
      some (FuncTrace.call pc traced false) =
        some (.call pc target' false)) ↔
    traced = target := by
  constructor
  · rintro ⟨_, _, executes, calls⟩
    injection executes with _ sameTarget
    injection calls with sameCall
    injection sameCall with _ sameTraced
    rw [sameTraced, sameTarget]
  · rintro rfl
    exact ⟨_, _, rfl, rfl⟩

/-- The NPC branch traces the target that `decode_exec` jumps to for exactly
the offsets whose sign is 0, and for the negative `jal` offsets whose bits 19
to 12 are all 1. -/
theorem npcTrace_right_iff (isCall : IsCall inst) (pc : Word)
    (cpu : CpuState) (pmem : Pmem) :
    (∃ next target, decodeExec pc inst cpu pmem = .done next target none ∧
      npcTrace pc inst cpu.gpr = some (.call pc target false)) ↔
    inst.getLsbD 31 = false ∨
      (Pattern.opcode 0b11011).Matches inst ∧
        inst.extractLsb' 12 8 = BitVec.allOnes 8 := by
  obtain ⟨isJal | isJalr, rd⟩ := isCall
  · obtain ⟨next, executes⟩ := decodeExec_jal isJal pc cpu pmem
    rw [executes, npcTrace_jal isJal rd, traced_iff, BitVec.add_right_inj,
      traceImmJ_eq_iff, and_iff_right isJal]
  · obtain ⟨next, executes⟩ := decodeExec_jalr isJalr pc cpu pmem
    have notJal : ¬(Pattern.opcode 0b11011).Matches inst :=
      not_jal_of_jalr isJalr
    rw [executes, npcTrace_jalr isJalr rd, traced_iff, jalrTarget_eq_iff,
      or_iff_left fun isJal => notJal isJal.1]

/-- `jal x1, -8`, whose bits 19 to 12 are all 1. -/
theorem npcTrace_right_iff_jal :
    (∃ next target, decodeExec 0x80000010 0xff9ff0ef ⟨0, 0, rfl⟩
        (fun _ => 0) = .done next target none ∧
      npcTrace 0x80000010 0xff9ff0ef 0 =
        some (.call 0x80000010 target false)) ↔
    (0xff9ff0ef : Word).getLsbD 31 = false ∨
      (Pattern.opcode 0b11011).Matches 0xff9ff0ef ∧
        (0xff9ff0ef : Word).extractLsb' 12 8 = BitVec.allOnes 8 :=
  npcTrace_right_iff (by decide) _ _ _

/-- `jalr x1, -4(x0)` is traced 4096 bytes too far. -/
theorem npcTrace_right_fails :
    ¬∀ inst, IsCall inst → ∀ pc (cpu : CpuState) pmem,
      ∃ next target, decodeExec pc inst cpu pmem = .done next target none ∧
        npcTrace pc inst cpu.gpr = some (.call pc target false) := by
  intro right
  have isJalr : (Pattern.funct3 0b000 0b11001).Matches 0xffc000e7 := by
    decide
  obtain ⟨next, target, executes, traces⟩ :=
    right 0xffc000e7 ⟨.inr isJalr, by decide⟩ 0x80000000 ⟨0, 0, rfl⟩ fun _ => 0
  obtain ⟨other, jumps⟩ :=
    decodeExec_jalr isJalr 0x80000000 ⟨0, 0, rfl⟩ fun _ => 0
  rw [jumps] at executes
  injection executes with _ isTarget
  rw [← isTarget] at traces
  exact absurd traces (by decide)

end Calls

end Ysyx.Nemu
