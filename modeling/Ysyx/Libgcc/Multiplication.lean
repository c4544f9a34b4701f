import Ysyx.Libgcc.Text

/-!
# Multiplication

`__mulsi3` adds the multiplicand for every bit of the multiplier.
-/

namespace Ysyx.Libgcc

open Nemu Rvmini

/-! ## Shift and add -/

section Arithmetic

variable (multiplier multiplicand : Word)

theorem add_bit_eq :
    multiplier >>> 1 * 2#32 + (multiplier &&& 1#32) = multiplier := by
  apply BitVec.eq_of_toNat_eq
  simp only [BitVec.toNat_add, BitVec.toNat_mul, BitVec.toNat_ushiftRight,
    BitVec.toNat_and, BitVec.toNat_ofNat, Nat.shiftRight_eq_div_pow,
    Nat.reducePow, Nat.reduceMod, Nat.and_one_is_mod]
  have inWord := multiplier.isLt
  omega

/-- The product, by the lowest bit. -/
theorem mul_eq_round :
    multiplier * multiplicand =
      (multiplier &&& 1#32) * multiplicand +
        multiplier >>> 1 * multiplicand <<< 1 := by
  have doubled : multiplicand <<< 1 = 2#32 * multiplicand := by
    rw [BitVec.shiftLeft_eq_mul_twoPow, BitVec.mul_comm]
    rfl
  calc
    multiplier * multiplicand =
        (multiplier >>> 1 * 2#32 + (multiplier &&& 1#32)) * multiplicand := by
      rw [add_bit_eq]
    _ = multiplier >>> 1 * multiplicand <<< 1 +
        (multiplier &&& 1#32) * multiplicand := by
      rw [BitVec.add_mul, BitVec.mul_assoc, doubled]
    _ = _ := BitVec.add_comm _ _

theorem and_one_cases : multiplier &&& 1#32 = 0 ∨ multiplier &&& 1#32 = 1 := by
  have bit : (multiplier &&& 1#32).toNat = multiplier.toNat % 2 := by
    rw [BitVec.toNat_and]
    exact Nat.and_one_is_mod _
  rcases Nat.mod_two_eq_zero_or_one multiplier.toNat with even | odd
  · exact .inl (BitVec.eq_of_toNat_eq (bit.trans even))
  · exact .inr (BitVec.eq_of_toNat_eq (bit.trans odd))

end Arithmetic

/-! ## The code -/

section Code

variable {linked : LinkedFile} (holds : HasText linked muldi3S) {before : Checked}
  {cpu start : CpuState} {post : Checked → Prop} {product : Word}
include holds

/-- `.L1`: add the multiplicand if the bit is set. -/
theorem leads_addBit (here : linked.At before 2 cpu)
    (later : ∀ next cpu', linked.At next 5 cpu' →
      cpu'.gpr a0 = cpu.gpr a0 + (cpu.gpr a1 &&& 1#32) * cpu.gpr a2 →
      cpu'.gpr a1 = cpu.gpr a1 → cpu'.gpr a2 = cpu.gpr a2 →
      KeptBut argRegs cpu cpu' → linked.Leads next post) :
    linked.Leads before post := by
  have masks : linked.text[2]? = some (.opImm .andi a3 a1 1) := by
    rw [holds.lines]
    rfl
  have assigns : (Inst.opImm .andi a3 a1 1).assigns cpu =
      some (a3, cpu.gpr a1 &&& 1#32) := rfl
  apply leads_assign here masks assigns (by decide)
  intro masked atMasked
  have kept : KeptBut argRegs cpu (cpu.setR a3 (cpu.gpr a1 &&& 1#32)) :=
    (KeptBut.refl cpu).setR (by decide) _
  apply leads_branch atMasked (by rw [holds.lines]; rfl)
    (holds.found 5 (by decide))
  intro tested atTested
  simp +decide only [BranchOp.taken, gpr_setR, ite_false, ite_true,
    beq_iff_eq] at atTested
  rcases and_one_cases (cpu.gpr a1) with clear | set
  · rw [if_pos clear] at atTested
    apply later tested _ atTested _ _ _ kept
    · simp +decide [gpr_setR, clear]
    · simp +decide [gpr_setR]
    · simp +decide [gpr_setR]
  · rw [set, if_neg (by decide)] at atTested
    have adds : linked.text[4]? = some (.base (.add a0 a0 a2)) := by
      rw [holds.lines]
      rfl
    apply leads_assign atTested adds rfl (by decide)
    intro added atAdded
    apply later added _ atAdded
    · simp +decide [gpr_setR, set]
    · simp +decide [gpr_setR]
    · simp +decide [gpr_setR]
    · rw [← set]
      exact kept.setR (by decide) _

theorem leads_shiftBlock (here : linked.At before 5 cpu)
    (later : ∀ next, linked.At next 7
      ((cpu.setR a1 (cpu.gpr a1 >>> 1)).setR a2 (cpu.gpr a2 <<< 1)) →
        linked.Leads next post) : linked.Leads before post := by
  have isBlock : [.shift .srli a1 a1 1, .shift .slli a2 a2 1] <+:
      linked.text.drop 5 := by
    rw [holds.lines]
    exact ⟨_, rfl⟩
  apply leads_block here isBlock _ (by simp +decide [Inst.assigns]) later
  simp +decide [assignAll, Inst.assigns, ShiftImm.result, gpr_setR]

/-- One round keeps the product so far and the product to come. -/
theorem leads_round (here : linked.At before 2 cpu)
    (sum : cpu.gpr a0 + cpu.gpr a1 * cpu.gpr a2 = product)
    (later : ∀ next cpu',
      linked.At next (if cpu.gpr a1 >>> 1 = 0#32 then 8 else 2) cpu' →
      cpu'.gpr a1 = cpu.gpr a1 >>> 1 →
      cpu'.gpr a0 + cpu'.gpr a1 * cpu'.gpr a2 = product →
      KeptBut argRegs cpu cpu' → linked.Leads next post) :
    linked.Leads before post := by
  apply leads_addBit holds here
  intro added cpu' atAdded total multiplier multiplicand kept
  apply leads_shiftBlock holds atAdded
  intro shifted atShifted
  apply leads_branch atShifted (by rw [holds.lines]; rfl)
    (holds.found 2 (by decide))
  intro next atNext
  simp +decide only [BranchOp.taken, gpr_setR, ite_false, ite_true,
    multiplier, BitVec.ofNat_eq_ofNat, bne_iff_ne, ne_eq, ite_not] at atNext
  apply later next _ atNext
  · simp +decide [gpr_setR]
  · simp +decide only [gpr_setR, ite_false, ite_true]
    rw [total, multiplicand, BitVec.add_assoc, ← mul_eq_round, sum]
  · exact (kept.setR (by decide) _).setR (by decide) _

theorem leads_multiply {bits : Nat} (here : linked.At before 2 cpu)
    (small : (cpu.gpr a1).toNat < 2 ^ (bits + 1))
    (sum : cpu.gpr a0 + cpu.gpr a1 * cpu.gpr a2 = product)
    (later : ∀ next cpu', linked.At next 8 cpu' → cpu'.gpr a0 = product →
      KeptBut argRegs cpu cpu' → linked.Leads next post) :
    linked.Leads before post := by
  induction bits generalizing cpu before with
  | zero =>
      apply leads_round holds here sum
      intro next cpu' atNext multiplier sum' kept
      have gone : cpu.gpr a1 >>> 1 = 0#32 := by
        apply BitVec.eq_of_toNat_eq
        rw [BitVec.toNat_ushiftRight, Nat.shiftRight_eq_div_pow]
        exact Nat.div_eq_of_lt small
      rw [if_pos gone] at atNext
      apply later next cpu' atNext _ kept
      rw [← sum', multiplier, gone, BitVec.zero_mul, BitVec.add_zero]
  | succ bits inductionHypothesis =>
      apply leads_round holds here sum
      intro next cpu' atNext multiplier sum' kept
      by_cases gone : cpu.gpr a1 >>> 1 = 0#32
      · rw [if_pos gone] at atNext
        apply later next cpu' atNext _ kept
        rw [← sum', multiplier, gone, BitVec.zero_mul, BitVec.add_zero]
      rw [if_neg gone] at atNext
      apply inductionHypothesis atNext _ sum'
      · intro last cpu'' atLast result kept'
        exact later last cpu'' atLast result (kept.trans kept')
      · rw [multiplier, BitVec.toNat_ushiftRight, Nat.shiftRight_eq_div_pow]
        rw [Nat.pow_succ] at small
        omega

theorem leads_mulsi3 (here : linked.At before 0 cpu)
    (even : EvenAddr (cpu.gpr ra)) :
    linked.Leads before (Returned linked .mul cpu) := by
  have isBlock : [.mv a2 a0, li a0 0] <+: linked.text.drop 0 := by
    rw [holds.lines]
    exact ⟨_, rfl⟩
  have assigns : assignAll cpu [.mv a2 a0, li a0 0] =
      some ((cpu.setR a2 (cpu.gpr a0)).setR a0 0) := by
    simp +decide [assignAll]
  apply leads_block here isBlock assigns (by simp +decide)
  intro opened atOpened
  have opens : KeptBut argRegs cpu
      ((cpu.setR a2 (cpu.gpr a0)).setR a0 0) :=
    ((KeptBut.refl cpu).setR (by decide) _).setR (by decide) _
  have sum : ((cpu.setR a2 (cpu.gpr a0)).setR a0 0).gpr a0 +
      ((cpu.setR a2 (cpu.gpr a0)).setR a0 0).gpr a1 *
        ((cpu.setR a2 (cpu.gpr a0)).setR a0 0).gpr a2 =
      cpu.gpr a0 * cpu.gpr a1 := by
    simp +decide [gpr_setR, BitVec.mul_comm]
  apply leads_multiply holds atOpened (BitVec.isLt _) sum
  intro last cpu' atLast result kept
  have returns : linked.text[8]? = some (.jr ra) := by
    rw [holds.lines]
    rfl
  have keeps := opens.trans kept
  apply leads_back atLast returns (keeps.gpr ra (by decide)) even _
    (keeps.mono (by decide))
  rw [result]
  exact mul_eq_ofInt _ _

end Code

end Ysyx.Libgcc
