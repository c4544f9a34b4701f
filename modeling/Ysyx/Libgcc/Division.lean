import Ysyx.Libgcc.Text

/-!
# Unsigned division

`__udivsi3` grows the divisor until the next step would pass the dividend, and
takes it off the dividend on its way back.
-/

namespace Ysyx.Libgcc

open Nemu Rvmini

/-! ## Long division -/

/-- The divisor and one, both shifted by `k`. -/
structure Shifted (y : Word) (k : Nat) (divisor bit : Word) : Prop where
  divisor_eq : divisor.toNat = y.toNat * 2 ^ k
  bit_eq : bit.toNat = 2 ^ k

/-- A quotient whose bits are settled down to `k`, and what remains. -/
structure Remains (x y : Word) (k : Nat) (quotient rest : Word) : Prop where
  split : x.toNat = quotient.toNat * y.toNat + rest.toNat
  multiple : 2 ^ k ∣ quotient.toNat
  bound : rest.toNat < y.toNat * 2 ^ k

section Arithmetic

variable {x y divisor bit quotient rest : Word} {k : Nat}

theorem toNat_double {w : Word} (small : w.toNat < 2 ^ 31) :
    (w <<< 1).toNat = w.toNat * 2 := by
  rw [BitVec.toNat_shiftLeft, Nat.shiftLeft_eq]
  omega

theorem toNat_half (w : Word) : (w >>> 1).toNat = w.toNat / 2 := by
  rw [BitVec.toNat_ushiftRight, Nat.shiftRight_eq_div_pow]

theorem Shifted.bit_le (shifted : Shifted y k divisor bit)
    (pos : 0 < y.toNat) : bit.toNat ≤ divisor.toNat := by
  rw [shifted.divisor_eq, shifted.bit_eq]
  exact Nat.le_mul_of_pos_left _ pos

theorem Shifted.grow (shifted : Shifted y k divisor bit) (pos : 0 < y.toNat)
    (small : divisor.toNat < 2 ^ 31) :
    Shifted y (k + 1) (divisor <<< 1) (bit <<< 1) where
  divisor_eq := by
    rw [toNat_double small, shifted.divisor_eq, Nat.pow_succ, Nat.mul_assoc]
  bit_eq := by
    have below := shifted.bit_le pos
    rw [toNat_double (by omega), shifted.bit_eq, Nat.pow_succ]

theorem Shifted.shrink (shifted : Shifted y (k + 1) divisor bit) :
    Shifted y k (divisor >>> 1) (bit >>> 1) where
  divisor_eq := by
    rw [toNat_half, shifted.divisor_eq, Nat.pow_succ, ← Nat.mul_assoc]
    omega
  bit_eq := by
    rw [toNat_half, shifted.bit_eq, Nat.pow_succ]
    omega

/-- The dividend is below the divisor. -/
theorem Remains.skip (remains : Remains x y (k + 1) quotient rest)
    (shifted : Shifted y k divisor bit) (less : rest.toNat < divisor.toNat) :
    Remains x y k quotient rest where
  split := remains.split
  multiple := (Nat.pow_dvd_pow 2 (Nat.le_succ k)).trans remains.multiple
  bound := by
    rw [← shifted.divisor_eq]
    exact less

/-- The divisor is taken off. -/
theorem Remains.take (remains : Remains x y (k + 1) quotient rest)
    (shifted : Shifted y k divisor bit) (atLeast : divisor.toNat ≤ rest.toNat) :
    Remains x y k (quotient ||| bit) (rest - divisor) := by
  obtain ⟨split, ⟨times, isMultiple⟩, bound⟩ := remains
  have divisorEq := shifted.divisor_eq
  have bitEq := shifted.bit_eq
  have sum : (quotient ||| bit).toNat = quotient.toNat + bit.toNat := by
    rw [BitVec.toNat_or, isMultiple, bitEq]
    exact (Nat.two_pow_add_eq_or_of_lt
      (Nat.pow_lt_pow_right (by decide) (Nat.lt_succ_self k)) times).symm
  have less : (rest - divisor).toNat = rest.toNat - divisor.toNat :=
    BitVec.toNat_sub_of_le atLeast
  constructor
  · have product : bit.toNat * y.toNat = divisor.toNat := by
      rw [bitEq, divisorEq, Nat.mul_comm]
    rw [sum, less, Nat.add_mul, product, split]
    omega
  · rw [sum, isMultiple, bitEq, Nat.pow_succ, Nat.mul_assoc]
    exact Nat.dvd_add (Nat.dvd_mul_right _ _) (Nat.dvd_refl _)
  · rw [Nat.pow_succ, ← Nat.mul_assoc, ← divisorEq] at bound
    rw [less, ← divisorEq]
    omega

/-- All bits are settled. -/
theorem Remains.done (remains : Remains x y 0 quotient rest) :
    quotient = x / y ∧ rest = x % y := by
  obtain ⟨split, -, bound⟩ := remains
  rw [Nat.pow_zero, Nat.mul_one] at bound
  have unique := (Nat.div_mod_unique (by omega)).mpr
    ⟨(by rw [split, Nat.mul_comm, Nat.add_comm] :
      rest.toNat + y.toNat * quotient.toNat = x.toNat), bound⟩
  constructor
  · apply BitVec.eq_of_toNat_eq
    rw [BitVec.toNat_udiv]
    exact unique.1.symm
  · apply BitVec.eq_of_toNat_eq
    rw [BitVec.toNat_umod]
    exact unique.2.symm

end Arithmetic

/-! ## The code -/

/-- A branch on a word that is not zero. -/
theorem sle_zero {w : Word} (pos : 0 < w.toNat) :
    w.sle 0#32 = decide (2 ^ 31 ≤ w.toNat) := by
  have inWord := w.isLt
  rw [BitVec.sle_eq_decide, BitVec.toInt_eq_toNat_cond, BitVec.toInt_zero]
  congr 1
  apply propext
  split <;> omega

theorem ult_toNat (a b : Word) : a.ult b = decide (a.toNat < b.toNat) := rfl

theorem ule_toNat (a b : Word) : a.ule b = decide (a.toNat ≤ b.toNat) := rfl

/-- What `__udivsi3` leaves for `x` and `y`. -/
structure Divided (x y : Word) (before after : CpuState) : Prop where
  quotient : after.gpr a0 = if y = 0 then -1 else x / y
  remainder : after.gpr a1 = x % y
  kept : KeptBut argRegs before after

section Code

variable {linked : LinkedFile} (holds : HasText linked divS) {before : Checked}
  {cpu start : CpuState} {post : Checked → Prop} {x y : Word} {k : Nat}
include holds

theorem leads_growBlock (here : linked.At before 9 cpu)
    (later : ∀ next, linked.At next 11
      ((cpu.setR a2 (cpu.gpr a2 <<< 1)).setR a3 (cpu.gpr a3 <<< 1)) →
        linked.Leads next post) : linked.Leads before post := by
  have isBlock : [.shift .slli a2 a2 1, .shift .slli a3 a3 1] <+:
      linked.text.drop 9 := by
    rw [holds.lines]
    exact ⟨_, rfl⟩
  apply leads_block here isBlock _ (by simp +decide [Inst.assigns]) later
  simp +decide [assignAll, Inst.assigns, ShiftImm.result, gpr_setR]

theorem leads_subtractBlock (here : linked.At before 14 cpu)
    (later : ∀ next, linked.At next 16
      ((cpu.setR a1 (cpu.gpr a1 - cpu.gpr a2)).setR a0
        (cpu.gpr a0 ||| cpu.gpr a3)) →
        linked.Leads next post) : linked.Leads before post := by
  have isBlock : [.op .sub a1 a1 a2, .op .or a0 a0 a3] <+:
      linked.text.drop 14 := by
    rw [holds.lines]
    exact ⟨_, rfl⟩
  apply leads_block here isBlock _ (by simp +decide [Inst.assigns]) later
  simp +decide [assignAll, Inst.assigns, Op.result, gpr_setR]

theorem leads_shrinkBlock (here : linked.At before 16 cpu)
    (later : ∀ next, linked.At next 18
      ((cpu.setR a3 (cpu.gpr a3 >>> 1)).setR a2 (cpu.gpr a2 >>> 1)) →
        linked.Leads next post) : linked.Leads before post := by
  have isBlock : [.shift .srli a3 a3 1, .shift .srli a2 a2 1] <+:
      linked.text.drop 16 := by
    rw [holds.lines]
    exact ⟨_, rfl⟩
  apply leads_block here isBlock _ (by simp +decide [Inst.assigns]) later
  simp +decide [assignAll, Inst.assigns, ShiftImm.result, gpr_setR]

/-- `.L1`: shift until the divisor is negative or at least the dividend. -/
theorem leads_grow (pos : 0 < y.toNat) {fuel : Nat} (enough : 32 ≤ k + fuel)
    (here : linked.At before 8 cpu) (dividend : cpu.gpr a1 = x)
    (shifted : Shifted y k (cpu.gpr a2) (cpu.gpr a3))
    (later : ∀ k' next cpu', linked.At next 12 cpu' → cpu'.gpr a1 = x →
      Shifted y k' (cpu'.gpr a2) (cpu'.gpr a3) →
      x.toNat < y.toNat * 2 ^ (k' + 1) → KeptBut argRegs cpu cpu' →
        linked.Leads next post) : linked.Leads before post := by
  induction fuel generalizing k cpu before with
  | zero =>
      have fits := (cpu.gpr a3).isLt
      rw [shifted.bit_eq] at fits
      exact absurd ((Nat.pow_lt_pow_iff_right (by decide)).mp fits) (by omega)
  | succ fuel inductionHypothesis =>
      have inWord := x.isLt
      have divisorEq := shifted.divisor_eq
      have divisorPos : 0 < (cpu.gpr a2).toNat := by
        rw [divisorEq]
        exact Nat.mul_pos pos (Nat.two_pow_pos k)
      apply leads_branch here (by rw [holds.lines]; rfl)
        (holds.found 12 (by decide))
      intro next atNext
      rw [BranchOp.taken, gpr_x0, sle_zero divisorPos] at atNext
      by_cases large : 2 ^ 31 ≤ (cpu.gpr a2).toNat
      · rw [if_pos (decide_eq_true large)] at atNext
        apply later k next cpu atNext dividend shifted _ (KeptBut.refl cpu)
        rw [Nat.pow_succ, ← Nat.mul_assoc, ← divisorEq]
        omega
      rw [if_neg (by simpa using large)] at atNext
      apply leads_growBlock holds atNext
      intro grown atGrown
      have grow := shifted.grow pos (by omega)
      have kept : KeptBut argRegs cpu ((cpu.setR a2 (cpu.gpr a2 <<< 1)).setR a3
          (cpu.gpr a3 <<< 1)) :=
        ((KeptBut.refl cpu).setR (by decide) _).setR (by decide) _
      apply leads_branch atGrown (by rw [holds.lines]; rfl)
        (holds.found 8 (by decide))
      intro again atAgain
      simp +decide only [BranchOp.taken, gpr_setR, ite_false, ite_true, dividend,
        ult_toNat, decide_eq_true_eq] at atAgain
      by_cases less : (cpu.gpr a2 <<< 1).toNat < x.toNat
      · rw [if_pos less] at atAgain
        apply inductionHypothesis (k := k + 1) (by omega) atAgain
        · simp +decide [gpr_setR, dividend]
        · simpa +decide [gpr_setR] using grow
        · intro k' last cpu' atLast dividend' shifted' bound kept'
          exact later k' last cpu' atLast dividend' shifted' bound
            (kept.trans kept')
      · rw [if_neg less] at atAgain
        apply later (k + 1) again _ atAgain
        · simp +decide [gpr_setR, dividend]
        · simpa +decide [gpr_setR] using grow
        · rw [Nat.pow_succ, ← Nat.mul_assoc, ← grow.divisor_eq]
          have grownPos : 0 < (cpu.gpr a2 <<< 1).toNat := by
            rw [grow.divisor_eq]
            exact Nat.mul_pos pos (Nat.two_pow_pos _)
          omega
        · exact kept

/-- `.L3`: settle one bit. -/
theorem leads_bit (here : linked.At before 13 cpu)
    (shifted : Shifted y k (cpu.gpr a2) (cpu.gpr a3))
    (remains : Remains x y (k + 1) (cpu.gpr a0) (cpu.gpr a1))
    (later : ∀ next cpu', linked.At next 16 cpu' →
      Shifted y k (cpu'.gpr a2) (cpu'.gpr a3) →
      Remains x y k (cpu'.gpr a0) (cpu'.gpr a1) → KeptBut argRegs cpu cpu' →
        linked.Leads next post) : linked.Leads before post := by
  apply leads_branch here (by rw [holds.lines]; rfl)
    (holds.found 16 (by decide))
  intro next atNext
  simp only [BranchOp.taken, ult_toNat, decide_eq_true_eq] at atNext
  by_cases less : (cpu.gpr a1).toNat < (cpu.gpr a2).toNat
  · rw [if_pos less] at atNext
    exact later next cpu atNext shifted (remains.skip shifted less)
      (KeptBut.refl cpu)
  · rw [if_neg less] at atNext
    apply leads_subtractBlock holds atNext
    intro taken atTaken
    have took := remains.take shifted (not_lt.mp less)
    apply later taken _ atTaken
    · simpa +decide [gpr_setR] using shifted
    · simpa +decide [gpr_setR] using took
    · exact ((KeptBut.refl cpu).setR (by decide) _).setR (by decide) _

/-- `.L4`: the next lower bit, or `.L5` after the last. -/
theorem leads_next (here : linked.At before 16 cpu)
    (shifted : Shifted y k (cpu.gpr a2) (cpu.gpr a3))
    (later : ∀ next cpu',
      linked.At next (if k = 0 then 19 else 13) cpu' →
      (∀ below, k = below + 1 →
        Shifted y below (cpu'.gpr a2) (cpu'.gpr a3)) →
      cpu'.gpr a0 = cpu.gpr a0 → cpu'.gpr a1 = cpu.gpr a1 →
      KeptBut argRegs cpu cpu' → linked.Leads next post) :
    linked.Leads before post := by
  apply leads_shrinkBlock holds here
  intro shrunk atShrunk
  apply leads_branch atShrunk (by rw [holds.lines]; rfl)
    (holds.found 13 (by decide))
  intro next atNext
  simp +decide only [BranchOp.taken, gpr_setR, ite_false, ite_true, gpr_x0]
    at atNext
  have bit : (cpu.gpr a3 >>> 1).toNat = 2 ^ k / 2 := by
    rw [toNat_half, shifted.bit_eq]
  have line : (if cpu.gpr a3 >>> 1 != 0 then 13 else 18 + 1) =
      if k = 0 then 19 else 13 := by
    cases k with
    | zero =>
        have gone : cpu.gpr a3 >>> 1 = 0#32 := BitVec.eq_of_toNat_eq bit
        rw [gone]
        rfl
    | succ below =>
        rw [Nat.pow_succ, Nat.mul_div_cancel _ (by decide)] at bit
        have stays : cpu.gpr a3 >>> 1 ≠ 0#32 := by
          intro gone
          rw [gone] at bit
          exact absurd bit (Nat.two_pow_pos below).ne
        rw [if_pos (by simpa using stays), if_neg (Nat.succ_ne_zero below)]
  rw [line] at atNext
  apply later next _ atNext
  · rintro below rfl
    simpa +decide [gpr_setR] using shifted.shrink
  · simp +decide [gpr_setR]
  · simp +decide [gpr_setR]
  · exact ((KeptBut.refl cpu).setR (by decide) _).setR (by decide) _

/-- `.L3`: settle the bits from `k` down. -/
theorem leads_settle (here : linked.At before 13 cpu)
    (shifted : Shifted y k (cpu.gpr a2) (cpu.gpr a3))
    (remains : Remains x y (k + 1) (cpu.gpr a0) (cpu.gpr a1))
    (later : ∀ next cpu', linked.At next 19 cpu' →
      Remains x y 0 (cpu'.gpr a0) (cpu'.gpr a1) → KeptBut argRegs cpu cpu' →
        linked.Leads next post) : linked.Leads before post := by
  induction k generalizing cpu before with
  | zero =>
      apply leads_bit holds here shifted remains
      intro next cpu' atNext shifted' remains' kept
      apply leads_next holds atNext shifted'
      intro last cpu'' atLast _ quotient rest kept'
      apply later last cpu'' atLast _ (kept.trans kept')
      rwa [quotient, rest]
  | succ k inductionHypothesis =>
      apply leads_bit holds here shifted remains
      intro next cpu' atNext shifted' remains' kept
      apply leads_next holds atNext shifted'
      intro again cpu'' atAgain shrunk quotient rest kept'
      apply inductionHypothesis atAgain (shrunk k rfl)
      · rwa [quotient, rest]
      · intro last settled atLast done kept''
        exact later last settled atLast done
          ((kept.trans kept').trans kept'')

theorem leads_ret (here : linked.At before 19 cpu)
    (kept : KeptBut argRegs start cpu) (even : EvenAddr (start.gpr ra))
    (later : ∀ next, linked.JumpedTo next (start.gpr ra) cpu →
      linked.Leads next post) : linked.Leads before post := by
  have raKept := kept.gpr ra (by decide)
  have isLine : linked.text[19]? = some (Inst.jr ra) := by
    rw [holds.lines]
    rfl
  apply leads_jr here isLine
  · rwa [raKept]
  · rwa [raKept]

/-- `.L2`: divide, once the divisor is grown. -/
theorem leads_divide (here : linked.At before 12 cpu)
    (dividend : cpu.gpr a1 = x) (bound : x.toNat < y.toNat * 2 ^ (k + 1))
    (shifted : Shifted y k (cpu.gpr a2) (cpu.gpr a3))
    (later : ∀ next cpu', linked.At next 19 cpu' →
      Remains x y 0 (cpu'.gpr a0) (cpu'.gpr a1) → KeptBut argRegs cpu cpu' →
        linked.Leads next post) : linked.Leads before post := by
  have isLine : linked.text[12]? = some (li a0 0) := by
    rw [holds.lines]
    rfl
  apply leads_assign here isLine rfl (by decide)
  intro next atNext
  apply leads_settle (x := x) (y := y) holds atNext
  · simpa +decide [gpr_setR] using shifted
  · constructor
    · simp +decide [gpr_setR, dividend]
    · simp +decide [gpr_setR]
    · simpa +decide [gpr_setR, dividend] using bound
  · intro last settled atLast done kept
    apply later last settled atLast done
    exact ((KeptBut.refl cpu).setR (by decide) _).trans kept

theorem leads_openBlock (here : linked.At before 2 cpu)
    (later : ∀ next, linked.At next 5
      (((cpu.setR a2 (cpu.gpr a1)).setR a1 (cpu.gpr a0)).setR a0 (-1)) →
        linked.Leads next post) : linked.Leads before post := by
  have isBlock : [.mv a2 a1, .mv a1 a0, li a0 (-1)] <+:
      linked.text.drop 2 := by
    rw [holds.lines]
    exact ⟨_, rfl⟩
  apply leads_block here isBlock _ (by simp +decide) later
  simp +decide [assignAll, gpr_setR]

/-- `__udivsi3` by a divisor that is not zero, up to `.L2`. -/
theorem leads_grown (pos : 0 < y.toNat) (here : linked.At before 6 cpu)
    (dividend : cpu.gpr a1 = x) (divisor : cpu.gpr a2 = y)
    (later : ∀ k next cpu', linked.At next 12 cpu' → cpu'.gpr a1 = x →
      x.toNat < y.toNat * 2 ^ (k + 1) →
      Shifted y k (cpu'.gpr a2) (cpu'.gpr a3) → KeptBut argRegs cpu cpu' →
        linked.Leads next post) : linked.Leads before post := by
  have isLine : linked.text[6]? = some (li a3 1) := by
    rw [holds.lines]
    rfl
  apply leads_assign here isLine (assigns_li _ _ _) (by decide)
  intro next atNext
  have one : KeptBut argRegs cpu (cpu.setR a3 (BitVec.signExtend 32 1#12)) :=
    (KeptBut.refl cpu).setR (by decide) _
  have unshifted : Shifted y 0 ((cpu.setR a3 (BitVec.signExtend 32 1#12)).gpr a2)
      ((cpu.setR a3 (BitVec.signExtend 32 1#12)).gpr a3) := by
    constructor <;> simp +decide [gpr_setR, divisor]
  have dividend' : (cpu.setR a3 (BitVec.signExtend 32 1#12)).gpr a1 = x := by
    simpa +decide [gpr_setR] using dividend
  apply leads_branch atNext (by rw [holds.lines]; rfl)
    (holds.found 12 (by decide))
  intro tested atTested
  simp +decide only [BranchOp.taken, gpr_setR, ite_false, dividend, divisor,
    ule_toNat, decide_eq_true_eq] at atTested
  by_cases fits : x.toNat ≤ y.toNat
  · rw [if_pos fits] at atTested
    apply later 0 tested _ atTested dividend' _ unshifted one
    omega
  · rw [if_neg fits] at atTested
    apply leads_grow holds pos (by decide : 32 ≤ 0 + 32) atTested dividend'
      unshifted
    intro k last cpu' atLast dividend'' shifted bound kept
    exact later k last cpu' atLast dividend'' bound shifted (one.trans kept)

/-- `__udivsi3`. -/
theorem leads_udivsi3 (here : linked.At before 2 cpu)
    (dividend : cpu.gpr a0 = x) (divisor : cpu.gpr a1 = y)
    (even : EvenAddr (cpu.gpr ra))
    (later : ∀ next cpu', linked.JumpedTo next (cpu.gpr ra) cpu' →
      Divided x y cpu cpu' → linked.Leads next post) :
    linked.Leads before post := by
  apply leads_openBlock holds here
  rw [dividend, divisor]
  have opens : KeptBut argRegs cpu
      (((cpu.setR a2 y).setR a1 x).setR a0 (-1)) :=
    (((KeptBut.refl cpu).setR (by decide) _).setR (by decide) _).setR
      (by decide) _
  intro next atNext
  apply leads_branch atNext (by rw [holds.lines]; rfl)
    (holds.found 19 (by decide))
  intro tested atTested
  simp +decide only [BranchOp.taken, gpr_setR, ite_false, ite_true,
    gpr_x0, beq_iff_eq] at atTested
  by_cases zero : y = 0
  · rw [if_pos zero] at atTested
    apply leads_ret holds atTested opens even
    intro last jumped
    apply later last _ jumped
    constructor
    · simp +decide [gpr_setR, zero]
    · simp +decide [gpr_setR, zero]
    · exact opens
  rw [if_neg zero] at atTested
  have pos : 0 < y.toNat := by
    rw [Nat.pos_iff_ne_zero]
    exact fun none => zero (BitVec.eq_of_toNat_eq none)
  apply leads_grown (x := x) holds pos atTested
  · simp +decide [gpr_setR]
  · simp +decide [gpr_setR]
  intro k grown cpu' atGrown dividend' bound shifted kept
  apply leads_divide holds atGrown dividend' bound shifted
  intro divided cpu'' atDivided settled kept'
  have keeps := (opens.trans kept).trans kept'
  apply leads_ret holds atDivided keeps even
  intro last jumped
  apply later last cpu'' jumped
  obtain ⟨quotient, rest⟩ := settled.done
  exact ⟨by rw [quotient, if_neg zero], rest, keeps⟩

end Code

end Ysyx.Libgcc
