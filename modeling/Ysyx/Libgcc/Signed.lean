import Ysyx.Libgcc.Division

/-!
# Signed division and remainders

The other functions of `div.S` call `__udivsi3` with the signs taken off, and
give the same results as the M extension.
-/

namespace Ysyx.Libgcc

open Nemu Rvmini

/-! ## The results of the M extension -/

section Results

variable (x y : Word)

theorem divu_architectural :
    InstName.divu.architectural x y = if y = 0 then -1 else x / y := by
  change (if y = 0 then -1 else BitVec.ofNat 32 (x.toNat / y.toNat)) = _
  rw [← udiv_eq_ofNat]
  rfl

theorem remu_architectural : InstName.remu.architectural x y = x % y := by
  change (if y = 0 then x else BitVec.ofNat 32 (x.toNat % y.toNat)) = _
  rw [← umod_eq_ofNat]
  by_cases zero : y = 0
  · rw [if_pos zero, zero]
    exact BitVec.umod_zero.symm
  · rw [if_neg zero]
    rfl

theorem div_architectural :
    InstName.div.architectural x y = if y = 0 then -1 else x.sdiv y := by
  change (if y = 0 then -1
    else if QuotientOverflows x y then BitVec.intMin 32
    else BitVec.ofInt 32 (x.toInt.tdiv y.toInt)) = _
  rw [← sdiv_eq_ofInt]
  by_cases overflows : QuotientOverflows x y
  · obtain ⟨rfl, rfl⟩ := overflows
    decide
  · rw [if_neg overflows]

theorem rem_architectural : InstName.rem.architectural x y = x.srem y := by
  change (if y = 0 then x
    else if QuotientOverflows x y then 0
    else BitVec.ofInt 32 (x.toInt.tmod y.toInt)) = _
  rw [← srem_eq_ofInt]
  by_cases zero : y = 0
  · rw [if_pos zero, zero]
    exact BitVec.srem_zero.symm
  rw [if_neg zero]
  by_cases overflows : QuotientOverflows x y
  · obtain ⟨rfl, rfl⟩ := overflows
    decide
  · rw [if_neg overflows]

variable {x y}

theorem zero_slt_eq : (0#32).slt y = (!y.msb && decide (y ≠ 0)) := by
  rw [BitVec.slt_eq_sle_and_ne, BitVec.zero_sle_eq_not_msb]
  by_cases zero : y = 0
  · rw [zero]
    rfl
  · have zeroNe : (0#32 != y) = true := bne_iff_ne.mpr (Ne.symm zero)
    rw [decide_eq_true zero, zeroNe]

/-- The divisor is not negative, and neither is the dividend. -/
theorem div_of_nonneg (dividend : x.msb = false) (divisor : y.msb = false) :
    InstName.div.architectural x y = InstName.divu.architectural x y := by
  rw [div_architectural, divu_architectural, BitVec.sdiv_eq, dividend, divisor]
  rfl

theorem div_of_neg_divisor (dividend : x.msb = false) (divisor : y.msb = true) :
    InstName.div.architectural x y = -InstName.divu.architectural x (-y) := by
  have notZero : y ≠ 0 := by
    rintro rfl
    simp at divisor
  have negNotZero : -y ≠ 0 := by simpa using notZero
  rw [div_architectural, divu_architectural, BitVec.sdiv_eq, dividend, divisor,
    if_neg notZero, if_neg negNotZero]
  rfl

/-- The dividend is negative, the divisor is positive. -/
theorem div_of_neg_dividend (dividend : x.msb = true)
    (divisor : (0#32).slt y = true) :
    InstName.div.architectural x y = -InstName.divu.architectural (-x) y := by
  rw [zero_slt_eq, Bool.and_eq_true, decide_eq_true_eq, Bool.not_eq_true']
    at divisor
  rw [div_architectural, divu_architectural, BitVec.sdiv_eq, dividend,
    divisor.1, if_neg divisor.2, if_neg divisor.2]
  rfl

/-- The dividend is negative, the divisor is negative or zero. -/
theorem div_of_neg (dividend : x.msb = true)
    (divisor : (0#32).slt y = false) :
    InstName.div.architectural x y =
      InstName.divu.architectural (-x) (-y) := by
  rw [div_architectural, divu_architectural, BitVec.sdiv_eq, dividend]
  by_cases zero : y = 0
  · rw [zero]
    rfl
  · have negative : y.msb = true := by
      rw [zero_slt_eq, decide_eq_true zero, Bool.and_true,
        Bool.not_eq_false'] at divisor
      exact divisor
    have negNotZero : -y ≠ 0 := by simpa using zero
    rw [negative, if_neg zero, if_neg negNotZero]
    rfl

theorem rem_of_nonneg (dividend : x.msb = false) :
    InstName.rem.architectural x y = InstName.remu.architectural x y.abs := by
  rw [rem_architectural, remu_architectural, BitVec.srem_eq, dividend,
    BitVec.abs_eq]
  cases y.msb <;> rfl

theorem rem_of_neg (dividend : x.msb = true) :
    InstName.rem.architectural x y =
      -InstName.remu.architectural (-x) y.abs := by
  rw [rem_architectural, remu_architectural, BitVec.srem_eq, dividend,
    BitVec.abs_eq]
  cases y.msb <;> rfl

end Results

/-! ## The code -/

/-- The functions of `div.S`. -/
inductive DivRoutine where
  | divsi3
  | udivsi3
  | umodsi3
  | modsi3
  deriving DecidableEq

namespace DivRoutine

/-- The line of the label. -/
def line : DivRoutine → Nat
  | divsi3 => 0
  | udivsi3 => 2
  | umodsi3 => 20
  | modsi3 => 33

/-- The instruction of the M extension with this result. -/
def name : DivRoutine → InstName
  | divsi3 => .div
  | udivsi3 => .divu
  | umodsi3 => .remu
  | modsi3 => .rem

end DivRoutine

section Code

variable {linked : LinkedFile} (holds : HasText linked divS) {before : Checked}
  {cpu start : CpuState} {post : Checked → Prop} {name : InstName}
  {line : Nat}
include holds

/-- `call __udivsi3`. -/
theorem leads_call (here : linked.At before line cpu)
    (isLine : linked.text[line]? = some (.call (linked.addressOf 2)))
    (inText : line + 1 < divS.length)
    (later : ∀ next cpu', linked.At next (line + 1) cpu' →
      cpu'.gpr a0 = InstName.divu.architectural (cpu.gpr a0) (cpu.gpr a1) →
      cpu'.gpr a1 = InstName.remu.architectural (cpu.gpr a0) (cpu.gpr a1) →
      cpu'.gpr t0 = cpu.gpr t0 → KeptBut usedRegs cpu cpu' →
        linked.Leads next post) : linked.Leads before post := by
  apply leads_jal here isLine (holds.found 2 (by decide)) (by decide)
  intro called atCalled
  have calls : KeptBut usedRegs cpu
      (cpu.setR ra (linked.addressOf (line + 1))) :=
    (KeptBut.refl cpu).setR (by decide) _
  have back : (cpu.setR ra (linked.addressOf (line + 1))).gpr ra =
      linked.addressOf (line + 1) := by
    simp +decide [gpr_setR]
  apply leads_udivsi3 holds atCalled rfl rfl
    (by rw [back]; exact holds.even (line + 1))
  intro next cpu' jumped divided
  rw [back] at jumped
  apply later next cpu' (jumped.at (holds.found _ inText))
  · rw [divided.quotient, divu_architectural]
    simp +decide [gpr_setR]
  · rw [divided.remainder, remu_architectural]
    simp +decide [gpr_setR]
  · rw [divided.kept.gpr t0 (by decide)]
    simp +decide [gpr_setR]
  · exact calls.trans (divided.kept.mono (by decide))

/-- `call __udivsi3`, one line for the result, and `jr t0`. -/
theorem leads_callAndBack {inst : Inst Word} (here : linked.At before line cpu)
    (calls : linked.text[line]? = some (.call (linked.addressOf 2)))
    (ends : linked.text[line + 1]? = some inst)
    (goesBack : linked.text[line + 2]? = some (.jr t0))
    (inText : line + 1 < divS.length) (saved : cpu.gpr t0 = start.gpr ra)
    (even : EvenAddr (start.gpr ra)) (kept : KeptBut usedRegs start cpu)
    (assigns : ∀ cpu',
      cpu'.gpr a0 = InstName.divu.architectural (cpu.gpr a0) (cpu.gpr a1) →
      cpu'.gpr a1 = InstName.remu.architectural (cpu.gpr a0) (cpu.gpr a1) →
        inst.assigns cpu' = some (a0,
          name.architectural (start.gpr a0) (start.gpr a1))) :
    linked.Leads before (Returned linked name start) := by
  apply leads_call holds here calls inText
  intro divided cpu' atDivided quotient remainder savedStill kept'
  apply leads_assign atDivided ends (assigns cpu' quotient remainder)
    (by decide)
  intro last atLast
  apply leads_back atLast goesBack _ even
  · simp +decide [gpr_setR]
  · exact (kept.trans kept').setR (by decide) _
  · simpa +decide [gpr_setR, savedStill] using saved

/-- `__udivsi3` in place of the function that was called. -/
theorem leads_tailDivision (here : linked.At before 2 cpu)
    (back : cpu.gpr ra = start.gpr ra) (even : EvenAddr (start.gpr ra))
    (kept : KeptBut usedRegs start cpu)
    (same : name.architectural (start.gpr a0) (start.gpr a1) =
      InstName.divu.architectural (cpu.gpr a0) (cpu.gpr a1)) :
    linked.Leads before (Returned linked name start) := by
  rw [← back] at even
  apply leads_udivsi3 holds here rfl rfl even
  intro next cpu' jumped divided
  rw [back] at jumped
  apply leads_refl
  apply returned_of_jumpedTo jumped _
    (kept.trans (divided.kept.mono (by decide)))
  rw [divided.quotient, same, divu_architectural]

theorem umodsi3_returns (here : linked.At before 20 cpu)
    (even : EvenAddr (cpu.gpr ra)) :
    linked.Leads before (Returned linked .remu cpu) := by
  have saves : linked.text[20]? = some (.mv t0 ra) := by
    rw [holds.lines]
    rfl
  apply leads_assign here saves (assigns_mv _ _ _) (by decide)
  intro saved atSaved
  apply leads_callAndBack holds atSaved (by rw [holds.lines]; rfl)
    (by rw [holds.lines]; rfl) (by rw [holds.lines]; rfl) (by decide) _ even
    ((KeptBut.refl cpu).setR (by decide) _)
  · intro cpu' _ remainder
    change (Inst.mv a0 a1).assigns cpu' = _
    rw [assigns_mv, remainder]
    simp +decide [gpr_setR]
  · simp +decide [gpr_setR]

/-! ### `__divsi3` -/

/-- `.L12`: the quotient is to be negated. -/
theorem leads_negatedQuotient (here : linked.At before 29 cpu)
    (back : cpu.gpr ra = start.gpr ra) (even : EvenAddr (start.gpr ra))
    (kept : KeptBut usedRegs start cpu)
    (same : InstName.div.architectural (start.gpr a0) (start.gpr a1) =
      -InstName.divu.architectural (cpu.gpr a0) (cpu.gpr a1)) :
    linked.Leads before (Returned linked .div start) := by
  have saves : linked.text[29]? = some (.mv t0 ra) := by
    rw [holds.lines]
    rfl
  apply leads_assign here saves (assigns_mv _ _ _) (by decide)
  intro saved atSaved
  apply leads_callAndBack holds atSaved (by rw [holds.lines]; rfl)
    (by rw [holds.lines]; rfl) (by rw [holds.lines]; rfl) (by decide) _ even
    (kept.setR (by decide) _)
  · intro cpu' quotient _
    change (Inst.neg a0 a0).assigns cpu' = _
    rw [assigns_neg, quotient, same]
    simp +decide [gpr_setR]
  · simpa +decide [gpr_setR] using back

/-- `.L10`: the dividend is negative. -/
theorem leads_negativeDividend (here : linked.At before 24 cpu)
    (negative : (cpu.gpr a0).msb = true) (even : EvenAddr (cpu.gpr ra)) :
    linked.Leads before (Returned linked .div cpu) := by
  have negates : linked.text[24]? = some (.neg a0 a0) := by
    rw [holds.lines]
    rfl
  apply leads_assign here negates (assigns_neg _ _ _) (by decide)
  intro negated atNegated
  have kept : KeptBut usedRegs cpu (cpu.setR a0 (-cpu.gpr a0)) :=
    (KeptBut.refl cpu).setR (by decide) _
  apply leads_branch atNegated (by rw [holds.lines]; rfl)
    (holds.found 29 (by decide))
  intro tested atTested
  simp +decide only [BranchOp.taken, gpr_setR, ite_false, ite_true,
    BitVec.ofNat_eq_ofNat] at atTested
  by_cases positive : (0#32).slt (cpu.gpr a1) = true
  · rw [if_pos positive] at atTested
    apply leads_negatedQuotient holds atTested _ even kept
    · rw [div_of_neg_dividend negative positive]
      simp +decide [gpr_setR]
    · simp +decide [gpr_setR]
  rw [if_neg positive] at atTested
  have negates' : linked.text[26]? = some (.neg a1 a1) := by
    rw [holds.lines]
    rfl
  apply leads_assign atTested negates' (assigns_neg _ _ _) (by decide)
  intro both atBoth
  apply leads_j atBoth (by rw [holds.lines]; rfl) (holds.found 2 (by decide))
  intro jumped atJumped
  apply leads_tailDivision holds atJumped _ even (kept.setR (by decide) _)
  · rw [div_of_neg negative (by simpa using positive)]
    simp +decide [gpr_setR]
  · simp +decide [gpr_setR]

theorem divsi3_returns (here : linked.At before 0 cpu)
    (even : EvenAddr (cpu.gpr ra)) :
    linked.Leads before (Returned linked .div cpu) := by
  apply leads_branch here (by rw [holds.lines]; rfl)
    (holds.found 24 (by decide))
  intro tested atTested
  simp only [BranchOp.taken, gpr_x0, BitVec.slt_zero_eq_msb] at atTested
  by_cases negative : (cpu.gpr a0).msb = true
  · rw [if_pos negative] at atTested
    exact leads_negativeDividend holds atTested negative even
  rw [if_neg negative] at atTested
  rw [Bool.not_eq_true] at negative
  apply leads_branch atTested (by rw [holds.lines]; rfl)
    (holds.found 28 (by decide))
  intro next atNext
  simp only [BranchOp.taken, gpr_x0, BitVec.slt_zero_eq_msb] at atNext
  by_cases divisor : (cpu.gpr a1).msb = true
  · rw [if_pos divisor] at atNext
    have negates : linked.text[28]? = some (.neg a1 a1) := by
      rw [holds.lines]
      rfl
    apply leads_assign atNext negates (assigns_neg _ _ _) (by decide)
    intro negated atNegated
    apply leads_negatedQuotient holds atNegated _ even
      ((KeptBut.refl cpu).setR (by decide) _)
    · rw [div_of_neg_divisor negative divisor]
      simp +decide [gpr_setR]
    · simp +decide [gpr_setR]
  · rw [if_neg divisor] at atNext
    rw [Bool.not_eq_true] at divisor
    exact leads_tailDivision holds atNext rfl even (KeptBut.refl cpu)
      (div_of_nonneg negative divisor)

/-! ### `__modsi3` -/

/-- `.L30`: the dividend is not negative. -/
theorem leads_remainder (here : linked.At before 36 cpu)
    (saved : cpu.gpr t0 = start.gpr ra) (even : EvenAddr (start.gpr ra))
    (kept : KeptBut usedRegs start cpu)
    (same : InstName.rem.architectural (start.gpr a0) (start.gpr a1) =
      InstName.remu.architectural (cpu.gpr a0) (cpu.gpr a1)) :
    linked.Leads before (Returned linked .rem start) := by
  apply leads_callAndBack holds here (by rw [holds.lines]; rfl)
    (by rw [holds.lines]; rfl) (by rw [holds.lines]; rfl) (by decide) saved
    even kept
  intro cpu' _ remainder
  change (Inst.mv a0 a1).assigns cpu' = _
  rw [assigns_mv, remainder, same]

/-- `.L32`: the dividend is negative. -/
theorem leads_negatedRemainder (here : linked.At before 41 cpu)
    (saved : cpu.gpr t0 = start.gpr ra) (even : EvenAddr (start.gpr ra))
    (kept : KeptBut usedRegs start cpu)
    (same : InstName.rem.architectural (start.gpr a0) (start.gpr a1) =
      -InstName.remu.architectural (-cpu.gpr a0) (cpu.gpr a1)) :
    linked.Leads before (Returned linked .rem start) := by
  have negates : linked.text[41]? = some (.neg a0 a0) := by
    rw [holds.lines]
    rfl
  apply leads_assign here negates (assigns_neg _ _ _) (by decide)
  intro negated atNegated
  apply leads_callAndBack holds atNegated (by rw [holds.lines]; rfl)
    (by rw [holds.lines]; rfl) (by rw [holds.lines]; rfl) (by decide) _ even
    (kept.setR (by decide) _)
  · intro cpu' _ remainder
    change (Inst.neg a0 a1).assigns cpu' = _
    rw [assigns_neg, remainder, same]
    simp +decide [gpr_setR]
  · simpa +decide [gpr_setR] using saved

/-- With `ra` saved and the sign of the divisor taken off. -/
theorem leads_signedRemainder {line : Nat}
    (here : linked.At before line cpu)
    (isLine : line = if (cpu.gpr a0).msb then 41 else 36)
    (saved : cpu.gpr t0 = start.gpr ra) (even : EvenAddr (start.gpr ra))
    (kept : KeptBut usedRegs start cpu) (dividend : cpu.gpr a0 = start.gpr a0)
    (divisor : cpu.gpr a1 = (start.gpr a1).abs) :
    linked.Leads before (Returned linked .rem start) := by
  by_cases negative : (start.gpr a0).msb = true
  · rw [isLine, dividend, if_pos negative] at here
    apply leads_negatedRemainder holds here saved even kept
    rw [rem_of_neg negative, dividend, divisor]
  · rw [isLine, dividend, if_neg negative] at here
    rw [Bool.not_eq_true] at negative
    apply leads_remainder holds here saved even kept
    rw [rem_of_nonneg negative, dividend, divisor]

theorem modsi3_returns (here : linked.At before 33 cpu)
    (even : EvenAddr (cpu.gpr ra)) :
    linked.Leads before (Returned linked .rem cpu) := by
  have saves : linked.text[33]? = some (.mv t0 ra) := by
    rw [holds.lines]
    rfl
  apply leads_assign here saves (assigns_mv _ _ _) (by decide)
  intro saved atSaved
  have kept : KeptBut usedRegs cpu (cpu.setR t0 (cpu.gpr ra)) :=
    (KeptBut.refl cpu).setR (by decide) _
  apply leads_branch atSaved (by rw [holds.lines]; rfl)
    (holds.found 39 (by decide))
  intro tested atTested
  simp +decide only [BranchOp.taken, gpr_setR, ite_false, ite_true,
    BitVec.ofNat_eq_ofNat, BitVec.slt_zero_eq_msb] at atTested
  by_cases divisor : (cpu.gpr a1).msb = true
  · rw [if_pos divisor] at atTested
    have negates : linked.text[39]? = some (.neg a1 a1) := by
      rw [holds.lines]
      rfl
    apply leads_assign atTested negates (assigns_neg _ _ _) (by decide)
    intro negated atNegated
    apply leads_branch atNegated (by rw [holds.lines]; rfl)
      (holds.found 36 (by decide))
    intro next atNext
    simp +decide only [BranchOp.taken, gpr_setR, ite_false, ite_true,
      BitVec.ofNat_eq_ofNat, BitVec.zero_sle_eq_not_msb] at atNext
    apply leads_signedRemainder holds atNext _ _ even
      (kept.setR (by decide) _)
    · simp +decide [gpr_setR]
    · simp +decide [gpr_setR, BitVec.abs_eq, divisor]
    · simp +decide only [gpr_setR, ite_false]
      cases (cpu.gpr a0).msb <;> rfl
    · simp +decide [gpr_setR]
  · rw [if_neg divisor] at atTested
    apply leads_branch atTested (by rw [holds.lines]; rfl)
      (holds.found 41 (by decide))
    intro next atNext
    simp +decide only [BranchOp.taken, gpr_setR, ite_false, ite_true,
      BitVec.ofNat_eq_ofNat, BitVec.slt_zero_eq_msb] at atNext
    apply leads_signedRemainder holds atNext _ _ even kept
    · simp +decide [gpr_setR]
    · simp +decide [gpr_setR, BitVec.abs_eq, divisor]
    · simp +decide [gpr_setR]
    · simp +decide [gpr_setR]

/-- Every function of `div.S` returns with the result of its instruction of
the M extension. -/
theorem leads_divRoutine (routine : DivRoutine)
    (here : linked.At before routine.line cpu) (even : EvenAddr (cpu.gpr ra)) :
    linked.Leads before (Returned linked routine.name cpu) := by
  cases routine with
  | divsi3 => exact divsi3_returns holds here even
  | udivsi3 =>
      exact leads_tailDivision holds here rfl even (KeptBut.refl cpu) rfl
  | umodsi3 => exact umodsi3_returns holds here even
  | modsi3 => exact modsi3_returns holds here even

end Code

end Ysyx.Libgcc
