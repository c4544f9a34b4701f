import Ysyx.Nemu.Inst

/-!
# The M extension

The eight multiplications and divisions of the INSTPAT table against what the
instruction set manual says that they write.  The host does the divisions, and
the host's `/` and `%` have no result for a zero divisor and for a quotient
that does not fit.
-/

namespace Ysyx.Nemu

/-! ## The results of the manual -/

/-- The only operands whose signed quotient does not fit. -/
def QuotientOverflows (a b : Word) : Prop :=
  a = BitVec.intMin 32 ∧ b = -1

instance (a b : Word) : Decidable (QuotientOverflows a b) :=
  inferInstanceAs (Decidable (_ ∧ _))

namespace InstName

/-- What an instruction of the M extension writes to `rd`, in integers. -/
def architectural (name : InstName) (a b : Word) : Word :=
  match name with
  | .mul => BitVec.ofInt 32 (a.toInt * b.toInt)
  | .mulh => BitVec.ofInt 32 (a.toInt * b.toInt / 2 ^ 32)
  | .mulhsu => BitVec.ofInt 32 (a.toInt * b.toNat / 2 ^ 32)
  | .mulhu => BitVec.ofInt 32 (a.toNat * b.toNat / 2 ^ 32)
  | .div =>
      if b = 0 then -1
      else if QuotientOverflows a b then BitVec.intMin 32
      else BitVec.ofInt 32 (a.toInt.tdiv b.toInt)
  | .divu => if b = 0 then -1 else BitVec.ofNat 32 (a.toNat / b.toNat)
  | .rem =>
      if b = 0 then a
      else if QuotientOverflows a b then 0
      else BitVec.ofInt 32 (a.toInt.tmod b.toInt)
  | .remu => if b = 0 then a else BitVec.ofNat 32 (a.toNat % b.toNat)
  | _ => 0

/-- The operands that reach a host division without result: `rem` and `remu`
do not look at the divisor, and no instruction looks at the quotient. -/
def HostTraps (name : InstName) (a b : Word) : Prop :=
  match name with
  | .div => QuotientOverflows a b
  | .rem => b = 0 ∨ QuotientOverflows a b
  | .remu => b = 0
  | _ => False

instance (name : InstName) (a b : Word) : Decidable (name.HostTraps a b) := by
  cases name <;> unfold HostTraps <;> infer_instance

end InstName

/-! ## Products -/

theorem mul_eq_ofInt (a b : Word) :
    a * b = BitVec.ofInt 32 (a.toInt * b.toInt) := by
  apply BitVec.eq_of_toInt_eq
  rw [BitVec.toInt_mul, BitVec.toInt_ofInt]

/-- The upper half of a product that may have wrapped around in 64 bits. -/
theorem highHalf_ofInt (x y : Int) :
    highHalf (BitVec.ofInt 64 x) (BitVec.ofInt 64 y) =
      BitVec.ofInt 32 (x * y / 2 ^ 32) := by
  apply BitVec.eq_of_toNat_eq
  rw [highHalf, ← BitVec.ofInt_mul]
  generalize x * y = product
  simp only [BitVec.toNat_setWidth, BitVec.toNat_ushiftRight,
    BitVec.toNat_ofInt, Nat.shiftRight_eq_div_pow]
  omega

theorem zeroExtend_eq_ofInt (a : Word) :
    a.zeroExtend 64 = BitVec.ofInt 64 a.toNat := by
  rw [BitVec.ofInt_natCast, BitVec.ofNat_toNat]

/-! ## Quotients and remainders -/

theorem sdiv_eq_ofInt (a b : Word) :
    a.sdiv b = BitVec.ofInt 32 (a.toInt.tdiv b.toInt) := by
  apply BitVec.eq_of_toInt_eq
  rw [BitVec.toInt_sdiv, BitVec.toInt_ofInt]

theorem srem_eq_ofInt (a b : Word) :
    a.srem b = BitVec.ofInt 32 (a.toInt.tmod b.toInt) := by
  rw [← BitVec.toInt_srem, BitVec.ofInt_toInt]

theorem udiv_eq_ofNat (a b : Word) :
    a.udiv b = BitVec.ofNat 32 (a.toNat / b.toNat) := by
  apply BitVec.eq_of_toNat_eq
  rw [BitVec.toNat_ofNat, Nat.mod_eq_of_lt]
  · rfl
  · exact lt_of_le_of_lt (Nat.div_le_self _ _) a.isLt

theorem umod_eq_ofNat (a b : Word) :
    a.umod b = BitVec.ofNat 32 (a.toNat % b.toNat) := by
  apply BitVec.eq_of_toNat_eq
  rw [BitVec.toNat_ofNat, Nat.mod_eq_of_lt]
  · rfl
  · exact lt_of_le_of_lt (Nat.mod_le _ _) a.isLt

/-! ## The rows of the table -/

/-- The end of an M instruction as the manual has it, except that the host
stops at a division without result. -/
def mExtBody (name : InstName) : Body :=
  fun pc d cpu _ =>
    if name.HostTraps d.src1 d.src2 then .undefined
    else .done (cpu.setR d.rd (name.architectural d.src1 d.src2)) (pc + 4) none

theorem rdBody_eq (name : InstName) {value : Word → Word → Word}
    (total : ∀ a b, ¬name.HostTraps a b)
    (computes : ∀ a b, value a b = name.architectural a b) :
    rdBody (fun _ d => value d.src1 d.src2) = mExtBody name := by
  funext pc d cpu pmem
  rw [mExtBody, if_neg (total _ _), ← computes]
  rfl

theorem partialBody_eq {name : InstName} {value : Word → Word → Option Word}
    (computes : ∀ a b, value a b =
      if name.HostTraps a b then none else some (name.architectural a b)) :
    partialBody value = mExtBody name := by
  funext pc d cpu pmem
  rw [partialBody, mExtBody, computes]
  by_cases traps : name.HostTraps d.src1 d.src2
  · rw [if_pos traps, if_pos traps]
  · rw [if_neg traps, if_neg traps]

theorem rem_eq : partialBody (hostSigned BitVec.srem) = mExtBody .rem := by
  apply partialBody_eq
  intro a b
  change (if b = 0 ∨ QuotientOverflows a b then none else some (a.srem b)) =
    if b = 0 ∨ QuotientOverflows a b then none
    else some (if b = 0 then a else if QuotientOverflows a b then 0
      else BitVec.ofInt 32 (a.toInt.tmod b.toInt))
  by_cases traps : b = 0 ∨ QuotientOverflows a b
  · rw [if_pos traps, if_pos traps]
  · obtain ⟨divisor, quotient⟩ := not_or.mp traps
    rw [if_neg traps, if_neg traps, if_neg divisor, if_neg quotient,
      srem_eq_ofInt]

theorem remu_eq : partialBody (hostUnsigned BitVec.umod) = mExtBody .remu := by
  apply partialBody_eq
  intro a b
  change (if b = 0 then none else some (a.umod b)) =
    if b = 0 then none
    else some (if b = 0 then a else BitVec.ofNat 32 (a.toNat % b.toNat))
  by_cases zero : b = 0
  · rw [if_pos zero, if_pos zero]
  · rw [if_neg zero, if_neg zero, if_neg zero, umod_eq_ofNat]

theorem div_eq :
    partialBody (fun a b =>
        if b = 0 then some (-1) else hostSigned BitVec.sdiv a b) =
      mExtBody .div := by
  apply partialBody_eq
  intro a b
  change (if b = 0 then some (-1)
      else if b = 0 ∨ QuotientOverflows a b then none
      else some (a.sdiv b)) =
    if QuotientOverflows a b then none
    else some (if b = 0 then -1
      else if QuotientOverflows a b then BitVec.intMin 32
      else BitVec.ofInt 32 (a.toInt.tdiv b.toInt))
  by_cases zero : b = 0
  · have fits : ¬QuotientOverflows a b := by
      rw [zero]
      rintro ⟨-, minusOne⟩
      exact absurd minusOne (by decide)
    rw [if_pos zero, if_neg fits, if_pos zero]
  · by_cases overflows : QuotientOverflows a b
    · rw [if_neg zero, if_pos (.inr overflows), if_pos overflows]
    · rw [if_neg zero, if_neg (not_or.mpr ⟨zero, overflows⟩),
        if_neg overflows, if_neg zero, if_neg overflows, sdiv_eq_ofInt]

theorem divu_eq :
    partialBody (fun a b =>
        if b = 0 then some (-1) else hostUnsigned BitVec.udiv a b) =
      mExtBody .divu := by
  apply partialBody_eq
  intro a b
  change (if b = 0 then some (-1) else if b = 0 then none
      else some (a.udiv b)) =
    if False then none
    else some (if b = 0 then -1 else BitVec.ofNat 32 (a.toNat / b.toNat))
  by_cases zero : b = 0
  · rw [if_pos zero, if_neg not_false, if_pos zero]
  · rw [if_neg zero, if_neg zero, if_neg not_false, if_neg zero,
      udiv_eq_ofNat]

theorem mul_eq :
    rdBody (fun _ d => d.src1 * d.src2) = mExtBody .mul :=
  rdBody_eq .mul (fun _ _ => not_false) mul_eq_ofInt

theorem mulh_eq :
    rdBody (fun _ d =>
        highHalf (d.src1.signExtend 64) (d.src2.signExtend 64)) =
      mExtBody .mulh := by
  have computes (a b : Word) :
      highHalf (a.signExtend 64) (b.signExtend 64) =
        InstName.mulh.architectural a b :=
    highHalf_ofInt _ _
  exact rdBody_eq .mulh (fun _ _ => not_false) computes

theorem mulhsu_eq :
    rdBody (fun _ d =>
        highHalf (d.src1.signExtend 64) (d.src2.zeroExtend 64)) =
      mExtBody .mulhsu := by
  have computes (a b : Word) :
      highHalf (a.signExtend 64) (b.zeroExtend 64) =
        InstName.mulhsu.architectural a b := by
    rw [zeroExtend_eq_ofInt]
    exact highHalf_ofInt _ _
  exact rdBody_eq .mulhsu (fun _ _ => not_false) computes

theorem mulhu_eq :
    rdBody (fun _ d =>
        highHalf (d.src1.zeroExtend 64) (d.src2.zeroExtend 64)) =
      mExtBody .mulhu := by
  have computes (a b : Word) :
      highHalf (a.zeroExtend 64) (b.zeroExtend 64) =
        InstName.mulhu.architectural a b := by
    rw [zeroExtend_eq_ofInt, zeroExtend_eq_ofInt]
    exact highHalf_ofInt _ _
  exact rdBody_eq .mulhu (fun _ _ => not_false) computes

/-- Every M instruction reads two registers. -/
theorem mExt_type :
    ∀ row ∈ instpats, row.name.isMExt → row.type = .typeR := by
  decide +kernel

theorem mExt_ne_inv {name : InstName} (mExt : name.isMExt) : name ≠ .inv := by
  rintro rfl
  exact absurd mExt (by decide)

theorem mExt_body :
    ∀ row ∈ instpats, row.name.isMExt → row.body = mExtBody row.name := by
  simp only [instpats, List.forall_mem_cons]
  repeat' apply And.intro
  all_goals first | exact fun mExt => absurd mExt (by decide) | skip
  · exact fun _ => rem_eq
  · exact fun _ => remu_eq
  · exact fun _ => mul_eq
  · exact fun _ => div_eq
  · exact fun _ => divu_eq
  · exact fun _ => mulh_eq
  · exact fun _ => mulhsu_eq
  · exact fun _ => mulhu_eq
  · exact fun row member => absurd member List.not_mem_nil

/-! ## All operands -/

section Operands

variable {row : Instpat} {inst : Word}

/-- An M instruction either stops the host or does what the manual says. -/
theorem decodeExec_mExt (inTable : row ∈ instpats) (mExt : row.name.isMExt)
    (isMatch : row.pattern.Matches inst) (pc : Word) (cpu : CpuState)
    (pmem : Pmem) :
    decodeExec pc inst cpu pmem =
      mExtBody row.name pc (decodeOperand inst cpu .typeR) cpu pmem := by
  rw [decodeExec, selected_of_matches inTable (mExt_ne_inv mExt) isMatch]
  change row.body pc (decodeOperand inst cpu row.type) cpu pmem = _
  rw [mExt_type row inTable mExt, mExt_body row inTable mExt]

/-- NEMU gives the result of the manual, and does no division that has no
result on the host, for exactly the operands that do not trap. -/
theorem mExt_right_iff (inTable : row ∈ instpats) (mExt : row.name.isMExt)
    (isMatch : row.pattern.Matches inst) (pc : Word) (cpu : CpuState)
    (pmem : Pmem) :
    let d := decodeOperand inst cpu .typeR
    (decodeExec pc inst cpu pmem =
        .done (cpu.setR d.rd (row.name.architectural d.src1 d.src2))
          (pc + 4) none ∧
      decodeExec pc inst cpu pmem ≠ .undefined) ↔
    ¬row.name.HostTraps d.src1 d.src2 := by
  intro d
  rw [decodeExec_mExt inTable mExt isMatch]
  by_cases traps : row.name.HostTraps d.src1 d.src2
  · simp [mExtBody, d, traps]
  · simp [mExtBody, d, traps]

/-- `rem x1, x2, x3` of 7 and -2. -/
theorem mExt_right_iff_rem :
    let row : Instpat := ⟨.funct7 0b0000001 0b110 0b01100, .rem, .typeR,
      partialBody (hostSigned BitVec.srem)⟩
    let cpu := (CpuState.setR ⟨0, 0, rfl⟩ 2 7).setR 3 (-2)
    let d := decodeOperand 0x023160b3 cpu .typeR
    (decodeExec 0x80000000 0x023160b3 cpu (fun _ => 0) =
        .done (cpu.setR d.rd (row.name.architectural d.src1 d.src2))
          (0x80000000 + 4) none ∧
      decodeExec 0x80000000 0x023160b3 cpu (fun _ => 0) ≠ .undefined) ↔
    ¬row.name.HostTraps d.src1 d.src2 :=
  mExt_right_iff (by simp [instpats]) (by decide) (by decide) _ _ _

/-- `rem` by 0 stops the host. -/
theorem mExt_right_fails :
    ¬∀ row ∈ instpats, row.name.isMExt → ∀ inst, row.pattern.Matches inst →
      ∀ pc cpu pmem,
        let d := decodeOperand inst cpu .typeR
        decodeExec pc inst cpu pmem =
            .done (cpu.setR d.rd (row.name.architectural d.src1 d.src2))
              (pc + 4) none ∧
          decodeExec pc inst cpu pmem ≠ .undefined := by
  intro right
  obtain ⟨-, defined⟩ := right
    ⟨.funct7 0b0000001 0b110 0b01100, .rem, .typeR,
      partialBody (hostSigned BitVec.srem)⟩
    (by simp [instpats]) (by decide) 0x023160b3 (by decide)
    0x80000000 ⟨0, 0, rfl⟩ fun _ => 0
  exact defined rfl

end Operands

end Ysyx.Nemu
