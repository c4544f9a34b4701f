import Ysyx.Rtl.Decode

/-!
# Illegal instructions

The words of the instruction set of the core, and the words for which its
controller raises an illegal-instruction exception.
-/

namespace Ysyx.Rtl

/-- The major opcodes. -/
inductive Major where
  | lui | auipc | jal | jalr | branch | load | store | opImm | op
  | miscMem | system
  deriving DecidableEq, Repr

namespace Major

def opcode : Major → BitVec 7
  | lui => 0b0110111
  | auipc => 0b0010111
  | jal => 0b1101111
  | jalr => 0b1100111
  | branch => 0b1100011
  | load => 0b0000011
  | store => 0b0100011
  | opImm => 0b0010011
  | op => 0b0110011
  | miscMem => 0b0001111
  | system => 0b1110011

/-- The major opcode of a word, if it has one. -/
def ofInst (inst : Word) : Option Major :=
  [lui, auipc, jal, jalr, branch, load, store, opImm, op, miscMem,
    system].find? fun major => major.opcode = Id.opcode inst

theorem opcode_of_ofInst {inst : Word} {major : Major}
    (known : ofInst inst = some major) : Id.opcode inst = major.opcode := by
  have found := List.find?_some known
  exact (of_decide_eq_true found).symm

theorem opcode_ne_of_ofInst {inst : Word} (unknown : ofInst inst = none)
    (major : Major) : Id.opcode inst ≠ major.opcode := by
  intro same
  have notFound := List.find?_eq_none.mp unknown major (by
    cases major <;> simp)
  exact notFound (decide_eq_true same.symm)

/-- The words of RV32I, Zicsr, `fence` and `fence.i`, `ecall`, `ebreak` and
`mret` with this major opcode. -/
def isLegal (inst : Word) : Major → Bool
  | lui | auipc | jal => true
  | jalr => Id.func3 inst = 0b000
  | branch => Id.func3 inst ∉ [0b010, 0b011]
  | load => Id.func3 inst ∈ [0b000, 0b001, 0b010, 0b100, 0b101]
  | store => Id.func3 inst ∈ [0b000, 0b001, 0b010]
  | opImm =>
      if Id.func3 inst = 0b001 then Id.func7 inst = 0b0000000
      else if Id.func3 inst = 0b101 then
        Id.func7 inst ∈ [0b0000000, 0b0100000]
      else true
  | op =>
      Id.func7 inst = 0b0000000 ∨
        Id.func7 inst = 0b0100000 ∧ Id.func3 inst ∈ [0b000, 0b101]
  | miscMem => Id.func3 inst ∈ [0b000, 0b001]
  | system =>
      inst ∈ [0x00000073, 0x00100073, 0x30200073] ∨
        Id.func3 inst ∈ [0b001, 0b010, 0b011, 0b101, 0b110, 0b111]

end Major

/-- The instructions of the core. -/
def isLegal (inst : Word) : Bool :=
  match Major.ofInst inst with
  | some major => major.isLegal inst
  | none => false

namespace ControllerOut

/-- The illegal-instruction exception for this word. -/
def Flags (out : ControllerOut) (inst : Word) : Prop :=
  out.excValid = true ∧ out.excCause = 2 ∧ out.excTval = inst

/-- Nothing is written. -/
structure Quiet (out : ControllerOut) : Prop where
  writeReg : out.writeReg = false
  writeMem : out.writeMem = 0
  csrWe : out.csrWe = false

end ControllerOut

/-- The word is flagged exactly if it is not legal, and then writes nothing. -/
structure DetectedExactly (inst : Word) : Prop where
  flagged : (control inst).Flags inst ↔ isLegal inst = false
  quiet : (control inst).Flags inst → (control inst).Quiet

/-- The `case` statement of the controller takes its default branch for the
words without a major opcode. -/
theorem control_of_none {inst : Word} (unknown : Major.ofInst inst = none) :
    control inst = { excValid := true, excCause := 2, excTval := inst } := by
  have other := Major.opcode_ne_of_ofInst unknown
  exact (if_neg (other .miscMem)).trans <| (if_neg (other .lui)).trans <|
    (if_neg (other .auipc)).trans <| (if_neg (other .jal)).trans <|
    (if_neg (other .jalr)).trans <| (if_neg (other .branch)).trans <|
    (if_neg (other .load)).trans <| (if_neg (other .store)).trans <|
    (if_neg (other .opImm)).trans <| (if_neg (other .op)).trans <|
    if_neg (other .system)

theorem none_of_flags {inst : Word} (flagged : (control inst).Flags inst) :
    Major.ofInst inst = none := by
  obtain ⟨valid, cause, -⟩ := flagged
  by_contra known
  obtain ⟨major, isMajor⟩ := Option.ne_none_iff_exists'.mp known
  have opcode := Major.opcode_of_ofInst isMajor
  unfold control controller at valid cause
  rw [opcode] at valid cause
  cases major with
  | system =>
      by_cases ecall : inst = 0x00000073
      · rw [ecall] at cause
        contradiction
      · by_cases mret : inst = 0x30200073
        · rw [mret] at valid
          contradiction
        · change (ite (inst = 0x00000073) _ (ite (inst = 0x30200073) _ _) :
            ControllerOut).excValid = true at valid
          rw [if_neg ecall, if_neg mret] at valid
          exact Bool.false_ne_true valid
  | _ =>
      exact Bool.false_ne_true valid

theorem flags_iff (inst : Word) :
    (control inst).Flags inst ↔ Major.ofInst inst = none := by
  refine ⟨none_of_flags, ?_⟩
  intro unknown
  rw [control_of_none unknown]
  exact ⟨rfl, rfl, rfl⟩

theorem quiet_of_flags {inst : Word} (flagged : (control inst).Flags inst) :
    (control inst).Quiet := by
  rw [control_of_none (none_of_flags flagged)]
  exact ⟨rfl, rfl, rfl⟩

/-- Detection is exact for the legal words and for the words without a major
opcode, and for no others. -/
theorem detectedExactly_iff (inst : Word) :
    DetectedExactly inst ↔
      Major.ofInst inst = none ∨ isLegal inst = true := by
  constructor
  · intro exact
    cases known : Major.ofInst inst with
    | none =>
        exact Or.inl rfl
    | some major =>
        right
        by_contra notLegal
        rw [Bool.not_eq_true] at notLegal
        have flagged := (flags_iff inst).mp (exact.flagged.mpr notLegal)
        rw [known] at flagged
        contradiction
  · rintro (unknown | legal)
    · have notLegal : isLegal inst = false := by
        rw [isLegal, unknown]
      exact ⟨iff_of_true ((flags_iff inst).mpr unknown) notLegal,
        quiet_of_flags⟩
    · have known : Major.ofInst inst ≠ none := by
        intro unknown
        rw [isLegal, unknown] at legal
        contradiction
      refine ⟨iff_of_false ?_ (by simp [legal]), quiet_of_flags⟩
      intro flagged
      exact known ((flags_iff inst).mp flagged)

/-- `ld x1, 0(x0)` is an instruction of RV64 only.  It is not flagged, and
writes its address to `x1`. -/
theorem ld_notDetected :
    ¬ ∀ inst : Word, DetectedExactly inst := by
  intro claimed
  have flagged := (claimed 0x00003083).flagged.mpr (by decide)
  exact Bool.false_ne_true flagged.1

end Ysyx.Rtl
