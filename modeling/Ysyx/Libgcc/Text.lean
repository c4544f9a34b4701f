import Ysyx.Rvmini.Lines
import Ysyx.Nemu.MExtension

/-!
# `libgcc`

`div.S` and `muldi3.S` for RV32, line by line.
-/

namespace Ysyx.Libgcc

open Nemu Rvmini

abbrev t0 : Reg := 5#5
abbrev a0 : Reg := 10#5
abbrev a1 : Reg := 11#5
abbrev a2 : Reg := 12#5
abbrev a3 : Reg := 13#5

/-- The registers that the loops use. -/
abbrev argRegs : List Reg := [a0, a1, a2, a3]

/-- `li rd, imm`. -/
abbrev li {α : Type} (rd : Reg) (imm : BitVec 12) : Inst α :=
  .base (.addi rd x0 imm)

/-- `div.S`. -/
def divS : List (Inst Symbol) :=
  [ -- __divsi3
    .bltz a0 (.label 24),
    .bltz a1 (.label 28),
    -- __udivsi3
    .mv a2 a1,
    .mv a1 a0,
    li a0 (-1),
    .beqz a2 (.label 19),
    li a3 1,
    .branch .bgeu a2 a1 (.label 12),
    -- .L1
    .blez a2 (.label 12),
    .shift .slli a2 a2 1,
    .shift .slli a3 a3 1,
    .bgtu a1 a2 (.label 8),
    -- .L2
    li a0 0,
    -- .L3
    .branch .bltu a1 a2 (.label 16),
    .op .sub a1 a1 a2,
    .op .or a0 a0 a3,
    -- .L4
    .shift .srli a3 a3 1,
    .shift .srli a2 a2 1,
    .bnez a3 (.label 13),
    -- .L5
    .ret,
    -- __umodsi3
    .mv t0 ra,
    .call (.label 2),
    .mv a0 a1,
    .jr t0,
    -- .L10
    .neg a0 a0,
    .bgtz a1 (.label 29),
    .neg a1 a1,
    .j (.label 2),
    -- .L11
    .neg a1 a1,
    -- .L12
    .mv t0 ra,
    .call (.label 2),
    .neg a0 a0,
    .jr t0,
    -- __modsi3
    .mv t0 ra,
    .bltz a1 (.label 39),
    .bltz a0 (.label 41),
    -- .L30
    .call (.label 2),
    .mv a0 a1,
    .jr t0,
    -- .L31
    .neg a1 a1,
    .bgez a0 (.label 36),
    -- .L32
    .neg a0 a0,
    .call (.label 2),
    .neg a0 a1,
    .jr t0]

/-- `muldi3.S`. -/
def muldi3S : List (Inst Symbol) :=
  [ -- __mulsi3
    .mv a2 a0,
    li a0 0,
    -- .L1
    .opImm .andi a3 a1 1,
    .beqz a3 (.label 5),
    .base (.add a0 a0 a2),
    -- .L2
    .shift .srli a1 a1 1,
    .shift .slli a2 a2 1,
    .bnez a1 (.label 2),
    .ret]

@[simp] theorem assigns_mv (cpu : CpuState) (rd rs : Reg) :
    (Inst.mv rd rs).assigns cpu = some (rd, cpu.gpr rs) := by
  simp [Inst.mv, Rvmini.mv, Inst.assigns]

@[simp] theorem assigns_neg (cpu : CpuState) (rd rs : Reg) :
    (Inst.neg rd rs).assigns cpu = some (rd, -cpu.gpr rs) := by
  simp [Inst.neg, Inst.assigns, Op.result]

@[simp] theorem assigns_li (cpu : CpuState) (rd : Reg) (imm : BitVec 12) :
    (li rd imm).assigns cpu = some (rd, imm.signExtend 32) := by
  simp [Inst.assigns]

/-- A linked file with such lines, whose labels are found. -/
structure HasText (linked : LinkedFile) (text : List (Inst Symbol)) : Prop where
  lines : linked.text = text.map (Inst.map (Symbol.value linked.addressOf))
  found : ∀ line, line < text.length →
    linked.lineAt (linked.addressOf line) = some line
  even : ∀ line, EvenAddr (linked.addressOf line)

theorem hasText_ofText {image : Image} {start : Word}
    {text : List (Inst Symbol)} {code : List Base} {reserved : Word → Bool}
    (layout : Layout image start code reserved)
    (assembled : assemble image start text = some code)
    (stays : ∀ inst ∈ text, inst.vanishes = false) :
    HasText (LinkedFile.ofText image start text reserved) text where
  lines := rfl
  found _ inText := lineAt_addressOf assembled stays layout.short inText
  even := evenAddr_addressOf layout.even text

/-- The registers but for `regs` are as they were. -/
structure KeptBut (regs : List Reg) (before after : CpuState) : Prop where
  gpr : ∀ r, r ∉ regs → after.gpr r = before.gpr r
  sr : after.sr = before.sr

namespace KeptBut

variable {regs more : List Reg} {before middle after : CpuState}

theorem refl (cpu : CpuState) : KeptBut regs cpu cpu :=
  ⟨fun _ _ => rfl, rfl⟩

theorem trans (first : KeptBut regs before middle)
    (second : KeptBut regs middle after) : KeptBut regs before after where
  gpr r outside := (second.gpr r outside).trans (first.gpr r outside)
  sr := second.sr.trans first.sr

theorem mono (kept : KeptBut regs before after) (subset : regs ⊆ more) :
    KeptBut more before after where
  gpr r outside := kept.gpr r fun inside => outside (subset inside)
  sr := kept.sr

theorem setR (kept : KeptBut regs before after) {rd : Reg} (inRegs : rd ∈ regs)
    (value : Word) : KeptBut regs before (after.setR rd value) where
  gpr r outside := by
    rw [Am.setR_gpr_of_ne, kept.gpr r outside]
    rintro rfl
    exact outside inRegs
  sr := kept.sr

end KeptBut

/-- The registers that the functions use. -/
abbrev usedRegs : List Reg := [ra, t0, a0, a1, a2, a3]

/-- A function that computes `name` has returned. -/
structure Returned (linked : LinkedFile) (name : InstName) (before : CpuState)
    (after : Checked) : Prop where
  pc : after.state.pc = before.gpr ra
  line : after.line = linked.lineAt (before.gpr ra)
  result : after.state.cpu.gpr a0 =
    name.architectural (before.gpr a0) (before.gpr a1)
  kept : KeptBut usedRegs before after.state.cpu

section Returning

variable {linked : LinkedFile} {before after : Checked} {cpu start : CpuState}
  {name : InstName} {line : Nat}

theorem returned_of_jumpedTo
    (jumped : linked.JumpedTo after (start.gpr ra) cpu)
    (result : cpu.gpr a0 = name.architectural (start.gpr a0) (start.gpr a1))
    (kept : KeptBut usedRegs start cpu) :
    Returned linked name start after where
  pc := jumped.pc
  line := jumped.line
  result := by rw [jumped.registers, result]
  kept := by
    rw [jumped.registers]
    exact kept

/-- A jump to the return address, with the result in `a0`. -/
theorem leads_back {rs : Reg} (here : linked.At before line cpu)
    (isLine : linked.text[line]? = some (.jr rs))
    (saved : cpu.gpr rs = start.gpr ra) (even : EvenAddr (start.gpr ra))
    (result : cpu.gpr a0 = name.architectural (start.gpr a0) (start.gpr a1))
    (kept : KeptBut usedRegs start cpu) :
    linked.Leads before (Returned linked name start) := by
  apply leads_jr here isLine
  · rwa [saved]
  · intro next jumped
    rw [saved] at jumped
    exact leads_refl (returned_of_jumpedTo jumped result kept)

end Returning

end Ysyx.Libgcc
