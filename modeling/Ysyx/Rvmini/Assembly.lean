import Ysyx.Rvmini.Branch
import Ysyx.Rvmini.Logic
import Ysyx.Rvmini.Access

/-!
# Assembling

The instructions that a compiler emits, what they mean, the base code that
`inst-replace.h` makes of them, and where the assembler puts it.
-/

namespace Ysyx.Rvmini

open Nemu Bytes

/-! ## Instructions -/

/-- The register-register instructions with a macro. -/
inductive Op where
  | sub
  | slt
  | sltu
  | and
  | or
  | xor
  | sll
  | srl
  | sra
  deriving DecidableEq, Repr

/-- `def_itype`. -/
inductive OpImm where
  | slti
  | sltiu
  | andi
  | ori
  | xori
  deriving DecidableEq, Repr

inductive ShiftImm where
  | slli
  | srli
  | srai
  deriving DecidableEq, Repr

/-- The pseudo instructions with code of their own. -/
inductive Unary where
  | not
  | seqz
  | sltz
  deriving DecidableEq, Repr

inductive Load where
  | lb
  | lh
  | lhu
  deriving DecidableEq, Repr

/-- One line of assembly; `α` stands for addresses. -/
inductive Inst (α : Type) where
  | base (kept : Base)
  | op (kind : Op) (rd rs1 rs2 : Reg)
  | opImm (kind : OpImm) (rd rs1 : Reg) (imm : BitVec 12)
  | shift (kind : ShiftImm) (rd rs1 : Reg) (imm : BitVec 5)
  | unary (kind : Unary) (rd rs1 : Reg)
  | load (kind : Load) (rd rs1 : Reg) (imm : BitVec 12)
  | sh (rs2 rs1 : Reg) (imm : BitVec 12)
  | branch (kind : BranchOp) (rs1 rs2 : Reg) (target : α)
  | jal (rd : Reg) (target : α)
  | tail (target : α)
  | la (rd : Reg) (symbol : α)
  deriving DecidableEq, Repr

namespace Inst

variable {α β : Type}

def map (f : α → β) : Inst α → Inst β
  | base kept => .base kept
  | op kind rd rs1 rs2 => .op kind rd rs1 rs2
  | opImm kind rd rs1 imm => .opImm kind rd rs1 imm
  | shift kind rd rs1 imm => .shift kind rd rs1 imm
  | unary kind rd rs1 => .unary kind rd rs1
  | load kind rd rs1 imm => .load kind rd rs1 imm
  | sh rs2 rs1 imm => .sh rs2 rs1 imm
  | branch kind rs1 rs2 target => .branch kind rs1 rs2 (f target)
  | jal rd target => .jal rd (f target)
  | tail target => .tail (f target)
  | la rd symbol => .la rd (f symbol)

section Pseudo

variable (rd rs rs1 rs2 : Reg) (target : α)

def mv : Inst α := .base (Rvmini.mv rd rs)
def neg : Inst α := .op .sub rd x0 rs
def snez : Inst α := .op .sltu rd x0 rs
def sgt : Inst α := .op .slt rd rs2 rs1
def sgtu : Inst α := .op .sltu rd rs2 rs1
def sgtz : Inst α := .op .slt rd x0 rs
def beqz : Inst α := .branch .beq rs x0 target
def bnez : Inst α := .branch .bne rs x0 target
def blez : Inst α := .branch .bge x0 rs target
def bgez : Inst α := .branch .bge rs x0 target
def bltz : Inst α := .branch .blt rs x0 target
def bgtz : Inst α := .branch .blt x0 rs target
def bgt : Inst α := .branch .blt rs2 rs1 target
def ble : Inst α := .branch .bge rs2 rs1 target
def bgtu : Inst α := .branch .bltu rs2 rs1 target
def bleu : Inst α := .branch .bgeu rs2 rs1 target
def j : Inst α := .jal x0 target
def call : Inst α := .jal ra target
def jr : Inst α := .base (.jalr x0 rs 0)

end Pseudo

/-- `ret`. -/
def ret : Inst α := jr ra

end Inst

/-! ## Meaning -/

def Op.result : Op → Word → Word → Word
  | sub, a, b => a - b
  | slt, a, b => if a.slt b then 1 else 0
  | sltu, a, b => if a.ult b then 1 else 0
  | and, a, b => a &&& b
  | or, a, b => a ||| b
  | xor, a, b => a ^^^ b
  | sll, a, b => a <<< (b.toNat % 32)
  | srl, a, b => a >>> (b.toNat % 32)
  | sra, a, b => a.sshiftRight (b.toNat % 32)

/-- The instruction that `def_itype` puts after `li`. -/
def OpImm.op : OpImm → Op
  | slti => .slt
  | sltiu => .sltu
  | andi => .and
  | ori => .or
  | xori => .xor

def ShiftImm.result : ShiftImm → Word → Nat → Word
  | slli, a, imm => a <<< imm
  | srli, a, imm => a >>> imm
  | srai, a, imm => a.sshiftRight imm

def Unary.result : Unary → Word → Word
  | not, a => ~~~a
  | seqz, a => if a = 0 then 1 else 0
  | sltz, a => if a.slt 0 then 1 else 0

def Load.len : Load → Nat
  | lb => 1
  | lh => 2
  | lhu => 2

def Load.result : Load → Word → Word
  | lb, x => (x.setWidth 8).signExtend 32
  | lh, x => (x.setWidth 16).signExtend 32
  | lhu, x => x

/-- What RV32I does, with the next instruction at `next`. -/
def Inst.exec (next : Word) (state : State) : Inst Word → State
  | .base kept => kept.exec state
  | .op kind rd rs1 rs2 =>
      ⟨next, state.cpu.setR rd
        (kind.result (state.cpu.gpr rs1) (state.cpu.gpr rs2)), state.pmem⟩
  | .opImm kind rd rs1 imm =>
      ⟨next, state.cpu.setR rd
        (kind.op.result (state.cpu.gpr rs1) (imm.signExtend 32)), state.pmem⟩
  | .shift kind rd rs1 imm =>
      ⟨next, state.cpu.setR rd (kind.result (state.cpu.gpr rs1) imm.toNat),
        state.pmem⟩
  | .unary kind rd rs1 =>
      ⟨next, state.cpu.setR rd (kind.result (state.cpu.gpr rs1)), state.pmem⟩
  | .load kind rd rs1 imm =>
      ⟨next, state.cpu.setR rd
        (kind.result (hostRead state.pmem (addrOf state rs1 imm) kind.len)),
        state.pmem⟩
  | .sh rs2 rs1 imm =>
      ⟨next, state.cpu,
        hostWrite state.pmem (addrOf state rs1 imm) 2 (state.cpu.gpr rs2)⟩
  | .branch kind rs1 rs2 target =>
      ⟨if kind.taken (state.cpu.gpr rs1) (state.cpu.gpr rs2) then target
        else next, state.cpu, state.pmem⟩
  | .jal rd target => ⟨target, state.cpu.setR rd next, state.pmem⟩
  | .tail target => ⟨target, state.cpu, state.pmem⟩
  | .la rd symbol => ⟨next, state.cpu.setR rd symbol, state.pmem⟩

namespace Inst

/-- The bytes that are read. -/
def reads (state : State) : Inst Word → Option (Word × Nat)
  | .base (.lw _ rs1 imm) => some (addrOf state rs1 imm, 4)
  | .base (.lbu _ rs1 imm) => some (addrOf state rs1 imm, 1)
  | .load kind _ rs1 imm => some (addrOf state rs1 imm, kind.len)
  | _ => none

/-- The bytes that are written. -/
def writes (state : State) : Inst Word → Option (Word × Nat)
  | .base (.sw _ rs1 imm) => some (addrOf state rs1 imm, 4)
  | .base (.sb _ rs1 imm) => some (addrOf state rs1 imm, 1)
  | .sh _ rs1 imm => some (addrOf state rs1 imm, 2)
  | _ => none

/-- Does not go on with the instruction at `next`. -/
def jumps (state : State) : Inst Word → Bool
  | .base (.jalr ..) => true
  | .branch kind rs1 rs2 _ => kind.taken (state.cpu.gpr rs1) (state.cpu.gpr rs2)
  | .jal .. => true
  | .tail _ => true
  | _ => false

end Inst

/-! ## Expansion -/

section Expansion

variable (image : Image)

def Op.expand : Op → Reg → Reg → Reg → Option (List Base)
  | sub, rd, rs1, rs2 => some (Rvmini.sub image rd rs1 rs2)
  | slt, rd, rs1, rs2 => some (Rvmini.slt image rd rs1 rs2)
  | sltu, rd, rs1, rs2 => some (Rvmini.sltu image rd rs1 rs2)
  | and, rd, rs1, rs2 => Rvmini.and image rd rs1 rs2
  | or, rd, rs1, rs2 => Rvmini.or image rd rs1 rs2
  | xor, rd, rs1, rs2 => Rvmini.xor image rd rs1 rs2
  | sll, rd, rs1, rs2 => some (Rvmini.sll image rd rs1 rs2)
  | srl, rd, rs1, rs2 => some (Rvmini.srl image rd rs1 rs2)
  | sra, rd, rs1, rs2 => some (Rvmini.sra image rd rs1 rs2)

def OpImm.expand : OpImm → Reg → Reg → BitVec 12 → Option (List Base)
  | slti, rd, rs1, imm => some (Rvmini.slti image rd rs1 imm)
  | sltiu, rd, rs1, imm => some (Rvmini.sltiu image rd rs1 imm)
  | andi, rd, rs1, imm => Rvmini.andi image rd rs1 imm
  | ori, rd, rs1, imm => Rvmini.ori image rd rs1 imm
  | xori, rd, rs1, imm => Rvmini.xori image rd rs1 imm

def ShiftImm.expand : ShiftImm → Reg → Reg → Nat → List Base
  | slli => Rvmini.slli
  | srli => Rvmini.srli image
  | srai => Rvmini.srai image

def Unary.expand : Unary → Reg → Reg → List Base
  | not => Rvmini.not image
  | seqz => Rvmini.seqz image
  | sltz => msb

/-- `1 + \addr` must fit into the offset. -/
def Load.expand (rd base : Reg) (imm : BitVec 12) :
    Load → Option (List Base)
  | lb => some (Rvmini.lb image rd base imm)
  | lh => if imm = 0x7ff then none else some (Rvmini.lh image rd base imm)
  | lhu => if imm = 0x7ff then none else some (Rvmini.lhu rd base imm)

/-- The base code of one line, with the next line at `next`; `none` where the
assembler stops with an error. -/
def Inst.expand (next : Word) : Inst Word → Option (List Base)
  | .base kept => some [kept]
  | .op kind rd rs1 rs2 => kind.expand image rd rs1 rs2
  | .opImm kind rd rs1 imm => kind.expand image rd rs1 imm
  | .shift kind rd rs1 imm => some (kind.expand image rd rs1 imm.toNat)
  | .unary kind rd rs1 => some (kind.expand image rd rs1)
  | .load kind rd rs1 imm => kind.expand image rd rs1 imm
  | .sh rs2 rs1 imm =>
      if imm = 0x7ff then none else some (Rvmini.sh rs2 rs1 imm)
  | .branch kind rs1 rs2 target =>
      some (kind.expand image rs1 rs2 target next)
  | .jal rd target => some (Rvmini.jal rd target)
  | .tail target => some (Rvmini.tail target)
  | .la rd symbol => some (Rvmini.la rd symbol)

end Expansion

end Ysyx.Rvmini
