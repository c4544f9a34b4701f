import Mathlib.Data.BitVec

/-!
# The reference interpreter

`decode_exec` of NEMU for riscv32, with `decode_operand`, the INSTPAT table,
`isa_raise_intr` and the CSR checks it calls.
-/

namespace Ysyx.Nemu

/-- `word_t`. -/
abbrev Word := BitVec 32

/-- The bytes of guest memory, as `host_read` sees them. -/
abbrev Pmem := Word → BitVec 8

/-! ## State -/

/-- `CPU_state`: the 32 registers, of which `$zero` is reset after every
instruction, and the CSR file. -/
structure CpuState where
  gpr : BitVec 5 → Word
  sr : BitVec 12 → Word
  gpr_zero : gpr 0 = 0

namespace CpuState

/-- `R(rd) = value`, followed by the `R(0) = 0` that ends `decode_exec`. -/
def setR (cpu : CpuState) (rd : BitVec 5) (value : Word) : CpuState where
  gpr index :=
    if index = 0 then 0 else if index = rd then value else cpu.gpr index
  sr := cpu.sr
  gpr_zero := if_pos rfl

/-- `CSR(addr) = value`. -/
def setSr (cpu : CpuState) (addr : BitVec 12) (value : Word) : CpuState :=
  { cpu with
    sr := fun index => if index = addr then value else cpu.sr index }

end CpuState

/-- What `Mr` and `Mw` ask of the memory. -/
inductive MemRequest where
  | read (addr : Word) (len : Nat)
  | write (addr : Word) (len : Nat) (data : Word)
  deriving DecidableEq, Repr

/-- `host_read`. -/
def hostRead (pmem : Pmem) (addr : Word) (len : Nat) : Word :=
  match len with
  | 1 => (pmem addr).zeroExtend 32
  | 2 => (pmem (addr + 1) ++ pmem addr).zeroExtend 32
  | 4 => pmem (addr + 3) ++ pmem (addr + 2) ++ pmem (addr + 1) ++ pmem addr
  | _ => 0

/-! ## CSRs and exceptions -/

def CSR_MSTATUS : BitVec 12 := 0x300
def CSR_MTVEC : BitVec 12 := 0x305
def CSR_MSCRATCH : BitVec 12 := 0x340
def CSR_MEPC : BitVec 12 := 0x341
def CSR_MCAUSE : BitVec 12 := 0x342
def CSR_MTVAL : BitVec 12 := 0x343

def MCA_ILLEGAL_INS : Word := 2
def MCA_BREAK_POINT : Word := 3
def MCA_ENV_CAL_MMO : Word := 11

/-- `check_csr_exist`, up to whether DiffTest skips the CSR. -/
def csrExists (csr : BitVec 12) : Bool :=
  csr ∈ ([0x100, 0x104, 0x105, 0x106, 0x140, 0x141, 0x142, 0x143, 0x144,
    0x180, 0x300, 0x301, 0x302, 0x303, 0x304, 0x305, 0x310, 0x340, 0x341,
    0x342, 0x343, 0x344, 0xb00, 0xb80, 0xc00, 0xc01, 0xc81, 0xf11, 0xf12,
    0xf13, 0xf14] : List (BitVec 12))

/-- `isa_raise_intr`: the state after the trap; the next pc is `mtvec`. -/
def isaRaiseIntr (cpu : CpuState) (no epc : Word) : CpuState :=
  let tval := if no = MCA_BREAK_POINT then epc else 0
  let mstatus := cpu.sr CSR_MSTATUS
  let mie := (mstatus >>> 3) &&& 1
  let mstatus := (mstatus &&& ~~~(1#32 <<< 7)) ||| (mie <<< 7)
  let mstatus := mstatus &&& ~~~(1#32 <<< 3)
  let mstatus := mstatus ||| (3#32 <<< 11)
  (((cpu.setSr CSR_MTVAL tval).setSr CSR_MEPC epc).setSr CSR_MCAUSE
    no).setSr CSR_MSTATUS mstatus

/-! ## Operands -/

/-- `BITS(x, hi, lo)`. -/
def bits (x : Word) (hi lo : Nat) : Word :=
  (x >>> lo) &&& BitVec.ofNat 32 (2 ^ (hi - lo + 1) - 1)

theorem getLsbD_bits (x : Word) (hi lo k : Nat) :
    (bits x hi lo).getLsbD k =
      (decide (k < 32) && x.getLsbD (lo + k) && decide (k < hi - lo + 1)) := by
  simp only [bits, BitVec.getLsbD_and, BitVec.getLsbD_ushiftRight,
    BitVec.getLsbD_ofNat, Nat.testBit_two_pow_sub_one]
  by_cases k < 32 <;> simp [*]

theorem bits_setWidth (x : Word) {hi lo len : Nat} (length : len = hi - lo + 1)
    (inWord : len ≤ 32) :
    (bits x hi lo).setWidth len = x.extractLsb' lo len := by
  ext k hk
  simp only [BitVec.getElem_setWidth, BitVec.getElem_extractLsb',
    getLsbD_bits]
  simp [← length, hk]
  omega

/-- `SEXT(x, len)`. -/
def sext (x : Word) (len : Nat) : Word :=
  (x.setWidth len).signExtend 32

def immI (i : Word) : Word := sext (bits i 31 20) 12
def immU (i : Word) : Word := sext (bits i 31 12) 20 <<< 12
def immS (i : Word) : Word := (sext (bits i 31 25) 7 <<< 5) ||| bits i 11 7
def immB (i : Word) : Word :=
  ((sext (bits i 31 31) 1 <<< 12) ||| (bits i 7 7 <<< 11) |||
    (bits i 30 25 <<< 5) ||| (bits i 11 8 <<< 1)) &&& ~~~1
def immJ (i : Word) : Word :=
  ((sext (bits i 31 31) 1 <<< 20) ||| (bits i 19 12 <<< 12) |||
    (bits i 20 20 <<< 11) ||| (bits i 30 21 <<< 1)) &&& ~~~1

inductive OperandType where
  | typeI | typeU | typeS | typeN | typeJ | typeB | typeII | typeR
  deriving DecidableEq, Repr

/-- What `decode_operand` fills in; the rest stays 0. -/
structure Operands where
  rd : BitVec 5
  rs1 : BitVec 5
  src1 : Word := 0
  src2 : Word := 0
  imm : Word := 0

/-- `decode_operand`. -/
def decodeOperand (i : Word) (cpu : CpuState) (type : OperandType) :
    Operands :=
  let rs1 := (bits i 19 15).setWidth 5
  let rs2 := (bits i 24 20).setWidth 5
  let rd := (bits i 11 7).setWidth 5
  match type with
  | .typeI => { rd, rs1, src1 := cpu.gpr rs1, imm := immI i }
  | .typeII => { rd, rs1, src1 := rs1.setWidth 32, imm := immI i }
  | .typeU => { rd, rs1, imm := immU i }
  | .typeS =>
      { rd, rs1, src1 := cpu.gpr rs1, src2 := cpu.gpr rs2, imm := immS i }
  | .typeJ => { rd, rs1, imm := immJ i }
  | .typeB =>
      { rd, rs1, src1 := cpu.gpr rs1, src2 := cpu.gpr rs2, imm := immB i }
  | .typeR => { rd, rs1, src1 := cpu.gpr rs1, src2 := cpu.gpr rs2 }
  | .typeN => { rd, rs1 }

/-! ## Execute bodies -/

/-- How the body of an instruction ends. -/
inductive Outcome where
  | done (cpu : CpuState) (dnpc : Word) (request : Option MemRequest)
  /-- `NEMUTRAP(pc, code)`. -/
  | nemuTrap (pc code : Word)
  /-- `INV(pc)`. -/
  | invalid (pc : Word)
  /-- A host operation without defined result. -/
  | undefined

/-- The body of an INSTPAT, of the pc, its operands, the CPU and memory. -/
abbrev Body := Word → Operands → CpuState → Pmem → Outcome

/-- `R(rd) = value`. -/
def rdBody (value : Word → Operands → Word) : Body :=
  fun pc d cpu _ => .done (cpu.setR d.rd (value pc d)) (pc + 4) none

/-- `s->dnpc = target; R(rd) = s->snpc`. -/
def jumpBody (target : Word → Operands → Word) : Body :=
  fun pc d cpu _ => .done (cpu.setR d.rd (pc + 4)) (target pc d) none

/-- `s->dnpc = taken ? s->pc + imm : s->dnpc`. -/
def branchBody (taken : Word → Word → Bool) : Body :=
  fun pc d cpu _ =>
    .done cpu (if taken d.src1 d.src2 then pc + d.imm else pc + 4) none

/-- `R(rd) = extend(Mr(src1 + imm, len))`. -/
def loadBody (len : Nat) (extend : Word → Word) : Body :=
  fun pc d cpu pmem =>
    .done (cpu.setR d.rd (extend (hostRead pmem (d.src1 + d.imm) len)))
      (pc + 4) (some (.read (d.src1 + d.imm) len))

/-- `Mw(src1 + imm, len, src2)`. -/
def storeBody (len : Nat) : Body :=
  fun pc d cpu _ =>
    .done cpu (pc + 4) (some (.write (d.src1 + d.imm) len d.src2))

/-- `if (csr_valid(s, imm)) { R(rd) = CSR(imm); CSR(imm) = …; }`, where
`update` gives the value written, if one is written. -/
def csrBody (update : BitVec 5 → Word → Word → Option Word) : Body :=
  fun pc d cpu _ =>
    let addr : BitVec 12 := d.imm.setWidth 12
    if csrExists addr then
      let old := cpu.sr addr
      let read := cpu.setR d.rd old
      .done ((update d.rs1 old d.src1).elim read (read.setSr addr))
        (pc + 4) none
    else
      .done (isaRaiseIntr cpu MCA_ILLEGAL_INS pc) (cpu.sr CSR_MTVEC) none

/-- `R(rd) = value` where the host may leave the value undefined. -/
def partialBody (value : Word → Word → Option Word) : Body :=
  fun pc d cpu _ =>
    match value d.src1 d.src2 with
    | some result => .done (cpu.setR d.rd result) (pc + 4) none
    | none => .undefined

def ecallBody : Body :=
  fun pc _ cpu _ =>
    .done (isaRaiseIntr cpu MCA_ENV_CAL_MMO pc) (cpu.sr CSR_MTVEC) none

def mretBody : Body :=
  fun _ _ cpu _ =>
    let mstatus := cpu.sr CSR_MSTATUS
    let mpie := (mstatus >>> 7) &&& 1
    let mstatus := (mstatus &&& ~~~(1#32 <<< 3)) ||| (mpie <<< 3)
    let mstatus := mstatus ||| (1#32 <<< 7)
    .done (cpu.setSr CSR_MSTATUS mstatus) (cpu.sr CSR_MEPC) none

/-- The signed host `/` and `%`; undefined for a zero divisor and for
`INT_MIN / -1`. -/
def hostSigned (op : Word → Word → Word) (a b : Word) : Option Word :=
  if b = 0 ∨ a = BitVec.intMin 32 ∧ b = -1 then none else some (op a b)

/-- The unsigned host `/` and `%`; undefined for a zero divisor. -/
def hostUnsigned (op : Word → Word → Word) (a b : Word) : Option Word :=
  if b = 0 then none else some (op a b)

/-- The upper half of a 64-bit product. -/
def highHalf (a b : BitVec 64) : Word := ((a * b) >>> 32).setWidth 32

/-! ## The INSTPAT table -/

inductive InstName where
  | lui | auipc | jal | jalr
  | beq | bne | blt | bge | bltu | bgeu
  | lb | lh | lw | lbu | lhu
  | sb | sh | sw
  | addi | slti | sltiu | xori | ori | andi | slli | srli | srai
  | add | sub | sll | slt | sltu | xor | srl | sra | or | and
  | rem | remu | mul | div | divu | mulh | mulhsu | mulhu
  | ecall | ebreak | mret
  | csrrw | csrrs | csrrc | csrrwi | csrrsi | csrrci
  | inv
  deriving DecidableEq, Repr

namespace InstName

/-- The M extension. -/
def isMExt (name : InstName) : Bool :=
  name ∈ [rem, remu, mul, div, divu, mulh, mulhsu, mulhu]

/-- The CSR instructions. -/
def isCsr (name : InstName) : Bool :=
  name ∈ [csrrw, csrrs, csrrc, csrrwi, csrrsi, csrrci]

end InstName

/-- The `key` and `mask` that `pattern_decode` computes of a pattern string
that ends in fixed bits. -/
structure Pattern where
  key : Word
  mask : Word
  deriving DecidableEq, Repr

namespace Pattern

/-- `"??????? ????? ????? ??? ????? op 11"`. -/
def opcode (op : BitVec 5) : Pattern where
  key := 0#25 ++ op ++ 0b11#2
  mask := 0x0000007f

/-- `"??????? ????? ????? f3 ????? op 11"`. -/
def funct3 (f3 : BitVec 3) (op : BitVec 5) : Pattern where
  key := 0#17 ++ f3 ++ 0#5 ++ op ++ 0b11#2
  mask := 0x0000707f

/-- `"f7 ????? ????? f3 ????? op 11"`. -/
def funct7 (f7 : BitVec 7) (f3 : BitVec 3) (op : BitVec 5) : Pattern where
  key := f7 ++ 0#10 ++ f3 ++ 0#5 ++ op ++ 0b11#2
  mask := 0xfe00707f

/-- A pattern without `?`. -/
def exact (word : Word) : Pattern where
  key := word
  mask := 0xffffffff

/-- A pattern of `?` only. -/
def any : Pattern where
  key := 0
  mask := 0

def Matches (pattern : Pattern) (inst : Word) : Prop :=
  inst &&& pattern.mask = pattern.key

instance (pattern : Pattern) (inst : Word) :
    Decidable (pattern.Matches inst) :=
  inferInstanceAs (Decidable (_ = _))

end Pattern

/-- One `INSTPAT(pattern, name, type, body)`. -/
structure Instpat where
  pattern : Pattern
  name : InstName
  type : OperandType
  body : Body

/-- The table of `decode_exec`, in its order. -/
def instpats : List Instpat :=
  [⟨.opcode 0b01101, .lui, .typeU, rdBody fun _ d => d.imm⟩,
    ⟨.opcode 0b00101, .auipc, .typeU, rdBody fun pc d => pc + d.imm⟩,
    ⟨.opcode 0b11011, .jal, .typeJ, jumpBody fun pc d => pc + d.imm⟩,
    ⟨.funct3 0b000 0b11001, .jalr, .typeI,
      jumpBody fun _ d => (d.src1 + d.imm) &&& ~~~1⟩,
    ⟨.funct3 0b000 0b11000, .beq, .typeB, branchBody fun a b => a == b⟩,
    ⟨.funct3 0b001 0b11000, .bne, .typeB, branchBody fun a b => a != b⟩,
    ⟨.funct3 0b100 0b11000, .blt, .typeB, branchBody fun a b => a.slt b⟩,
    ⟨.funct3 0b101 0b11000, .bge, .typeB, branchBody fun a b => b.sle a⟩,
    ⟨.funct3 0b110 0b11000, .bltu, .typeB, branchBody fun a b => a.ult b⟩,
    ⟨.funct3 0b111 0b11000, .bgeu, .typeB, branchBody fun a b => b.ule a⟩,
    ⟨.funct3 0b000 0b00000, .lb, .typeI,
      loadBody 1 fun x => (x.setWidth 8).signExtend 32⟩,
    ⟨.funct3 0b001 0b00000, .lh, .typeI,
      loadBody 2 fun x => (x.setWidth 16).signExtend 32⟩,
    ⟨.funct3 0b010 0b00000, .lw, .typeI, loadBody 4 id⟩,
    ⟨.funct3 0b100 0b00000, .lbu, .typeI, loadBody 1 id⟩,
    ⟨.funct3 0b101 0b00000, .lhu, .typeI, loadBody 2 id⟩,
    ⟨.funct3 0b000 0b01000, .sb, .typeS, storeBody 1⟩,
    ⟨.funct3 0b001 0b01000, .sh, .typeS, storeBody 2⟩,
    ⟨.funct3 0b010 0b01000, .sw, .typeS, storeBody 4⟩,
    ⟨.funct3 0b000 0b00100, .addi, .typeI,
      rdBody fun _ d => d.src1 + d.imm⟩,
    ⟨.funct3 0b010 0b00100, .slti, .typeI,
      rdBody fun _ d => if d.src1.slt d.imm then 1 else 0⟩,
    ⟨.funct3 0b011 0b00100, .sltiu, .typeI,
      rdBody fun _ d => if d.src1 < d.imm then 1 else 0⟩,
    ⟨.funct3 0b100 0b00100, .xori, .typeI,
      rdBody fun _ d => d.src1 ^^^ d.imm⟩,
    ⟨.funct3 0b110 0b00100, .ori, .typeI,
      rdBody fun _ d => d.src1 ||| d.imm⟩,
    ⟨.funct3 0b111 0b00100, .andi, .typeI,
      rdBody fun _ d => d.src1 &&& d.imm⟩,
    ⟨.funct7 0b0000000 0b001 0b00100, .slli, .typeI,
      rdBody fun _ d => d.src1 <<< bits d.imm 4 0⟩,
    ⟨.funct7 0b0000000 0b101 0b00100, .srli, .typeI,
      rdBody fun _ d => d.src1 >>> bits d.imm 4 0⟩,
    ⟨.funct7 0b0100000 0b101 0b00100, .srai, .typeI,
      rdBody fun _ d => d.src1.sshiftRight' (bits d.imm 4 0)⟩,
    ⟨.funct7 0b0000000 0b000 0b01100, .add, .typeR,
      rdBody fun _ d => d.src1 + d.src2⟩,
    ⟨.funct7 0b0100000 0b000 0b01100, .sub, .typeR,
      rdBody fun _ d => d.src1 - d.src2⟩,
    ⟨.funct7 0b0000000 0b001 0b01100, .sll, .typeR,
      rdBody fun _ d => d.src1 <<< bits d.src2 4 0⟩,
    ⟨.funct7 0b0000000 0b010 0b01100, .slt, .typeR,
      rdBody fun _ d => if d.src1.slt d.src2 then 1 else 0⟩,
    ⟨.funct7 0b0000000 0b011 0b01100, .sltu, .typeR,
      rdBody fun _ d => if d.src1 < d.src2 then 1 else 0⟩,
    ⟨.funct7 0b0000000 0b100 0b01100, .xor, .typeR,
      rdBody fun _ d => d.src1 ^^^ d.src2⟩,
    ⟨.funct7 0b0000000 0b101 0b01100, .srl, .typeR,
      rdBody fun _ d => d.src1 >>> bits d.src2 4 0⟩,
    ⟨.funct7 0b0100000 0b101 0b01100, .sra, .typeR,
      rdBody fun _ d => d.src1.sshiftRight' (bits d.src2 4 0)⟩,
    ⟨.funct7 0b0000000 0b110 0b01100, .or, .typeR,
      rdBody fun _ d => d.src1 ||| d.src2⟩,
    ⟨.funct7 0b0000000 0b111 0b01100, .and, .typeR,
      rdBody fun _ d => d.src1 &&& d.src2⟩,
    ⟨.funct7 0b0000001 0b110 0b01100, .rem, .typeR,
      partialBody (hostSigned BitVec.srem)⟩,
    ⟨.funct7 0b0000001 0b111 0b01100, .remu, .typeR,
      partialBody (hostUnsigned BitVec.umod)⟩,
    ⟨.funct7 0b0000001 0b000 0b01100, .mul, .typeR,
      rdBody fun _ d => d.src1 * d.src2⟩,
    ⟨.funct7 0b0000001 0b100 0b01100, .div, .typeR,
      partialBody fun a b =>
        if b = 0 then some (-1) else hostSigned BitVec.sdiv a b⟩,
    ⟨.funct7 0b0000001 0b101 0b01100, .divu, .typeR,
      partialBody fun a b =>
        if b = 0 then some (-1) else hostUnsigned BitVec.udiv a b⟩,
    ⟨.funct7 0b0000001 0b001 0b01100, .mulh, .typeR,
      rdBody fun _ d =>
        highHalf (d.src1.signExtend 64) (d.src2.signExtend 64)⟩,
    ⟨.funct7 0b0000001 0b010 0b01100, .mulhsu, .typeR,
      rdBody fun _ d =>
        highHalf (d.src1.signExtend 64) (d.src2.zeroExtend 64)⟩,
    ⟨.funct7 0b0000001 0b011 0b01100, .mulhu, .typeR,
      rdBody fun _ d =>
        highHalf (d.src1.zeroExtend 64) (d.src2.zeroExtend 64)⟩,
    ⟨.exact 0x00000073, .ecall, .typeN, ecallBody⟩,
    ⟨.exact 0x00100073, .ebreak, .typeN,
      fun pc _ cpu _ => .nemuTrap pc (cpu.gpr 10)⟩,
    ⟨.exact 0x30200073, .mret, .typeN, mretBody⟩,
    ⟨.funct3 0b001 0b11100, .csrrw, .typeI,
      csrBody fun _ _ src1 => some src1⟩,
    ⟨.funct3 0b010 0b11100, .csrrs, .typeI,
      csrBody fun rs1 old src1 =>
        if rs1 ≠ 0 then some (old ||| src1) else none⟩,
    ⟨.funct3 0b011 0b11100, .csrrc, .typeI,
      csrBody fun rs1 old src1 =>
        if rs1 ≠ 0 then some (old &&& ~~~src1) else none⟩,
    ⟨.funct3 0b101 0b11100, .csrrwi, .typeII,
      csrBody fun _ _ src1 => some src1⟩,
    ⟨.funct3 0b110 0b11100, .csrrsi, .typeII,
      csrBody fun rs1 old src1 =>
        if rs1 ≠ 0 then some (old ||| src1) else none⟩,
    ⟨.funct3 0b111 0b11100, .csrrci, .typeII,
      csrBody fun rs1 old src1 =>
        if rs1 ≠ 0 then some (old &&& ~~~src1) else none⟩,
    ⟨.any, .inv, .typeN, fun pc _ _ _ => .invalid pc⟩]

/-- The INSTPAT that `decode_exec` takes: the first that matches. -/
def selected (inst : Word) : Option Instpat :=
  instpats.find? fun row => row.pattern.Matches inst

/-- No pattern before the last accepts a word of another. -/
theorem instpats_exclusive :
    instpats.Pairwise fun earlier row => row.name ≠ .inv →
      row.pattern.key &&& earlier.pattern.mask ≠
        earlier.pattern.key &&& row.pattern.mask := by
  decide +kernel

theorem selected_of_matches {inst : Word} {row : Instpat}
    (inTable : row ∈ instpats) (notInv : row.name ≠ .inv)
    (isMatch : row.pattern.Matches inst) : selected inst = some row := by
  obtain ⟨place, inBounds, rfl⟩ := List.getElem_of_mem inTable
  refine List.find?_eq_some_iff_getElem.mpr
    ⟨by simpa using isMatch, place, inBounds, rfl, fun earlier before => ?_⟩
  simp only [Bool.not_eq_true', decide_eq_false_iff_not]
  intro accepted
  apply List.pairwise_iff_getElem.mp instpats_exclusive earlier place
    (by omega) inBounds before notInv
  rw [← show _ = _ from isMatch, ← show _ = _ from accepted]
  simp only [BitVec.and_assoc, BitVec.and_comm (instpats[place].pattern.mask)]

/-- `decode_exec`; the last INSTPAT matches everything. -/
def decodeExec (pc inst : Word) (cpu : CpuState) (pmem : Pmem) : Outcome :=
  match selected inst with
  | some row => row.body pc (decodeOperand inst cpu row.type) cpu pmem
  | none => .invalid pc

end Ysyx.Nemu
