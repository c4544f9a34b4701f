import Ysyx.Rvmini.Scratch

/-!
# The macros

`inst-replace.h`: the base instructions that each RV32I instruction is replaced
by, with the tables they look up.
-/

namespace Ysyx.Rvmini

open Nemu Bytes

/-- Where the linker puts the tables. -/
structure Image where
  checkSameArray : Word
  sameResultTable : Word
  check8bit0Table : Word
  slt1Table : Word
  sltu1Table : Word
  or1Table : Word
  logicShiftTable : Word
  deriving DecidableEq, Repr

namespace Image

variable (image : Image)

def and8Table : Word := image.logicShiftTable
def or8Table : Word := image.and8Table + 256#32 * 256#32
def xor8Table : Word := image.or8Table + 256#32 * 256#32
def sll8Table : Word := image.xor8Table + 256#32 * 256#32
def srl8Table : Word := image.sll8Table + 32#32 * 256#32 * 4#32
def sra8Table : Word := image.srl8Table + 32#32 * 256#32 * 4#32

end Image

abbrev mv (rd rs : Reg) : Base := .addi rd rs 0
abbrev PUSH (r : Reg) (n : Var) : Base := .sw r sp (SP_VAR n)
abbrev POP (r : Reg) (n : Var) : Base := .lw r sp (SP_VAR n)

/-- `%hi(addr)`. -/
def hi (addr : Word) : BitVec 20 := (addr + 0x800#32).extractLsb' 12 20

/-- `%lo(addr)`. -/
def lo (addr : Word) : BitVec 12 := addr.extractLsb' 0 12

def la (r : Reg) (addr : Word) : List Base :=
  [.lui r (hi addr), .addi r r (lo addr)]

def getbyte (rd rs1 : Reg) (byte : Fin 4) : List Base :=
  [.sw rs1 sp (SP_VAR .C), .lbu rd sp (SP_VAR_BYTE .C byte)]

/-- `sh rs, imm(base)`; its second offset is `1 + imm`. -/
def sh (rs base : Reg) (imm : BitVec 12) : List Base :=
  .sb rs base imm :: getbyte tp rs 1 ++ [.sb tp base (imm + 1)]

def slli (rd rs1 : Reg) (imm : Nat) : List Base :=
  if imm = 0 then
    if rd ≠ rs1 then [mv rd rs1] else []
  else if 24 ≤ imm then
    [.sw x0 sp (SP_VAR .A), .sb rs1 sp (SP_VAR_BYTE .A 3),
      .lw rd sp (SP_VAR .A)] ++ slli rd rd (imm - 24)
  else if 16 ≤ imm then
    .sw x0 sp (SP_VAR .A) :: sh rs1 sp (SP_VAR_BYTE .A 2) ++
      [.lw rd sp (SP_VAR .A)] ++ slli rd rd (imm - 16)
  else
    .add rd rs1 rs1 :: List.replicate (imm - 1) (.add rd rd rd)

def msb (rd rs1 : Reg) : List Base :=
  getbyte rd rs1 3 ++ slli rd rd 1 ++ getbyte rd rd 1

section Tables

variable (image : Image)

/-! ## Arithmetic and comparison -/

/-- One of the four bytes of `not`. -/
def notByte (boffset : Fin 4) : List Base :=
  [.lbu gp sp (SP_VAR_BYTE .C boffset), .add gp gp tp, .lbu gp gp 0,
    .sb gp sp (SP_VAR_BYTE .D boffset)]

def not (rd rs1 : Reg) : List Base :=
  List.flatten
    [[PUSH gp .three, .sw rs1 sp (SP_VAR .C)],
      la tp (image.xor8Table + (0xff#32 <<< 8)),
      [3, 2, 1, 0].flatMap notByte,
      [POP gp .three, .lw rd sp (SP_VAR .D)]]

def sub (rd rs1 rs2 : Reg) : List Base :=
  not image tp rs2 ++ [.add rd rs1 tp, .addi rd rd 1]

def sltTemplate (lut : Word) (rd rs1 rs2 : Reg) : List Base :=
  List.flatten
    [[PUSH s0 .one, PUSH s1 .two, .sw rs2 sp (SP_VAR .A), mv s0 rs1,
        .lw s1 sp (SP_VAR .A)],
      msb gp s0, slli gp gp 1,
      msb tp s1, [.add gp gp tp], slli gp gp 1,
      sub image tp s0 s1, msb tp tp, [.add gp gp tp],
      la tp lut, [.add tp tp gp, POP s1 .two, POP s0 .one, .lbu rd tp 0]]

def slt (rd rs1 rs2 : Reg) : List Base :=
  sltTemplate image image.slt1Table rd rs1 rs2

def sltu (rd rs1 rs2 : Reg) : List Base :=
  sltTemplate image image.sltu1Table rd rs1 rs2

/-! ## Bitwise logic -/

def logic8ByteInternal (lutReg : Reg) (boffset : Fin 4) : List Base :=
  [.lbu tp sp (SP_VAR_BYTE .A boffset), .sb tp sp (SP_VAR_BYTE .D 1),
    .lbu tp sp (SP_VAR_BYTE .B boffset), .sb tp sp (SP_VAR_BYTE .D 0),
    .lw tp sp (SP_VAR .D), .add tp lutReg tp, .lbu tp tp 0,
    .sb tp sp (SP_VAR_BYTE .C boffset)]

/-- `none` where the macro aborts. -/
def logic (lut : Word) (rd rs1 rs2 : Reg) : Option (List Base) :=
  if rd = x0 then some []
  else if rd = sp ∨ rs1 = sp ∨ rs2 = sp then none
  else if rd = gp ∨ rs1 = gp ∨ rs2 = gp then none
  else if rd = tp ∨ rs1 = tp then none
  else some <| List.flatten
    [[.sw rs1 sp (SP_VAR .A), .sw rs2 sp (SP_VAR .B)], la rd lut,
      [.sw x0 sp (SP_VAR .D)],
      [3, 2, 1, 0].flatMap (logic8ByteInternal rd),
      [.lw rd sp (SP_VAR .C)]]

def and (rd rs1 rs2 : Reg) : Option (List Base) :=
  logic image.and8Table rd rs1 rs2
def or (rd rs1 rs2 : Reg) : Option (List Base) :=
  logic image.or8Table rd rs1 rs2
def xor (rd rs1 rs2 : Reg) : Option (List Base) :=
  logic image.xor8Table rd rs1 rs2

/-! ## Equality -/

/-- `rd == 0` if same. -/
def check8bitSame (table rd : Reg) (boffset : Fin 4) : List Base :=
  [.lbu rd sp (SP_VAR_BYTE .A boffset), .add tp table rd, .addi rd x0 1,
    .sb rd tp 0,
    .lbu rd sp (SP_VAR_BYTE .B boffset), .add rd table rd, .sb x0 rd 0,
    .lbu rd tp 0]

def seq (rd rs1 rs2 : Reg) : List Base :=
  List.flatten
    [[.sw rs1 sp (SP_VAR .A), .sw rs2 sp (SP_VAR .B), PUSH s0 .one,
        PUSH s1 .two],
      la s0 image.checkSameArray,
      check8bitSame s0 gp 0,
      check8bitSame s0 s1 1, [.add gp gp s1],
      check8bitSame s0 s1 2, [.add gp gp s1],
      check8bitSame s0 s1 3, [.add gp gp s1],
      la tp image.sameResultTable,
      [.add tp tp gp, .lbu rd tp 0, POP s1 .two, POP s0 .one]]

/-- `rd = (source is 0 ? 0 : 1)`. -/
def check8bit0 (table rd : Reg) (boffset : Fin 4) : List Base :=
  [.lbu rd sp (SP_VAR_BYTE .A boffset), .add rd table rd, .lbu rd rd 0]

def seqz (rd rs1 : Reg) : List Base :=
  List.flatten
    [[.sw rs1 sp (SP_VAR .A), PUSH s0 .one],
      la s0 image.check8bit0Table,
      check8bit0 s0 gp 0,
      check8bit0 s0 tp 1, [.add gp gp tp],
      check8bit0 s0 tp 2, [.add gp gp tp],
      check8bit0 s0 tp 3, [.add gp gp tp],
      la tp image.sameResultTable,
      [.add tp tp gp, .lbu rd tp 0, POP s0 .one]]

/-! ## Branches -/

/-- `branch_resolve`; `label` is the address after the macro. -/
def branchResolve (target : Word) (isTpHighSelTarget : Bool) (label : Word) :
    List Base :=
  slli tp tp 2 ++ [.add tp sp tp] ++
    (if isTpHighSelTarget then
      la gp target ++ [.sw gp sp (SP_VAR .A)] ++
        la gp label ++ [.sw gp sp (SP_VAR .B)]
    else
      la gp label ++ [.sw gp sp (SP_VAR .A)] ++
        la gp target ++ [.sw gp sp (SP_VAR .B)]) ++
    [.lw tp tp (SP_VAR .B), .jalr x0 tp 0]

/-- `tp` is whether `rs1` and `rs2` are equal. -/
def equalInTp (rs1 rs2 : Reg) : List Base :=
  if rs2 = x0 then seqz image tp rs1
  else if rs1 = x0 then seqz image tp rs2
  else seq image tp rs1 rs2

def beq (rs1 rs2 : Reg) (target label : Word) : List Base :=
  equalInTp image rs1 rs2 ++ branchResolve target true label

def bne (rs1 rs2 : Reg) (target label : Word) : List Base :=
  equalInTp image rs1 rs2 ++ branchResolve target false label

/-- `tp` is whether `rs2 <= 0`. -/
def nonPositiveInTp (rs2 : Reg) : List Base :=
  msb gp rs2 ++ [.addi tp rs2 (-1)] ++ msb tp tp ++ [.add gp gp tp] ++
    la tp image.or1Table ++ [.add tp gp tp, .lbu tp tp 0]

def blt (rs1 rs2 : Reg) (target label : Word) : List Base :=
  if rs2 = x0 then msb tp rs1 ++ branchResolve target true label
  else if rs1 = x0 then
    nonPositiveInTp image rs2 ++ branchResolve target false label
  else slt image tp rs1 rs2 ++ branchResolve target true label

def bltu (rs1 rs2 : Reg) (target label : Word) : List Base :=
  sltu image tp rs1 rs2 ++ branchResolve target true label

def bge (rs1 rs2 : Reg) (target label : Word) : List Base :=
  if rs1 = x0 then
    nonPositiveInTp image rs2 ++ branchResolve target true label
  else slt image tp rs1 rs2 ++ branchResolve target false label

def bgeu (rs1 rs2 : Reg) (target label : Word) : List Base :=
  sltu image tp rs1 rs2 ++ branchResolve target false label

/-! ## Shifts -/

def getshamt (rd rs1 : Reg) : List Base :=
  [.sb rs1 sp (SP_VAR_BYTE .B 0), .lbu rd sp (SP_VAR_BYTE .B 0)] ++
    la tp (image.and8Table + (0x1f#32 <<< 8)) ++
    [.add rd rd tp, .lbu rd rd 0]

def getShiftByteInTp (base : Reg) (boffset : Fin 4) : List Base :=
  .lbu tp sp (SP_VAR_BYTE .A boffset) :: slli tp tp 2 ++
    [.add tp base tp, .lw tp tp 0]

/-- `s0` is the row of `table` for the amount in `rs2`. -/
def shiftRow (table : Word) (rs2 : Reg) : List Base :=
  getshamt image s0 rs2 ++
    [.sw x0 sp (SP_VAR .B), .sb s0 sp (SP_VAR_BYTE .B 1),
      .lw s0 sp (SP_VAR .B)] ++
    slli s0 s0 2 ++ la tp table ++ [.add s0 s0 tp]

def sll (rd rs1 rs2 : Reg) : List Base :=
  List.flatten
    [[PUSH s0 .one, .sw rs1 sp (SP_VAR .A)],
      shiftRow image image.sll8Table rs2,
      [.sw x0 sp (SP_VAR .B)],
      getShiftByteInTp s0 3,
      [.sb tp sp (SP_VAR_BYTE .B 3), .lw gp sp (SP_VAR .B)],
      getShiftByteInTp s0 2,
      sh tp sp (SP_VAR_BYTE .B 2),
      [.lw tp sp (SP_VAR .B), .add gp gp tp],
      getShiftByteInTp s0 1, slli tp tp 8, [.add gp gp tp],
      getShiftByteInTp s0 0,
      [POP s0 .one, .add rd gp tp]]

/-- From the row in `s0` to the end of `shift_right_template`. -/
def shiftRightBytes (rd : Reg) (isArith : Bool) : List Base :=
  List.flatten
    [getShiftByteInTp s0 2, [.sw tp sp (SP_VAR .B)],
      getShiftByteInTp s0 1, [.sw tp sp (SP_VAR .C)],
      getShiftByteInTp s0 0, [.sw tp sp (SP_VAR .D)],
      -- byte 0
      [.lbu gp sp (SP_VAR_BYTE .B 1), .lbu tp sp (SP_VAR_BYTE .C 2),
        .add gp gp tp, .lbu tp sp (SP_VAR_BYTE .D 3), .add gp gp tp,
        .sw gp sp (SP_VAR .D)],
      -- byte 1
      [.lbu gp sp (SP_VAR_BYTE .B 2), .lbu tp sp (SP_VAR_BYTE .C 3),
        .add gp gp tp, .sb gp sp (SP_VAR_BYTE .D 1)],
      -- byte 2
      [.lbu gp sp (SP_VAR_BYTE .B 3), .sb gp sp (SP_VAR_BYTE .D 2)],
      [.lw gp sp (SP_VAR .D)],
      if isArith then
        la tp (image.sra8Table - image.srl8Table) ++ [.add s0 s0 tp]
      else [],
      getShiftByteInTp s0 3, [POP s0 .one, .add rd gp tp]]

/-- `shift_right_template` with `is_rs2_imm == 0`. -/
def shiftRightReg (rd rs1 rs2 : Reg) (isArith : Bool) : List Base :=
  [PUSH s0 .one, .sw rs1 sp (SP_VAR .A)] ++
    shiftRow image image.srl8Table rs2 ++ shiftRightBytes image rd isArith

/-- `shift_right_template` with `is_rs2_imm == 1`. -/
def shiftRightImm (rd rs1 : Reg) (rs2 : Nat) (isArith : Bool) : List Base :=
  if rs2 = 24 then
    if isArith then
      .sw rs1 sp (SP_VAR .A) ::
        la tp (image.sra8Table + (BitVec.ofNat 32 rs2 <<< 10)) ++
        [.lbu rd sp (SP_VAR_BYTE .A 3)] ++ slli rd rd 2 ++
        [.add tp tp rd, .lw rd tp 0]
    else getbyte rd rs1 3
  else
    [PUSH s0 .one, .sw rs1 sp (SP_VAR .A)] ++
      la s0 (image.srl8Table + (BitVec.ofNat 32 rs2 <<< 10)) ++
      shiftRightBytes image rd isArith

def srl (rd rs1 rs2 : Reg) : List Base := shiftRightReg image rd rs1 rs2 false
def sra (rd rs1 rs2 : Reg) : List Base := shiftRightReg image rd rs1 rs2 true
def srli (rd rs1 : Reg) (imm : Nat) : List Base :=
  shiftRightImm image rd rs1 imm false
def srai (rd rs1 : Reg) (imm : Nat) : List Base :=
  shiftRightImm image rd rs1 imm true

/-! ## Immediates -/

/-- `li tp, imm`. -/
def liTp (imm : BitVec 12) : Base := .addi tp x0 imm

def slti (rd rs1 : Reg) (imm : BitVec 12) : List Base :=
  liTp imm :: slt image rd rs1 tp
def sltiu (rd rs1 : Reg) (imm : BitVec 12) : List Base :=
  liTp imm :: sltu image rd rs1 tp
def andi (rd rs1 : Reg) (imm : BitVec 12) : Option (List Base) :=
  (and image rd rs1 tp).map (liTp imm :: ·)
def ori (rd rs1 : Reg) (imm : BitVec 12) : Option (List Base) :=
  (or image rd rs1 tp).map (liTp imm :: ·)
def xori (rd rs1 : Reg) (imm : BitVec 12) : Option (List Base) :=
  (xor image rd rs1 tp).map (liTp imm :: ·)

/-! ## Loads -/

def lb (rd base : Reg) (imm : BitVec 12) : List Base :=
  [.sw x0 sp (SP_VAR .A), .lbu rd base imm, .sb rd sp (SP_VAR_BYTE .A 3),
    .lw rd sp (SP_VAR .A)] ++ srai image rd rd 24

def lhu (rd base : Reg) (imm : BitVec 12) : List Base :=
  [.sw x0 sp (SP_VAR .A), .lbu tp base (imm + 1),
    .sb tp sp (SP_VAR_BYTE .A 1), .lw tp sp (SP_VAR .A), .lbu rd base imm,
    .add rd rd tp]

def lh (rd base : Reg) (imm : BitVec 12) : List Base :=
  [.sw x0 sp (SP_VAR .A), .lbu gp base (imm + 1),
    .sb gp sp (SP_VAR_BYTE .A 3), .lw gp sp (SP_VAR .A)] ++
    srai image gp gp 16 ++ [.lbu rd base imm, .add rd rd gp]

end Tables

/-! ## Jumps -/

def callTemplate (r : Reg) (addr : Word) : List Base :=
  la r addr ++ [.jalr r r 0]

def jal (rd : Reg) (addr : Word) : List Base :=
  if rd = x0 then callTemplate tp addr else callTemplate rd addr

def tail (addr : Word) : List Base :=
  la tp addr ++ [.jalr x0 tp 0] ++ callTemplate ra addr

end Ysyx.Rvmini
