import Ysyx.Rtl.Bundles

/-!
# The execute stage

`ysyx_25040131_alu`, the operand multiplexers, and the forwarding and hazard
units.
-/

namespace Ysyx.Rtl

/-! ## ALU -/

/-- The data output of `ysyx_25040131_alu`. -/
def aluOut (aluc : BitVec 5) (a b : Word) : Word :=
  if aluc = 0b00000 then a + b
  else if aluc = 0b00001 then a - b
  else if aluc = 0b00010 then a &&& b
  else if aluc = 0b00011 then a ||| b
  else if aluc = 0b00100 then a ^^^ b
  else if aluc = 0b00101 then a <<< b.extractLsb' 0 5
  else if aluc = 0b00110 then if a.slt b then 1 else 0
  else if aluc = 0b00111 then if a < b then 1 else 0
  else if aluc = 0b01000 then a >>> b.extractLsb' 0 5
  else if aluc = 0b01001 then a.sshiftRight' (b.extractLsb' 0 5)
  else if aluc = 0b01010 then (a + b) &&& ~~~1#32
  else if aluc = 0b10001 then b
  else 0

/-- `condition_branch`, the branch output of `ysyx_25040131_alu`. -/
def conditionBranch (aluc : BitVec 5) (a b : Word) : Bool :=
  if aluc = 0b01011 then a == b
  else if aluc = 0b01100 then a != b
  else if aluc = 0b01101 then a.slt b
  else if aluc = 0b01110 then b.sle a
  else if aluc = 0b01111 then a.ult b
  else if aluc = 0b10000 then b.ule a
  else false

/-- `ysyx_25040131_mux_2`. -/
def mux2 (signal : Bool) (a b : Word) : Word :=
  if signal = false then a else b

/-- `ysyx_25040131_mux_3`. -/
def mux3 (signal : BitVec 2) (a b c : Word) : Word :=
  if signal = 0b00 then a else if signal = 0b01 then b else c

/-! ## Forwarding -/

/-- Where an EX operand is taken from (`forward_a_sel`, `forward_b_sel`). -/
inductive ForwardSel where
  | regFile
  | memWb
  | exMem
  deriving DecidableEq, Repr

/-- One output of `ysyx_25040131_forward`; the other differs only in the
source index. -/
def forwardSel (idExRsIdx : BitVec 5) (exMemRdIdx : BitVec 5)
    (exMemRegWrite exMemValid : Bool) (memWbRdIdx : BitVec 5)
    (memWbRegWrite : Bool) : ForwardSel :=
  if exMemValid ∧ exMemRegWrite ∧ exMemRdIdx ≠ 0 ∧ exMemRdIdx = idExRsIdx then
    .exMem
  else if memWbRegWrite ∧ memWbRdIdx ≠ 0 ∧ memWbRdIdx = idExRsIdx then
    .memWb
  else
    .regFile

/-! ## Load-use hazards -/

/-- `is_load_use` of `ysyx_25040131_hazard`, driving both `stall_if_id` and
`flush_id_ex`. -/
def hazard (idRs1 idRs2 : BitVec 5) (idExOutRd : BitVec 5)
    (idExOutMemRead : Bool) (exMemOutRd : BitVec 5)
    (exMemOutMemRead exMemReadyOut : Bool) : Bool :=
  let conflictIdEx := idExOutRd != 0 &&
    (idExOutRd == idRs1 || idExOutRd == idRs2)
  let conflictIdMem := !exMemReadyOut && exMemOutRd != 0 &&
    (exMemOutRd == idRs1 || exMemOutRd == idRs2)
  (conflictIdEx && idExOutMemRead) || (conflictIdMem && exMemOutMemRead)

end Ysyx.Rtl
