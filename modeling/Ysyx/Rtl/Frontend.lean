import Ysyx.Rtl.Bundles

/-!
# Fetch unit and branch predictors

`ysyx_25040131_ifu`, `ysyx_25040131_btb` and `ysyx_25040131_ras`.
-/

namespace Ysyx.Rtl

/-! ## Instruction fetch unit -/

inductive IfuState where
  | idle
  | reqAr
  | waitR
  | done
  deriving DecidableEq, Repr

/-- The registers of `ysyx_25040131_ifu`. -/
structure Ifu where
  state : IfuState
  instReg : Word
  pcReg : Word
  outValid : Bool
  ifuArvalid : Bool
  ifuRready : Bool
  excValid : Bool
  excCause : Word
  excTval : Word
  deriving DecidableEq, Repr

namespace Ifu

/-- The reset branches; the start address depends on the platform. -/
def reset (pcInit : Word) : Ifu where
  state := .idle
  instReg := 0
  pcReg := pcInit
  outValid := false
  ifuArvalid := false
  ifuRready := false
  excValid := false
  excCause := 0
  excTval := 0

/-- The input ports of `ysyx_25040131_ifu`. -/
structure In where
  nextPc : Word
  flushReq : Bool
  nextReady : Bool
  ifuArready : Bool
  ifuRdata : Word
  ifuRresp : BitVec 2
  ifuRvalid : Bool

/-- The program-counter block. -/
def nextPcReg (ifu : Ifu) (port : In) : Word :=
  if port.flushReq ∨ (ifu.state = .done ∧ port.nextReady) then
    port.nextPc
  else
    ifu.pcReg

/-- One clock edge outside reset. -/
def next (ifu : Ifu) (port : In) : Ifu :=
  let pcReg := ifu.nextPcReg port
  if port.flushReq then
    { ifu with
      pcReg
      state := .idle
      outValid := false
      ifuArvalid := false
      ifuRready := false
      excValid := false }
  else
    match ifu.state with
    | .idle =>
        if port.nextReady then
          { ifu with
            pcReg, state := .reqAr, ifuArvalid := true, excValid := false }
        else
          { ifu with pcReg }
    | .reqAr =>
        if ifu.ifuArvalid ∧ port.ifuArready then
          { ifu with
            pcReg, state := .waitR, ifuArvalid := false, ifuRready := true }
        else
          { ifu with pcReg }
    | .waitR =>
        if ifu.ifuRready ∧ port.ifuRvalid then
          { ifu with
            pcReg
            ifuRready := false
            instReg := port.ifuRdata
            excValid := if port.ifuRresp ≠ 0 then true else ifu.excValid
            excCause := if port.ifuRresp ≠ 0 then 1 else ifu.excCause
            excTval := if port.ifuRresp ≠ 0 then ifu.pcReg else ifu.excTval
            state := .done
            outValid := true }
        else
          { ifu with pcReg }
    | .done =>
        if port.nextReady then
          { ifu with pcReg, state := .idle, outValid := false }
        else
          { ifu with pcReg }

/-! ### After a clock edge -/

theorem next_pcReg (ifu : Ifu) (port : In) :
    (ifu.next port).pcReg = ifu.nextPcReg port := by
  unfold next
  cases ifu.state <;> simp only <;> split_ifs <;> rfl

theorem next_outValid (ifu : Ifu) (port : In)
    (marks : ifu.outValid = (ifu.state == .done)) :
    (ifu.next port).outValid = ((ifu.next port).state == .done) := by
  unfold next
  cases state : ifu.state <;> simp only [state] at marks ⊢ <;> split_ifs <;>
    simp [marks]

/-- A fetch that is under way was not flushed; it has just been started for
a ready IF/ID, or was under way and has not been handed over. -/
theorem busy_cases {ifu : Ifu} {port : In}
    (busy : (ifu.next port).state ≠ .idle) :
    port.flushReq = false ∧
      (ifu.state = .idle ∧ port.nextReady = true ∨
        ifu.state ≠ .idle ∧
          (ifu.state = .done → port.nextReady = false)) := by
  unfold next at busy
  cases flush : port.flushReq with
  | true =>
      simp [flush] at busy
  | false =>
      refine ⟨rfl, ?_⟩
      cases state : ifu.state <;> cases ready : port.nextReady <;>
        simp_all

end Ifu

/-! ## Branch target buffer -/

/-- The arrays of `ysyx_25040131_btb` with 64 entries. -/
structure Btb where
  tagArr : BitVec 6 → BitVec 24
  tgtArr : BitVec 6 → Word
  validArr : BitVec 6 → Bool
  cntArr : BitVec 6 → BitVec 2

namespace Btb

def idx (pc : Word) : BitVec 6 := pc.extractLsb' 2 6
def tag (pc : Word) : BitVec 24 := pc.extractLsb' 8 24

/-- The reset branch; tags and targets keep their value. -/
def reset (btb : Btb) : Btb :=
  { btb with validArr := fun _ => false, cntArr := fun _ => 0b01 }

def tagMatch (btb : Btb) (pc : Word) : Bool :=
  btb.validArr (idx pc) && btb.tagArr (idx pc) == tag pc

/-- `btb_hit`, queried in IF. -/
def hit (btb : Btb) (ifPc : Word) : Bool :=
  btb.tagMatch ifPc && (btb.cntArr (idx ifPc)).getLsbD 1

/-- `btb_target`, queried in IF. -/
def target (btb : Btb) (ifPc : Word) : Word :=
  btb.tgtArr (idx ifPc)

/-- The 2-bit saturating counter after one outcome. -/
def saturate (cnt : BitVec 2) (taken : Bool) : BitVec 2 :=
  if taken then
    if cnt = 0b11 then 0b11 else cnt + 1
  else if cnt = 0b00 then 0b00 else cnt - 1

/-- One clock edge outside reset: the update from EX. -/
def next (btb : Btb) (exUpdateEn : Bool) (exPc exTarget : Word)
    (exTaken : Bool) : Btb :=
  let exIdx := idx exPc
  if exUpdateEn then
    if btb.tagMatch exPc then
      { btb with
        cntArr := fun index =>
          if index = exIdx then saturate (btb.cntArr exIdx) exTaken
          else btb.cntArr index
        tgtArr := fun index =>
          if index = exIdx ∧ exTaken then exTarget else btb.tgtArr index }
    else if exTaken then
      { validArr := fun index =>
          if index = exIdx then true else btb.validArr index
        tagArr := fun index =>
          if index = exIdx then tag exPc else btb.tagArr index
        tgtArr := fun index =>
          if index = exIdx then exTarget else btb.tgtArr index
        cntArr := fun index =>
          if index = exIdx then 0b10 else btb.cntArr index }
    else
      btb
  else
    btb

end Btb

/-! ## Return address stack -/

/-- The registers of `ysyx_25040131_ras` with `DEPTH = 2 ^ ptrW`. -/
structure Ras (ptrW : Nat) where
  stack : BitVec ptrW → Word
  sp : BitVec ptrW

namespace Ras

variable {ptrW : Nat}

/-- `rst` and `flush` clear the pointer and keep the stack. -/
def reset (ras : Ras ptrW) : Ras ptrW := { ras with sp := 0 }

/-- `ras_hit`. -/
def hit (ras : Ras ptrW) (idValid idIsRet : Bool) : Bool :=
  idValid && idIsRet && ras.sp != 0

/-- `ras_target`. -/
def target (ras : Ras ptrW) : Word := ras.stack (ras.sp - 1)

/-- One clock edge outside reset. -/
def next (ras : Ras ptrW) (flush idValid idIsCall idIsRet : Bool)
    (idPc : Word) : Ras ptrW :=
  if flush then
    ras.reset
  else if idValid then
    if idIsCall ∧ ¬ idIsRet then
      { stack := fun slot =>
          if slot = ras.sp then idPc + 4 else ras.stack slot
        sp := ras.sp + 1 }
    else if idIsRet ∧ ras.sp ≠ 0 then
      { ras with sp := ras.sp - 1 }
    else
      ras
  else
    ras

end Ras

end Ysyx.Rtl
