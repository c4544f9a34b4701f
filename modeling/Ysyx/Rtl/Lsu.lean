import Ysyx.Rtl.Bundles

/-!
# Load-store unit

`ysyx_25040131_lsu`: byte lanes, and a load and a store state machine in
front of the bus.
-/

namespace Ysyx.Rtl

/-! ## Byte lanes -/

/-- `gen_wstrb`. -/
def genWstrb (writeMem : BitVec 2) (addr : Word) : BitVec 8 :=
  let offset := addr.extractLsb' 0 2
  let w4 : BitVec 4 :=
    if writeMem = 0b01 then 0b1111
    else if writeMem = 0b10 then
      if offset.getLsbD 1 then 0b1100 else 0b0011
    else if writeMem = 0b11 then
      if offset = 0b00 then 0b0001
      else if offset = 0b01 then 0b0010
      else if offset = 0b10 then 0b0100
      else 0b1000
    else 0b0000
  0#4 ++ w4

/-- `gen_wdata_aligned`. -/
def genWdataAligned (writeMem : BitVec 2) (addr wdataIn : Word) : Word :=
  let offset := addr.extractLsb' 0 2
  let half := wdataIn.extractLsb' 0 16
  let byte := wdataIn.extractLsb' 0 8
  if writeMem = 0b01 then wdataIn
  else if writeMem = 0b10 then
    if offset.getLsbD 1 then half ++ 0#16 else 0#16 ++ half
  else if writeMem = 0b11 then
    if offset = 0b00 then 0#24 ++ byte
    else if offset = 0b01 then 0#16 ++ byte ++ 0#8
    else if offset = 0b10 then 0#8 ++ byte ++ 0#16
    else byte ++ 0#24
  else 0

/-- The half word `sign_extend` selects; offset 3 is approximated by the
upper half, as in the source. -/
def halfData (rawData addr : Word) : BitVec 16 :=
  let addrOffset := addr.extractLsb' 0 2
  if addrOffset = 0b00 then rawData.extractLsb' 0 16
  else if addrOffset = 0b01 then rawData.extractLsb' 8 16
  else rawData.extractLsb' 16 16

/-- The byte `sign_extend` selects. -/
def byteData (rawData addr : Word) : BitVec 8 :=
  let addrOffset := addr.extractLsb' 0 2
  if addrOffset = 0b00 then rawData.extractLsb' 0 8
  else if addrOffset = 0b01 then rawData.extractLsb' 8 8
  else if addrOffset = 0b10 then rawData.extractLsb' 16 8
  else rawData.extractLsb' 24 8

/-- `sign_extend`. -/
def signExtend (rawData : Word) (readMem : BitVec 3) (addr : Word) : Word :=
  if readMem = 0b001 then rawData
  else if readMem = 0b010 then (halfData rawData addr).zeroExtend 32
  else if readMem = 0b011 then (byteData rawData addr).zeroExtend 32
  else if readMem = 0b110 then (halfData rawData addr).signExtend 32
  else if readMem = 0b111 then (byteData rawData addr).signExtend 32
  else rawData

/-! ## State machines -/

inductive LoadState where
  | idle
  | addr
  | data
  | done
  deriving DecidableEq, Repr

inductive StoreState where
  | idle
  | sync
  | resp
  | done
  deriving DecidableEq, Repr

/-- The registers of `ysyx_25040131_lsu`. -/
structure Lsu where
  stateLoad : LoadState
  stateStore : StoreState
  addrReg : Word
  readMemReg : BitVec 3
  writeMemReg : BitVec 2
  rawReadData : Word
  readData : Word
  awDone : Bool
  wDone : Bool
  lsuAraddr : Word
  lsuArvalid : Bool
  lsuRready : Bool
  lsuAwaddr : Word
  lsuAwvalid : Bool
  lsuWdata : Word
  lsuWstrb : BitVec 8
  lsuWvalid : Bool
  lsuBready : Bool
  accessFault : Bool
  excValid : Bool
  excCause : Word
  excTval : Word
  deriving DecidableEq, Repr

namespace Lsu

/-- A power-up state with every register at zero. -/
def zeroed : Lsu where
  stateLoad := .idle
  stateStore := .idle
  addrReg := 0
  readMemReg := 0
  writeMemReg := 0
  rawReadData := 0
  readData := 0
  awDone := false
  wDone := false
  lsuAraddr := 0
  lsuArvalid := false
  lsuRready := false
  lsuAwaddr := 0
  lsuAwvalid := false
  lsuWdata := 0
  lsuWstrb := 0
  lsuWvalid := false
  lsuBready := false
  accessFault := false
  excValid := false
  excCause := 0
  excTval := 0

/-- The reset block; `exc_valid`, `exc_cause` and `exc_tval` are not in it. -/
def reset (lsu : Lsu) : Lsu :=
  { lsu with
    stateLoad := .idle
    stateStore := .idle
    addrReg := 0
    readMemReg := 0
    writeMemReg := 0
    rawReadData := 0
    readData := 0
    lsuAraddr := 0
    lsuArvalid := false
    lsuRready := false
    lsuAwaddr := 0
    lsuAwvalid := false
    lsuWdata := 0
    lsuWstrb := 0
    lsuWvalid := false
    lsuBready := false
    accessFault := false
    awDone := false
    wDone := false }

/-- The input ports of `ysyx_25040131_lsu`. -/
structure In where
  addr : Word
  data : Word
  readMem : BitVec 3
  writeMem : BitVec 2
  prevValid : Bool
  nextReady : Bool
  lsuArready : Bool
  lsuRdata : Word
  lsuRresp : BitVec 2
  lsuRvalid : Bool
  lsuAwready : Bool
  lsuWready : Bool
  lsuBvalid : Bool
  lsuBresp : BitVec 2

/-- `out_valid`. -/
def outValid (lsu : Lsu) (prevValid nextReady : Bool)
    (readMem : BitVec 3) (writeMem : BitVec 2) : Bool :=
  (lsu.stateLoad == .idle && lsu.stateStore == .idle && prevValid &&
      nextReady && readMem == 0 && writeMem == 0) ||
    lsu.stateLoad == .done || lsu.stateStore == .done

/-- `out_ready`. -/
def outReady (lsu : Lsu) (prevValid nextReady : Bool)
    (readMem : BitVec 3) (writeMem : BitVec 2) : Bool :=
  lsu.outValid prevValid nextReady readMem writeMem && nextReady

/-- `LOAD_IDLE` accepts the load presented by EX/MEM. -/
def loadStart (lsu : Lsu) (port : In) : Bool :=
  lsu.stateLoad == .idle && port.prevValid && port.nextReady &&
    port.readMem != 0

/-- `STORE_IDLE` accepts the store presented by EX/MEM. -/
def storeStart (lsu : Lsu) (port : In) : Bool :=
  lsu.stateStore == .idle && port.prevValid && port.nextReady &&
    port.writeMem != 0

/-- The load state machine; `out_valid` always holds in `LOAD_DONE`. -/
def nextLoad (lsu : Lsu) (port : In) : Lsu :=
  match lsu.stateLoad with
  | .idle =>
      if lsu.loadStart port then
        { lsu with
          addrReg := port.addr
          readMemReg := port.readMem
          accessFault := false
          excValid := false
          lsuAraddr := port.addr
          lsuArvalid := true
          stateLoad := .addr }
      else
        lsu
  | .addr =>
      if lsu.lsuArvalid ∧ port.lsuArready then
        { lsu with
          lsuAraddr := 0
          lsuArvalid := false
          stateLoad := .data
          lsuRready := true }
      else
        lsu
  | .data =>
      if lsu.lsuRready ∧ port.lsuRvalid then
        { lsu with
          rawReadData := port.lsuRdata
          readData := signExtend port.lsuRdata lsu.readMemReg lsu.addrReg
          accessFault := if port.lsuRresp ≠ 0 then true else lsu.accessFault
          stateLoad := .done
          lsuRready := false }
      else
        lsu
  | .done =>
      if port.nextReady then { lsu with stateLoad := .idle } else lsu

/-- The store state machine; `out_valid` always holds in `STORE_DONE`. -/
def nextStore (lsu : Lsu) (port : In) : Lsu :=
  match lsu.stateStore with
  | .idle =>
      if lsu.storeStart port then
        { lsu with
          addrReg := port.addr
          writeMemReg := port.writeMem
          accessFault := false
          excValid := false
          lsuAwaddr := port.addr
          lsuAwvalid := true
          lsuWdata := genWdataAligned port.writeMem port.addr port.data
          lsuWstrb := genWstrb port.writeMem port.addr
          lsuWvalid := true
          stateStore := .sync }
      else
        lsu
  | .sync =>
      let awTaken := lsu.lsuAwvalid ∧ port.lsuAwready
      let wTaken := lsu.lsuWvalid ∧ port.lsuWready
      let sent := (lsu.awDone ∨ port.lsuAwready) ∧
        (lsu.wDone ∨ port.lsuWready)
      { lsu with
        lsuAwvalid := if awTaken then false else lsu.lsuAwvalid
        lsuWvalid := if wTaken then false else lsu.lsuWvalid
        awDone := if sent then false
          else if awTaken then true else lsu.awDone
        wDone := if sent then false
          else if wTaken then true else lsu.wDone
        lsuBready := if sent then true else lsu.lsuBready
        stateStore := if sent then .resp else .sync }
  | .resp =>
      if lsu.lsuBready ∧ port.lsuBvalid then
        { lsu with
          lsuBready := false
          stateStore := .done
          accessFault :=
            if port.lsuBresp ≠ 0 then true else lsu.accessFault }
      else
        lsu
  | .done =>
      if port.nextReady then
        { lsu with lsuWstrb := 0, stateStore := .idle }
      else
        lsu

/-- One clock edge outside reset.  Both machines read the old registers; of
the registers they share, the store machine writes last. -/
def next (lsu : Lsu) (port : In) : Lsu :=
  (lsu.nextLoad port).nextStore port

/-! ## States after a clock edge -/

theorem next_stateLoad (lsu : Lsu) (port : In) :
    (lsu.next port).stateLoad = (lsu.nextLoad port).stateLoad := by
  unfold next nextStore
  split
  · split_ifs <;> rfl
  · rfl
  · split_ifs <;> rfl
  · split_ifs <;> rfl

theorem nextLoad_stateStore (lsu : Lsu) (port : In) :
    (lsu.nextLoad port).stateStore = lsu.stateStore := by
  unfold nextLoad
  split <;> split_ifs <;> rfl

/-- `exc_valid` is never set; the start of an access clears it. -/
theorem nextLoad_excValid {lsu : Lsu} {port : In}
    (raised : (lsu.nextLoad port).excValid = true) :
    lsu.excValid = true ∧ lsu.loadStart port = false := by
  unfold nextLoad at raised
  cases state : lsu.stateLoad with
  | idle =>
      simp only [state] at raised
      split_ifs at raised with starts
      exact ⟨raised, Bool.eq_false_iff.mpr starts⟩
  | _ =>
      have raised : lsu.excValid = true := by
        simp only [state] at raised
        split_ifs at raised <;> exact raised
      exact ⟨raised, by simp [loadStart, state]⟩

theorem nextStore_excValid {lsu : Lsu} {port : In}
    (raised : (lsu.nextStore port).excValid = true) :
    lsu.excValid = true ∧ lsu.storeStart port = false := by
  unfold nextStore at raised
  cases state : lsu.stateStore with
  | idle =>
      simp only [state] at raised
      split_ifs at raised with starts
      exact ⟨raised, Bool.eq_false_iff.mpr starts⟩
  | _ =>
      have raised : lsu.excValid = true := by
        simp only [state] at raised
        first
          | exact raised
          | (split_ifs at raised <;> exact raised)
      exact ⟨raised, by simp [storeStart, state]⟩

theorem nextLoad_storeStart (lsu : Lsu) (port : In) :
    (lsu.nextLoad port).storeStart port = lsu.storeStart port := by
  simp only [storeStart, nextLoad_stateStore]

theorem next_excValid {lsu : Lsu} {port : In}
    (raised : (lsu.next port).excValid = true) :
    lsu.excValid = true ∧ lsu.loadStart port = false ∧
      lsu.storeStart port = false := by
  obtain ⟨load, noStore⟩ := nextStore_excValid raised
  obtain ⟨before, noLoad⟩ := nextLoad_excValid load
  rw [nextLoad_storeStart] at noStore
  exact ⟨before, noLoad, noStore⟩

/-- A busy load machine has just started or was busy and not yet done. -/
theorem busyLoad_cases {lsu : Lsu} {port : In}
    (busy : (lsu.next port).stateLoad ≠ .idle)
    (ready : port.nextReady = true) :
    lsu.loadStart port = true ∨
      lsu.stateLoad ≠ .idle ∧ lsu.stateLoad ≠ .done := by
  rw [next_stateLoad] at busy
  unfold nextLoad at busy
  cases state : lsu.stateLoad with
  | idle =>
      simp only [state] at busy
      split_ifs at busy with starts
      · exact Or.inl starts
      · exact absurd state busy
  | done =>
      simp [state, ready] at busy
  | _ =>
      exact Or.inr ⟨by simp, by simp⟩

/-- A busy store machine has just started or was busy and not yet done. -/
theorem busyStore_cases {lsu : Lsu} {port : In}
    (busy : (lsu.next port).stateStore ≠ .idle)
    (ready : port.nextReady = true) :
    lsu.storeStart port = true ∨
      lsu.stateStore ≠ .idle ∧ lsu.stateStore ≠ .done := by
  have same := nextLoad_stateStore lsu port
  unfold next nextStore at busy
  rw [same] at busy
  cases state : lsu.stateStore with
  | idle =>
      simp only [state] at busy
      split_ifs at busy with starts
      · left
        simpa [storeStart, same] using starts
      · exact absurd (same.trans state) busy
  | done =>
      simp [state, ready] at busy
  | _ =>
      exact Or.inr ⟨by simp, by simp⟩

end Lsu

end Ysyx.Rtl
