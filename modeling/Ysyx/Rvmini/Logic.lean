import Ysyx.Rvmini.Arithmetic

/-!
# Bitwise logic

The macros `and`, `or` and `xor` look up one byte after the other.
-/

namespace Ysyx.Rvmini

open Nemu Bytes

/-- The bytes at `lut` are those of `op`, `256 * a + b` being the place of the
operands `a` and `b`. -/
def IsByteTable (image : Image) (lut : Word)
    (op : BitVec 8 → BitVec 8 → BitVec 8) : Prop :=
  ∀ pmem, image.Loaded pmem → ∀ (index : Word) (a b : BitVec 8),
    index.toNat = a.toNat * 256 + b.toNat →
      hostRead pmem (lut + index) 1 = (op a b).setWidth 32

section Logic

variable {image : Image} {state : State} {rd : Reg} {lut : Word}
  {op : BitVec 8 → BitVec 8 → BitVec 8}

/-- The index in `VAR_D` has two bytes. -/
def IndexClear (state : State) : Prop :=
  byte (scratch state.pmem (state.cpu.gpr sp) .D) 2 = 0 ∧
    byte (scratch state.pmem (state.cpu.gpr sp) .D) 3 = 0

theorem touches_logic8ByteInternal (lutReg : Reg) (boffset : Fin 4) :
    ∀ base ∈ logic8ByteInternal lutReg boffset,
      base.Touches [tp] [.C, .D] := by
  simp [logic8ByteInternal, Base.Touches]

theorem index_toNat {a b : BitVec 8} (old : Word)
    (clear : byte old 2 = 0 ∧ byte old 3 = 0) :
    (setByte (setByte old 1 a) 0 b).toNat = a.toNat * 256 + b.toNat := by
  rw [toNat_eq_bytes]
  simp [byte_setByte, clear]
  omega

/-- One byte of the result. -/
theorem logic8ByteInternal_effect (isTable : IsByteTable image lut op)
    (ready : Ready image state) (table : state.cpu.gpr rd = lut)
    (notTp : rd ≠ tp) (clear : IndexClear state) (boffset : Fin 4) :
    let after := execAll state (logic8ByteInternal rd boffset)
    scratch after.pmem (state.cpu.gpr sp) .C =
        setByte (scratch state.pmem (state.cpu.gpr sp) .C) boffset
          (op (byte (scratch state.pmem (state.cpu.gpr sp) .A) boffset)
            (byte (scratch state.pmem (state.cpu.gpr sp) .B) boffset)) ∧
      IndexClear after := by
  let front : List Base :=
    [.lbu tp sp (SP_VAR_BYTE .A boffset), .sb tp sp (SP_VAR_BYTE .D 1),
      .lbu tp sp (SP_VAR_BYTE .B boffset), .sb tp sp (SP_VAR_BYTE .D 0),
      .lw tp sp (SP_VAR .D)]
  let built := execAll state front
  have frame : Frame [tp] [.D] state built :=
    frame_execAll (by simp [front, Base.Touches]) (by decide)
  have index : built.cpu.gpr tp =
      setByte (setByte (scratch state.pmem (state.cpu.gpr sp) .D) 1
        (byte (scratch state.pmem (state.cpu.gpr sp) .A) boffset)) 0
          (byte (scratch state.pmem (state.cpu.gpr sp) .B) boffset) := by
    simp +decide [built, front, gpr_setR]
  have word : scratch built.pmem (state.cpu.gpr sp) .D =
      built.cpu.gpr tp := by
    simp +decide [built, front, gpr_setR]
  have looked := isTable _ (ready.frame frame (by decide)).loaded
    (built.cpu.gpr tp)
    (byte (scratch state.pmem (state.cpu.gpr sp) .A) boffset)
    (byte (scratch state.pmem (state.cpu.gpr sp) .B) boffset)
    (by rw [index, index_toNat _ clear])
  rw [← table, ← frame.gpr rd (by simp [notTp])] at looked
  have stack := frame.gpr sp (by decide)
  have result := frame.var .C (by decide)
  have split : logic8ByteInternal rd boffset =
      front ++ [.add tp rd tp, .lbu tp tp 0,
        .sb tp sp (SP_VAR_BYTE .C boffset)] := rfl
  rw [split, execAll_append, show execAll state front = built from rfl]
  constructor
  · simp +decide [gpr_setR, looked, stack, result]
  · rw [index] at word
    simp +decide [IndexClear, gpr_setR, stack, word]
    exact clear

/-- The bytes of the result so far. -/
theorem byte_logic (isTable : IsByteTable image lut op)
    (ready : Ready image state) (table : state.cpu.gpr rd = lut)
    (notTp : rd ≠ tp) (clear : IndexClear state)
    (lanes : List (Fin 4)) (k : Fin 4) :
    byte (scratch
      (execAll state (lanes.flatMap (logic8ByteInternal rd))).pmem
        (state.cpu.gpr sp) .C) k =
      if k ∈ lanes then
        op (byte (scratch state.pmem (state.cpu.gpr sp) .A) k)
          (byte (scratch state.pmem (state.cpu.gpr sp) .B) k)
      else byte (scratch state.pmem (state.cpu.gpr sp) .C) k := by
  induction lanes generalizing state with
  | nil =>
      simp
  | cons lane lanes inductionHypothesis =>
      obtain ⟨here, stillClear⟩ := logic8ByteInternal_effect isTable ready
        table notTp clear lane
      have frame : Frame [tp] [.C, .D] state
          (execAll state (logic8ByteInternal rd lane)) :=
        frame_execAll (touches_logic8ByteInternal rd lane) (by decide)
      have later := inductionHypothesis (ready.frame frame (by decide))
        ((frame.gpr rd (by simp [notTp])).trans table) stillClear
      rw [frame.gpr sp (by decide), frame.var .A (by decide),
        frame.var .B (by decide), here, byte_setByte] at later
      rw [List.flatMap_cons, execAll_append, later]
      grind

/-- Registers that `logic` accepts, for a result that is used. -/
structure LogicOperands (rd rs1 rs2 : Reg) : Prop where
  target : rd ≠ 0#5
  notSp : rd ≠ sp ∧ rs1 ≠ sp ∧ rs2 ≠ sp
  notGp : rd ≠ gp ∧ rs1 ≠ gp ∧ rs2 ≠ gp
  notTp : rd ≠ tp ∧ rs1 ≠ tp

variable {rs1 rs2 : Reg}

/-- `logic` does not abort on other registers only. -/
theorem logic_eq_some {code : List Base} (target : rd ≠ 0#5)
    (expands : logic lut rd rs1 rs2 = some code) :
    LogicOperands rd rs1 rs2 ∧ code = List.flatten
      [[.sw rs1 sp (SP_VAR .A), .sw rs2 sp (SP_VAR .B)], la rd lut,
        [.sw x0 sp (SP_VAR .D)], [3, 2, 1, 0].flatMap (logic8ByteInternal rd),
        [.lw rd sp (SP_VAR .C)]] := by
  rw [logic, if_neg target] at expands
  split at expands
  · contradiction
  split at expands
  · contradiction
  split at expands
  · contradiction
  next notSp notGp notTp =>
    simp only [not_or] at notSp notGp notTp
    exact ⟨⟨target, notSp, notGp, notTp⟩, (Option.some.inj expands).symm⟩

/-- The bytewise operation on the two words, in `rd`. -/
theorem logic_effect (isTable : IsByteTable image lut op)
    (ready : Ready image state) {code : List Base} (target : rd ≠ 0#5)
    (expands : logic lut rd rs1 rs2 = some code) :
    Frame [rd, tp] [.A, .B, .C, .D] state (execAll state code) ∧
      ∀ k, byte ((execAll state code).cpu.gpr rd) k =
        op (byte (state.cpu.gpr rs1) k) (byte (state.cpu.gpr rs2) k) := by
  obtain ⟨operands, rfl⟩ := logic_eq_some target expands
  obtain ⟨notSp, _, _⟩ := operands.notSp
  let front := [.sw rs1 sp (SP_VAR .A), .sw rs2 sp (SP_VAR .B)] ++ la rd lut ++
    [.sw x0 sp (SP_VAR .D)]
  let stored := execAll state front
  have storedFrame : Frame [rd, tp] [.A, .B, .C, .D] state stored :=
    frame_execAll (by simp [front, la, Base.Touches])
      (by simp +decide [notSp.symm])
  have table : stored.cpu.gpr rd = lut := by
    simp +decide [stored, front, execAll_append, execAll_la, gpr_setR, target]
  have clear : IndexClear stored := by
    simp +decide [IndexClear, stored, front, execAll_append, execAll_la,
      gpr_setR, notSp.symm]
  have left : scratch stored.pmem (state.cpu.gpr sp) .A =
      state.cpu.gpr rs1 := by
    simp +decide [stored, front, execAll_append, execAll_la, gpr_setR,
      notSp.symm]
  have right : scratch stored.pmem (state.cpu.gpr sp) .B =
      state.cpu.gpr rs2 := by
    simp +decide [stored, front, execAll_append, execAll_la, gpr_setR,
      notSp.symm]
  have stack := storedFrame.gpr sp (by simp +decide [notSp.symm])
  have storedReady := ready.frame storedFrame (by simp +decide [notSp.symm])
  let bytes := [3, 2, 1, 0].flatMap (logic8ByteInternal rd)
  have bytesFrame : Frame [tp] [.C, .D] stored (execAll stored bytes) :=
    frame_execAll (by simp [bytes, logic8ByteInternal, Base.Touches])
      (by decide)
  have split : execAll state (List.flatten
      [[.sw rs1 sp (SP_VAR .A), .sw rs2 sp (SP_VAR .B)], la rd lut,
        [.sw x0 sp (SP_VAR .D)], bytes, [.lw rd sp (SP_VAR .C)]]) =
      execAll (execAll stored bytes) [.lw rd sp (SP_VAR .C)] := by
    simp only [stored, front, List.flatten_cons, List.flatten_nil,
      List.append_nil, execAll_append]
  rw [split]
  constructor
  · have middle := storedFrame.trans (bytesFrame.mono (by simp) (by simp))
      (by simp +decide [notSp.symm])
    exact middle.trans (frame_execAll (by simp [Base.Touches])
      (by simp +decide [notSp.symm])) (by simp +decide [notSp.symm])
  · intro k
    have result := byte_logic isTable storedReady table
      operands.notTp.1 clear [3, 2, 1, 0] k
    rw [if_pos (mem_lanes k), stack, left, right] at result
    have stack' := bytesFrame.gpr sp (by decide)
    simp only [execAll_cons, execAll_nil, Base.exec_lw, hostRead_place,
      Am.setR_gpr_self _ target, stack', stack]
    exact result

theorem gpr_and (ready : Ready image state) {code : List Base}
    (target : rd ≠ 0#5) (expands : and image rd rs1 rs2 = some code) :
    (execAll state code).cpu.gpr rd =
      state.cpu.gpr rs1 &&& state.cpu.gpr rs2 := by
  apply ext_byte
  intro k
  rw [byte_and]
  exact (logic_effect (fun _ loaded index a b => loaded.lbu_and8 index a b) ready target
    expands).2 k

theorem gpr_or (ready : Ready image state) {code : List Base}
    (target : rd ≠ 0#5) (expands : or image rd rs1 rs2 = some code) :
    (execAll state code).cpu.gpr rd =
      state.cpu.gpr rs1 ||| state.cpu.gpr rs2 := by
  apply ext_byte
  intro k
  rw [byte_or]
  exact (logic_effect (fun _ loaded index a b => loaded.lbu_or8 index a b) ready target
    expands).2 k

theorem gpr_xor (ready : Ready image state) {code : List Base}
    (target : rd ≠ 0#5) (expands : xor image rd rs1 rs2 = some code) :
    (execAll state code).cpu.gpr rd =
      state.cpu.gpr rs1 ^^^ state.cpu.gpr rs2 := by
  apply ext_byte
  intro k
  rw [byte_xor]
  exact (logic_effect (fun _ loaded index a b => loaded.lbu_xor8 index a b) ready target
    expands).2 k

end Logic

end Ysyx.Rvmini
