import Ysyx.Rvmini.Expand

/-!
# Linking

The assembler lays the lines of a file out one after another, resolves their
labels and puts the code of the macros there.
-/

namespace Ysyx.Rvmini

open Nemu

/-- A label stands for the line after it; other symbols have an address. -/
inductive Symbol where
  | label (line : Nat)
  | other (addr : Word)
  deriving DecidableEq, Repr

namespace Inst

variable {α β : Type}

/-- The number of base instructions of a line. -/
def size (image : Image) (inst : Inst α) : Nat :=
  ((inst.map fun _ => (0 : Word)).expand image 0).elim 0 List.length

theorem map_map {γ : Type} (f : α → β) (g : β → γ) (inst : Inst α) :
    (inst.map f).map g = inst.map (g ∘ f) := by
  cases inst <;> rfl

theorem size_map (image : Image) (f : α → β) (inst : Inst α) :
    (inst.map f).size image = inst.size image := by
  rw [size, map_map, size]
  rfl

theorem regs_map (f : α → β) (inst : Inst α) :
    (inst.map f).regs = inst.regs := by
  cases inst <;> rfl

theorem macroRd_map (f : α → β) (inst : Inst α) :
    (inst.map f).macroRd = inst.macroRd := by
  cases inst <;> rfl

theorem target?_map (f : α → β) (inst : Inst α) :
    (inst.map f).target? = inst.target?.map f := by
  cases inst <;> rfl

theorem Clean.map {inst : Inst α} (clean : inst.Clean) (f : α → β) :
    (inst.map f).Clean where
  free := by
    rw [regs_map]
    exact clean.free
  notSp := by
    rw [macroRd_map]
    exact clean.notSp
  notSaved rs1 same := by
    cases inst with
    | unary kind rd rs =>
        obtain ⟨rfl, rfl, rfl⟩ : kind = .seqz ∧ rd = s0 ∧ rs = rs1 := by
          simpa [Inst.map] using same
        exact clean.notSaved rs rfl
    | _ => simp [Inst.map] at same

end Inst

section Sizes

variable {image : Image} {next : Word}

theorem length_branchResolve (target label other label' : Word) (high : Bool) :
    (branchResolve target high label).length =
      (branchResolve other high label').length := by
  cases high <;> simp [branchResolve, slli_small, la]

theorem length_branch (kind : BranchOp) (rs1 rs2 : Reg)
    (target label other label' : Word) :
    (kind.expand image rs1 rs2 target label).length =
      (kind.expand image rs1 rs2 other label').length := by
  have resolved := length_branchResolve target label other label'
  cases kind with
  | beq => simp [BranchOp.expand, beq, resolved true]
  | bne => simp [BranchOp.expand, bne, resolved false]
  | blt =>
      simp only [BranchOp.expand, blt]
      split
      · simp [resolved true]
      split
      · simp [resolved false]
      · simp [resolved true]
  | bge =>
      simp only [BranchOp.expand, bge]
      split
      · simp [resolved true]
      · simp [resolved false]
  | bltu => simp [BranchOp.expand, bltu, resolved true]
  | bgeu => simp [BranchOp.expand, bgeu, resolved false]

/-- The size of a line does not depend on addresses. -/
theorem length_expand {inst : Inst Word} {code : List Base}
    (expands : inst.expand image next = some code) :
    code.length = inst.size image := by
  cases inst with
  | branch kind rs1 rs2 target =>
      obtain rfl := Option.some.inj expands
      exact length_branch kind rs1 rs2 _ _ _ _
  | jal rd target =>
      obtain rfl := Option.some.inj expands
      simp only [Inst.size, Inst.map, Inst.expand, Option.elim_some, jal]
      split <;> simp [callTemplate, la]
  | tail target =>
      obtain rfl := Option.some.inj expands
      simp [Inst.size, Inst.map, Inst.expand, tail, callTemplate, la]
  | la rd symbol =>
      obtain rfl := Option.some.inj expands
      simp [Inst.size, Inst.map, Inst.expand, la]
  | _ =>
      rw [Inst.size, Inst.map]
      rw [Inst.expand] at expands ⊢
      rw [expands]
      rfl

end Sizes

/-- The macros that leave no code for some operands. -/
def Inst.vanishes {α : Type} : Inst α → Bool
  | op .and rd _ _ => rd == x0
  | op .or rd _ _ => rd == x0
  | op .xor rd _ _ => rd == x0
  | shift .slli rd rs1 imm => rd == rs1 && imm == 0
  | _ => false

theorem logic_ne_nil {lut : Word} {rd rs1 rs2 : Reg} {code : List Base}
    (stays : (rd == x0) = false)
    (expands : logic lut rd rs1 rs2 = some code) : code ≠ [] := by
  obtain ⟨-, rfl⟩ := logic_eq_some (by simpa using stays) expands
  simp

theorem op_expand_ne_nil {image : Image} {kind : Op} {rd rs1 rs2 : Reg}
    {code : List Base} (stays : (Inst.op kind rd rs1 rs2 : Inst Word).vanishes =
      false)
    (expands : kind.expand image rd rs1 rs2 = some code) : code ≠ [] := by
  cases kind with
  | and => exact logic_ne_nil stays expands
  | or => exact logic_ne_nil stays expands
  | xor => exact logic_ne_nil stays expands
  | _ =>
      obtain rfl := Option.some.inj expands
      simp [sub, not, slt, sltu, sltTemplate, sll, srl, sra, shiftRightReg]

/-- Every other line has code. -/
theorem expand_ne_nil {image : Image} {next : Word} {inst : Inst Word}
    {code : List Base} (stays : inst.vanishes = false)
    (expands : inst.expand image next = some code) : code ≠ [] := by
  cases inst with
  | base kept =>
      obtain rfl := Option.some.inj expands
      simp
  | op kind rd rs1 rs2 =>
      exact op_expand_ne_nil stays expands
  | opImm kind rd rs1 imm =>
      obtain ⟨rest, -, rfl⟩ := kind.expand_eq expands
      simp
  | shift kind rd rs1 imm =>
      obtain rfl := Option.some.inj expands
      cases kind with
      | slli =>
          rw [ShiftImm.expand, slli]
          split
          · next zero =>
              have noAmount : imm = 0#5 := BitVec.eq_of_toNat_eq zero
              have different : rd ≠ rs1 := by
                simpa [Inst.vanishes, noAmount] using stays
              rw [if_pos different]
              simp
          split
          · simp
          split <;> simp
      | srli =>
          rw [ShiftImm.expand, srli, shiftRightImm]
          split <;> simp [getbyte]
      | srai =>
          rw [ShiftImm.expand, srai, shiftRightImm]
          split <;> simp
  | unary kind rd rs1 =>
      obtain rfl := Option.some.inj expands
      cases kind <;> simp [Unary.expand, not, seqz, msb, getbyte]
  | load kind rd rs1 imm =>
      cases kind with
      | lb =>
          obtain rfl := Option.some.inj expands
          simp [lb]
      | _ =>
          rw [Inst.expand, Load.expand] at expands
          split at expands
          · simp at expands
          · obtain rfl := Option.some.inj expands
            simp [lh, lhu]
  | sh rs2 rs1 imm =>
      rw [Inst.expand] at expands
      split at expands
      · simp at expands
      · obtain rfl := Option.some.inj expands
        simp [sh]
  | branch kind rs1 rs2 target =>
      obtain rfl := Option.some.inj expands
      have resolves : ∀ high, branchResolve target high next ≠ [] := by
        intro high
        rw [branchResolve_eq]
        simp
      cases kind with
      | blt =>
          rw [BranchOp.expand, blt]
          split
          · simp [resolves]
          split <;> simp [resolves]
      | bge =>
          rw [BranchOp.expand, bge]
          split <;> simp [resolves]
      | _ => simp [BranchOp.expand, beq, bne, bltu, bgeu, resolves]
  | jal rd target =>
      obtain rfl := Option.some.inj expands
      rw [jal]
      split <;> simp [callTemplate, la]
  | tail target =>
      obtain rfl := Option.some.inj expands
      simp [tail, la]
  | la rd symbol =>
      obtain rfl := Option.some.inj expands
      simp [la]

theorem Inst.vanishes_map {α β : Type} (f : α → β) (inst : Inst α) :
    (inst.map f).vanishes = inst.vanishes := by
  cases inst with
  | op kind rd rs1 rs2 => cases kind <;> rfl
  | opImm kind rd rs1 imm => cases kind <;> rfl
  | shift kind rd rs1 imm => cases kind <;> rfl
  | _ => rfl

/-! ## Layout -/

section Layout

variable (image : Image)

/-- The base instructions before a line. -/
def offsetOf {α : Type} (text : List (Inst α)) (line : Nat) : Nat :=
  ((text.take line).map (Inst.size image)).sum

/-- The address of a line of a file that starts at `start`. -/
def addressOf {α : Type} (start : Word) (text : List (Inst α)) (line : Nat) :
    Word :=
  start + BitVec.ofNat 32 (4 * offsetOf image text line)

def Symbol.value (addressOf : Nat → Word) : Symbol → Word
  | label line => addressOf line
  | other addr => addr

/-- The lines with their symbols resolved. -/
def resolve (start : Word) (text : List (Inst Symbol)) : List (Inst Word) :=
  text.map (Inst.map (Symbol.value (addressOf image start text)))

/-- The code of the lines from `addr` on; `none` on an error. -/
def assembleFrom (addr : Word) : List (Inst Word) → Option (List Base)
  | [] => some []
  | inst :: rest => do
      let next := addr + BitVec.ofNat 32 (4 * inst.size image)
      let code ← inst.expand image next
      let more ← assembleFrom next rest
      some (code ++ more)

def assemble (start : Word) (text : List (Inst Symbol)) :
    Option (List Base) :=
  assembleFrom image start (resolve image start text)

variable {image}

theorem offsetOf_resolve (start : Word) (text : List (Inst Symbol))
    (line : Nat) :
    offsetOf image (resolve image start text) line =
      offsetOf image text line := by
  rw [offsetOf, offsetOf, resolve, ← List.map_take, List.map_map]
  congr 1
  apply List.map_congr_left
  intro inst _
  exact inst.size_map image _

theorem addressOf_resolve (start : Word) (text : List (Inst Symbol))
    (line : Nat) :
    addressOf image start (resolve image start text) line =
      addressOf image start text line := by
  rw [addressOf, addressOf, offsetOf_resolve]

theorem offsetOf_cons_succ {α : Type} (inst : Inst α) (rest : List (Inst α))
    (line : Nat) :
    offsetOf image (inst :: rest) (line + 1) =
      inst.size image + offsetOf image rest line := by
  rw [offsetOf, List.take_succ_cons, List.map_cons, List.sum_cons, offsetOf]

theorem addressOf_cons_succ {α : Type} (start : Word) (inst : Inst α)
    (rest : List (Inst α)) (line : Nat) :
    addressOf image start (inst :: rest) (line + 1) =
      addressOf image (start + BitVec.ofNat 32 (4 * inst.size image)) rest
        line := by
  rw [addressOf, offsetOf_cons_succ, Nat.mul_add, BitVec.ofNat_add,
    ← BitVec.add_assoc, addressOf]

theorem addressOf_zero {α : Type} (start : Word) (text : List (Inst α)) :
    addressOf image start text 0 = start :=
  BitVec.add_zero start

theorem codeAt_append {pmem : Pmem} {addr : Word} {code rest : List Base} :
    CodeAt pmem addr (code ++ rest) ↔ CodeAt pmem addr code ∧
      CodeAt pmem (addr + BitVec.ofNat 32 (4 * code.length)) rest := by
  induction code generalizing addr with
  | nil =>
      simp [CodeAt]
  | cons base code inductionHypothesis =>
      have step : addr + 4#32 + BitVec.ofNat 32 (4 * code.length) =
          addr + BitVec.ofNat 32 (4 * (base :: code).length) := by
        rw [List.length_cons, Nat.mul_add, Nat.add_comm, BitVec.ofNat_add,
          ← BitVec.add_assoc]
      rw [List.cons_append, codeAt_cons, codeAt_cons, inductionHypothesis,
        and_assoc, step]

/-- The code of every line lies where the layout says. -/
theorem exists_piece {text : List (Inst Word)} {start : Word}
    {code : List Base} (assembled : assembleFrom image start text = some code)
    {line : Nat} {inst : Inst Word} (here : text[line]? = some inst) :
    ∃ before piece after, code = before ++ (piece ++ after) ∧
      inst.expand image (addressOf image start text (line + 1)) = some piece ∧
      addressOf image start text line =
        start + BitVec.ofNat 32 (4 * before.length) := by
  induction text generalizing start code line with
  | nil =>
      simp at here
  | cons first rest inductionHypothesis =>
      simp only [assembleFrom, Option.bind_eq_bind, Option.bind_eq_some_iff,
        Option.some.injEq] at assembled
      obtain ⟨head, expands, more, assembled', rfl⟩ := assembled
      cases line with
      | zero =>
          obtain rfl : first = inst := by simpa using here
          refine ⟨[], head, more, rfl, ?_, rfl⟩
          rw [addressOf_cons_succ, addressOf_zero]
          exact expands
      | succ line =>
          obtain ⟨before, piece, after, whole, expanded, address⟩ :=
            inductionHypothesis assembled' (by simpa using here)
          refine ⟨head ++ before, piece, after, ?_, ?_, ?_⟩
          · rw [whole, List.append_assoc]
          · rw [addressOf_cons_succ]
            exact expanded
          · rw [addressOf_cons_succ, address, List.length_append, Nat.mul_add,
              BitVec.ofNat_add, length_expand expands, BitVec.add_assoc]

theorem length_assembleFrom {text : List (Inst Word)} {start : Word}
    {code : List Base} (assembled : assembleFrom image start text = some code) :
    code.length = offsetOf image text text.length := by
  induction text generalizing start code with
  | nil =>
      obtain rfl := Option.some.inj assembled
      rfl
  | cons first rest inductionHypothesis =>
      simp only [assembleFrom, Option.bind_eq_bind, Option.bind_eq_some_iff,
        Option.some.injEq] at assembled
      obtain ⟨head, expands, more, assembled', rfl⟩ := assembled
      rw [List.length_append, length_expand expands,
        inductionHypothesis assembled', List.length_cons, offsetOf_cons_succ]

theorem addressOf_succ {text : List (Inst Word)} (start : Word) {line : Nat}
    {inst : Inst Word} (here : text[line]? = some inst) :
    addressOf image start text (line + 1) = addressOf image start text line +
      BitVec.ofNat 32 (4 * inst.size image) := by
  have sum : offsetOf image text (line + 1) =
      offsetOf image text line + inst.size image := by
    rw [offsetOf, offsetOf, List.take_add_one, here, Option.toList_some,
      List.map_append, List.sum_append, List.map_singleton, List.sum_singleton]
  rw [addressOf, addressOf, sum, Nat.mul_add, BitVec.ofNat_add,
    BitVec.add_assoc]

end Layout

/-! ## Placing -/

section Place

variable {image : Image}

theorem evenAddr_iff {addr : Word} : EvenAddr addr ↔ addr.toNat % 2 = 0 := by
  have low : addr.getLsbD 0 = decide (addr.toNat % 2 = 1) := by
    simp [BitVec.getLsbD, Nat.testBit_zero]
  have mask : ∀ k, (~~~1 : Word).getLsbD k = (decide (k < 32) && k != 0) := by
    intro k
    rw [BitVec.getLsbD_not, show (1 : Word) = 1#32 from rfl, BitVec.getLsbD_one]
    cases k <;> simp
  constructor
  · intro even
    have bit := congrArg (BitVec.getLsbD · 0) even
    simp only [BitVec.getLsbD_and, low, mask] at bit
    simpa using bit
  · intro even
    apply BitVec.eq_of_getLsbD_eq
    intro k inRange
    rw [BitVec.getLsbD_and, mask]
    cases k with
    | zero => rw [low, even]; rfl
    | succ k => simp only [inRange]; exact Bool.and_true _

theorem evenAddr_addressOf {α : Type} {start : Word} (even : EvenAddr start)
    (text : List (Inst α)) (line : Nat) :
    EvenAddr (addressOf image start text line) := by
  rw [evenAddr_iff] at even ⊢
  rw [addressOf, BitVec.toNat_add, BitVec.toNat_ofNat]
  omega

end Place

end Ysyx.Rvmini
