import Ysyx.Rvmini.Simulation

/-!
# Running lines

Rules for code that computes in registers: a block of assignments, a branch,
a call and a return.
-/

namespace Ysyx.Rvmini

open Nemu

/-- The macros may use the stack below `stack`. -/
def LinkedFile.Room (linked : LinkedFile) (stack : Word) : Prop :=
  ∀ addr ∈ bytesOf (some (stack - 28#32, 28)), linked.reserved addr = false

theorem room_of_inScratch {linked : LinkedFile} {stack : Word}
    (free : ∀ addr, InScratch stack addr → linked.reserved addr = false) :
    linked.Room stack := by
  intro addr inside
  obtain ⟨k, inRange, rfl⟩ := List.mem_map.mp inside
  apply free
  rw [InScratch, BitVec.add_comm, BitVec.add_sub_cancel, BitVec.toNat_ofNat]
  exact Nat.lt_of_le_of_lt (Nat.mod_le ..) (List.mem_range.mp inRange)

/-- Memory is as it was. -/
structure Undisturbed (before after : Checked) : Prop where
  stack : after.state.cpu.gpr sp = before.state.cpu.gpr sp
  pmem : after.state.pmem = before.state.pmem
  known : ∀ addr, before.known addr = true →
    ¬ InScratch (before.state.cpu.gpr sp) addr → after.known addr = true

theorem Undisturbed.refl (checked : Checked) : Undisturbed checked checked :=
  ⟨rfl, rfl, fun _ isKnown _ => isKnown⟩

theorem Undisturbed.trans {before middle after : Checked}
    (first : Undisturbed before middle) (second : Undisturbed middle after) :
    Undisturbed before after where
  stack := second.stack.trans first.stack
  pmem := second.pmem.trans first.pmem
  known addr isKnown outside :=
    second.known addr (first.known addr isKnown outside)
      (by rw [first.stack]; exact outside)

/-- The program comes to a state like this, with its memory as it was. -/
def LinkedFile.Leads (linked : LinkedFile) (before : Checked)
    (post : Checked → Prop) : Prop :=
  ∃ count after, linked.run before count = some after ∧
    Undisturbed before after ∧ post after

/-- At a line, with these registers. -/
structure LinkedFile.At (linked : LinkedFile) (checked : Checked) (line : Nat)
    (cpu : CpuState) : Prop where
  line : checked.line = some line
  registers : checked.state.cpu = cpu
  room : linked.Room (cpu.gpr sp)

/-- Just after a jump to `target`. -/
structure LinkedFile.JumpedTo (linked : LinkedFile) (checked : Checked)
    (target : Word) (cpu : CpuState) : Prop where
  pc : checked.state.pc = target
  line : checked.line = linked.lineAt target
  registers : checked.state.cpu = cpu
  room : linked.Room (cpu.gpr sp)

/-- The register that a line assigns to, and the value. -/
def Inst.assigns (cpu : CpuState) : Inst Word → Option (Reg × Word)
  | .base (.add rd rs1 rs2) => some (rd, cpu.gpr rs1 + cpu.gpr rs2)
  | .base (.addi rd rs1 imm) => some (rd, cpu.gpr rs1 + imm.signExtend 32)
  | .base (.lui rd imm) => some (rd, imm ++ 0#12)
  | .op kind rd rs1 rs2 =>
      some (rd, kind.result (cpu.gpr rs1) (cpu.gpr rs2))
  | .opImm kind rd rs1 imm =>
      some (rd, kind.op.result (cpu.gpr rs1) (imm.signExtend 32))
  | .shift kind rd rs1 imm => some (rd, kind.result (cpu.gpr rs1) imm.toNat)
  | .unary kind rd rs1 => some (rd, kind.result (cpu.gpr rs1))
  | .la rd symbol => some (rd, symbol)
  | _ => none

/-- The registers after a block of assignments. -/
def assignAll (cpu : CpuState) : List (Inst Word) → Option CpuState
  | [] => some cpu
  | inst :: block => do
      let (rd, value) ← inst.assigns cpu
      assignAll (cpu.setR rd value) block

section Rules

variable {linked : LinkedFile} {before : Checked} {line : Nat}
  {cpu after' : CpuState} {post : Checked → Prop}

theorem LinkedFile.run_succ_step (count : Nat) :
    linked.run before (count + 1) =
      (linked.step before).bind fun next => linked.run next count := by
  induction count with
  | zero =>
      simp [LinkedFile.run]
  | succ count inductionHypothesis =>
      rw [LinkedFile.run, inductionHypothesis, Option.bind_assoc]
      rfl

theorem leads_refl (holds : post before) : linked.Leads before post :=
  ⟨0, before, rfl, Undisturbed.refl before, holds⟩

theorem leads_step {next : Checked} (steps : linked.step before = some next)
    (undisturbed : Undisturbed before next) (leads : linked.Leads next post) :
    linked.Leads before post := by
  obtain ⟨count, after, runs, later, holds⟩ := leads
  refine ⟨count + 1, after, ?_, undisturbed.trans later, holds⟩
  rw [LinkedFile.run_succ_step, steps]
  exact runs

/-- A line without a memory access is allowed. -/
theorem exists_step {inst : Inst Word} (here : linked.At before line cpu)
    (isLine : linked.text[line]? = some inst)
    (noReads : inst.reads before.state = none)
    (noWrites : inst.writes before.state = none) :
    ∃ next, linked.step before = some next ∧
      next.state = inst.exec (linked.addressOf (line + 1)) before.state ∧
      (next.line = if inst.jumps before.state then
          linked.lineAt next.state.pc else some (line + 1)) ∧
      ∀ addr, before.known addr = true →
        ¬ InScratch (before.state.cpu.gpr sp) addr →
          next.known addr = true := by
  have allowed : linked.Allowed before inst := by
    refine ⟨?_, ?_, ?_⟩
    · simp [noReads, bytesOf]
    · simp [noWrites, bytesOf]
    · rw [here.registers]
      exact here.room
  let state := inst.exec (linked.addressOf (line + 1)) before.state
  let known := fun addr =>
    decide (InAccess (inst.writes before.state) addr) ||
      (before.known addr &&
        !decide (InScratch (before.state.cpu.gpr sp) addr))
  refine ⟨⟨state, if inst.jumps before.state then linked.lineAt state.pc
    else some (line + 1), known⟩, ?_, rfl, rfl, ?_⟩
  · simp only [LinkedFile.step, here.line, Option.bind_eq_bind, Option.bind_some,
      isLine, if_pos allowed]
    rfl
  · intro addr isKnown outside
    simp [known, isKnown, outside]

theorem exec_of_assigns {inst : Inst Word} {state : State} {rd : Reg}
    {value : Word} (assigns : inst.assigns state.cpu = some (rd, value)) :
    inst.reads state = none ∧ inst.writes state = none ∧
      inst.jumps state = false ∧ ∀ next,
        (inst.exec next state).cpu = state.cpu.setR rd value ∧
          (inst.exec next state).pmem = state.pmem := by
  cases inst with
  | base kept =>
      cases kept with
      | add rd' rs1 rs2 =>
          obtain ⟨rfl, rfl⟩ := Prod.mk.inj (Option.some.inj assigns)
          exact ⟨rfl, rfl, rfl, fun _ => ⟨rfl, rfl⟩⟩
      | addi rd' rs1 imm =>
          obtain ⟨rfl, rfl⟩ := Prod.mk.inj (Option.some.inj assigns)
          exact ⟨rfl, rfl, rfl, fun _ => ⟨rfl, rfl⟩⟩
      | lui rd' imm =>
          obtain ⟨rfl, rfl⟩ := Prod.mk.inj (Option.some.inj assigns)
          exact ⟨rfl, rfl, rfl, fun _ => ⟨rfl, rfl⟩⟩
      | _ => simp [Inst.assigns] at assigns
  | op kind rd' rs1 rs2 =>
      obtain ⟨rfl, rfl⟩ := Prod.mk.inj (Option.some.inj assigns)
      exact ⟨rfl, rfl, rfl, fun _ => ⟨rfl, rfl⟩⟩
  | opImm kind rd' rs1 imm =>
      obtain ⟨rfl, rfl⟩ := Prod.mk.inj (Option.some.inj assigns)
      exact ⟨rfl, rfl, rfl, fun _ => ⟨rfl, rfl⟩⟩
  | shift kind rd' rs1 imm =>
      obtain ⟨rfl, rfl⟩ := Prod.mk.inj (Option.some.inj assigns)
      exact ⟨rfl, rfl, rfl, fun _ => ⟨rfl, rfl⟩⟩
  | unary kind rd' rs1 =>
      obtain ⟨rfl, rfl⟩ := Prod.mk.inj (Option.some.inj assigns)
      exact ⟨rfl, rfl, rfl, fun _ => ⟨rfl, rfl⟩⟩
  | la rd' symbol =>
      obtain ⟨rfl, rfl⟩ := Prod.mk.inj (Option.some.inj assigns)
      exact ⟨rfl, rfl, rfl, fun _ => ⟨rfl, rfl⟩⟩
  | _ => simp [Inst.assigns] at assigns

theorem leads_assign {inst : Inst Word} {rd : Reg} {value : Word}
    (here : linked.At before line cpu)
    (isLine : linked.text[line]? = some inst)
    (assigns : inst.assigns cpu = some (rd, value)) (notSp : rd ≠ sp)
    (later : ∀ next, linked.At next (line + 1) (cpu.setR rd value) →
      linked.Leads next post) : linked.Leads before post := by
  rw [← here.registers] at assigns
  obtain ⟨noReads, noWrites, goesOn, result⟩ := exec_of_assigns assigns
  obtain ⟨next, steps, state, nextLine, known⟩ :=
    exists_step here isLine noReads noWrites
  have cpu' : next.state.cpu = cpu.setR rd value := by
    rw [state, (result _).1, here.registers]
  have stack : (cpu.setR rd value).gpr sp = cpu.gpr sp :=
    Am.setR_gpr_of_ne _ notSp.symm _
  apply leads_step steps
  · refine ⟨?_, ?_, known⟩
    · rw [cpu', stack, here.registers]
    · rw [state, (result _).2]
  · apply later
    refine ⟨?_, cpu', ?_⟩
    · rw [nextLine, goesOn]
      rfl
    · rw [stack]
      exact here.room

/-- A block of assignments. -/
theorem leads_block {block : List (Inst Word)}
    (here : linked.At before line cpu)
    (isBlock : block <+: linked.text.drop line)
    (assigns : assignAll cpu block = some after')
    (notSp : ∀ inst ∈ block, ∀ cpu, (inst.assigns cpu).map Prod.fst ≠ some sp)
    (later : ∀ next, linked.At next (line + block.length) after' →
      linked.Leads next post) : linked.Leads before post := by
  induction block generalizing before line cpu with
  | nil =>
      obtain rfl := Option.some.inj assigns
      exact later before here
  | cons inst block inductionHypothesis =>
      simp only [assignAll, Option.bind_eq_bind, Option.bind_eq_some_iff]
        at assigns
      obtain ⟨⟨rd, value⟩, assign, rest⟩ := assigns
      obtain ⟨more, split⟩ := isBlock
      have isLine : linked.text[line]? = some inst := by
        rw [← List.head?_drop, ← split]
        rfl
      have head := List.forall_mem_cons.mp notSp
      apply leads_assign here isLine assign
      · rintro rfl
        exact head.1 cpu (by rw [assign]; rfl)
      · intro next atNext
        apply inductionHypothesis atNext _ rest head.2
        · intro last atLast
          apply later
          rw [List.length_cons, Nat.add_comm block.length, ← Nat.add_assoc]
          exact atLast
        · refine ⟨more, ?_⟩
          rw [← List.tail_drop, ← split]
          rfl

theorem leads_branch {kind : BranchOp} {rs1 rs2 : Reg} {target : Nat}
    (here : linked.At before line cpu)
    (isLine : linked.text[line]? =
      some (.branch kind rs1 rs2 (linked.addressOf target)))
    (found : linked.lineAt (linked.addressOf target) = some target)
    (later : ∀ next, linked.At next
      (if kind.taken (cpu.gpr rs1) (cpu.gpr rs2) then target else line + 1)
      cpu → linked.Leads next post) : linked.Leads before post := by
  obtain ⟨next, steps, state, nextLine, known⟩ := exists_step here isLine rfl rfl
  have cpu' : next.state.cpu = cpu := by
    rw [state]
    exact here.registers
  apply leads_step steps
  · exact ⟨by rw [cpu', here.registers], by rw [state]; rfl, known⟩
  · apply later
    refine ⟨?_, cpu', here.room⟩
    rw [nextLine, state]
    simp only [Inst.jumps, Inst.exec, here.registers]
    split
    · exact found
    · rfl

theorem leads_jal {rd : Reg} {target : Nat} (here : linked.At before line cpu)
    (isLine : linked.text[line]? = some (.jal rd (linked.addressOf target)))
    (found : linked.lineAt (linked.addressOf target) = some target)
    (notSp : rd ≠ sp)
    (later : ∀ next, linked.At next target
      (cpu.setR rd (linked.addressOf (line + 1))) → linked.Leads next post) :
    linked.Leads before post := by
  obtain ⟨next, steps, state, nextLine, known⟩ := exists_step here isLine rfl rfl
  have cpu' : next.state.cpu = cpu.setR rd (linked.addressOf (line + 1)) := by
    rw [state, ← here.registers]
    rfl
  have stack : (cpu.setR rd (linked.addressOf (line + 1))).gpr sp =
      cpu.gpr sp := Am.setR_gpr_of_ne _ notSp.symm _
  apply leads_step steps
  · exact ⟨by rw [cpu', stack, here.registers], by rw [state]; rfl, known⟩
  · apply later
    refine ⟨?_, cpu', by rw [stack]; exact here.room⟩
    rw [nextLine, state]
    exact found

theorem leads_j {target : Nat} (here : linked.At before line cpu)
    (isLine : linked.text[line]? = some (.j (linked.addressOf target)))
    (found : linked.lineAt (linked.addressOf target) = some target)
    (later : ∀ next, linked.At next target cpu → linked.Leads next post) :
    linked.Leads before post := by
  apply leads_jal here isLine found (by decide)
  have noLink : cpu.setR x0 (linked.addressOf (line + 1)) = cpu := setR_x0 _ _
  rwa [noLink]

theorem leads_jr {rs : Reg} (here : linked.At before line cpu)
    (isLine : linked.text[line]? = some (Inst.jr rs))
    (even : EvenAddr (cpu.gpr rs))
    (later : ∀ next, linked.JumpedTo next (cpu.gpr rs) cpu →
      linked.Leads next post) : linked.Leads before post := by
  obtain ⟨next, steps, state, nextLine, known⟩ := exists_step here isLine rfl rfl
  have cpu' : next.state.cpu = cpu := by
    rw [state, ← here.registers]
    exact setR_x0 _ _
  have pc : next.state.pc = cpu.gpr rs := by
    rw [state, ← even.jalr, ← here.registers]
    rfl
  apply leads_step steps
  · exact ⟨by rw [cpu', here.registers], by rw [state]; rfl, known⟩
  · exact later next ⟨pc, by rw [← pc]; exact nextLine, cpu', here.room⟩

theorem LinkedFile.JumpedTo.at {target : Nat}
    (jumped : linked.JumpedTo before (linked.addressOf target) cpu)
    (found : linked.lineAt (linked.addressOf target) = some target) :
    linked.At before target cpu :=
  ⟨jumped.line.trans found, jumped.registers, jumped.room⟩

end Rules

/-! ## Labels -/

section Labels

variable {image : Image} {text : List (Inst Symbol)} {start : Word}
  {code : List Base}

theorem offsetOf_succ {line : Nat} {inst : Inst Symbol}
    (here : text[line]? = some inst) :
    offsetOf image text (line + 1) =
      offsetOf image text line + inst.size image := by
  rw [offsetOf, offsetOf, List.take_add_one, here, Option.toList_some,
    List.map_append, List.sum_append, List.map_singleton, List.sum_singleton]

theorem offsetOf_le {line other : Nat} (before : line ≤ other) :
    offsetOf image text line ≤ offsetOf image text other := by
  obtain ⟨rest, split⟩ : text.take line <+: text.take other :=
    List.take_prefix_take_left before
  rw [offsetOf, offsetOf, ← split, List.map_append, List.sum_append]
  exact Nat.le_add_right _ _

theorem offsetOf_lt (positive : ∀ inst ∈ text, 0 < inst.size image)
    {line other : Nat} (before : line < other) (inText : line < text.length) :
    offsetOf image text line < offsetOf image text other := by
  have here : text[line]? = some text[line] := List.getElem?_eq_getElem inText
  have pos := positive _ (List.mem_of_getElem? here)
  have later : offsetOf image text (line + 1) ≤ offsetOf image text other :=
    offsetOf_le before
  rw [offsetOf_succ here] at later
  omega

theorem size_pos (assembled : assemble image start text = some code)
    (stays : ∀ inst ∈ text, inst.vanishes = false) :
    ∀ inst ∈ text, 0 < inst.size image := by
  intro inst inText
  obtain ⟨line, inRange, isLine⟩ := List.mem_iff_getElem.mp inText
  let f := Inst.map (Symbol.value (addressOf image start text))
  have here : (resolve image start text)[line]? = some (f inst) := by
    rw [resolve, List.getElem?_map, List.getElem?_eq_getElem inRange, isLine]
    rfl
  obtain ⟨before, piece, after, -, expands, -⟩ := exists_piece assembled here
  have notNil : piece ≠ [] := expand_ne_nil
    ((Inst.vanishes_map _ inst).trans (stays inst inText)) expands
  rw [← inst.size_map image, ← length_expand expands]
  exact List.length_pos_of_ne_nil notNil

/-- A label is found at its address. -/
theorem lineAt_addressOf {reserved : Word → Bool}
    (assembled : assemble image start text = some code)
    (stays : ∀ inst ∈ text, inst.vanishes = false)
    (short : 4 * code.length < 2 ^ 32) {line : Nat}
    (inText : line < text.length) :
    (LinkedFile.ofText image start text reserved).lineAt
      ((LinkedFile.ofText image start text reserved).addressOf line) =
        some line := by
  have length : (LinkedFile.ofText image start text reserved).text.length =
      text.length := List.length_map _
  have total : code.length = offsetOf image text text.length := by
    have sizes := length_assembleFrom assembled
    rwa [offsetOf_resolve, resolve, List.length_map] at sizes
  rw [LinkedFile.lineAt, length, List.find?_range_eq_some]
  refine ⟨by simp, List.mem_range.mpr inText, fun other before => ?_⟩
  have less := offsetOf_lt (size_pos assembled stays) before (by omega)
  have most : offsetOf image text line ≤ offsetOf image text text.length :=
    offsetOf_le (by omega)
  simp only [LinkedFile.ofText, addressOf, Bool.not_eq_true']
  apply decide_eq_false
  intro same
  have offsets := congrArg BitVec.toNat ((BitVec.add_right_inj start).mp same)
  simp only [BitVec.toNat_ofNat] at offsets
  omega

end Labels

end Ysyx.Rvmini
