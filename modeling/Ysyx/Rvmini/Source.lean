import Ysyx.Rvmini.Link

/-!
# The program before the macros

RV32I runs the lines that the compiler wrote. A monitor stops a program that
does not keep to what `inst-replace.h` assumes of it.
-/

namespace Ysyx.Rvmini

open Nemu

instance (access : Option (Word × Nat)) (addr : Word) :
    Decidable (InAccess access addr) :=
  match access with
  | none => isFalse fun inside => by simp [InAccess] at inside
  | some span =>
      decidable_of_iff ((addr - span.1).toNat < span.2)
        (by simp [InAccess])

/-- The addresses of an access, one by one. -/
def bytesOf : Option (Word × Nat) → List Word
  | none => []
  | some (start, len) =>
      (List.range len).map fun k => start + BitVec.ofNat 32 k

theorem mem_bytesOf {access : Option (Word × Nat)} {addr : Word}
    (inside : InAccess access addr) : addr ∈ bytesOf access := by
  obtain ⟨⟨start, len⟩, rfl, near⟩ := inside
  refine List.mem_map.mpr ⟨(addr - start).toNat, List.mem_range.mpr near, ?_⟩
  rw [BitVec.ofNat_toNat, BitVec.setWidth_eq, BitVec.add_comm,
    BitVec.sub_add_cancel]

/-! ## The monitored program -/

/-- A linked file, and the memory of its code and tables. -/
structure LinkedFile where
  text : List (Inst Word)
  addressOf : Nat → Word
  reserved : Word → Bool

/-- A state of RV32I, the line it is at, and the bytes that the program has
given a value. -/
structure Checked where
  state : State
  line : Option Nat
  known : Word → Bool

namespace LinkedFile

variable (linked : LinkedFile)

/-- The line at an address. -/
def lineAt (addr : Word) : Option Nat :=
  (List.range linked.text.length).find? fun line =>
    linked.addressOf line = addr

/-- The line reads what the program has written, leaves the stack below `sp`
alone and does not write to code and tables. -/
def Allowed (checked : Checked) (inst : Inst Word) : Prop :=
  (∀ addr ∈ bytesOf (inst.reads checked.state),
    checked.known addr = true ∧
      ¬ InScratch (checked.state.cpu.gpr sp) addr) ∧
  (∀ addr ∈ bytesOf (inst.writes checked.state),
    linked.reserved addr = false ∧
      ¬ InScratch (checked.state.cpu.gpr sp) addr) ∧
  ∀ addr ∈ bytesOf (some (checked.state.cpu.gpr sp - 28#32, 28)),
    linked.reserved addr = false

instance (checked : Checked) (inst : Inst Word) :
    Decidable (linked.Allowed checked inst) :=
  inferInstanceAs (Decidable (_ ∧ _ ∧ _))

/-- One line; `none` where the monitor stops the program. The macros use the
stack below `sp`. -/
def step (checked : Checked) : Option Checked := do
  let line ← checked.line
  let inst ← linked.text[line]?
  if linked.Allowed checked inst then
    let state := inst.exec (linked.addressOf (line + 1)) checked.state
    some {
      state
      line :=
        if inst.jumps checked.state then linked.lineAt state.pc
        else some (line + 1)
      known := fun addr =>
        InAccess (inst.writes checked.state) addr ||
          (checked.known addr &&
            !decide (InScratch (checked.state.cpu.gpr sp) addr)) }
  else
    none

def run (checked : Checked) : Nat → Option Checked
  | 0 => some checked
  | count + 1 => (run checked count).bind linked.step

variable {linked}

theorem addressOf_of_lineAt {addr : Word} {line : Nat}
    (found : linked.lineAt addr = some line) :
    linked.addressOf line = addr := by
  simpa using List.find?_some found

/-- What a step does. -/
theorem step_eq_some {checked next : Checked}
    (steps : linked.step checked = some next) :
    ∃ line inst, checked.line = some line ∧ linked.text[line]? = some inst ∧
      linked.Allowed checked inst ∧
      next.state =
        inst.exec (linked.addressOf (line + 1)) checked.state ∧
      (next.line = if inst.jumps checked.state then
          linked.lineAt next.state.pc else some (line + 1)) ∧
      ∀ addr, next.known addr = true →
        InAccess (inst.writes checked.state) addr ∨
          checked.known addr = true ∧
            ¬ InScratch (checked.state.cpu.gpr sp) addr := by
  simp only [step, Option.bind_eq_bind, Option.bind_eq_some_iff] at steps
  obtain ⟨line, atLine, inst, here, steps⟩ := steps
  split at steps
  · next allowed =>
      obtain rfl := Option.some.inj steps
      exact ⟨line, inst, atLine, here, allowed, rfl, rfl, by simp⟩
  · simp at steps

end LinkedFile

/-! ## Agreement -/

/-- Two states that agree but for `gp`, `tp` and memory. -/
structure Agree (left right : State) : Prop where
  pc : left.pc = right.pc
  gpr : ∀ r, r ≠ gp → r ≠ tp → left.cpu.gpr r = right.cpu.gpr r
  sr : left.cpu.sr = right.cpu.sr

section Memory

variable {left right : Pmem}

theorem hostRead_agree {addr : Word} {len : Nat}
    (same : ∀ target, InAccess (some (addr, len)) target →
      left target = right target) (short : len ≤ 4) :
    hostRead left addr len = hostRead right addr len := by
  apply hostRead_congr
  intro lane inside
  apply same
  refine ⟨_, rfl, ?_⟩
  rw [BitVec.add_comm, BitVec.add_sub_cancel, BitVec.toNat_ofNat,
    Nat.mod_eq_of_lt (by omega)]
  exact inside

theorem hostWrite_agree {start addr : Word} {len : Nat} (data : Word)
    (length : len = 1 ∨ len = 2 ∨ len = 4)
    (same : InAccess (some (start, len)) addr ∨ left addr = right addr) :
    hostWrite left start len data addr =
      hostWrite right start len data addr := by
  rcases same with ⟨span, isSpan, inside⟩ | same
  · obtain rfl := Option.some.inj isSpan
    simp only [hostWrite, if_pos (And.intro length inside)]
  · exact hostWrite_congr_at same start len data

end Memory

section Agree

variable {left right : State} (agree : Agree left right)
include agree

theorem Agree.setR {leftValue rightValue leftPc rightPc : Word}
    {leftPmem rightPmem : Pmem} (rd : Reg) (pc : leftPc = rightPc)
    (value : leftValue = rightValue) :
    Agree ⟨leftPc, left.cpu.setR rd leftValue, leftPmem⟩
      ⟨rightPc, right.cpu.setR rd rightValue, rightPmem⟩ where
  pc := pc
  gpr r notGp notTp := by
    show (left.cpu.setR rd leftValue).gpr r = (right.cpu.setR rd rightValue).gpr r
    rw [gpr_setR, gpr_setR, value, agree.gpr r notGp notTp]
  sr := agree.sr

theorem Agree.addrOf {rs1 : Reg} (free : Free rs1) (imm : BitVec 12) :
    addrOf left rs1 imm = addrOf right rs1 imm := by
  rw [Rvmini.addrOf, Rvmini.addrOf, agree.gpr rs1 free.1 free.2]

theorem Agree.reads {inst : Inst Word} (free : ∀ r ∈ inst.regs, Free r) :
    inst.reads left = inst.reads right := by
  cases inst with
  | base kept =>
      cases kept with
      | lw rd rs1 imm =>
          rw [Inst.reads, Inst.reads, agree.addrOf (free rs1 (by
            simp [Inst.regs, Base.regs]))]
      | lbu rd rs1 imm =>
          rw [Inst.reads, Inst.reads, agree.addrOf (free rs1 (by
            simp [Inst.regs, Base.regs]))]
      | _ => rfl
  | load kind rd rs1 imm =>
      rw [Inst.reads, Inst.reads, agree.addrOf (free rs1 (by
        simp [Inst.regs]))]
  | _ => rfl

theorem Agree.writes {inst : Inst Word} (free : ∀ r ∈ inst.regs, Free r) :
    inst.writes left = inst.writes right := by
  cases inst with
  | base kept =>
      cases kept with
      | sw rs2 rs1 imm =>
          rw [Inst.writes, Inst.writes, agree.addrOf (free rs1 (by
            simp [Inst.regs, Base.regs]))]
      | sb rs2 rs1 imm =>
          rw [Inst.writes, Inst.writes, agree.addrOf (free rs1 (by
            simp [Inst.regs, Base.regs]))]
      | _ => rfl
  | sh rs2 rs1 imm =>
      rw [Inst.writes, Inst.writes, agree.addrOf (free rs1 (by
        simp [Inst.regs]))]
  | _ => rfl

/-- A line does the same in states that agree. -/
theorem Agree.exec {inst : Inst Word} (free : ∀ r ∈ inst.regs, Free r)
    (next : Word)
    (sameReads : ∀ addr, InAccess (inst.reads right) addr →
      left.pmem addr = right.pmem addr) :
    Agree (inst.exec next left) (inst.exec next right) := by
  have gpr : ∀ r ∈ inst.regs, left.cpu.gpr r = right.cpu.gpr r :=
    fun r inRegs => agree.gpr r (free r inRegs).1 (free r inRegs).2
  cases inst with
  | base kept =>
      have pc : left.pc + 4 = right.pc + 4 := congrArg (· + 4) agree.pc
      cases kept with
      | add rd rs1 rs2 =>
          exact agree.setR rd pc (by
            rw [gpr rs1 (by simp [Inst.regs, Base.regs]),
              gpr rs2 (by simp [Inst.regs, Base.regs])])
      | addi rd rs1 imm =>
          exact agree.setR rd pc (by
            rw [gpr rs1 (by simp [Inst.regs, Base.regs])])
      | lui rd imm =>
          exact agree.setR rd pc rfl
      | lw rd rs1 imm =>
          apply agree.setR rd pc
          rw [gpr rs1 (by simp [Inst.regs, Base.regs])]
          exact hostRead_agree sameReads (by decide)
      | lbu rd rs1 imm =>
          apply agree.setR rd pc
          rw [gpr rs1 (by simp [Inst.regs, Base.regs])]
          exact hostRead_agree sameReads (by decide)
      | sw rs2 rs1 imm =>
          exact ⟨pc, agree.gpr, agree.sr⟩
      | sb rs2 rs1 imm =>
          exact ⟨pc, agree.gpr, agree.sr⟩
      | jalr rd rs1 imm =>
          exact agree.setR rd (by
            rw [gpr rs1 (by simp [Inst.regs, Base.regs])]) pc
  | op kind rd rs1 rs2 =>
      exact agree.setR rd rfl (by
        rw [gpr rs1 (by simp [Inst.regs]), gpr rs2 (by simp [Inst.regs])])
  | opImm kind rd rs1 imm =>
      exact agree.setR rd rfl (by rw [gpr rs1 (by simp [Inst.regs])])
  | shift kind rd rs1 imm =>
      exact agree.setR rd rfl (by rw [gpr rs1 (by simp [Inst.regs])])
  | unary kind rd rs1 =>
      exact agree.setR rd rfl (by rw [gpr rs1 (by simp [Inst.regs])])
  | load kind rd rs1 imm =>
      apply agree.setR rd rfl
      rw [agree.addrOf (free rs1 (by simp [Inst.regs])) imm,
        hostRead_agree sameReads (by cases kind <;> decide)]
  | sh rs2 rs1 imm =>
      exact ⟨rfl, agree.gpr, agree.sr⟩
  | branch kind rs1 rs2 target =>
      refine ⟨?_, agree.gpr, agree.sr⟩
      simp only [Inst.exec, gpr rs1 (by simp [Inst.regs]),
        gpr rs2 (by simp [Inst.regs])]
  | jal rd target =>
      exact agree.setR rd rfl rfl
  | tail target =>
      exact ⟨rfl, agree.gpr, agree.sr⟩
  | la rd symbol =>
      exact agree.setR rd rfl rfl

/-- What a line writes is the same, and it writes nothing else. -/
theorem Agree.exec_pmem {inst : Inst Word} (free : ∀ r ∈ inst.regs, Free r)
    (next : Word) {addr : Word}
    (same : InAccess (inst.writes right) addr ∨
      left.pmem addr = right.pmem addr) :
    (inst.exec next left).pmem addr = (inst.exec next right).pmem addr := by
  have gpr : ∀ r ∈ inst.regs, left.cpu.gpr r = right.cpu.gpr r :=
    fun r inRegs => agree.gpr r (free r inRegs).1 (free r inRegs).2
  have noWrite : inst.writes right = none → left.pmem addr = right.pmem addr :=
    fun none => same.resolve_left fun inside => by simp [none, InAccess] at inside
  cases inst with
  | base kept =>
      cases kept with
      | sw rs2 rs1 imm =>
          simp only [Inst.exec, Base.exec_sw,
            gpr rs1 (by simp [Inst.regs, Base.regs]),
            gpr rs2 (by simp [Inst.regs, Base.regs])]
          exact hostWrite_agree _ (by decide) same
      | sb rs2 rs1 imm =>
          simp only [Inst.exec, Base.exec_sb,
            gpr rs1 (by simp [Inst.regs, Base.regs]),
            gpr rs2 (by simp [Inst.regs, Base.regs])]
          exact hostWrite_agree _ (by decide) same
      | _ => exact noWrite rfl
  | sh rs2 rs1 imm =>
      simp only [Inst.exec, agree.addrOf (free rs1 (by simp [Inst.regs])) imm,
        gpr rs2 (by simp [Inst.regs])]
      exact hostWrite_agree _ (by decide) same
  | _ => exact noWrite rfl

end Agree

end Ysyx.Rvmini
