import Ysyx.Rvmini.Scratch

/-!
# Base code on NEMU

NEMU runs a piece of base code that lies at its pc, as long as the code does
not write to itself.
-/

namespace Ysyx.Rvmini

open Nemu

/-- Goes on with the next instruction. -/
def Base.Falls : Base → Prop
  | .jalr .. => False
  | _ => True

instance (base : Base) : Decidable base.Falls := by
  cases base <;> unfold Base.Falls <;> infer_instance

theorem Base.pc_exec {base : Base} (falls : base.Falls) (state : State) :
    (base.exec state).pc = state.pc + 4 := by
  cases base with
  | jalr rd rs1 imm => exact falls.elim
  | _ => rfl

/-- No instruction of `code` changes the memory at a `keep` address. -/
def Quiet (keep : Word → Prop) : State → List Base → Prop
  | _, [] => True
  | state, base :: code =>
      (∀ addr, keep addr → (base.exec state).pmem addr = state.pmem addr) ∧
        Quiet keep (base.exec state) code

section Quiet

variable {keep : Word → Prop} {state : State} {code rest : List Base}
  {regs : List Reg} {vars : List Var}

theorem quiet_append :
    Quiet keep state (code ++ rest) ↔
      Quiet keep state code ∧ Quiet keep (execAll state code) rest := by
  induction code generalizing state with
  | nil =>
      simp [Quiet]
  | cons base code inductionHypothesis =>
      rw [List.cons_append, Quiet, Quiet, inductionHypothesis, execAll_cons,
        and_assoc]

theorem Quiet.execAll (quiet : Quiet keep state code) :
    ∀ addr, keep addr → (execAll state code).pmem addr = state.pmem addr := by
  induction code generalizing state with
  | nil =>
      intro addr _
      rfl
  | cons base code inductionHypothesis =>
      intro addr kept
      exact (inductionHypothesis quiet.2 addr kept).trans (quiet.1 addr kept)

/-- Code with a footprint leaves all other memory alone. -/
theorem quiet_of_touches (touches : ∀ base ∈ code, base.Touches regs vars)
    (stackKept : sp ∉ regs)
    (outside : ∀ addr, keep addr → ¬ InScratch (state.cpu.gpr sp) addr) :
    Quiet keep state code := by
  induction code generalizing state with
  | nil =>
      trivial
  | cons base code inductionHypothesis =>
      have head := List.forall_mem_cons.mp touches
      have frame : Frame regs vars state (base.exec state) :=
        frame_exec head.1
      refine ⟨fun addr kept => frame.off addr (outside addr kept) not_false, ?_⟩
      apply inductionHypothesis head.2
      rw [frame.gpr sp stackKept]
      exact outside

end Quiet

/-! ## Fetching -/

/-- The word `code` lies at `addr`. -/
def CodeAt (pmem : Pmem) (addr : Word) (code : List Base) : Prop :=
  ∀ (index : Nat) (base : Base), code[index]? = some base →
    hostRead pmem (addr + BitVec.ofNat 32 (4 * index)) 4 = base.encode

/-- The addresses of a piece of code. -/
def InCode (addr : Word) (code : List Base) (target : Word) : Prop :=
  (target - addr).toNat < 4 * code.length

section Fetch

variable {keep : Word → Prop} {state : State} {code : List Base}

theorem codeAt_cons {pmem : Pmem} {addr : Word} {base : Base} :
    CodeAt pmem addr (base :: code) ↔
      hostRead pmem addr 4 = base.encode ∧ CodeAt pmem (addr + 4#32) code := by
  constructor
  · intro whole
    refine ⟨by simpa using whole 0 base rfl, fun index inst here => ?_⟩
    have next := whole (index + 1) inst (by simpa using here)
    rwa [Nat.mul_add, BitVec.ofNat_add, BitVec.add_comm (BitVec.ofNat 32 _),
      ← BitVec.add_assoc] at next
  · rintro ⟨head, tail⟩ index inst here
    cases index with
    | zero =>
        obtain rfl : base = inst := by simpa using here
        simpa using head
    | succ index =>
        have next := tail index inst (by simpa using here)
        rwa [Nat.mul_add, BitVec.ofNat_add, BitVec.add_comm (BitVec.ofNat 32 _),
          ← BitVec.add_assoc]

theorem CodeAt.congr {pmem other : Pmem} {addr : Word}
    (whole : CodeAt pmem addr code) (fits : 4 * code.length < 2 ^ 32)
    (same : ∀ target, InCode addr code target → other target = pmem target) :
    CodeAt other addr code := by
  intro index base here
  rw [← whole index base here]
  apply hostRead_congr
  intro lane inWord
  have inList := (List.getElem?_eq_some_iff.mp here).1
  apply same
  rw [InCode]
  simp only [BitVec.toNat_sub, BitVec.toNat_add, BitVec.toNat_ofNat]
  omega

theorem inCode_tail {addr target : Word} {base : Base}
    (inTail : InCode (addr + 4#32) code target) :
    InCode addr (base :: code) target := by
  rw [InCode] at inTail ⊢
  rw [List.length_cons]
  simp only [BitVec.toNat_sub, BitVec.toNat_add, BitVec.toNat_ofNat] at *
  omega

theorem step_base {base : Base}
    (fetched : hostRead state.pmem state.pc 4 = base.encode) :
    state.step = base.exec state := by
  rw [← Base.exec_encode, ← fetched]
  rfl

theorem run_succ_step (state : State) (count : Nat) :
    state.run (count + 1) = state.step.run count := by
  induction count with
  | zero =>
      rfl
  | succ count inductionHypothesis =>
      rw [State.run, inductionHypothesis, State.run]

theorem run_add (state : State) (first second : Nat) :
    state.run (first + second) = (state.run first).run second := by
  induction second with
  | zero =>
      rfl
  | succ second inductionHypothesis =>
      rw [← Nat.add_assoc, State.run, State.run, inductionHypothesis]

/-- NEMU runs a piece of code, of which only the last instruction may jump. -/
theorem run_code (falls : ∀ base ∈ code.dropLast, base.Falls)
    (whole : CodeAt state.pmem state.pc code)
    (fits : 4 * code.length < 2 ^ 32)
    (inCode : ∀ target, InCode state.pc code target → keep target)
    (quiet : Quiet keep state code) :
    state.run code.length = execAll state code := by
  induction code generalizing state with
  | nil =>
      rfl
  | cons base rest inductionHypothesis =>
      obtain ⟨fetched, tail⟩ := codeAt_cons.mp whole
      rw [List.length_cons, run_succ_step, step_base fetched, execAll_cons]
      cases rest with
      | nil =>
          rfl
      | cons next more =>
          have pc := Base.pc_exec (falls base (by simp)) state
          have tailFits : 4 * (next :: more).length < 2 ^ 32 := by
            rw [List.length_cons] at fits
            omega
          have tailKept : ∀ target,
              InCode (base.exec state).pc (next :: more) target →
                keep target := by
            rw [pc]
            exact fun target inTail => inCode target (inCode_tail inTail)
          apply inductionHypothesis _ _ tailFits tailKept quiet.2
          · intro inst inRest
            exact falls inst (List.mem_cons_of_mem base inRest)
          · rw [pc]
            apply tail.congr tailFits
            intro target inTail
            exact quiet.1 target (inCode target (inCode_tail inTail))

end Fetch

end Ysyx.Rvmini
