import Ysyx.Libgcc.Signed
import Ysyx.Libgcc.Multiplication

/-!
# `libgcc` on NEMU

NEMU divides and multiplies with the replaced files, and with no instruction
but the base ones.
-/

namespace Ysyx.Libgcc

open Nemu Rvmini

/-- NEMU has come back from a function that computes `name`. -/
structure Computed (reserved : Word → Bool) (name : InstName)
    (before after : State) : Prop where
  pc : after.pc = before.cpu.gpr ra
  result : after.cpu.gpr a0 =
    name.architectural (before.cpu.gpr a0) (before.cpu.gpr a1)
  gpr : ∀ r, r ∉ usedRegs → r ≠ gp → r ≠ tp →
    after.cpu.gpr r = before.cpu.gpr r
  sr : after.cpu.sr = before.cpu.sr
  pmem : ∀ addr, reserved addr = false →
    ¬ InScratch (before.cpu.gpr sp) addr → after.pmem addr = before.pmem addr

section Replaced

variable {image : Image} {start : Word} {text : List (Inst Symbol)}
  {code : List Base} {reserved : Word → Bool} {state : State}

theorem nemu_returns {name : InstName} {line : Nat}
    (replaceable : Replaceable text)
    (layout : Layout image start code reserved)
    (assembled : assemble image start text = some code)
    (loaded : image.Loaded state.pmem) (whole : CodeAt state.pmem start code)
    (atLine : state.pc = addressOf image start text line)
    (leads : (LinkedFile.ofText image start text reserved).Leads
      ⟨state, some line, fun addr => !reserved addr⟩
      (Returned (LinkedFile.ofText image start text reserved) name state.cpu)) :
    ∃ steps, Computed reserved name state (state.run steps) := by
  obtain ⟨count, after, runs, undisturbed, returned⟩ := leads
  have same := matches_start layout assembled loaded whole atLine
  obtain ⟨steps, final⟩ :=
    same.run (placed_ofText replaceable layout assembled) runs
  refine ⟨steps, ?_, ?_, ?_, ?_, ?_⟩
  · exact final.agree.pc.trans returned.pc
  · exact (final.agree.gpr a0 (by decide) (by decide)).trans returned.result
  · intro r unused notGp notTp
    exact (final.agree.gpr r notGp notTp).trans (returned.kept.gpr r unused)
  · exact final.agree.sr.trans returned.kept.sr
  · intro addr free outside
    have isKnown := undisturbed.known addr (by simp [free]) outside
    rw [final.known addr isKnown, undisturbed.pmem]

end Replaced

/-! ## The files -/

/-- Computes without `seqz` and its like, in registers that the macros leave to
the compiler, and jumps within the file. -/
def Usable (inst : Inst Symbol) : Bool :=
  inst.regs.all (fun r => r != gp && r != tp) &&
    (inst.macroRd != some sp && match inst with
      | .unary .. => false
      | .branch _ _ _ (.other _) => false
      | .jal _ (.other _) => false
      | .tail (.other _) => false
      | _ => true)

theorem replaceable_of_usable {text : List (Inst Symbol)}
    (usable : text.all Usable = true) : Replaceable text where
  clean inst inText := by
    have fits := List.all_eq_true.mp usable inst inText
    simp only [Usable, Bool.and_eq_true, List.all_eq_true, bne_iff_ne]
      at fits
    refine ⟨fits.1, fits.2.1, ?_⟩
    rintro rs1 rfl
    exact absurd fits.2.2 (by simp)
  other inst inText addr isTarget := by
    have fits := List.all_eq_true.mp usable inst inText
    simp only [Usable, Bool.and_eq_true] at fits
    obtain ⟨-, -, jumps⟩ := fits
    cases inst <;> simp_all [Inst.target?]

theorem replaceable_divS : Replaceable divS :=
  replaceable_of_usable (by decide)

theorem replaceable_muldi3S : Replaceable muldi3S :=
  replaceable_of_usable (by decide)

theorem stays_divS : ∀ inst ∈ divS, inst.vanishes = false := by
  decide

theorem stays_muldi3S : ∀ inst ∈ muldi3S, inst.vanishes = false := by
  decide

theorem assemble_eq_getD {image : Image} {start : Word}
    {text : List (Inst Symbol)} (isSome : (assemble image start text).isSome) :
    assemble image start text = some ((assemble image start text).getD []) := by
  obtain ⟨code, assembled⟩ := Option.isSome_iff_exists.mp isSome
  rw [assembled]
  rfl

section Addresses

variable {code : List Base} (short : 4 * code.length ≤ 0x100000)
include short

theorem apart_of_length (addr : Word) (inCode : InCode 0x80000000 code addr) :
    ¬ InRodata 0x80100000 addr := by
  intro inRodata
  rw [InCode, BitVec.ofNat_eq_ofNat, BitVec.toNat_sub] at inCode
  rw [InRodata, BitVec.ofNat_eq_ofNat, BitVec.toNat_sub] at inRodata
  simp only [BitVec.toNat_ofNat] at inCode inRodata
  omega

theorem room_of_length (addr : Word) (inside : InScratch 0x80200000 addr) :
    reservedFor 0x80100000 0x80000000 code addr = false := by
  rw [InScratch, BitVec.ofNat_eq_ofNat] at inside
  simp only [BitVec.toNat_sub, BitVec.toNat_ofNat] at inside
  rw [reservedFor, Bool.or_eq_false_iff, decide_eq_false_iff_not,
    decide_eq_false_iff_not, InCode, InRodata, BitVec.ofNat_eq_ofNat,
    BitVec.ofNat_eq_ofNat]
  simp only [BitVec.toNat_sub, BitVec.toNat_ofNat]
  omega

end Addresses

section Files

variable {image : Image} {start : Word} {code : List Base}
  {reserved : Word → Bool} {state : State}

/-- NEMU divides with `div.S`: from any state that holds the replaced file,
with room for the macros below `sp`, every function returns with what the M
extension writes, and changes no other memory. -/
theorem nemu_divides (routine : DivRoutine)
    (layout : Layout image start code reserved)
    (assembled : assemble image start divS = some code)
    (loaded : image.Loaded state.pmem) (whole : CodeAt state.pmem start code)
    (called : state.pc = addressOf image start divS routine.line)
    (even : EvenAddr (state.cpu.gpr ra))
    (room : ∀ addr, InScratch (state.cpu.gpr sp) addr →
      reserved addr = false) :
    ∃ steps, Computed reserved routine.name state (state.run steps) := by
  apply nemu_returns replaceable_divS layout assembled loaded whole called
  exact leads_divRoutine (hasText_ofText layout assembled stays_divS) routine
    ⟨rfl, rfl, room_of_inScratch room⟩ even

theorem gpr_start : (0 : Reg → Word) 0 = 0 := rfl

/-- `div.S`, linked to 0x80000000. -/
def divCode : List Base :=
  (assemble (Image.ofRodata 0x80100000) 0x80000000 divS).getD []

theorem divCode_assembled :
    assemble (Image.ofRodata 0x80100000) 0x80000000 divS = some divCode ∧
      divCode.length = 794 :=
  ⟨assemble_eq_getD (by decide +kernel), by decide +kernel⟩

/-- A call of `__modsi3` with 7 and -2. -/
def modState : State where
  pc := addressOf (Image.ofRodata 0x80100000) 0x80000000 divS 33
  cpu := ((((CpuState.setR ⟨0, 0, gpr_start⟩ sp 0x80200000).setR ra
    0x80050000).setR a0 7).setR a1 (-2))
  pmem := loadFile 0x80100000 0x80000000 divCode

/-- NEMU takes 7 modulo -2. -/
theorem nemu_divides_modsi3 :
    ∃ steps, Computed (reservedFor 0x80100000 0x80000000 divCode) .rem
      modState (modState.run steps) := by
  obtain ⟨assembled, length⟩ := divCode_assembled
  have apart : ∀ addr, InCode 0x80000000 divCode addr →
      ¬ InRodata 0x80100000 addr := apart_of_length (by omega)
  exact nemu_divides .modsi3
    (layout_ofRodata (by decide) (by omega) apart) assembled
    (loaded_loadFile apart) (codeAt_loadFile (by omega)) rfl (by decide)
    (room_of_length (by omega))

/-- NEMU multiplies with `muldi3.S`, like `mul`. -/
theorem nemu_multiplies (layout : Layout image start code reserved)
    (assembled : assemble image start muldi3S = some code)
    (loaded : image.Loaded state.pmem) (whole : CodeAt state.pmem start code)
    (called : state.pc = start) (even : EvenAddr (state.cpu.gpr ra))
    (room : ∀ addr, InScratch (state.cpu.gpr sp) addr →
      reserved addr = false) :
    ∃ steps, Computed reserved .mul state (state.run steps) := by
  have atLine : state.pc = addressOf image start muldi3S 0 :=
    called.trans (addressOf_zero start muldi3S).symm
  apply nemu_returns replaceable_muldi3S layout assembled loaded whole atLine
  exact leads_mulsi3 (hasText_ofText layout assembled stays_muldi3S)
    ⟨rfl, rfl, room_of_inScratch room⟩ even

/-- `muldi3.S`, linked to 0x80000000. -/
def mulCode : List Base :=
  (assemble (Image.ofRodata 0x80100000) 0x80000000 muldi3S).getD []

theorem mulCode_assembled :
    assemble (Image.ofRodata 0x80100000) 0x80000000 muldi3S = some mulCode ∧
      mulCode.length = 156 :=
  ⟨assemble_eq_getD (by decide +kernel), by decide +kernel⟩

/-- A call of `__mulsi3` with 6 and 7. -/
def mulState : State where
  pc := 0x80000000
  cpu := ((((CpuState.setR ⟨0, 0, gpr_start⟩ sp 0x80200000).setR ra
    0x80050000).setR a0 6).setR a1 7)
  pmem := loadFile 0x80100000 0x80000000 mulCode

/-- NEMU multiplies 6 by 7. -/
theorem nemu_multiplies_six_seven :
    ∃ steps, Computed (reservedFor 0x80100000 0x80000000 mulCode) .mul
      mulState (mulState.run steps) := by
  obtain ⟨assembled, length⟩ := mulCode_assembled
  have apart : ∀ addr, InCode 0x80000000 mulCode addr →
      ¬ InRodata 0x80100000 addr := apart_of_length (by omega)
  exact nemu_multiplies (layout_ofRodata (by decide) (by omega) apart)
    assembled (loaded_loadFile apart) (codeAt_loadFile (by omega)) rfl
    (by decide) (room_of_length (by omega))

/-- The lines of `__mulsi3` for 6 and 7, and NEMU. -/
theorem nemu_runs_muldi3S :
    let linked := LinkedFile.ofText (Image.ofRodata 0x80100000) 0x80000000 muldi3S
      (reservedFor 0x80100000 0x80000000 mulCode)
    let free := fun addr => !reservedFor 0x80100000 0x80000000 mulCode addr
    ∃ count after, linked.run ⟨mulState, some 0, free⟩ count = some after ∧
      after.state.cpu.gpr a0 = 42 ∧
      ∃ steps, (mulState.run steps).pc = after.state.pc ∧
        (∀ r, r ≠ gp → r ≠ tp →
          (mulState.run steps).cpu.gpr r = after.state.cpu.gpr r) ∧
        ∀ addr, after.known addr = true →
          (mulState.run steps).pmem addr = after.state.pmem addr := by
  intro linked free
  obtain ⟨assembled, length⟩ := mulCode_assembled
  have apart : ∀ addr, InCode 0x80000000 mulCode addr →
      ¬ InRodata 0x80100000 addr := apart_of_length (by omega)
  have layout := layout_ofRodata (by decide : EvenAddr 0x80000000) (by omega)
    apart
  have here : linked.At ⟨mulState, some 0, free⟩ 0 mulState.cpu :=
    ⟨rfl, rfl, room_of_inScratch (room_of_length (by omega))⟩
  obtain ⟨count, after, runs, -, returned⟩ :=
    leads_mulsi3 (hasText_ofText layout assembled stays_muldi3S) here
      (by decide)
  refine ⟨count, after, runs, returned.result.trans (by decide), ?_⟩
  exact nemu_runs_replaced_file replaceable_muldi3S layout assembled
    (loaded_loadFile apart) (codeAt_loadFile (by omega)) rfl runs

end Files

end Ysyx.Libgcc
