import Ysyx.Rvmini.Source
import Ysyx.Rvmini.Rodata

/-!
# NEMU runs the replaced program

Every run of the lines that the compiler wrote is a run of NEMU on the base
code, which executes nothing but `add`, `addi`, `lui`, `lw`, `lbu`, `sw`, `sb`
and `jalr`.
-/

namespace Ysyx.Rvmini

open Nemu

/-- The files that the linker accepts. -/
structure LinkedFile.Placed (linked : LinkedFile) (image : Image) : Prop where
  clean : ∀ inst ∈ linked.text, inst.Clean
  evenTarget : ∀ inst ∈ linked.text, ∀ target ∈ inst.target?, EvenAddr target
  evenLine : ∀ line, EvenAddr (linked.addressOf line)
  /-- Every line has its code, which ends where the next line starts. -/
  piece : ∀ line inst, linked.text[line]? = some inst → ∃ code,
    inst.expand image (linked.addressOf (line + 1)) = some code ∧
      linked.addressOf (line + 1) =
        linked.addressOf line + BitVec.ofNat 32 (4 * code.length) ∧
      4 * code.length < 2 ^ 32 ∧
      ∀ addr, InCode (linked.addressOf line) code addr →
        linked.reserved addr = true ∧ ¬ image.IsCheckSame addr
  table : ∀ addr, image.IsTable addr →
    linked.reserved addr = true ∧ ¬ image.IsCheckSame addr
  cell : ∀ addr, image.IsCheckSame addr → linked.reserved addr = true

/-- NEMU is at the same place as the program, with the same registers but for
`gp` and `tp`, and with the same bytes where the program has given one a
value. -/
structure Matches (linked : LinkedFile) (image : Image) (checked : Checked)
    (state : State) : Prop where
  agree : Agree state checked.state
  line : ∀ line ∈ checked.line, linked.addressOf line = checked.state.pc
  known : ∀ addr, checked.known addr = true →
    state.pmem addr = checked.state.pmem addr
  unknown : ∀ addr, image.IsCheckSame addr → checked.known addr = false
  loaded : image.Loaded state.pmem
  code : ∀ line inst code, linked.text[line]? = some inst →
    inst.expand image (linked.addressOf (line + 1)) = some code →
      CodeAt state.pmem (linked.addressOf line) code

/-- A line that does not jump goes on with the next one. -/
theorem pc_of_not_jumps {inst : Inst Word} {state : State} {next : Word}
    {image : Image} {code : List Base}
    (expands : inst.expand image next = some code)
    (here : next = state.pc + BitVec.ofNat 32 (4 * code.length))
    (goesOn : inst.jumps state = false) : (inst.exec next state).pc = next := by
  cases inst with
  | base kept =>
      obtain rfl := Option.some.inj expands
      cases kept with
      | jalr rd rs1 imm => simp [Inst.jumps] at goesOn
      | _ => exact here.symm
  | branch kind rs1 rs2 target =>
      rw [Inst.jumps] at goesOn
      simp only [Inst.exec, goesOn]
      rfl
  | jal rd target => simp [Inst.jumps] at goesOn
  | tail target => simp [Inst.jumps] at goesOn
  | _ => rfl

section Simulation

variable {linked : LinkedFile} {image : Image} {checked next : Checked}
  {state : State}

/-- What no code may change. -/
def LinkedFile.Kept (linked : LinkedFile) (image : Image) (addr : Word) : Prop :=
  linked.reserved addr = true ∧ ¬ image.IsCheckSame addr

theorem LinkedFile.Allowed.room {inst : Inst Word}
    (allowed : linked.Allowed checked inst) {addr : Word}
    (inside : InScratch (checked.state.cpu.gpr sp) addr) :
    linked.reserved addr = false :=
  allowed.2.2 addr (mem_bytesOf ⟨_, rfl, inside⟩)

theorem Matches.stack (same : Matches linked image checked state) :
    state.cpu.gpr sp = checked.state.cpu.gpr sp :=
  same.agree.gpr sp (by decide) (by decide)

theorem Matches.ready {inst : Inst Word}
    (same : Matches linked image checked state)
    (placed : linked.Placed image) (allowed : linked.Allowed checked inst) :
    Ready image state where
  loaded := same.loaded
  clear := by
    rw [same.stack]
    intro addr inside
    have free := allowed.room inside
    constructor
    · intro table
      simp [(placed.table addr table).1] at free
    · intro cell
      simp [placed.cell addr cell] at free
  apart addr cell table := (placed.table addr table).2 cell

theorem Matches.keeps {inst : Inst Word}
    (same : Matches linked image checked state)
    (allowed : linked.Allowed checked inst) :
    Keeps image (linked.Kept image) state := by
  intro addr kept
  refine ⟨fun inside => ?_, kept.2⟩
  rw [same.stack] at inside
  have free := allowed.room inside
  simp [kept.1] at free

/-- NEMU takes as many steps as the line has base instructions. -/
theorem Matches.step (same : Matches linked image checked state)
    (placed : linked.Placed image) (steps : linked.step checked = some next) :
    ∃ count, Matches linked image next (state.run count) := by
  obtain ⟨line, inst, atLine, here, allowed, after, nextLine, known⟩ :=
    LinkedFile.step_eq_some steps
  obtain ⟨code, expands, nextAddress, short, inCode⟩ :=
    placed.piece line inst here
  have inText := List.mem_of_getElem? here
  have free := (placed.clean inst inText).free
  have ready := same.ready placed allowed
  have keeps := same.keeps allowed
  have pc : state.pc = linked.addressOf line := by
    rw [same.agree.pc, same.line line atLine]
  have reads := same.agree.reads free
  have writes := same.agree.writes free
  have noRead : ∀ addr, InAccess (inst.reads state) addr →
      ¬ InScratch (state.cpu.gpr sp) addr := by
    rw [reads, same.stack]
    exact fun addr inside => (allowed.1 addr (mem_bytesOf inside)).2
  have noWrite : ∀ addr, InAccess (inst.writes state) addr →
      ¬ linked.Kept image addr := by
    rw [writes]
    intro addr inside kept
    have unreserved := (allowed.2.1 addr (mem_bytesOf inside)).1
    simp [kept.1] at unreserved
  obtain ⟨used, ⟨rest, whole⟩, follows⟩ := exists_follows
    (placed.clean inst inText) (placed.evenTarget inst inText) keeps ready
    noRead noWrite expands (by rw [pc]; exact nextAddress)
    (placed.evenLine (line + 1))
  have runs : state.run used.length = execAll state used := by
    have atLine := same.code line inst code here expands
    rw [← whole, ← pc] at atLine
    apply run_code follows.falls (codeAt_append.mp atLine).1 _ _ follows.quiet
    · have length := congrArg List.length whole
      rw [List.length_append] at length
      omega
    · intro addr inUsed
      apply inCode addr
      rw [← pc, InCode, ← whole, List.length_append]
      rw [InCode] at inUsed
      omega
  have kept : ∀ addr, linked.Kept image addr →
      (execAll state used).pmem addr = state.pmem addr :=
    follows.quiet.execAll
  have sameReads : ∀ addr, InAccess (inst.reads checked.state) addr →
      state.pmem addr = checked.state.pmem addr := fun addr inside =>
    same.known addr (allowed.1 addr (mem_bytesOf inside)).1
  have agree := same.agree.exec free (linked.addressOf (line + 1)) sameReads
  rw [← after] at agree
  refine ⟨used.length, ?_⟩
  rw [runs]
  exact {
    agree := ⟨follows.pc.trans agree.pc,
      fun r notGp notTp =>
        (follows.gpr r notGp notTp).trans (agree.gpr r notGp notTp),
      follows.sr.trans agree.sr⟩
    line := by
      rw [nextLine]
      split
      · exact fun found isFound => LinkedFile.addressOf_of_lineAt isFound
      · next goesOn =>
          rintro found ⟨⟩
          rw [after]
          refine (pc_of_not_jumps expands ?_ (by simpa using goesOn)).symm
          rw [← same.line line atLine]
          exact nextAddress
    known := by
      intro addr isKnown
      have notScratch : ¬ InScratch (state.cpu.gpr sp) addr := by
        rw [same.stack]
        rcases known addr isKnown with inside | before
        · exact (allowed.2.1 addr (mem_bytesOf inside)).2
        · exact before.2
      have notCell : ¬ image.IsCheckSame addr := by
        intro cell
        rcases known addr isKnown with inside | before
        · have unreserved := (allowed.2.1 addr (mem_bytesOf inside)).1
          simp [placed.cell addr cell] at unreserved
        · simp [same.unknown addr cell] at before
      rw [follows.off addr notScratch notCell, after]
      apply same.agree.exec_pmem free
      exact (known addr isKnown).imp_right fun before =>
        same.known addr before.1
    unknown := by
      intro addr cell
      by_contra isKnown
      rcases known addr (by simpa using isKnown) with inside | before
      · have unreserved := (allowed.2.1 addr (mem_bytesOf inside)).1
        simp [placed.cell addr cell] at unreserved
      · simp [same.unknown addr cell] at before
    loaded := same.loaded.congr fun addr table => kept addr (placed.table addr table)
    code := by
      intro other inst' code' here' expands'
      obtain ⟨piece, expanded, -, short', inPiece⟩ := placed.piece other inst' here'
      obtain rfl : piece = code' := Option.some.inj (expanded.symm.trans expands')
      exact (same.code other inst' piece here' expands').congr short'
        fun addr inside => kept addr (inPiece addr inside) }

/-- NEMU follows every run of the program. -/
theorem Matches.run {count : Nat} (same : Matches linked image checked state)
    (placed : linked.Placed image)
    (runs : linked.run checked count = some next) :
    ∃ steps, Matches linked image next (state.run steps) := by
  induction count generalizing next with
  | zero =>
      obtain rfl := Option.some.inj runs
      exact ⟨0, same⟩
  | succ count inductionHypothesis =>
      obtain ⟨middle, before, steps⟩ := Option.bind_eq_some_iff.mp runs
      obtain ⟨first, sameMiddle⟩ := inductionHypothesis before
      obtain ⟨second, sameNext⟩ := sameMiddle.step placed steps
      refine ⟨first + second, ?_⟩
      rw [run_add]
      exact sameNext

end Simulation

/-! ## Assembled files -/

/-- A file whose lines `inst-replace.h` can replace. -/
structure Replaceable (text : List (Inst Symbol)) : Prop where
  clean : ∀ inst ∈ text, inst.Clean
  /-- Instructions start at even addresses. -/
  other : ∀ inst ∈ text, ∀ addr, inst.target? = some (.other addr) →
    EvenAddr addr

/-- The memory that holds the code of a file and the tables, with
`_check_same_array` apart. -/
structure Layout (image : Image) (start : Word) (code : List Base)
    (reserved : Word → Bool) : Prop where
  even : EvenAddr start
  short : 4 * code.length < 2 ^ 32
  code : ∀ addr, InCode start code addr →
    reserved addr = true ∧ ¬ image.IsCheckSame addr
  table : ∀ addr, image.IsTable addr →
    reserved addr = true ∧ ¬ image.IsCheckSame addr
  cell : ∀ addr, image.IsCheckSame addr → reserved addr = true

/-- The linked file. -/
def LinkedFile.ofText (image : Image) (start : Word) (text : List (Inst Symbol))
    (reserved : Word → Bool) : LinkedFile where
  text := resolve image start text
  addressOf := Rvmini.addressOf image start text
  reserved := reserved

section Assembled

variable {image : Image} {start : Word} {text : List (Inst Symbol)}
  {code : List Base} {reserved : Word → Bool}

theorem inCode_piece {before piece after : List Base} {addr : Word}
    (inside : InCode (start + BitVec.ofNat 32 (4 * before.length)) piece addr) :
    InCode start (before ++ (piece ++ after)) addr := by
  rw [InCode] at inside ⊢
  rw [List.length_append, List.length_append]
  simp only [BitVec.toNat_sub, BitVec.toNat_add, BitVec.toNat_ofNat]
    at inside ⊢
  omega

theorem placed_ofText (replaceable : Replaceable text)
    (layout : Layout image start code reserved)
    (assembled : assemble image start text = some code) :
    (LinkedFile.ofText image start text reserved).Placed image where
  clean := by
    intro inst inText
    obtain ⟨source, inSource, rfl⟩ := List.mem_map.mp inText
    exact (replaceable.clean source inSource).map _
  evenTarget := by
    intro inst inText target isTarget
    obtain ⟨source, inSource, rfl⟩ := List.mem_map.mp inText
    rw [Inst.target?_map, Option.mem_def, Option.map_eq_some_iff] at isTarget
    obtain ⟨symbol, isSymbol, rfl⟩ := isTarget
    cases symbol with
    | label line => exact evenAddr_addressOf layout.even text line
    | other addr => exact replaceable.other source inSource addr isSymbol
  evenLine := evenAddr_addressOf layout.even text
  piece := by
    intro line inst here
    obtain ⟨before, piece, after, rfl, expands, address⟩ :=
      exists_piece assembled here
    rw [addressOf_resolve] at expands address
    have next : addressOf image start (resolve image start text) (line + 1) =
        _ := addressOf_succ start here
    rw [addressOf_resolve, addressOf_resolve, ← length_expand expands] at next
    have short := layout.short
    rw [List.length_append, List.length_append] at short
    refine ⟨piece, expands, next, by omega, fun addr inside => ?_⟩
    apply layout.code addr
    exact inCode_piece (address ▸ inside)
  table := layout.table
  cell := layout.cell

theorem matches_start {state : State} {line : Nat}
    (layout : Layout image start code reserved)
    (assembled : assemble image start text = some code)
    (loaded : image.Loaded state.pmem) (whole : CodeAt state.pmem start code)
    (atLine : state.pc = addressOf image start text line) :
    Matches (LinkedFile.ofText image start text reserved) image
      ⟨state, some line, fun addr => !reserved addr⟩ state where
  agree := ⟨rfl, fun _ _ _ => rfl, rfl⟩
  line := by
    rintro found ⟨⟩
    exact atLine.symm
  known _ _ := rfl
  unknown addr cell := by simp [layout.cell addr cell]
  loaded := loaded
  code := by
    intro line inst piece here expands
    obtain ⟨before, found, after, rfl, expands', address⟩ :=
      exists_piece assembled here
    rw [addressOf_resolve] at expands' address
    obtain rfl : found = piece := Option.some.inj (expands'.symm.trans expands)
    have parts := (codeAt_append.mp (codeAt_append.mp whole).2).1
    rw [← address] at parts
    exact parts

/-- NEMU runs a file that the macros replaced like RV32I runs the lines of the
file, from any line and any state that holds the code and the tables. -/
theorem nemu_runs_replaced_file {state : State} {line count : Nat}
    {after : Checked}
    (replaceable : Replaceable text)
    (layout : Layout image start code reserved)
    (assembled : assemble image start text = some code)
    (loaded : image.Loaded state.pmem) (whole : CodeAt state.pmem start code)
    (atLine : state.pc = addressOf image start text line)
    (runs : (LinkedFile.ofText image start text reserved).run
      ⟨state, some line, fun addr => !reserved addr⟩ count = some after) :
    ∃ steps, (state.run steps).pc = after.state.pc ∧
      (∀ r, r ≠ gp → r ≠ tp →
        (state.run steps).cpu.gpr r = after.state.cpu.gpr r) ∧
      ∀ addr, after.known addr = true →
        (state.run steps).pmem addr = after.state.pmem addr := by
  have same := matches_start layout assembled loaded whole atLine
  obtain ⟨steps, final⟩ :=
    same.run (placed_ofText replaceable layout assembled) runs
  exact ⟨steps, final.agree.pc, final.agree.gpr, final.known⟩

end Assembled

/-! ## Files with `.rodata` -/

instance (start : Word) (code : List Base) (addr : Word) :
    Decidable (InCode start code addr) :=
  inferInstanceAs (Decidable (_ < _))

/-- What the code and `.rodata` take. -/
def reservedFor (base start : Word) (code : List Base) (addr : Word) : Bool :=
  decide (InCode start code addr) || decide (InRodata base addr)

theorem layout_ofRodata {base start : Word} {code : List Base}
    (even : EvenAddr start) (short : 4 * code.length < 2 ^ 32)
    (apart : ∀ addr, InCode start code addr → ¬ InRodata base addr) :
    Layout (Image.ofRodata base) start code
      (reservedFor base start code) where
  even := even
  short := short
  code addr inCode := by
    refine ⟨by simp [reservedFor, inCode], fun check => apart addr inCode ?_⟩
    exact Nat.lt_trans check (by decide)
  table addr table := by
    have inRodata := (isTable_ofRodata table).2
    exact ⟨by simp [reservedFor, inRodata], not_isCheckSame_of_isTable table⟩
  cell addr check := by
    have inRodata : InRodata base addr := Nat.lt_trans check (by decide)
    simp [reservedFor, inRodata]

end Ysyx.Rvmini
