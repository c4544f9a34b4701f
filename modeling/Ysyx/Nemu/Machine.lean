import Ysyx.Nemu.Inst

/-!
# The reference machine

`exec_once` of NEMU: fetch, `decode_exec` and the update of the pc, with the
guest memory, and what one executed instruction shows.
-/

namespace Ysyx.Nemu

/-- `host_write`; other lengths write nothing. -/
def hostWrite (pmem : Pmem) (addr : Word) (len : Nat) (data : Word) : Pmem :=
  fun target =>
    let lane := (target - addr).toNat
    if (len = 1 ∨ len = 2 ∨ len = 4) ∧ lane < len then
      data.extractLsb' (8 * lane) 8
    else
      pmem target

/-- What a request does to the memory. -/
def perform (request : Option MemRequest) (pmem : Pmem) : Pmem :=
  match request with
  | some (.write addr len data) => hostWrite pmem addr len data
  | _ => pmem

/-- The pc, the CPU and the guest memory. -/
structure State where
  pc : Word
  cpu : CpuState
  pmem : Pmem

namespace State

/-- `inst_fetch`. -/
def inst (state : State) : Word := hostRead state.pmem state.pc 4

def outcome (state : State) : Outcome :=
  decodeExec state.pc state.inst state.cpu state.pmem

/-- What the instruction asks of the memory. -/
def request (state : State) : Option MemRequest :=
  match state.outcome with
  | .done _ _ request => request
  | _ => none

/-- `exec_once`; a machine that has stopped stays as it is. -/
def step (state : State) : State :=
  match state.outcome with
  | .done cpu dnpc request => ⟨dnpc, cpu, perform request state.pmem⟩
  | _ => state

/-- The state after `count` instructions. -/
def run (state : State) : Nat → State
  | 0 => state
  | count + 1 => (run state count).step

end State

/-! ## Commits -/

/-- What one executed instruction shows. -/
structure Commit where
  pc : Word
  npc : Word
  /-- The register written and its value. -/
  write : Option (BitVec 5 × Word)
  /-- Address, data and strobe of the store. -/
  store : Option (Word × Word × BitVec 8)
  deriving DecidableEq, Repr

/-- The INSTPATs with an `R(rd) = …`. -/
def Instpat.writesRd (row : Instpat) : Bool :=
  row.type ∉ [OperandType.typeB, .typeS, .typeN]

/-- The byte lanes of an access in its word. -/
def laneStrobe (addr : Word) (len : Nat) : BitVec 8 :=
  BitVec.ofNat 8 (2 ^ len - 1) <<< (addr.toNat % 4)

/-- The stored bytes in their lanes. -/
def laneData (addr : Word) (len : Nat) (data : Word) : Word :=
  (data &&& BitVec.ofNat 32 (2 ^ (8 * len) - 1)) <<< (8 * (addr.toNat % 4))

/-- The commit of the next instruction. -/
def State.commit (state : State) : Commit where
  pc := state.pc
  npc := state.step.pc
  write :=
    let rd : BitVec 5 := (bits state.inst 11 7).setWidth 5
    if rd ≠ 0 ∧ (selected state.inst).any Instpat.writesRd then
      some (rd, state.step.cpu.gpr rd)
    else
      none
  store :=
    match state.request with
    | some (.write addr len data) =>
        some (addr, laneData addr len data, laneStrobe addr len)
    | _ => none

/-- The commits of the first `count` instructions. -/
def State.commits (state : State) (count : Nat) : List Commit :=
  (List.range count).map fun index => (state.run index).commit

theorem State.commits_succ (state : State) (count : Nat) :
    state.commits (count + 1) =
      state.commits count ++ [(state.run count).commit] := by
  simp [commits, List.range_succ]

end Ysyx.Nemu
