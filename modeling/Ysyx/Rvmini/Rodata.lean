import Ysyx.Rvmini.Code
import Ysyx.Rvmini.Tables

/-!
# The loaded file

`.rodata` as `inst-replace.h` lays it out, and memories with the bytes of a
file in them.
-/

namespace Ysyx.Rvmini

open Nemu Bytes

/-- `.rodata`; `_logic_shift_table` is aligned to 256 bytes. -/
def rodata : List (BitVec 8) :=
  List.replicate 256 0 ++ (sameResult ++ (check8bit0Bytes ++ (slt1 ++
    (sltu1 ++ (or1 ++ (List.replicate 228 0 ++ lutBin))))))

/-- The symbols, with `.rodata` at `base`. -/
def Image.ofRodata (base : Word) : Image where
  checkSameArray := base
  sameResultTable := base + 256#32
  check8bit0Table := base + 264#32
  slt1Table := base + 520#32
  sltu1Table := base + 528#32
  or1Table := base + 536#32
  logicShiftTable := base + 768#32

/-- An address of `.rodata`. -/
def InRodata (base addr : Word) : Prop := (addr - base).toNat < 295680

instance (base addr : Word) : Decidable (InRodata base addr) :=
  inferInstanceAs (Decidable (_ < _))

theorem length_check8bit0Bytes : check8bit0Bytes.length = 256 := by
  rw [check8bit0Bytes, List.length_cons, List.length_replicate]

theorem length_lutBin : lutBin.length = 294912 := by
  simp only [lutBin, List.length_append, length_genTable]

theorem length_rodata : rodata.length = 295680 := by
  rw [rodata, List.length_append, List.length_append, List.length_append,
    List.length_append, List.length_append, List.length_append,
    List.length_append, List.length_replicate, List.length_replicate,
    length_check8bit0Bytes, length_lutBin]
  rfl

section Tables

variable {pmem : Pmem} {base addr : Word}

theorem holds_after {offset next : Nat} {bytes rest : List (BitVec 8)}
    (holds : Holds pmem (base + BitVec.ofNat 32 offset) (bytes ++ rest))
    (length : offset + bytes.length = next) :
    Holds pmem (base + BitVec.ofNat 32 next) rest := by
  have later := (holds_append holds).2
  rwa [BitVec.add_assoc, ← BitVec.ofNat_add, length] at later

theorem loaded_ofRodata (holds : Holds pmem base rodata) :
    (Image.ofRodata base).Loaded pmem := by
  have check : Holds pmem (base + BitVec.ofNat 32 0) rodata := by
    rwa [BitVec.add_zero]
  have same : Holds pmem (base + 256#32) _ :=
    holds_after check (by rw [List.length_replicate])
  have bits : Holds pmem (base + 264#32) _ := holds_after same rfl
  have less : Holds pmem (base + 520#32) _ :=
    holds_after bits (by rw [length_check8bit0Bytes])
  have lessU : Holds pmem (base + 528#32) _ := holds_after less rfl
  have either : Holds pmem (base + 536#32) _ := holds_after lessU rfl
  have padding : Holds pmem (base + 540#32) _ := holds_after either rfl
  have logic : Holds pmem (base + 768#32) _ :=
    holds_after padding (by rw [List.length_replicate])
  intro table inImage
  simp only [Image.tables, List.mem_cons, List.not_mem_nil, or_false]
    at inImage
  rcases inImage with rfl | rfl | rfl | rfl | rfl | rfl
  · exact (holds_append same).1
  · exact (holds_append bits).1
  · exact (holds_append less).1
  · exact (holds_append lessU).1
  · exact (holds_append either).1
  · exact logic

theorem isTable_ofRodata (table : (Image.ofRodata base).IsTable addr) :
    256 ≤ (addr - base).toNat ∧ InRodata base addr := by
  obtain ⟨table, inImage, inTable⟩ := table
  simp only [Image.tables, List.mem_cons, List.not_mem_nil, or_false]
    at inImage
  rw [InRodata]
  rcases inImage with rfl | rfl | rfl | rfl | rfl | rfl
  all_goals
    simp only [Image.ofRodata, sameResult, slt1, sltu1, or1,
      length_check8bit0Bytes, length_lutBin, List.length_cons,
      List.length_nil, BitVec.toNat_sub, BitVec.toNat_add,
      BitVec.toNat_ofNat] at inTable ⊢
    omega

theorem not_isCheckSame_of_isTable
    (table : (Image.ofRodata base).IsTable addr) :
    ¬ (Image.ofRodata base).IsCheckSame addr :=
  not_lt.mpr (isTable_ofRodata table).1

end Tables

/-- Room for the scratch words is all that a state needs. -/
theorem ready_ofRodata {base : Word} {state : State}
    (loaded : (Image.ofRodata base).Loaded state.pmem)
    (room : ∀ addr, InScratch (state.cpu.gpr sp) addr →
      ¬ InRodata base addr) : Ready (Image.ofRodata base) state where
  loaded := loaded
  clear addr inside := by
    refine ⟨fun table => room addr inside (isTable_ofRodata table).2, ?_⟩
    exact fun check => room addr inside (Nat.lt_trans check (by decide))
  apart _ check table := not_isCheckSame_of_isTable table check

/-! ## Loading -/

/-- `pmem` with `bytes` at `addr`. -/
def put (pmem : Pmem) (addr : Word) (bytes : List (BitVec 8)) : Pmem :=
  fun target => bytes.getD (target - addr).toNat (pmem target)

/-- `code` as bytes. -/
def codeBytes (code : List Base) : List (BitVec 8) :=
  code.flatMap fun base => fwrite base.encode 4

section Loading

variable {pmem : Pmem} {addr : Word} {bytes : List (BitVec 8)}

theorem holds_put (pmem : Pmem) (addr : Word)
    (fits : bytes.length ≤ 2 ^ 32) : Holds (put pmem addr bytes) addr bytes := by
  intro k value here
  have inList := (List.getElem?_eq_some_iff.mp here).1
  have place : (addr + BitVec.ofNat 32 k - addr).toNat = k := by
    rw [BitVec.add_comm, BitVec.add_sub_cancel, BitVec.toNat_ofNat]
    exact Nat.mod_eq_of_lt (by omega)
  rw [put, place, List.getD_eq_getElem?_getD, here]
  rfl

/-- Bytes elsewhere stay. -/
theorem Holds.put {other : Word} {rest : List (BitVec 8)}
    (holds : Holds pmem other rest)
    (apart : ∀ k < rest.length,
      bytes.length ≤ (other + BitVec.ofNat 32 k - addr).toNat) :
    Holds (put pmem addr bytes) other rest := by
  intro k value here
  have outside := apart k (List.getElem?_eq_some_iff.mp here).1
  rw [Rvmini.put, List.getD_eq_getElem?_getD,
    List.getElem?_eq_none outside]
  exact holds k value here

theorem hostRead_fwrite {word : Word} {rest : List (BitVec 8)}
    (holds : Holds pmem addr (fwrite word 4 ++ rest)) :
    hostRead pmem addr 4 = word := by
  rw [hostRead_four]
  apply ext_byte
  intro k
  rw [byte_ofBytes]
  apply holds k (byte word k)
  rw [List.getElem?_append_left (by rw [length_fwrite]; exact k.isLt)]
  simp [fwrite, byte]

theorem codeAt_of_holds {code : List Base}
    (holds : Holds pmem addr (codeBytes code)) : CodeAt pmem addr code := by
  induction code generalizing addr with
  | nil =>
      intro index base here
      simp at here
  | cons base code inductionHypothesis =>
      rw [codeBytes, List.flatMap_cons] at holds
      refine codeAt_cons.mpr ⟨hostRead_fwrite holds, ?_⟩
      have later := (holds_append holds).2
      rw [length_fwrite] at later
      exact inductionHypothesis later

theorem length_codeBytes (code : List Base) :
    (codeBytes code).length = 4 * code.length := by
  simp [codeBytes, List.length_flatMap, length_fwrite, Nat.mul_comm]

end Loading

/-- A memory with a file in it. -/
def loadFile (base start : Word) (code : List Base) : Pmem :=
  put (put (fun _ => 0) base rodata) start (codeBytes code)

section LoadFile

variable {base start : Word} {code : List Base}

theorem codeAt_loadFile (short : 4 * code.length < 2 ^ 32) :
    CodeAt (loadFile base start code) start code := by
  apply codeAt_of_holds
  apply holds_put
  rw [length_codeBytes]
  exact Nat.le_of_lt short

theorem loaded_loadFile
    (apart : ∀ addr, InCode start code addr → ¬ InRodata base addr) :
    (Image.ofRodata base).Loaded (loadFile base start code) := by
  apply loaded_ofRodata
  have fits : rodata.length ≤ 2 ^ 32 := by
    rw [length_rodata]
    decide
  apply (holds_put (fun _ => 0) base fits).put
  intro k inRodata
  rw [length_rodata] at inRodata
  rw [length_codeBytes]
  by_contra inside
  apply apart (base + BitVec.ofNat 32 k) (not_le.mp inside)
  rw [InRodata, BitVec.add_comm, BitVec.add_sub_cancel, BitVec.toNat_ofNat,
    Nat.mod_eq_of_lt (by omega)]
  exact inRodata

end LoadFile

end Ysyx.Rvmini
