import Ysyx.Rvmini.Macros
import Mathlib.Data.List.Range

/-!
# The lookup tables

What `gen-lut.c` writes and `inst-replace.h` puts into `.rodata`, and what a
load from a loaded table gives.
-/

namespace Ysyx.Rvmini

open Nemu Bytes

/-! ## `gen-lut.c` -/

/-- `fwrite(&res, entry_size, 1, fp)`. -/
def fwrite (res : Word) (entrySize : Nat) : List (BitVec 8) :=
  (List.range entrySize).map fun k => res.extractLsb' (8 * k) 8

/-- `gen_table`. -/
def genTable (row col entrySize : Nat) (expr : Nat → Nat → Word) :
    List (BitVec 8) :=
  (List.range row).flatMap fun j =>
    (List.range col).flatMap fun i => fwrite (expr j i) entrySize

def andEntry (j i : Nat) : Word := BitVec.ofNat 32 j &&& BitVec.ofNat 32 i
def orEntry (j i : Nat) : Word := BitVec.ofNat 32 j ||| BitVec.ofNat 32 i
def xorEntry (j i : Nat) : Word := BitVec.ofNat 32 j ^^^ BitVec.ofNat 32 i
def sllEntry (j i : Nat) : Word := BitVec.ofNat 32 i <<< j
def srlEntry (j i : Nat) : Word := (BitVec.ofNat 32 i <<< 24) >>> j
def sraEntry (j i : Nat) : Word := (BitVec.ofNat 32 i <<< 24).sshiftRight j

/-- `lut.bin`. -/
def lutBin : List (BitVec 8) :=
  genTable 256 256 1 andEntry ++ (genTable 256 256 1 orEntry ++
    (genTable 256 256 1 xorEntry ++ (genTable 32 256 4 sllEntry ++
      (genTable 32 256 4 srlEntry ++ genTable 32 256 4 sraEntry))))

theorem length_flatMap_range {α : Type} (f : Nat → List α) {size : Nat}
    (same : ∀ i, (f i).length = size) (count : Nat) :
    ((List.range count).flatMap f).length = count * size := by
  simp [List.length_flatMap, same]

theorem getElem?_flatMap_range {α : Type} (f : Nat → List α) {size : Nat}
    (same : ∀ i, (f i).length = size) {count i k : Nat} (inTable : i < count)
    (inEntry : k < size) :
    ((List.range count).flatMap f)[i * size + k]? = (f i)[k]? := by
  induction count with
  | zero =>
      omega
  | succ count inductionHypothesis =>
      have length := length_flatMap_range f same count
      rw [List.range_succ, List.flatMap_append, List.flatMap_singleton]
      by_cases last : i = count
      · rw [last, List.getElem?_append_right (by omega)]
        congr 1
        omega
      · have before : (i + 1) * size ≤ count * size :=
          Nat.mul_le_mul_right size (by omega)
        rw [Nat.add_mul] at before
        rw [List.getElem?_append_left (by omega)]
        exact inductionHypothesis (by omega)

section Table

variable {row col entrySize : Nat} {expr : Nat → Nat → Word}

theorem length_fwrite (res : Word) (entrySize : Nat) :
    (fwrite res entrySize).length = entrySize := by
  simp [fwrite]

theorem length_genTable :
    (genTable row col entrySize expr).length = row * (col * entrySize) :=
  length_flatMap_range _
    (fun _ => length_flatMap_range _ (fun _ => length_fwrite ..) col) row

theorem getElem?_genTable {j i k : Nat} (inRow : j < row) (inCol : i < col)
    (inEntry : k < entrySize) :
    (genTable row col entrySize expr)[
      j * (col * entrySize) + (i * entrySize + k)]? =
        some ((expr j i).extractLsb' (8 * k) 8) := by
  have inLine : i * entrySize + k < col * entrySize := by
    have next : (i + 1) * entrySize ≤ col * entrySize :=
      Nat.mul_le_mul_right entrySize inCol
    rw [Nat.add_mul] at next
    omega
  rw [genTable, getElem?_flatMap_range _
    (fun _ => length_flatMap_range _ (fun _ => length_fwrite ..) col) inRow
      inLine, getElem?_flatMap_range _ (fun _ => length_fwrite ..) inCol
      inEntry]
  simp [fwrite, inEntry]

end Table

/-! ## Tables in memory -/

/-- The memory holds `bytes` at `addr`. -/
def Holds (pmem : Pmem) (addr : Word) (bytes : List (BitVec 8)) : Prop :=
  ∀ (k : Nat) (value : BitVec 8), bytes[k]? = some value →
    pmem (addr + BitVec.ofNat 32 k) = value

theorem holds_append {pmem : Pmem} {addr : Word} {bytes rest : List (BitVec 8)}
    (holds : Holds pmem addr (bytes ++ rest)) :
    Holds pmem addr bytes ∧
      Holds pmem (addr + BitVec.ofNat 32 bytes.length) rest := by
  constructor
  · intro k value here
    apply holds k value
    rw [List.getElem?_append_left (List.getElem?_eq_some_iff.mp here).1, here]
  · intro k value here
    have later := holds (bytes.length + k) value (by
      rw [List.getElem?_append_right (Nat.le_add_right ..),
        Nat.add_sub_cancel_left, here])
    rwa [BitVec.ofNat_add, ← BitVec.add_assoc] at later

section Lookup

variable {pmem : Pmem} {addr index : Word} {row col : Nat}
  {expr : Nat → Nat → Word}

/-- `lbu` from a table of bytes. -/
theorem hostRead_byteTable (holds : Holds pmem addr (genTable row col 1 expr))
    {j i : Nat} (inRow : j < row) (inCol : i < col)
    (place : index.toNat = j * col + i) :
    hostRead pmem (addr + index) 1 = ((expr j i).setWidth 8).setWidth 32 := by
  have entry := holds index.toNat ((expr j i).extractLsb' 0 8) (by
    rw [place]
    simpa using getElem?_genTable inRow inCol Nat.zero_lt_one)
  rw [BitVec.ofNat_toNat, BitVec.setWidth_eq] at entry
  rw [show hostRead pmem (addr + index) 1 = (pmem (addr + index)).setWidth 32
    from rfl, entry]
  congr 1

/-- `lw` from a table of words. -/
theorem hostRead_wordTable (holds : Holds pmem addr (genTable row col 4 expr))
    {j i : Nat} (inRow : j < row) (inCol : i < col)
    (place : index.toNat = 4 * (j * col + i)) :
    hostRead pmem (addr + index) 4 = expr j i := by
  rw [hostRead_four]
  apply ext_byte
  intro k
  rw [byte_ofBytes]
  have entry := holds (j * (col * 4) + (i * 4 + k)) _
    (getElem?_genTable inRow inCol k.isLt)
  have same : BitVec.ofNat 32 (j * (col * 4) + (i * 4 + k.val)) =
      index + BitVec.ofNat 32 k := by
    rw [show j * (col * 4) + (i * 4 + k.val) = index.toNat + k.val by
        rw [place, ← Nat.mul_assoc]
        omega,
      BitVec.ofNat_add, BitVec.ofNat_toNat, BitVec.setWidth_eq]
  rw [same, ← BitVec.add_assoc] at entry
  exact entry

end Lookup

/-! ## The image -/

/-- `_same_result_table`. -/
def sameResult : List (BitVec 8) := [1, 0, 0, 0, 0, 0, 0, 0]

/-- `_check_8bit_0_table`. -/
def check8bit0Bytes : List (BitVec 8) := 0 :: List.replicate 255 1

/-- `_slt1_table`. -/
def slt1 : List (BitVec 8) := [0, 1, 0, 0, 1, 1, 0, 1]

/-- `_sltu1_table`. -/
def sltu1 : List (BitVec 8) := [0, 1, 1, 1, 0, 0, 0, 1]

/-- `_or1_table`. -/
def or1 : List (BitVec 8) := [0, 1, 1, 1]

namespace Image

variable (image : Image)

/-- The tables that are only read, with their contents. -/
def tables : List (Word × List (BitVec 8)) :=
  [(image.sameResultTable, sameResult), (image.check8bit0Table, check8bit0Bytes),
    (image.slt1Table, slt1), (image.sltu1Table, sltu1),
    (image.or1Table, or1), (image.logicShiftTable, lutBin)]

/-- The tables are loaded. -/
def Loaded (pmem : Pmem) : Prop :=
  ∀ table ∈ image.tables, Holds pmem table.1 table.2

/-- An address of a table that is only read. -/
def IsTable (addr : Word) : Prop :=
  ∃ table ∈ image.tables, (addr - table.1).toNat < table.2.length

/-- An address of `_check_same_array`. -/
def IsCheckSame (addr : Word) : Prop :=
  (addr - image.checkSameArray).toNat < 256

variable {image}

theorem Loaded.congr {pmem other : Pmem} (loaded : image.Loaded pmem)
    (same : ∀ addr, image.IsTable addr → other addr = pmem addr) :
    image.Loaded other := by
  intro table inImage k value here
  rw [same _ ⟨table, inImage, ?_⟩]
  · exact loaded table inImage k value here
  · have inTable := (List.getElem?_eq_some_iff.mp here).1
    rw [BitVec.add_comm, BitVec.add_sub_cancel, BitVec.toNat_ofNat]
    exact Nat.lt_of_le_of_lt (Nat.mod_le ..) inTable

section Logic

variable {pmem : Pmem} (loaded : image.Loaded pmem)
include loaded

theorem Loaded.and8 :
    Holds pmem image.and8Table (genTable 256 256 1 andEntry) :=
  (holds_append (loaded (image.logicShiftTable, lutBin) (by simp [tables]))).1

theorem Loaded.afterAnd8 :
    Holds pmem image.or8Table (genTable 256 256 1 orEntry ++
      (genTable 256 256 1 xorEntry ++ (genTable 32 256 4 sllEntry ++
        (genTable 32 256 4 srlEntry ++ genTable 32 256 4 sraEntry)))) := by
  have rest := (holds_append
    (loaded (image.logicShiftTable, lutBin) (by simp [tables]))).2
  rw [length_genTable] at rest
  exact rest

theorem Loaded.or8 :
    Holds pmem image.or8Table (genTable 256 256 1 orEntry) :=
  (holds_append loaded.afterAnd8).1

theorem Loaded.afterOr8 :
    Holds pmem image.xor8Table (genTable 256 256 1 xorEntry ++
      (genTable 32 256 4 sllEntry ++
        (genTable 32 256 4 srlEntry ++ genTable 32 256 4 sraEntry))) := by
  have rest := (holds_append loaded.afterAnd8).2
  rw [length_genTable] at rest
  exact rest

theorem Loaded.xor8 :
    Holds pmem image.xor8Table (genTable 256 256 1 xorEntry) :=
  (holds_append loaded.afterOr8).1

theorem Loaded.afterXor8 :
    Holds pmem image.sll8Table (genTable 32 256 4 sllEntry ++
      (genTable 32 256 4 srlEntry ++ genTable 32 256 4 sraEntry)) := by
  have rest := (holds_append loaded.afterOr8).2
  rw [length_genTable] at rest
  exact rest

theorem Loaded.sll8 :
    Holds pmem image.sll8Table (genTable 32 256 4 sllEntry) :=
  (holds_append loaded.afterXor8).1

theorem Loaded.afterSll8 :
    Holds pmem image.srl8Table
      (genTable 32 256 4 srlEntry ++ genTable 32 256 4 sraEntry) := by
  have rest := (holds_append loaded.afterXor8).2
  rw [length_genTable] at rest
  exact rest

theorem Loaded.srl8 :
    Holds pmem image.srl8Table (genTable 32 256 4 srlEntry) :=
  (holds_append loaded.afterSll8).1

theorem Loaded.sra8 :
    Holds pmem image.sra8Table (genTable 32 256 4 sraEntry) := by
  have rest := (holds_append loaded.afterSll8).2
  rw [length_genTable] at rest
  exact rest

end Logic

section Lookups

variable {pmem : Pmem} (loaded : image.Loaded pmem) (index : Word)
include loaded

theorem Loaded.lbu_and8 (a b : BitVec 8)
    (place : index.toNat = a.toNat * 256 + b.toNat) :
    hostRead pmem (image.and8Table + index) 1 = (a &&& b).setWidth 32 := by
  rw [hostRead_byteTable loaded.and8 a.isLt b.isLt place]
  simp [andEntry]

theorem Loaded.lbu_or8 (a b : BitVec 8)
    (place : index.toNat = a.toNat * 256 + b.toNat) :
    hostRead pmem (image.or8Table + index) 1 = (a ||| b).setWidth 32 := by
  rw [hostRead_byteTable loaded.or8 a.isLt b.isLt place]
  simp [orEntry]

theorem Loaded.lbu_xor8 (a b : BitVec 8)
    (place : index.toNat = a.toNat * 256 + b.toNat) :
    hostRead pmem (image.xor8Table + index) 1 = (a ^^^ b).setWidth 32 := by
  rw [hostRead_byteTable loaded.xor8 a.isLt b.isLt place]
  simp [xorEntry]

theorem Loaded.lw_sll8 {amount : Nat} (inRow : amount < 32) (a : BitVec 8)
    (place : index.toNat = 4 * (amount * 256 + a.toNat)) :
    hostRead pmem (image.sll8Table + index) 4 =
      a.setWidth 32 <<< amount := by
  rw [hostRead_wordTable loaded.sll8 inRow a.isLt place, sllEntry,
    BitVec.ofNat_toNat]

theorem Loaded.lw_srl8 {amount : Nat} (inRow : amount < 32) (a : BitVec 8)
    (place : index.toNat = 4 * (amount * 256 + a.toNat)) :
    hostRead pmem (image.srl8Table + index) 4 = topShifted a amount := by
  rw [hostRead_wordTable loaded.srl8 inRow a.isLt place, srlEntry,
    BitVec.ofNat_toNat]
  rfl

theorem Loaded.lw_sra8 {amount : Nat} (inRow : amount < 32) (a : BitVec 8)
    (place : index.toNat = 4 * (amount * 256 + a.toNat)) :
    hostRead pmem (image.sra8Table + index) 4 =
      (a.setWidth 32 <<< 24).sshiftRight amount := by
  rw [hostRead_wordTable loaded.sra8 inRow a.isLt place, sraEntry,
    BitVec.ofNat_toNat]

/-- `lbu` from one of the small tables. -/
theorem Loaded.lbu {addr : Word} {bytes : List (BitVec 8)}
    (inImage : (addr, bytes) ∈ image.tables) {value : BitVec 8}
    (here : bytes[index.toNat]? = some value) :
    hostRead pmem (addr + index) 1 = value.setWidth 32 := by
  have entry := loaded _ inImage index.toNat value here
  rw [BitVec.ofNat_toNat, BitVec.setWidth_eq] at entry
  rw [← entry]
  rfl

end Lookups

end Image

/-! ## Ready states -/

/-- The tables are loaded, and neither the scratch words nor
`_check_same_array` overlap what a macro does not expect there. -/
structure Ready (image : Image) (state : State) : Prop where
  loaded : image.Loaded state.pmem
  clear : ∀ addr, InScratch (state.cpu.gpr sp) addr →
    ¬ image.IsTable addr ∧ ¬ image.IsCheckSame addr
  apart : ∀ addr, image.IsCheckSame addr → ¬ image.IsTable addr

section Frames

variable {image : Image} {regs : List Reg} {vars : List Var}
  {before after : State} (ready : Ready image before)
include ready

theorem Ready.frameOff (frame : FrameOff image.IsCheckSame regs vars before after)
    (stackKept : sp ∉ regs) : Ready image after where
  loaded := by
    apply ready.loaded.congr
    intro addr table
    exact frame.off addr (fun inScratch => (ready.clear addr inScratch).1 table)
      fun same => ready.apart addr same table
  clear := by
    rw [frame.gpr sp stackKept]
    exact ready.clear
  apart := ready.apart

theorem Ready.frame (frame : Frame regs vars before after)
    (stackKept : sp ∉ regs) : Ready image after :=
  ready.frameOff (frame.widen fun _ => False.elim) stackKept

end Frames

end Ysyx.Rvmini
