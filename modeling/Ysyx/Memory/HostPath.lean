import Ysyx.Memory.Lanes
import Ysyx.Nemu.Paddr

/-!
# The lanes and the memory of NEMU

Loads and stores of the core, through its byte lanes and the SRAM, next to
those of NEMU.
-/

namespace Ysyx.Rtl

open Axi (Bytes)
open Nemu (InstName Pmem paddrRead paddrWrite npcRead npcWrite inPmem
  hostRead hostWrite extract_hostRead hostRead_congr hostWrite_congr
  hostWrite_inj hostWrite_of_outside hostRead_hostWrite)

/-! ## Loads and stores -/

inductive Load where
  | lb | lh | lw | lbu | lhu
  deriving DecidableEq, Repr

namespace Load

def func3 : Load → BitVec 3
  | lb => 0b000
  | lh => 0b001
  | lw => 0b010
  | lbu => 0b100
  | lhu => 0b101

def name : Load → InstName
  | lb => .lb
  | lh => .lh
  | lw => .lw
  | lbu => .lbu
  | lhu => .lhu

def len : Load → Nat
  | lb | lbu => 1
  | lh | lhu => 2
  | lw => 4

/-- What `decode_exec` makes of the bytes read. -/
def extend : Load → Word → Word
  | lb => fun x => (x.setWidth 8).signExtend 32
  | lh => fun x => (x.setWidth 16).signExtend 32
  | lw | lbu | lhu => id

/-- The `read_mem` code of the controller. -/
def readMem (load : Load) : BitVec 3 := loadReadMem load.func3

/-- The load of the core: `npc_read` and `sign_extend`. -/
def rtl (load : Load) (pmem : Pmem) (addr : Word) : Option Word :=
  (npcRead pmem addr 0xf).map (signExtend · load.readMem addr)

/-- The load of NEMU. -/
def nemu (load : Load) (pmem : Pmem) (addr : Word) : Option Word :=
  (paddrRead pmem addr load.len).map load.extend

/-- `nemu` is what the INSTPAT of the load puts into `rd`. -/
theorem instpat_eq (load : Load) :
    ∃ row ∈ Nemu.instpats, row.name = load.name ∧
      row.pattern = .funct3 load.func3 0b00000 ∧
      row.body = Nemu.loadBody load.len load.extend := by
  cases load
  · exact ⟨_, List.mem_of_getElem? (i := 10) rfl, rfl, rfl, rfl⟩
  · exact ⟨_, List.mem_of_getElem? (i := 11) rfl, rfl, rfl, rfl⟩
  · exact ⟨_, List.mem_of_getElem? (i := 12) rfl, rfl, rfl, rfl⟩
  · exact ⟨_, List.mem_of_getElem? (i := 13) rfl, rfl, rfl, rfl⟩
  · exact ⟨_, List.mem_of_getElem? (i := 14) rfl, rfl, rfl, rfl⟩

end Load

inductive Store where
  | sb | sh | sw
  deriving DecidableEq, Repr

namespace Store

def func3 : Store → BitVec 3
  | sb => 0b000
  | sh => 0b001
  | sw => 0b010

def name : Store → InstName
  | sb => .sb
  | sh => .sh
  | sw => .sw

def len : Store → Nat
  | sb => 1
  | sh => 2
  | sw => 4

/-- The `write_mem` code of the controller. -/
def writeMem (store : Store) : BitVec 2 := storeWriteMem store.func3

/-- The store of the core: `gen_wdata_aligned`, `gen_wstrb` and `npc_write`.
The SRAM keeps four bits of the strobe. -/
def rtl (store : Store) (pmem : Pmem) (addr data : Word) : Option Pmem :=
  npcWrite pmem addr (genWdataAligned store.writeMem addr data)
    (((genWstrb store.writeMem addr).extractLsb' 0 4).zeroExtend 32)

/-- The store of NEMU. -/
def nemu (store : Store) (pmem : Pmem) (addr data : Word) : Option Pmem :=
  paddrWrite pmem addr store.len data

theorem instpat_eq (store : Store) :
    ∃ row ∈ Nemu.instpats, row.name = store.name ∧
      row.pattern = .funct3 store.func3 0b01000 ∧
      row.body = Nemu.storeBody store.len := by
  cases store
  · exact ⟨_, List.mem_of_getElem? (i := 15) rfl, rfl, rfl, rfl⟩
  · exact ⟨_, List.mem_of_getElem? (i := 16) rfl, rfl, rfl, rfl⟩
  · exact ⟨_, List.mem_of_getElem? (i := 17) rfl, rfl, rfl, rfl⟩

end Store

/-- A load, or a store of a value. -/
inductive Access where
  | load (load : Load)
  | store (store : Store) (data : Word)
  deriving DecidableEq, Repr

namespace Access

/-- The number of bytes. -/
def len : Access → Nat
  | .load kind => kind.len
  | .store kind _ => kind.len

/-- The core and NEMU do the same. -/
def Exact (access : Access) (pmem : Pmem) (addr : Word) : Prop :=
  match access with
  | .load kind => kind.rtl pmem addr = kind.nemu pmem addr
  | .store kind data => kind.rtl pmem addr data = kind.nemu pmem addr data

end Access

/-! ## Memory -/

section Memory

variable {pmem : Pmem} {addr : Word}

theorem inPmem_iff (addr : Word) :
    inPmem addr = true ↔
      2 ^ 31 ≤ addr.toNat ∧ addr.toNat < 2 ^ 31 + 2 ^ 27 := by
  have inWord := addr.isLt
  have base : Nemu.CONFIG_MBASE.toNat = 2 ^ 31 := rfl
  have size : Nemu.CONFIG_MSIZE.toNat = 2 ^ 27 := rfl
  rw [inPmem, decide_eq_true_iff, BitVec.lt_def, BitVec.toNat_sub, base, size]
  omega

theorem inPmem_align (inside : inPmem addr = true) :
    inPmem (Bytes.align addr) = true := by
  rw [inPmem_iff] at inside ⊢
  rw [Bytes.toNat_align]
  omega

theorem npcRead_eq (inside : inPmem addr = true) (wmask : Word) :
    npcRead pmem addr wmask = some (Bytes.word pmem addr) :=
  if_pos (inPmem_align inside)

theorem load_rtl_eq (load : Load) (inside : inPmem addr = true) :
    load.rtl pmem addr =
      some (signExtend (Bytes.word pmem addr) load.readMem addr) := by
  rw [Load.rtl, npcRead_eq inside, Option.map_some]

theorem load_nemu_eq (load : Load) (inside : inPmem addr = true) :
    load.nemu pmem addr = some (load.extend (hostRead pmem addr load.len)) := by
  rw [Load.nemu, paddrRead, if_pos inside, Option.map_some]

theorem offset_toNat (addr : Word) : (addr &&& 3).toNat = addr.toNat % 4 := by
  rw [BitVec.toNat_and]
  exact Nat.and_two_pow_sub_one_eq_mod addr.toNat 2

end Memory

/-! ## Lanes at any address -/

/-- The last multiple of the length up to `addr`. -/
def boundary (addr : Word) (len : Nat) : Word :=
  addr - BitVec.ofNat 32 (addr.toNat % len)

section Offsets

variable {pmem : Pmem} {addr : Word}

theorem boundary_of_aligned {len : Nat} (aligned : addr.toNat % len = 0) :
    boundary addr len = addr := by
  rw [boundary, aligned, BitVec.sub_zero]

theorem boundary_four : boundary addr 4 = Bytes.align addr := by
  have inWord := addr.isLt
  apply BitVec.eq_of_toNat_eq
  rw [boundary, BitVec.toNat_sub, BitVec.toNat_ofNat, Bytes.toNat_align]
  omega

theorem boundary_two_of_three (three : addr.toNat % 4 = 3) :
    boundary addr 2 = Bytes.align addr + 2 := by
  have inWord := addr.isLt
  have two : (2 : Word).toNat = 2 := rfl
  apply BitVec.eq_of_toNat_eq
  rw [boundary, BitVec.toNat_sub, BitVec.toNat_ofNat, BitVec.toNat_add,
    Bytes.toNat_align, two]
  omega

/-- The half word that `sign_extend` selects; at offset 1 it begins at the
address itself. -/
theorem halfData_boundary (other : addr.toNat % 4 ≠ 1) :
    halfData (Bytes.word pmem addr) addr =
      pmem (boundary addr 2 + 1) ++ pmem (boundary addr 2) := by
  by_cases three : addr.toNat % 4 = 3
  · have select : halfData (Bytes.word pmem addr) addr =
        (Bytes.word pmem addr).extractLsb' (8 * 2) 16 := by
      unfold halfData
      rw [offset_eq, three]
      rfl
    rw [select, extract_word_half (by decide), boundary_two_of_three three,
      BitVec.add_assoc]
    rfl
  · rw [boundary_of_aligned (by omega), halfData_word (by omega)]

theorem signExtend_half (load : Load) (half : load.len = 2) {first : Word}
    (selected : halfData (Bytes.word pmem addr) addr =
      pmem (first + 1) ++ pmem first) :
    signExtend (Bytes.word pmem addr) load.readMem addr =
      load.extend (hostRead pmem first load.len) := by
  cases load with
  | lh | lhu =>
      simp [signExtend, Load.readMem, Load.func3, loadReadMem, selected,
        Load.extend, hostRead, Load.len]
  | lb | lbu | lw => cases half

theorem signExtend_byte (load : Load) (byte : load.len = 1) :
    signExtend (Bytes.word pmem addr) load.readMem addr =
      load.extend (hostRead pmem addr load.len) := by
  cases load with
  | lb | lbu =>
      simp [signExtend, Load.readMem, Load.func3, loadReadMem, byteData_word,
        Load.extend, hostRead, Load.len]
  | lh | lhu | lw => cases byte

/-- What the core loads begins at the boundary, but for half words at
offset 1. -/
theorem signExtend_boundary (load : Load)
    (other : load.len = 2 → addr.toNat % 4 ≠ 1) :
    signExtend (Bytes.word pmem addr) load.readMem addr =
      load.extend (hostRead pmem (boundary addr load.len) load.len) := by
  cases load with
  | lb =>
      rw [Load.len, boundary_of_aligned (Nat.mod_one _)]
      exact signExtend_byte .lb rfl
  | lbu =>
      rw [Load.len, boundary_of_aligned (Nat.mod_one _)]
      exact signExtend_byte .lbu rfl
  | lh =>
      exact signExtend_half .lh rfl (halfData_boundary (other rfl))
  | lhu =>
      exact signExtend_half .lhu rfl (halfData_boundary (other rfl))
  | lw =>
      rw [Load.len, boundary_four]
      rfl

theorem npcWriteLen_genWstrb (store : Store) (addr : Word) :
    let wmask : Word :=
      ((genWstrb store.writeMem addr).extractLsb' 0 4).zeroExtend 32
    wmask ≠ 0 ∧ Nemu.npcWriteLen wmask = store.len := by
  have bound : addr.toNat % 4 < 4 := Nat.mod_lt _ (by decide)
  unfold genWstrb
  rw [offset_eq]
  generalize addr.toNat % 4 = lane at bound
  cases store <;> interval_cases lane <;> decide

/-- What `npc_write` makes of the lanes: the stored bytes, less those between
the boundary and the address. -/
theorem genWdataAligned_shiftBack (store : Store) (addr data : Word) :
    genWdataAligned store.writeMem addr data >>> (addr.toNat % 4 * 8) =
      (data.setWidth (8 * store.len)).setWidth 32 >>>
        (8 * (addr.toNat % store.len)) := by
  have bound : addr.toNat % 4 < 4 := Nat.mod_lt _ (by decide)
  apply BitVec.eq_of_getLsbD_eq
  intro bit inWord
  unfold genWdataAligned
  rw [offset_eq, BitVec.getLsbD_ushiftRight, BitVec.getLsbD_ushiftRight,
    BitVec.getLsbD_setWidth, BitVec.getLsbD_setWidth]
  cases store with
  | sb =>
      rw [Store.len, Nat.mod_one]
      generalize addr.toNat % 4 = lane at bound
      interval_cases lane <;>
        simp [Store.writeMem, Store.func3, storeWriteMem] <;> grind
  | sh =>
      have parity : addr.toNat % 2 = addr.toNat % 4 % 2 := by omega
      rw [Store.len, parity]
      generalize addr.toNat % 4 = lane at bound
      interval_cases lane <;>
        simp [Store.writeMem, Store.func3, storeWriteMem] <;> grind
  | sw =>
      rw [Store.len]
      generalize addr.toNat % 4 = lane at bound
      simp [Store.writeMem, Store.func3, storeWriteMem, Nat.mul_comm]
      grind

/-- The store of the core. -/
theorem store_rtl_eq (store : Store) (data : Word)
    (inside : inPmem addr = true) :
    store.rtl pmem addr data =
      some (hostWrite pmem addr store.len
        ((data.setWidth (8 * store.len)).setWidth 32 >>>
          (8 * (addr.toNat % store.len)))) := by
  obtain ⟨written, len⟩ := npcWriteLen_genWstrb store addr
  rw [Store.rtl, npcWrite, if_neg written]
  simp only [len, offset_toNat]
  rw [genWdataAligned_shiftBack, paddrWrite, if_pos inside]

theorem store_nemu_eq (store : Store) (data : Word)
    (inside : inPmem addr = true) :
    store.nemu pmem addr data = some (hostWrite pmem addr store.len data) :=
  if_pos inside

theorem load_len (load : Load) :
    load.len = 1 ∨ load.len = 2 ∨ load.len = 4 := by
  cases load <;> decide

theorem store_len (store : Store) :
    store.len = 1 ∨ store.len = 2 ∨ store.len = 4 := by
  cases store <;> decide

theorem extract_extend (load : Load) (value : Word) {lane : Nat}
    (inside : lane < load.len) :
    (load.extend value).extractLsb' (8 * lane) 8 =
      value.extractLsb' (8 * lane) 8 := by
  apply BitVec.eq_of_getLsbD_eq
  intro bit inByte
  rw [BitVec.getLsbD_extractLsb', BitVec.getLsbD_extractLsb']
  cases load with
  | lb | lh =>
      simp only [Load.len] at inside
      simp only [Load.extend, BitVec.getLsbD_signExtend,
        BitVec.getLsbD_setWidth]
      grind
  | lw | lbu | lhu => rfl

/-- A load keeps every byte it reads. -/
theorem extend_inj (load : Load) {other : Word} :
    load.extend (hostRead pmem addr load.len) =
        load.extend (hostRead pmem other load.len) ↔
      ∀ lane, lane < load.len →
        pmem (addr + BitVec.ofNat 32 lane) =
          pmem (other + BitVec.ofNat 32 lane) := by
  constructor
  · intro same lane inside
    have lanes := congrArg (·.extractLsb' (8 * lane) 8) same
    simp only [extract_extend load _ inside,
      extract_hostRead (load_len load) inside] at lanes
    exact lanes
  · intro same
    rw [hostRead_congr same]

end Offsets

/-! ## Aligned accesses -/

section Aligned

variable {pmem : Pmem} {addr : Word}

theorem exact_of_aligned (access : Access) (inside : inPmem addr = true)
    (aligned : addr.toNat % access.len = 0) : access.Exact pmem addr := by
  cases access with
  | load kind =>
      rw [Access.len] at aligned
      have other : kind.len = 2 → addr.toNat % 4 ≠ 1 := by
        intro half odd
        rw [half] at aligned
        omega
      rw [Access.Exact, load_rtl_eq kind inside, load_nemu_eq kind inside,
        signExtend_boundary kind other, boundary_of_aligned aligned]
  | store kind data =>
      rw [Access.len] at aligned
      rw [Access.Exact, store_rtl_eq kind data inside,
        store_nemu_eq kind data inside, aligned, Nat.mul_zero,
        BitVec.ushiftRight_zero]
      refine congrArg some (hostWrite_congr fun lane inStore => ?_)
      apply BitVec.eq_of_getLsbD_eq
      intro bit inByte
      simp only [BitVec.getLsbD_extractLsb', BitVec.getLsbD_setWidth]
      grind

/-- A load of the width of the store just made gives the stored bytes, and
the store changes no other byte. -/
theorem store_roundTrip (store : Store) (data : Word)
    (inside : inPmem addr = true) (aligned : addr.toNat % store.len = 0) :
    ∃ after, store.rtl pmem addr data = some after ∧
      (∀ load : Load, load.len = store.len →
        load.rtl after addr =
          some (load.extend ((data.setWidth (8 * store.len)).setWidth 32))) ∧
      ∀ target : Word, store.len ≤ (target - addr).toNat →
        after target = pmem target := by
  have stored : store.rtl pmem addr data = store.nemu pmem addr data :=
    exact_of_aligned (.store store data) inside aligned
  rw [store_nemu_eq store data inside] at stored
  refine ⟨_, stored, ?_, ?_⟩
  · intro load sameLen
    have loaded : load.rtl (hostWrite pmem addr store.len data) addr =
        load.nemu (hostWrite pmem addr store.len data) addr :=
      exact_of_aligned (.load load) inside (by rwa [Access.len, sameLen])
    rw [loaded, load_nemu_eq load inside, sameLen,
      hostRead_hostWrite (store_len store)]
  · intro target outside
    exact hostWrite_of_outside data outside

/-- Through the lanes the core does to an aligned address what NEMU does. -/
theorem lanes_exact (pmem : Pmem) (addr : Word)
    (inside : inPmem addr = true) :
    (∀ access : Access, addr.toNat % access.len = 0 →
        access.Exact pmem addr) ∧
      ∀ (store : Store) (data : Word), addr.toNat % store.len = 0 →
        ∃ after, store.rtl pmem addr data = some after ∧
          (∀ load : Load, load.len = store.len →
            load.rtl after addr =
              some (load.extend
                ((data.setWidth (8 * store.len)).setWidth 32))) ∧
          ∀ target : Word, store.len ≤ (target - addr).toNat →
            after target = pmem target :=
  ⟨fun access aligned => exact_of_aligned access inside aligned,
    fun store data aligned => store_roundTrip store data inside aligned⟩

theorem lanes_exact_at_halfWord :
    inPmem 0x80000002 = true ∧
      ∃ after, Store.sh.rtl (fun _ => 0) 0x80000002 0xbeef = some after ∧
        Load.lh.rtl after 0x80000002 = some 0xffffbeef := by
  have inside : inPmem 0x80000002 = true := by decide
  obtain ⟨after, stored, loaded, -⟩ :=
    (lanes_exact (fun _ => 0) 0x80000002 inside).2 .sh 0xbeef (by decide)
  exact ⟨inside, after, stored, loaded .lh rfl⟩

end Aligned

/-! ## Misaligned accesses -/

namespace Access

/-- EX/MEM presents the access to the unit. -/
def Presents (access : Access) (addr : Word) (port : Lsu.In) : Prop :=
  port.addr = addr ∧ port.prevValid = true ∧ port.nextReady = true ∧
    match access with
    | .load kind => port.readMem = kind.readMem ∧ port.writeMem = 0
    | .store kind data =>
        port.readMem = 0 ∧ port.writeMem = kind.writeMem ∧ port.data = data

/-- Some idle unit takes the access, and raises an exception in that cycle or
later. -/
def Raises (access : Access) (addr : Word) : Prop :=
  ∃ (lsu : Lsu) (port : Lsu.In) (later : List Lsu.In),
    lsu.stateLoad = .idle ∧ lsu.stateStore = .idle ∧
      access.Presents addr port ∧
      (later.foldl Lsu.next (lsu.next port)).excValid = true

/-- The bytes that the core takes instead are the same: a half word at
offset 1 is taken from its own address, other loads begin at the boundary,
and a store shifts some of its bytes out. -/
def Spared (access : Access) (pmem : Pmem) (addr : Word) : Prop :=
  match access with
  | .load kind =>
      kind.len = 2 ∧ addr.toNat % 4 = 1 ∨
        ∀ lane, lane < kind.len →
          pmem (boundary addr kind.len + BitVec.ofNat 32 lane) =
            pmem (addr + BitVec.ofNat 32 lane)
  | .store kind data => data.setWidth (8 * kind.len) = 0

end Access

section Misaligned

variable {pmem : Pmem} {addr : Word}

theorem foldl_excValid {lsu : Lsu} {later : List Lsu.In}
    (raised : (later.foldl Lsu.next lsu).excValid = true) :
    lsu.excValid = true := by
  induction later generalizing lsu with
  | nil => exact raised
  | cons first rest ih => exact (Lsu.next_excValid (ih raised)).1

/-- Taking an access clears `exc_valid`, and nothing sets it. -/
theorem not_raises (access : Access) (addr : Word) :
    ¬access.Raises addr := by
  rintro ⟨lsu, port, later, loadIdle, storeIdle, presents, raised⟩
  obtain ⟨-, prevValid, nextReady, kind⟩ := presents
  obtain ⟨-, noLoad, noStore⟩ :=
    Lsu.next_excValid (foldl_excValid raised)
  cases access with
  | load load =>
      have code : load.readMem ≠ 0 := by
        cases load <;> decide
      simp [Lsu.loadStart, loadIdle, prevValid, nextReady, kind.1] at noLoad
      exact code noLoad
  | store store data =>
      have code : store.writeMem ≠ 0 := by
        cases store <;> decide
      simp [Lsu.storeStart, storeIdle, prevValid, nextReady, kind.2.1]
        at noStore
      exact code noStore

theorem load_exact_iff (load : Load)
    (inside : inPmem addr = true) :
    load.rtl pmem addr = load.nemu pmem addr ↔
      load.len = 2 ∧ addr.toNat % 4 = 1 ∨
        ∀ lane, lane < load.len →
          pmem (boundary addr load.len + BitVec.ofNat 32 lane) =
            pmem (addr + BitVec.ofNat 32 lane) := by
  rw [load_rtl_eq load inside, load_nemu_eq load inside, Option.some_inj]
  by_cases own : load.len = 2 ∧ addr.toNat % 4 = 1
  · have inWord : addr.toNat % 4 < 3 := by omega
    have selected : signExtend (Bytes.word pmem addr) load.readMem addr =
        load.extend (hostRead pmem addr load.len) :=
      signExtend_half load own.1 (halfData_word inWord)
    exact iff_of_true selected (Or.inl own)
  · rw [signExtend_boundary load fun half odd => own ⟨half, odd⟩,
      extend_inj, or_iff_right own]

theorem lanes_eq_iff {len : Nat} {value other : Word} :
    (∀ lane, lane < len →
        value.extractLsb' (8 * lane) 8 = other.extractLsb' (8 * lane) 8) ↔
      value.setWidth (8 * len) = other.setWidth (8 * len) := by
  constructor
  · intro same
    apply BitVec.eq_of_getLsbD_eq
    intro bit inside
    have lane := congrArg (·.getLsbD (bit % 8))
      (same (bit / 8) (by omega))
    have position : 8 * (bit / 8) + bit % 8 = bit := Nat.div_add_mod bit 8
    simp only [BitVec.getLsbD_extractLsb', position] at lane
    simp only [BitVec.getLsbD_setWidth]
    grind
  · intro same lane inside
    apply BitVec.eq_of_getLsbD_eq
    intro bit inByte
    have bits := congrArg (·.getLsbD (8 * lane + bit)) same
    simp only [BitVec.getLsbD_setWidth] at bits
    simp only [BitVec.getLsbD_extractLsb']
    grind

/-- Bytes shifted out are the same bytes only when they are all zero. -/
theorem shiftOut_iff {len shift : Nat} (known : len = 1 ∨ len = 2 ∨ len = 4)
    (moved : 0 < shift) {data : Word} :
    (∀ lane, lane < len →
        ((data.setWidth (8 * len)).setWidth 32 >>>
          (8 * shift)).extractLsb' (8 * lane) 8 =
            data.extractLsb' (8 * lane) 8) ↔
      data.setWidth (8 * len) = 0 := by
  have wide : 2 ^ (8 * len) ≤ 2 ^ 32 :=
    Nat.pow_le_pow_right (by decide) (by omega)
  have factor : 1 < 2 ^ (8 * shift) := Nat.one_lt_two_pow (by omega)
  rw [lanes_eq_iff]
  generalize data.setWidth (8 * len) = value
  have inLanes := value.isLt
  have shifted : ((value.setWidth 32 >>> (8 * shift)).setWidth
      (8 * len)).toNat = value.toNat / 2 ^ (8 * shift) := by
    have smaller : value.toNat / 2 ^ (8 * shift) ≤ value.toNat :=
      Nat.div_le_self _ _
    rw [BitVec.toNat_setWidth, BitVec.toNat_ushiftRight,
      BitVec.toNat_setWidth, Nat.mod_eq_of_lt (by omega : _ < 2 ^ 32),
      Nat.shiftRight_eq_div_pow, Nat.mod_eq_of_lt (by omega)]
  constructor
  · intro kept
    by_contra nonzero
    have positive : 0 < value.toNat := by
      refine Nat.pos_of_ne_zero fun zero => nonzero ?_
      exact BitVec.eq_of_toNat_eq zero
    have less := Nat.div_lt_self positive factor
    rw [← shifted, kept] at less
    exact Nat.lt_irrefl _ less
  · rintro rfl
    apply BitVec.eq_of_toNat_eq
    rw [shifted]
    exact Nat.zero_div _

theorem store_exact_iff (store : Store) (data : Word)
    (misaligned : addr.toNat % store.len ≠ 0)
    (inside : inPmem addr = true) :
    store.rtl pmem addr data = store.nemu pmem addr data ↔
      data.setWidth (8 * store.len) = 0 := by
  rw [store_rtl_eq store data inside, store_nemu_eq store data inside,
    Option.some_inj, hostWrite_inj (store_len store)]
  exact shiftOut_iff (store_len store) (Nat.pos_of_ne_zero misaligned)

/-- No misaligned access raises an exception, and it does what NEMU does
exactly when it is spared. -/
theorem misaligned_sound_iff (access : Access) (pmem : Pmem) (addr : Word)
    (misaligned : addr.toNat % access.len ≠ 0)
    (inside : ∀ lane, lane < access.len →
      inPmem (addr + BitVec.ofNat 32 lane) = true) :
    access.Raises addr ∨ access.Exact pmem addr ↔
      access.Spared pmem addr := by
  rw [or_iff_right (not_raises access addr)]
  cases access with
  | load load =>
      have first := inside 0 (by cases load <;> exact Nat.zero_lt_succ _)
      rw [BitVec.add_zero] at first
      exact load_exact_iff load first
  | store store data =>
      have first := inside 0 (by cases store <;> exact Nat.zero_lt_succ _)
      rw [BitVec.add_zero] at first
      exact store_exact_iff store data misaligned first

/-- A half word at offset 1 is loaded as it is. -/
theorem misaligned_sound_at_one :
    (Access.load .lh).Raises 0x80000001 ∨
      (Access.load .lh).Exact (fun target => target.setWidth 8) 0x80000001 :=
  (misaligned_sound_iff (.load .lh) _ 0x80000001 (by decide)
    (by decide)).mpr (Or.inl ⟨rfl, by decide⟩)

/-- A word at offset 3, as `unalign.c` stores it. -/
theorem unalign_notExact :
    (0x80000103 : Word).toNat % (Access.store .sw 0xaabbccdd).len ≠ 0 ∧
      (∀ lane, lane < (Access.store .sw 0xaabbccdd).len →
        inPmem (0x80000103 + BitVec.ofNat 32 lane) = true) ∧
      ¬((Access.store .sw 0xaabbccdd).Raises 0x80000103 ∨
        (Access.store .sw 0xaabbccdd).Exact (fun _ => 0) 0x80000103) := by
  refine ⟨by decide, by decide, ?_⟩
  rintro (raises | same)
  · exact not_raises _ _ raises
  · have zero := (store_exact_iff .sw 0xaabbccdd (by decide)
      (by decide)).mp same
    exact absurd zero (by decide)

end Misaligned

end Ysyx.Rtl
