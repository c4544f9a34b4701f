import Ysyx.Nemu.Machine
import Mathlib.Tactic.IntervalCases

/-!
# Physical memory

`paddr_read` and `paddr_write` of NEMU, and the functions over them through
which the simulated SRAM reads and writes it.
-/

namespace Ysyx.Nemu

/-! ## Host memory -/

section Host

variable {pmem : Pmem} {addr : Word} {len lane : Nat}

theorem lane_toNat (known : len = 1 ∨ len = 2 ∨ len = 4) (inside : lane < len) :
    (addr + BitVec.ofNat 32 lane - addr).toNat = lane := by
  rw [BitVec.add_comm, BitVec.add_sub_cancel, BitVec.toNat_ofNat]
  omega

theorem extract_hostRead (known : len = 1 ∨ len = 2 ∨ len = 4)
    (inside : lane < len) :
    (hostRead pmem addr len).extractLsb' (8 * lane) 8 =
      pmem (addr + BitVec.ofNat 32 lane) := by
  apply BitVec.eq_of_getLsbD_eq
  intro bit inByte
  rw [BitVec.getLsbD_extractLsb']
  rcases known with rfl | rfl | rfl
  · interval_cases lane
    simp [hostRead, inByte]
    omega
  · interval_cases lane <;>
      simp only [hostRead, BitVec.getLsbD_setWidth, BitVec.getLsbD_append,
        BitVec.add_zero] <;>
      grind
  · interval_cases lane <;>
      simp only [hostRead, BitVec.getLsbD_append, BitVec.add_zero] <;>
      grind

theorem hostRead_congr {other : Pmem} {target : Word}
    (same : ∀ lane, lane < len →
      pmem (addr + BitVec.ofNat 32 lane) =
        other (target + BitVec.ofNat 32 lane)) :
    hostRead pmem addr len = hostRead other target len := by
  unfold hostRead
  split
  · have first := same 0 (by decide)
    rw [BitVec.add_zero, BitVec.add_zero] at first
    rw [first]
  · have first := same 0 (by decide)
    rw [BitVec.add_zero, BitVec.add_zero] at first
    have second : pmem (addr + 1) = other (target + 1) := same 1 (by decide)
    rw [first, second]
  · have first := same 0 (by decide)
    rw [BitVec.add_zero, BitVec.add_zero] at first
    have second : pmem (addr + 1) = other (target + 1) := same 1 (by decide)
    have third : pmem (addr + 2) = other (target + 2) := same 2 (by decide)
    have fourth : pmem (addr + 3) = other (target + 3) := same 3 (by decide)
    rw [first, second, third, fourth]
  · rfl

theorem hostWrite_lane (known : len = 1 ∨ len = 2 ∨ len = 4)
    (inside : lane < len) (data : Word) :
    hostWrite pmem addr len data (addr + BitVec.ofNat 32 lane) =
      data.extractLsb' (8 * lane) 8 := by
  simp only [hostWrite, lane_toNat known inside]
  exact if_pos ⟨known, inside⟩

theorem hostWrite_of_outside (data : Word) {target : Word}
    (outside : len ≤ (target - addr).toNat) :
    hostWrite pmem addr len data target = pmem target := by
  simp only [hostWrite]
  exact if_neg fun inside => by omega

theorem hostWrite_congr {data other : Word}
    (same : ∀ lane, lane < len →
      data.extractLsb' (8 * lane) 8 = other.extractLsb' (8 * lane) 8) :
    hostWrite pmem addr len data = hostWrite pmem addr len other := by
  funext target
  simp only [hostWrite]
  by_cases inside : (len = 1 ∨ len = 2 ∨ len = 4) ∧
      (target - addr).toNat < len
  · rw [if_pos inside, if_pos inside, same _ inside.2]
  · rw [if_neg inside, if_neg inside]

/-- Two writes at one address agree when they write the same bytes. -/
theorem hostWrite_inj (known : len = 1 ∨ len = 2 ∨ len = 4)
    {data other : Word} :
    hostWrite pmem addr len data = hostWrite pmem addr len other ↔
      ∀ lane, lane < len →
        data.extractLsb' (8 * lane) 8 = other.extractLsb' (8 * lane) 8 := by
  refine ⟨fun same lane inside => ?_, hostWrite_congr⟩
  have lanes := congrFun same (addr + BitVec.ofNat 32 lane)
  rwa [hostWrite_lane known inside, hostWrite_lane known inside] at lanes

theorem hostRead_hostWrite (known : len = 1 ∨ len = 2 ∨ len = 4)
    (data : Word) :
    hostRead (hostWrite pmem addr len data) addr len =
      (data.setWidth (8 * len)).setWidth 32 := by
  have lanes : hostRead (hostWrite pmem addr len data) addr len =
      hostRead (fun target => data.extractLsb' (8 * target.toNat) 8) 0#32
        len := by
    apply hostRead_congr
    intro lane inside
    rw [hostWrite_lane known inside, BitVec.zero_add, BitVec.toNat_ofNat,
      Nat.mod_eq_of_lt (by omega)]
  rw [lanes]
  apply BitVec.eq_of_getLsbD_eq
  intro bit inWord
  rcases known with rfl | rfl | rfl <;> simp [hostRead] <;> grind

end Host

theorem hostRead_hostWrite_self (pmem : Pmem) (addr data : Word) :
    hostRead (hostWrite pmem addr 4 data) addr 4 = data := by
  rw [hostRead_hostWrite (by decide)]
  exact (BitVec.setWidth_eq _).trans (BitVec.setWidth_eq _)

/-! ## Guest memory -/

/-- `CONFIG_MBASE`. -/
def CONFIG_MBASE : Word := 0x80000000

/-- `CONFIG_MSIZE`. -/
def CONFIG_MSIZE : Word := 0x08000000

/-- `in_pmem`. -/
def inPmem (addr : Word) : Bool := addr - CONFIG_MBASE < CONFIG_MSIZE

/-- `paddr_read`; outside of pmem a device answers, or nothing does. -/
def paddrRead (pmem : Pmem) (addr : Word) (len : Nat) : Option Word :=
  if inPmem addr then some (hostRead pmem addr len) else none

/-- `paddr_write`. -/
def paddrWrite (pmem : Pmem) (addr : Word) (len : Nat) (data : Word) :
    Option Pmem :=
  if inPmem addr then some (hostWrite pmem addr len data) else none

/-! ## The SRAM -/

/-- `npc_read`; the mask is not used. -/
def npcRead (pmem : Pmem) (raddr : Word) (_wmask : Word) : Option Word :=
  paddrRead pmem (raddr &&& ~~~3) 4

/-- The length that `npc_write` takes from the mask. -/
def npcWriteLen (wmask : Word) : Nat :=
  if wmask ∈ [0b0001, 0b0010, 0b0100, 0b1000] then 1
  else if wmask ∈ [0b0011, 0b1100] then 2
  else if wmask = 0b1111 then 4
  else ((List.range 4).filter fun i => (wmask >>> i).getLsbD 0).length

/-- `npc_write`. -/
def npcWrite (pmem : Pmem) (waddr wdata wmask : Word) : Option Pmem :=
  if wmask = 0 then some pmem
  else
    let offset := (waddr &&& 3).toNat
    paddrWrite pmem waddr (npcWriteLen wmask) (wdata >>> (offset * 8))

end Ysyx.Nemu
