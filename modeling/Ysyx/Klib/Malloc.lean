import Mathlib.Data.BitVec
import Mathlib.Order.CompletePartialOrder
import Mathlib.Order.Interval.Set.Disjoint

/-!
# `malloc` of klib

A bump allocator over the heap of the abstract machine.
-/

namespace Ysyx.Klib

/-- `uintptr_t` and `size_t` on riscv32. -/
abbrev Size := BitVec 32

/-- `Area heap`.  It starts at a symbol of the program, which is not NULL. -/
structure Area where
  start : Size
  endAddr : Size
  notNull : start ≠ 0

/-- The number of bytes by which `malloc` moves its pointer. -/
def bump (size : Size) : Size := (size + 0xff - 1) &&& ~~~(0xff : Size)

/-- `malloc`, with its static `addr`: the pointer it returns and the next
`addr`. -/
def malloc (heap : Area) (addr size : Size) : Size × Size :=
  let addr := if addr = 0 then heap.start else addr
  (addr, addr + bump size)

/-- A pointer that was returned, and the size it was returned for. -/
structure Block where
  p : Size
  size : Size
  deriving DecidableEq, Repr

/-- The blocks of a sequence of calls, from a value of `addr`. -/
def blocksFrom (heap : Area) (addr : Size) : List Size → List Block
  | [] => []
  | size :: rest =>
      let (p, addr) := malloc heap addr size
      ⟨p, size⟩ :: blocksFrom heap addr rest

/-- The blocks of a sequence of calls in a fresh program. -/
def blocks (heap : Area) (sizes : List Size) : List Block :=
  blocksFrom heap 0 sizes

/-! ## What callers rely on -/

namespace Block

def bytes (block : Block) : Set Nat :=
  Set.Ico block.p.toNat (block.p.toNat + block.size.toNat)

/-- The block is in the heap, or the call has failed. -/
def Inside (heap : Area) (block : Block) : Prop :=
  block.p = 0 ∨ heap.start.toNat ≤ block.p.toNat ∧
    block.p.toNat + block.size.toNat ≤ heap.endAddr.toNat

end Block

theorem Block.disjoint_iff {first second : Block} :
    Disjoint first.bytes second.bytes ↔
      min (first.p.toNat + first.size.toNat)
          (second.p.toNat + second.size.toNat) ≤
        max first.p.toNat second.p.toNat :=
  Set.Ico_disjoint_Ico

/-- All blocks are in the heap and do not meet. -/
structure Safe (heap : Area) (blocks : List Block) : Prop where
  inside : ∀ block ∈ blocks, block.Inside heap
  disjoint : blocks.Pairwise fun first second =>
    Disjoint first.bytes second.bytes

/-! ## The pointer -/

/-- The size that `malloc` rounds to, but for overflow: 254 is added, so that
a size of the form `256 * k + 1` is rounded down. -/
def rounded (size : Size) : Nat := (size.toNat + 254) / 256 * 256

theorem toNat_bump (size : Size) :
    (bump size).toNat = (size.toNat + 254) % 2 ^ 32 / 256 * 256 := by
  have shifted : ∀ value : Size,
      value &&& ~~~(0xff : Size) = (value >>> 8) <<< 8 := by
    intro value
    apply BitVec.eq_of_getLsbD_eq
    intro k inWord
    have mask : (0xff : Size).getLsbD k = decide (k < 8) :=
      Nat.testBit_two_pow_sub_one 8 k
    rw [BitVec.getLsbD_and, BitVec.getLsbD_not, mask,
      BitVec.getLsbD_shiftLeft, BitVec.getLsbD_ushiftRight]
    by_cases low : k < 8
    · simp [low]
    · have position : 8 + (k - 8) = k := by omega
      simp [low, position, inWord]
  have added : size + 0xff - 1 = size + 254#32 := by
    rw [BitVec.sub_eq_add_neg, BitVec.add_assoc]
    rfl
  rw [bump, added, shifted, BitVec.toNat_shiftLeft, BitVec.toNat_ushiftRight,
    BitVec.toNat_add, Nat.shiftLeft_eq, Nat.shiftRight_eq_div_pow]
  simp only [BitVec.toNat_ofNat]
  omega

theorem malloc_of_ne {heap : Area} {addr : Size} (notNull : addr ≠ 0)
    (size : Size) : malloc heap addr size = (addr, addr + bump size) := by
  simp only [malloc, if_neg notNull]

theorem blocksFrom_zero (heap : Area) (sizes : List Size) :
    blocksFrom heap 0 sizes = blocksFrom heap heap.start sizes := by
  cases sizes with
  | nil =>
      rfl
  | cons size rest =>
      simp only [blocksFrom, malloc_of_ne heap.notNull]
      rfl

/-- Every request ends in the heap, and all but the last are rounded up. -/
def Fits (heap : Area) (base : Nat) : List Size → Prop
  | [] => True
  | size :: rest =>
      base + size.toNat ≤ heap.endAddr.toNat ∧
        (rest ≠ [] → size.toNat % 256 ≠ 1) ∧
        Fits heap (base + rounded size) rest

section Safety

variable {heap : Area}

theorem rounded_eq_bump {size : Size} (noOverflow : size.toNat + 254 < 2 ^ 32) :
    (bump size).toNat = rounded size := by
  rw [toNat_bump, Nat.mod_eq_of_lt noOverflow, rounded]

theorem toNat_moved {addr size : Size} (noOverflow : size.toNat + 254 < 2 ^ 32)
    (noWrap : addr.toNat + rounded size < 2 ^ 32) :
    (addr + bump size).toNat = addr.toNat + rounded size := by
  rw [BitVec.toNat_add, rounded_eq_bump noOverflow, Nat.mod_eq_of_lt noWrap]

/-- Blocks that fit lie one behind the other. -/
theorem blocksFrom_of_fits {addr : Size} {sizes : List Size}
    (notNull : addr ≠ 0) (above : heap.start.toNat ≤ addr.toNat)
    (positive : ∀ size ∈ sizes, 0 < size.toNat)
    (fits : Fits heap addr.toNat sizes) :
    Safe heap (blocksFrom heap addr sizes) ∧
      ∀ block ∈ blocksFrom heap addr sizes,
        addr.toNat ≤ block.p.toNat := by
  induction sizes generalizing addr with
  | nil =>
      exact ⟨⟨by simp [blocksFrom], List.Pairwise.nil⟩, by simp [blocksFrom]⟩
  | cons size rest inductionHypothesis =>
      obtain ⟨ends, roundsUp, fitsRest⟩ := fits
      have sizePositive : 0 < size.toNat := positive size (by simp)
      simp only [blocksFrom, malloc_of_ne notNull]
      have here : Block.Inside heap ⟨addr, size⟩ := Or.inr ⟨above, ends⟩
      cases rest with
      | nil =>
          simp only [blocksFrom]
          exact ⟨⟨by simpa using here, List.pairwise_singleton _ _⟩, by simp⟩
      | cons next rest =>
          have notRoundedDown := roundsUp (by simp)
          have nextEnds := fitsRest.1
          have inWord := heap.endAddr.isLt
          have upward : size.toNat ≤ rounded size := by
            simp only [rounded]
            omega
          have noOverflow : size.toNat + 254 < 2 ^ 32 := by
            simp only [rounded] at nextEnds
            omega
          have moved : (addr + bump size).toNat =
              addr.toNat + rounded size :=
            toNat_moved noOverflow (by omega)
          have movedNotNull : addr + bump size ≠ 0 := by
            intro null
            have zero := congrArg BitVec.toNat null
            rw [moved] at zero
            change _ = 0 at zero
            omega
          obtain ⟨safe, behind⟩ := inductionHypothesis movedNotNull
            (by omega) (fun size member => positive size (by simp [member]))
            (by rwa [moved])
          refine ⟨⟨?_, ?_⟩, ?_⟩
          · intro block member
            rcases List.mem_cons.mp member with rfl | later
            · exact here
            · exact safe.inside block later
          · refine List.pairwise_cons.mpr ⟨?_, safe.disjoint⟩
            intro block later
            have start := behind block later
            rw [moved] at start
            rw [Block.disjoint_iff]
            simp only
            omega
          · intro block member
            rcases List.mem_cons.mp member with rfl | later
            · exact Nat.le_refl _
            · have start := behind block later
              omega

theorem size_pos_of_mem {addr : Size} {sizes : List Size} {block : Block}
    (positive : ∀ size ∈ sizes, 0 < size.toNat)
    (member : block ∈ blocksFrom heap addr sizes) : 0 < block.size.toNat := by
  induction sizes generalizing addr with
  | nil =>
      simp [blocksFrom] at member
  | cons size rest inductionHypothesis =>
      simp only [blocksFrom] at member
      rcases List.mem_cons.mp member with rfl | later
      · exact positive size (by simp)
      · exact inductionHypothesis
          (fun size member => positive size (by simp [member])) later

/-- The block of a call and the next one, which is in the heap, not at its
start and does not meet it: the size was rounded up, and nothing wrapped. -/
theorem moved_of_apart {addr size next : Size}
    (inStep : addr.toNat % 256 = heap.start.toNat % 256)
    (positive : 0 < size.toNat) (nextPositive : 0 < next.toNat)
    (ends : addr.toNat + size.toNat ≤ heap.endAddr.toNat)
    (apart : Disjoint (Block.mk addr size).bytes
      (Block.mk (addr + bump size) next).bytes)
    (notStart : addr + bump size ≠ heap.start)
    (nextInside : heap.start.toNat ≤ (addr + bump size).toNat ∧
      (addr + bump size).toNat + next.toNat ≤ heap.endAddr.toNat) :
    size.toNat % 256 ≠ 1 ∧
      (addr + bump size).toNat = addr.toNat + rounded size := by
  have differ : (addr + bump size).toNat ≠ heap.start.toNat :=
    fun same => notStart (BitVec.eq_of_toNat_eq same)
  have moved : (addr + bump size).toNat =
      (addr.toNat + (size.toNat + 254) % 2 ^ 32 / 256 * 256) % 2 ^ 32 := by
    rw [BitVec.toNat_add, toNat_bump]
  have inWord := heap.endAddr.isLt
  rw [Block.disjoint_iff] at apart
  simp only at apart
  rw [rounded]
  omega

/-- No block behind one at the start of the heap starts there again. -/
theorem not_start_of_disjoint {addr size : Size} {blocks : List Block}
    (positive : 0 < size.toNat)
    (blocksPositive : ∀ block ∈ blocks, 0 < block.size.toNat)
    (later : ∀ block ∈ blocks,
      Disjoint (Block.mk addr size).bytes block.bytes)
    (startOnce : ∀ block ∈ blocks, block.p = heap.start → addr = heap.start) :
    ∀ block ∈ blocks, block.p ≠ heap.start := by
  intro block member isStart
  have first := startOnce block member isStart
  have blockPositive := blocksPositive block member
  have apart := Block.disjoint_iff.mp (later block member)
  simp only [isStart, first] at apart
  omega

/-- What safe calls ask for fits, if no call but the first one returns the
start of the heap. -/
theorem fits_of_safe {addr : Size} {sizes : List Size}
    (notNull : addr ≠ 0) (above : heap.start.toNat ≤ addr.toNat)
    (inStep : addr.toNat % 256 = heap.start.toNat % 256)
    (positive : ∀ size ∈ sizes, 0 < size.toNat)
    (safe : Safe heap (blocksFrom heap addr sizes))
    (startOnce : ∀ block ∈ blocksFrom heap addr sizes,
      block.p = heap.start → addr = heap.start) :
    Fits heap addr.toNat sizes := by
  induction sizes generalizing addr with
  | nil =>
      trivial
  | cons size rest inductionHypothesis =>
      have restPositive : ∀ size ∈ rest, 0 < size.toNat :=
        fun size member => positive size (by simp [member])
      simp only [blocksFrom, malloc_of_ne notNull] at safe startOnce
      have ends : addr.toNat + size.toNat ≤ heap.endAddr.toNat := by
        rcases safe.inside ⟨addr, size⟩ (by simp) with null | inside
        · exact absurd null notNull
        · exact inside.2
      cases rest with
      | nil =>
          exact ⟨ends, by simp, trivial⟩
      | cons next rest =>
          obtain ⟨later, disjoint⟩ := List.pairwise_cons.mp safe.disjoint
          have notStart := not_start_of_disjoint (positive size (by simp))
            (fun _ member => size_pos_of_mem restPositive member) later
            fun block member => startOnce block (List.mem_cons_of_mem _ member)
          have movedNotNull : addr + bump size ≠ 0 := by
            intro null
            apply notStart ⟨heap.start, next⟩ _ rfl
            rw [null, blocksFrom_zero]
            simp [blocksFrom, malloc_of_ne heap.notNull]
          have nextMember : ⟨addr + bump size, next⟩ ∈
              blocksFrom heap (addr + bump size) (next :: rest) := by
            simp [blocksFrom, malloc_of_ne movedNotNull]
          have nextInside := (safe.inside _ (List.mem_cons_of_mem _
            nextMember)).resolve_left movedNotNull
          obtain ⟨notRoundedDown, position⟩ := moved_of_apart inStep
            (positive size (by simp)) (restPositive next (by simp)) ends
            (later _ nextMember) (notStart _ nextMember) nextInside
          have fitsRest := inductionHypothesis movedNotNull nextInside.1
            (by rw [position, rounded]; omega) restPositive
            ⟨fun block member => safe.inside block
              (List.mem_cons_of_mem _ member), disjoint⟩
            (fun block member isStart =>
              absurd isStart (notStart block member))
          rw [position] at fitsRest
          exact ⟨ends, fun _ => notRoundedDown, fitsRest⟩

end Safety

/-- The blocks of every sequence of positive requests are in the heap and
disjoint exactly if each of them ends in the heap and none but the last has a
size of the form `256 * k + 1`. -/
theorem malloc_safe_iff (heap : Area) (sizes : List Size)
    (positive : ∀ size ∈ sizes, 0 < size.toNat) :
    Safe heap (blocks heap sizes) ↔ Fits heap heap.start.toNat sizes := by
  rw [blocks, blocksFrom_zero]
  constructor
  · intro safe
    exact fits_of_safe heap.notNull (Nat.le_refl _) rfl positive safe
      fun _ _ _ => rfl
  · intro fits
    exact (blocksFrom_of_fits heap.notNull (Nat.le_refl _) positive fits).1

/-- The heap of the NPC behind a program of one megabyte. -/
def npcHeap : Area where
  start := 0x80100000
  endAddr := 0x88000000
  notNull := by decide

theorem malloc_safe_at_twoBlocks : Safe npcHeap (blocks npcHeap [24, 257]) :=
  (malloc_safe_iff npcHeap [24, 257] (by simp)).mpr
    ⟨by decide, by decide, by decide, by decide, trivial⟩

/-- The pointer does not move for one byte. -/
theorem oneByte_notSafe :
    ¬ ∀ (heap : Area) (sizes : List Size),
      (∀ size ∈ sizes, 0 < size.toNat) → Safe heap (blocks heap sizes) := by
  intro claimed
  have disjoint := (claimed npcHeap [1, 1] (by simp)).disjoint
  have apart := (List.pairwise_cons.mp disjoint).1 _
    (List.mem_singleton_self _)
  rw [Block.disjoint_iff] at apart
  revert apart
  decide

end Ysyx.Klib
