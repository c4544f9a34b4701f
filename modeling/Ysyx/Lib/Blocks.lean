import Mathlib.Data.BitVec
import Mathlib.Data.List.Induction
import Mathlib.Logic.Function.Basic

/-!
# Blocks of memory

Memory as a function of addresses that wrap around, the memory after a block
has been copied, and memory that remembers which of its cells were used.
-/

namespace Ysyx.Blocks

variable {w : Nat} {β : Type*}

/-! ## A copied block -/

/-- The cell at distance `i` from `base`. -/
def cell (base : BitVec w) (i : Nat) : BitVec w := base + BitVec.ofNat w i

/-- The memory after the `n` cells at `src` have been copied to `dst`, all at
once. -/
def copied (dst src : BitVec w) (n : Nat) (memory : BitVec w → β) :
    BitVec w → β :=
  fun addr =>
    if (addr - dst).toNat < n then memory (src + (addr - dst))
    else memory addr

variable {dst src addr : BitVec w} {n : Nat} {memory : BitVec w → β}

@[simp]
theorem cell_zero (base : BitVec w) : cell base 0 = base :=
  BitVec.add_zero base

theorem cell_succ (base : BitVec w) (i : Nat) :
    cell base (i + 1) = cell base i + 1#w := by
  rw [cell, cell, BitVec.ofNat_add, BitVec.add_assoc]

theorem cell_add_one (base : BitVec w) (i : Nat) :
    cell (base + 1#w) i = cell base (i + 1) := by
  rw [cell_succ, cell, cell, BitVec.add_assoc, BitVec.add_comm 1#w,
    BitVec.add_assoc]

/-- Every address is a cell of every block. -/
theorem cell_distance (base addr : BitVec w) :
    cell base (addr - base).toNat = addr := by
  rw [cell, BitVec.ofNat_toNat, BitVec.setWidth_eq, BitVec.add_comm,
    BitVec.sub_add_cancel]

theorem distance_cell (base : BitVec w) {i : Nat} (inRange : i < 2 ^ w) :
    (cell base i - base).toNat = i := by
  rw [cell, BitVec.add_comm, BitVec.add_sub_cancel, BitVec.toNat_ofNat,
    Nat.mod_eq_of_lt inRange]

theorem cell_injective (base : BitVec w) {i j : Nat} (iRange : i < 2 ^ w)
    (jRange : j < 2 ^ w) (same : cell base i = cell base j) : i = j := by
  rw [← distance_cell base iRange, same, distance_cell base jRange]

/-- A block that does not wrap around. -/
theorem cell_toNat {base : BitVec w} {i : Nat}
    (fits : base.toNat + i < 2 ^ w) : (cell base i).toNat = base.toNat + i := by
  have inRange : i < 2 ^ w := by omega
  rw [cell, BitVec.toNat_add, BitVec.toNat_ofNat, Nat.mod_eq_of_lt inRange,
    Nat.mod_eq_of_lt fits]

theorem distance_lt_iff (fits : dst.toNat + n ≤ 2 ^ w) :
    (addr - dst).toNat < n ↔
      dst.toNat ≤ addr.toNat ∧ addr.toNat < dst.toNat + n := by
  have addrRange := addr.isLt
  have dstRange := dst.isLt
  rw [BitVec.toNat_sub]
  constructor
  · intro close
    by_cases before : addr.toNat < dst.toNat
    · rw [Nat.mod_eq_of_lt (by omega)] at close
      omega
    · rw [show 2 ^ w - dst.toNat + addr.toNat =
        (addr.toNat - dst.toNat) + 2 ^ w by omega, Nat.add_mod_right,
        Nat.mod_eq_of_lt (by omega)] at close
      omega
  · rintro ⟨after, before⟩
    rw [show 2 ^ w - dst.toNat + addr.toNat =
      (addr.toNat - dst.toNat) + 2 ^ w by omega, Nat.add_mod_right,
      Nat.mod_eq_of_lt (by omega)]
    omega

@[simp]
theorem copied_zero : copied dst src 0 memory = memory := by
  funext addr
  exact if_neg (Nat.not_lt_zero _)

theorem copied_cell (inRange : n ≤ 2 ^ w) {i : Nat} (inBlock : i < n) :
    copied dst src n memory (cell dst i) = memory (cell src i) := by
  have distance := distance_cell dst (i := i) (by omega)
  have offset : cell dst i - dst = BitVec.ofNat w i := by
    rw [cell, BitVec.add_comm, BitVec.add_sub_cancel]
  rw [copied, if_pos (by rwa [distance]), offset]
  rfl

theorem copied_outside (outside : n ≤ (addr - dst).toNat) :
    copied dst src n memory addr = memory addr :=
  if_neg (by omega)

theorem copied_cell_outside {i : Nat} (inRange : i < 2 ^ w)
    (outside : n ≤ i) :
    copied dst src n memory (cell dst i) = memory (cell dst i) :=
  copied_outside (by rwa [distance_cell dst inRange])

/-! ## One cell more -/

/-- Copying goes on after the end. -/
theorem copied_succ (inRange : n < 2 ^ w) :
    copied dst src (n + 1) memory =
      Function.update (copied dst src n memory) (cell dst n)
        (memory (cell src n)) := by
  funext addr
  have distance := (addr - dst).isLt
  rw [← cell_distance dst addr]
  generalize (addr - dst).toNat = i at distance
  rcases Nat.lt_trichotomy i n with before | rfl | after
  · have different : cell dst i ≠ cell dst n := fun same =>
      Nat.ne_of_lt before (cell_injective dst distance inRange same)
    rw [Function.update_of_ne different, copied_cell inRange (by omega),
      copied_cell inRange.le before]
  · rw [Function.update_self, copied_cell inRange (Nat.lt_succ_self i)]
  · have different : cell dst i ≠ cell dst n := fun same =>
      Nat.ne_of_gt after (cell_injective dst distance inRange same)
    rw [Function.update_of_ne different, copied_cell_outside distance after,
      copied_cell_outside distance after.le]

/-- The last cell is copied first. -/
theorem copied_update_last (inRange : n < 2 ^ w)
    (intact : ∀ i < n, cell src i ≠ cell dst n) :
    copied dst src n
        (Function.update memory (cell dst n) (memory (cell src n))) =
      copied dst src (n + 1) memory := by
  funext addr
  have distance := (addr - dst).isLt
  rw [← cell_distance dst addr]
  generalize (addr - dst).toNat = i at distance
  rcases Nat.lt_trichotomy i n with before | rfl | after
  · rw [copied_cell inRange.le before, copied_cell inRange (by omega),
      Function.update_of_ne (intact i before)]
  · rw [copied_cell_outside distance le_rfl, Function.update_self,
      copied_cell inRange (Nat.lt_succ_self i)]
  · have different : cell dst i ≠ cell dst n := fun same =>
      Nat.ne_of_gt after (cell_injective dst distance inRange same)
    rw [copied_cell_outside distance after.le, Function.update_of_ne different,
      copied_cell_outside distance after]

/-- The first cell is copied first. -/
theorem copied_update_first (inRange : n < 2 ^ w)
    (intact : ∀ i < n, cell src (i + 1) ≠ dst) :
    copied (dst + 1#w) (src + 1#w) n
        (Function.update memory dst (memory src)) =
      copied dst src (n + 1) memory := by
  funext addr
  have distance := (addr - dst).isLt
  rw [← cell_distance dst addr]
  generalize (addr - dst).toNat = i at distance
  cases i with
  | zero =>
      have around : cell (dst + 1#w) (2 ^ w - 1) = cell dst 0 := by
        have wraps : BitVec.ofNat w (2 ^ w) = 0#w := by
          apply BitVec.eq_of_toNat_eq
          rw [BitVec.toNat_ofNat, Nat.mod_self, BitVec.toNat_zero]
        rw [cell_add_one, Nat.sub_add_cancel Nat.one_le_two_pow, cell, cell,
          wraps]
      rw [copied_cell inRange (Nat.succ_pos n), ← around,
        copied_cell_outside (by omega) (by omega), around, cell_zero,
        cell_zero, Function.update_self]
  | succ i =>
      have different : cell dst (i + 1) ≠ dst := by
        intro same
        exact Nat.succ_ne_zero i (cell_injective dst distance (by omega)
          (same.trans (cell_zero dst).symm))
      by_cases inBlock : i < n
      · rw [← cell_add_one, copied_cell inRange.le inBlock, cell_add_one,
          cell_add_one, copied_cell inRange (by omega),
          Function.update_of_ne (intact i inBlock)]
      · rw [← cell_add_one, copied_cell_outside (by omega) (by omega),
          cell_add_one, copied_cell_outside distance (by omega),
          Function.update_of_ne different]

/-! ## Texts in memory -/

/-- The cells from 0 on hold `text`. -/
def Holds (read : Nat → β) (text : List β) : Prop :=
  ∀ i (inText : i < text.length), read i = text[i]

theorem holds_nil (read : Nat → β) : Holds read [] :=
  fun _ inText => absurd inText (Nat.not_lt_zero _)

theorem holds_append {read : Nat → β} {first second : List β} :
    Holds read (first ++ second) ↔
      Holds read first ∧ Holds (fun i => read (first.length + i)) second := by
  constructor
  · intro holds
    constructor
    · intro i inText
      rw [holds i (by rw [List.length_append]; omega),
        List.getElem_append_left inText]
    · intro i inText
      change read (first.length + i) = _
      rw [holds _ (by rw [List.length_append]; omega)]
      simp
  · rintro ⟨holdsFirst, holdsSecond⟩ i inText
    by_cases inFirst : i < first.length
    · rw [holdsFirst i inFirst, List.getElem_append_left inFirst]
    · have later := holdsSecond (i - first.length)
        (by rw [List.length_append] at inText; omega)
      change read (first.length + (i - first.length)) = _ at later
      rw [show first.length + (i - first.length) = i by omega] at later
      rw [later, List.getElem_append_right (by omega)]

theorem Holds.unique {read : Nat → β} {first second : List β}
    (holdsFirst : Holds read first) (holdsSecond : Holds read second)
    (length : first.length = second.length) : first = second := by
  apply List.ext_getElem length
  intro i inFirst inSecond
  rw [← holdsFirst i inFirst, ← holdsSecond i inSecond]

theorem holds_singleton {read : Nat → β} {value : β} :
    Holds read [value] ↔ read 0 = value := by
  constructor
  · intro holds
    exact holds 0 (Nat.zero_lt_one)
  · intro isValue i inText
    obtain rfl : i = 0 := by simpa using inText
    exact isValue

theorem holds_cons {read : Nat → β} {value : β} {rest : List β} :
    Holds read (value :: rest) ↔
      read 0 = value ∧ Holds (fun i => read (i + 1)) rest := by
  have split := @holds_append β read [value] rest
  rw [holds_singleton] at split
  simpa [Nat.add_comm] using split

/-! ## Memory that remembers its accesses -/

/-- A memory with the addresses that have been read and written so far, the
last one first. -/
structure Traced (α β : Type*) where
  memory : α → β
  reads : List α := []
  writes : List α := []

namespace Traced

variable {α : Type*} [DecidableEq α]

def load (trace : Traced α β) (addr : α) : β × Traced α β :=
  (trace.memory addr, { trace with reads := addr :: trace.reads })

def store (trace : Traced α β) (addr : α) (value : β) : Traced α β :=
  { trace with
    memory := Function.update trace.memory addr value
    writes := addr :: trace.writes }

/-- Values that are stored one behind the other. -/
def storeAll (trace : Traced (BitVec w) β) (base : BitVec w) :
    List β → Traced (BitVec w) β
  | [] => trace
  | value :: rest => (trace.store base value).storeAll (base + 1#w) rest

section StoreAll

variable {trace : Traced (BitVec w) β} {base : BitVec w} {text : List β}

theorem storeAll_append (more : List β) :
    trace.storeAll base (text ++ more) =
      (trace.storeAll base text).storeAll (cell base text.length) more := by
  induction text generalizing trace base with
  | nil => rw [List.length_nil, cell_zero]; rfl
  | cons value rest inductionHypothesis =>
      rw [List.cons_append, storeAll, inductionHypothesis, cell_add_one]
      rfl

theorem mem_writes_storeAll {addr : BitVec w} :
    addr ∈ (trace.storeAll base text).writes ↔
      addr ∈ trace.writes ∨ ∃ i < text.length, addr = cell base i := by
  induction text generalizing trace base with
  | nil => simp [storeAll]
  | cons value rest inductionHypothesis =>
      rw [storeAll, inductionHypothesis]
      change addr ∈ base :: trace.writes ∨ _ ↔ _
      rw [List.mem_cons, List.length_cons]
      constructor
      · rintro ((rfl | before) | ⟨i, inText, rfl⟩)
        · exact .inr ⟨0, Nat.succ_pos _, (cell_zero _).symm⟩
        · exact .inl before
        · exact .inr ⟨i + 1, Nat.succ_lt_succ inText, cell_add_one base i⟩
      · rintro (before | ⟨i, inText, rfl⟩)
        · exact .inl (.inr before)
        · cases i with
          | zero => exact .inl (.inl (cell_zero base))
          | succ i =>
              exact .inr ⟨i, Nat.lt_of_succ_lt_succ inText,
                (cell_add_one base i).symm⟩

theorem holds_storeAll (inRange : text.length ≤ 2 ^ w) :
    Holds (fun i => (trace.storeAll base text).memory (cell base i)) text := by
  induction text using List.reverseRecOn with
  | nil => exact holds_nil _
  | append_singleton text value inductionHypothesis =>
      rw [List.length_append, List.length_singleton] at inRange
      rw [storeAll_append, holds_append, holds_singleton]
      refine ⟨?_, Function.update_self _ _ _⟩
      intro i inText
      have different : cell base i ≠ cell base text.length := fun same =>
        Nat.ne_of_lt inText
          (cell_injective base (by omega) (by omega) same)
      change Function.update _ _ _ _ = _
      rw [Function.update_of_ne different]
      exact inductionHypothesis (by omega) i inText

end StoreAll

end Traced

end Ysyx.Blocks
