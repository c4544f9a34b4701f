import Ysyx.Lib.Blocks
import Ysyx.Klib.Malloc

/-!
# `memmove` and `strncpy` of klib
-/

namespace Ysyx.Klib

open Blocks (cell copied Traced)

abbrev Byte := BitVec 8

abbrev Memory := Size → Byte

/-! ## `memmove` -/

/-- `while (n--) { *d = *s; d++; s++; }`. -/
def copyUp : Nat → Size → Size → Memory → Memory
  | 0, _, _, memory => memory
  | n + 1, d, s, memory =>
      copyUp n (d + 1) (s + 1) (Function.update memory d (memory s))

/-- `while (n--) { *d = *s; d--; s--; }`. -/
def copyDown : Nat → Size → Size → Memory → Memory
  | 0, _, _, memory => memory
  | n + 1, d, s, memory =>
      copyDown n (d - 1) (s - 1) (Function.update memory d (memory s))

/-- `memmove`: the pointer it returns and the memory it leaves. -/
def memmove (dst src n : Size) (memory : Memory) : Size × Memory :=
  if dst < src then (dst, copyUp n.toNat dst src memory)
  else (dst, copyDown n.toNat (dst + n - 1) (src + n - 1) memory)

section Memmove

variable {dst src : Size}

/-- Going up: no byte is written before it has been read. -/
theorem copyUp_eq {n : Nat} (inRange : n ≤ 2 ^ 32)
    (intact : ∀ i j, i < j → j < n → cell src j ≠ cell dst i)
    (memory : Memory) :
    copyUp n dst src memory = copied dst src n memory := by
  induction n generalizing dst src memory with
  | zero => exact Blocks.copied_zero.symm
  | succ n inductionHypothesis =>
      have first : ∀ i < n, cell src (i + 1) ≠ dst := by
        intro i inBlock
        have later := intact 0 (i + 1) (by omega) (by omega)
        rwa [Blocks.cell_zero] at later
      have others : ∀ i j, i < j → j < n →
          cell (src + 1) j ≠ cell (dst + 1) i := by
        intro i j order inBlock
        have later := intact (i + 1) (j + 1) (by omega) (by omega)
        rwa [← Blocks.cell_add_one, ← Blocks.cell_add_one] at later
      rw [copyUp, inductionHypothesis (by omega) others]
      exact Blocks.copied_update_first (by omega) first

/-- Going down. -/
theorem copyDown_eq {n : Nat} (inRange : n ≤ 2 ^ 32)
    (intact : ∀ i j, i < j → j < n → cell src i ≠ cell dst j)
    (memory : Memory) :
    copyDown n (cell dst n - 1) (cell src n - 1) memory =
      copied dst src n memory := by
  induction n generalizing memory with
  | zero => exact Blocks.copied_zero.symm
  | succ n inductionHypothesis =>
      have pred (base : Size) : cell base (n + 1) - 1 = cell base n := by
        rw [Blocks.cell_succ]
        exact BitVec.add_sub_cancel _ _
      have others : ∀ i j, i < j → j < n → cell src i ≠ cell dst j :=
        fun i j order inBlock => intact i j order (by omega)
      rw [copyDown, pred, pred, inductionHypothesis (by omega) others]
      exact Blocks.copied_update_last (by omega)
        fun i inBlock => intact i n inBlock (Nat.lt_succ_self n)

/-- `memmove` copies the block as it was before the call. -/
theorem memmove_eq {n : Size} (dstFits : dst.toNat + n.toNat ≤ 2 ^ 32)
    (srcFits : src.toNat + n.toNat ≤ 2 ^ 32) (memory : Memory) :
    memmove dst src n memory = (dst, copied dst src n.toNat memory) := by
  have address (base : Size) (fits : base.toNat + n.toNat ≤ 2 ^ 32) (i : Nat)
      (inBlock : i < n.toNat) : (cell base i).toNat = base.toNat + i :=
    Blocks.cell_toNat (by omega)
  by_cases below : dst < src
  · have order : dst.toNat < src.toNat := below
    have intact : ∀ i j, i < j → j < n.toNat → cell src j ≠ cell dst i := by
      intro i j before inBlock same
      have read := address src srcFits j inBlock
      rw [same, address dst dstFits i (by omega)] at read
      omega
    rw [memmove, if_pos below, copyUp_eq (by omega) intact]
  · have order : src.toNat ≤ dst.toNat := Nat.le_of_not_lt below
    have intact : ∀ i j, i < j → j < n.toNat → cell src i ≠ cell dst j := by
      intro i j before inBlock same
      have read := address src srcFits i (by omega)
      rw [same, address dst dstFits j inBlock] at read
      omega
    have end_eq (base : Size) : base + n = cell base n.toNat := by
      rw [cell, BitVec.ofNat_toNat, BitVec.setWidth_eq]
    rw [memmove, if_neg below, end_eq, end_eq, copyDown_eq (by omega) intact]

/-- After `memmove` the bytes at `dst` are those that were at `src`, and no
other byte has changed. -/
theorem memmove_moves {n : Size} (dstFits : dst.toNat + n.toNat ≤ 2 ^ 32)
    (srcFits : src.toNat + n.toNat ≤ 2 ^ 32) (memory : Memory) :
    let after := (memmove dst src n memory).2
    (∀ i < n.toNat, after (cell dst i) = memory (cell src i)) ∧
      ∀ addr, ¬(dst.toNat ≤ addr.toNat ∧
          addr.toNat < dst.toNat + n.toNat) →
        after addr = memory addr := by
  rw [memmove_eq dstFits srcFits]
  refine ⟨fun i inBlock => Blocks.copied_cell (by omega) inBlock, ?_⟩
  intro addr outside
  apply Blocks.copied_outside
  rw [← Blocks.distance_lt_iff dstFits] at outside
  omega

/-- Three bytes that are moved up by one. -/
theorem memmove_moves_up :
    let memory : Memory := fun addr => addr.setWidth 8
    let after := (memmove 0x101 0x100 3 memory).2
    (∀ i < 3, after (cell 0x101 i) = memory (cell 0x100 i)) ∧
      ∀ addr : Size, ¬(0x101 ≤ addr.toNat ∧ addr.toNat < 0x101 + 3) →
        after addr = memory addr :=
  memmove_moves (n := 3) (by decide) (by decide) _

end Memmove

/-! ## `strncpy` -/

/-- `for(i = 0; src[i] != '\0'; i++) { dst[i] = src[i]; }  dst[i] = '\0';`,
for at most `fuel` tests of the condition. -/
def strncpyLoop (dst src : Size) :
    Nat → Size → Traced Size Byte → Option (Traced Size Byte)
  | 0, _, _ => none
  | fuel + 1, i, trace =>
      let (test, trace) := trace.load (src + i)
      if test ≠ 0 then
        let (char, trace) := trace.load (src + i)
        strncpyLoop dst src fuel (i + 1) (trace.store (dst + i) char)
      else some (trace.store (dst + i) 0)

/-- `strncpy`, which does not look at its bound. -/
def strncpy (fuel : Nat) (dst src _n : Size) (memory : Memory) :
    Option (Size × Traced Size Byte) :=
  (strncpyLoop dst src fuel 0 { memory }).map fun trace => (dst, trace)

/-- A string: its characters and its NUL. -/
structure IsString (memory : Memory) (src : Size) (len : Nat) : Prop where
  inRange : len < 2 ^ 32
  chars : ∀ i < len, memory (cell src i) ≠ 0
  nul : memory (cell src len) = 0

/-- What the bound promises of a call that has returned. -/
structure RespectsBound (memory : Memory) (dst src : Size) (n len : Nat)
    (trace : Traced Size Byte) : Prop where
  writes : ∀ addr, addr ∈ trace.writes ↔ ∃ i < n, addr = cell dst i
  reads : ∀ addr ∈ trace.reads, ∃ i < n, i ≤ len ∧ addr = cell src i
  copies : ∀ i < n, trace.memory (cell dst i) =
    if i < len then memory (cell src i) else 0
  frame : ∀ addr, (∀ i < n, addr ≠ cell dst i) →
    trace.memory addr = memory addr

section Strncpy

variable {memory : Memory} {dst src : Size} {len : Nat}

/-- The copy does not run into characters that are still to be read. -/
def KeepsAhead (dst src : Size) (len : Nat) : Prop :=
  ¬(0 < (dst - src).toNat ∧ (dst - src).toNat ≤ len)

instance (dst src : Size) (len : Nat) : Decidable (KeepsAhead dst src len) :=
  inferInstanceAs (Decidable (¬_))

/-- After `i` rounds. -/
structure CopiedTo (memory : Memory) (dst src : Size) (i : Nat)
    (trace : Traced Size Byte) : Prop where
  memory : trace.memory = copied dst src i memory
  writes : ∀ addr, addr ∈ trace.writes ↔ ∃ j < i, addr = cell dst j
  reads : ∀ addr ∈ trace.reads, ∃ j < i, addr = cell src j

theorem copiedTo_zero : CopiedTo memory dst src 0 { memory } where
  memory := Blocks.copied_zero.symm
  writes addr := by simp
  reads addr read := absurd read List.not_mem_nil

/-- What one round reads is what was there before the call. -/
theorem CopiedTo.char {i : Nat} {trace : Traced Size Byte}
    (copiedTo : CopiedTo memory dst src i trace)
    (ahead : KeepsAhead dst src len) (inString : i ≤ len)
    (inRange : len < 2 ^ 32) :
    trace.memory (cell src i) = memory (cell src i) := by
  rw [copiedTo.memory]
  apply Blocks.copied_outside
  simp only [KeepsAhead, BitVec.toNat_sub] at ahead
  simp only [cell, BitVec.toNat_sub, BitVec.toNat_add, BitVec.toNat_ofNat]
  have srcRange := src.isLt
  have dstRange := dst.isLt
  omega

/-- One more character, or the NUL. -/
theorem CopiedTo.succ {i : Nat} {trace : Traced Size Byte}
    (copiedTo : CopiedTo memory dst src i trace) (inRange : i < 2 ^ 32)
    {reads : List Size} (readsHere : ∀ addr ∈ reads, addr = cell src i) :
    CopiedTo memory dst src (i + 1)
      { memory := Function.update trace.memory (cell dst i)
          (memory (cell src i))
        reads := reads ++ trace.reads
        writes := cell dst i :: trace.writes } where
  memory := by rw [copiedTo.memory, Blocks.copied_succ inRange]
  writes addr := by
    rw [List.mem_cons, copiedTo.writes]
    constructor
    · rintro (rfl | ⟨j, before, rfl⟩)
      · exact ⟨i, Nat.lt_succ_self i, rfl⟩
      · exact ⟨j, by omega, rfl⟩
    · rintro ⟨j, before, rfl⟩
      rcases Nat.lt_succ_iff_lt_or_eq.mp before with earlier | rfl
      · exact .inr ⟨j, earlier, rfl⟩
      · exact .inl rfl
  reads addr read := by
    rcases List.mem_append.mp read with here | earlier
    · exact ⟨i, Nat.lt_succ_self i, readsHere addr here⟩
    · obtain ⟨j, before, rfl⟩ := copiedTo.reads addr earlier
      exact ⟨j, by omega, rfl⟩

theorem ofNat_succ (i : Nat) :
    BitVec.ofNat 32 i + 1 = BitVec.ofNat 32 (i + 1) :=
  (BitVec.ofNat_add i 1).symm

/-- A round in front of a character. -/
theorem strncpyLoop_char {fuel i : Nat} {trace : Traced Size Byte}
    (char : trace.memory (cell src i) ≠ 0) :
    strncpyLoop dst src (fuel + 1) (BitVec.ofNat 32 i) trace =
      strncpyLoop dst src fuel (BitVec.ofNat 32 (i + 1))
        { memory := Function.update trace.memory (cell dst i)
            (trace.memory (cell src i))
          reads := [cell src i, cell src i] ++ trace.reads
          writes := cell dst i :: trace.writes } := by
  rw [strncpyLoop, ofNat_succ]
  exact if_pos char

/-- The round in front of the NUL. -/
theorem strncpyLoop_nul {fuel i : Nat} {trace : Traced Size Byte}
    (nul : trace.memory (cell src i) = 0) :
    strncpyLoop dst src (fuel + 1) (BitVec.ofNat 32 i) trace =
      some { memory := Function.update trace.memory (cell dst i) 0
             reads := [cell src i] ++ trace.reads
             writes := cell dst i :: trace.writes } := by
  rw [strncpyLoop]
  exact if_neg (not_not.mpr nul)

/-- Whenever the loop ends, it has copied up to the NUL, whatever the bound
is. -/
theorem strncpyLoop_copies (isString : IsString memory src len)
    (ahead : KeepsAhead dst src len) {fuel i : Nat}
    {trace final : Traced Size Byte}
    (copiedTo : CopiedTo memory dst src i trace) (inString : i ≤ len)
    (returns :
      strncpyLoop dst src fuel (BitVec.ofNat 32 i) trace = some final) :
    CopiedTo memory dst src (len + 1) final := by
  have inRange := isString.inRange
  induction fuel generalizing i trace with
  | zero => cases returns
  | succ fuel inductionHypothesis =>
      have char := copiedTo.char ahead inString inRange
      rcases Nat.lt_or_eq_of_le inString with before | rfl
      · rw [strncpyLoop_char (by rw [char]; exact isString.chars i before),
          char] at returns
        exact inductionHypothesis (copiedTo.succ (by omega) (by simp)) before
          returns
      · rw [strncpyLoop_nul (char.trans isString.nul)] at returns
        injection returns with isFinal
        have once : ∀ addr ∈ [cell src i], addr = cell src i := by simp
        have last := copiedTo.succ inRange once
        rwa [isString.nul, isFinal] at last

/-- The loop ends. -/
theorem strncpyLoop_isSome (isString : IsString memory src len)
    (ahead : KeepsAhead dst src len) {fuel i : Nat}
    {trace : Traced Size Byte} (copiedTo : CopiedTo memory dst src i trace)
    (inString : i ≤ len) (enough : len - i < fuel) :
    ∃ final,
      strncpyLoop dst src fuel (BitVec.ofNat 32 i) trace = some final := by
  have inRange := isString.inRange
  induction fuel generalizing i trace with
  | zero => omega
  | succ fuel inductionHypothesis =>
      have char := copiedTo.char ahead inString inRange
      rcases Nat.lt_or_eq_of_le inString with before | rfl
      · rw [strncpyLoop_char (by rw [char]; exact isString.chars i before),
          char]
        exact inductionHypothesis (copiedTo.succ (by omega) (by simp))
          before (by omega)
      · rw [strncpyLoop_nul (char.trans isString.nul)]
        exact ⟨_, rfl⟩

/-- A copy into the characters that follow never finds a NUL. -/
theorem strncpyLoop_overlap {distance fuel i : Nat} {trace : Traced Size Byte}
    (overlap : 0 < distance) (isDst : dst = cell src distance)
    (chars : ∀ j, i ≤ j → j < i + distance → trace.memory (cell src j) ≠ 0) :
    strncpyLoop dst src fuel (BitVec.ofNat 32 i) trace = none := by
  induction fuel generalizing i trace with
  | zero => rfl
  | succ fuel inductionHypothesis =>
      have char := chars i le_rfl (by omega)
      rw [strncpyLoop_char char]
      apply inductionHypothesis
      intro j after before
      rcases eq_or_ne (cell src j) (cell dst i) with written | other
      · rw [written]
        simpa using char
      · change Function.update _ _ _ _ ≠ 0
        rw [Function.update_of_ne other]
        apply chars j (by omega)
        by_contra beyond
        apply other
        rw [isDst, show j = i + distance by omega]
        simp only [cell, BitVec.ofNat_add, BitVec.add_assoc,
          BitVec.add_comm (BitVec.ofNat 32 i)]

/-- One length fits what the loop has done. -/
theorem CopiedTo.respectsBound_iff {n : Nat} {trace : Traced Size Byte}
    (copiedTo : CopiedTo memory dst src (len + 1) trace)
    (isString : IsString memory src len) (nRange : n < 2 ^ 32) :
    RespectsBound memory dst src n len trace ↔ n = len + 1 := by
  have inRange := isString.inRange
  constructor
  · intro respects
    rcases Nat.lt_trichotomy n (len + 1) with short | rfl | long
    · -- the loop has written the byte at the bound
      obtain ⟨i, before, same⟩ := (respects.writes (cell dst n)).mp
        ((copiedTo.writes _).mpr ⟨n, short, rfl⟩)
      have index := Blocks.cell_injective dst nRange (by omega) same
      omega
    · rfl
    · -- the loop has not written the byte after the NUL
      obtain ⟨i, before, same⟩ := (copiedTo.writes (cell dst (len + 1))).mp
        ((respects.writes _).mpr ⟨len + 1, long, rfl⟩)
      have index := Blocks.cell_injective dst (by omega) (by omega) same
      omega
  · rintro rfl
    refine ⟨copiedTo.writes, ?_, ?_, ?_⟩
    · intro addr read
      obtain ⟨i, before, rfl⟩ := copiedTo.reads addr read
      exact ⟨i, before, by omega, rfl⟩
    · intro i before
      rw [copiedTo.memory, Blocks.copied_cell inRange before]
      by_cases char : i < len
      · rw [if_pos char]
      · rw [if_neg char, show i = len by omega, isString.nul]
    · intro addr outside
      rw [copiedTo.memory]
      apply Blocks.copied_outside
      by_contra inBlock
      exact outside _ (by omega) (Blocks.cell_distance dst addr).symm

/-- `strncpy` respects its bound exactly where the bound ends with the NUL of
the source and the copy does not start inside the source. -/
theorem strncpy_respectsBound_iff (isString : IsString memory src len)
    (n : Size) :
    (∃ fuel trace, strncpy fuel dst src n memory = some (dst, trace) ∧
      RespectsBound memory dst src n.toNat len trace) ↔
    n.toNat = len + 1 ∧ KeepsAhead dst src len := by
  constructor
  · rintro ⟨fuel, trace, returns, respects⟩
    obtain ⟨final, loop, isTrace⟩ := Option.map_eq_some_iff.mp returns
    have ahead : KeepsAhead dst src len := by
      rintro ⟨overlap, inString⟩
      have never : strncpyLoop dst src fuel 0 { memory } = none := by
        apply strncpyLoop_overlap overlap (Blocks.cell_distance src dst).symm
        intro j _ before
        rw [Nat.zero_add] at before
        exact isString.chars j (by omega)
      rw [never] at loop
      cases loop
    injection isTrace with _ same
    have copies := strncpyLoop_copies isString ahead copiedTo_zero
      (Nat.zero_le len) loop
    rw [same] at copies
    exact ⟨(copies.respectsBound_iff isString n.isLt).mp respects, ahead⟩
  · rintro ⟨bound, ahead⟩
    obtain ⟨trace, loop⟩ := strncpyLoop_isSome isString ahead copiedTo_zero
      (Nat.zero_le len) (Nat.lt_succ_self _)
    have copies := strncpyLoop_copies isString ahead copiedTo_zero
      (Nat.zero_le len) loop
    refine ⟨_, trace, congrArg (Option.map _) loop, ?_⟩
    exact (copies.respectsBound_iff isString n.isLt).mpr bound

/-- `"hi"` with a bound of three bytes. -/
theorem strncpy_respectsBound_iff_hi :
    let memory : Memory := fun addr =>
      if addr = 0x100 then 0x68 else if addr = 0x101 then 0x69 else 0
    (∃ fuel trace, strncpy fuel 0x200 0x100 3 memory = some (0x200, trace) ∧
      RespectsBound memory 0x200 0x100 3 2 trace) ↔
    (3 : Size).toNat = 2 + 1 ∧ KeepsAhead 0x200 0x100 2 :=
  strncpy_respectsBound_iff
    ⟨by decide, by decide, by decide⟩ 3

/-- A bound of one byte lets `strncpy` write three. -/
theorem strncpy_overruns :
    ¬∀ (memory : Memory) (dst src n : Size) (len : Nat),
      IsString memory src len →
        ∃ fuel trace, strncpy fuel dst src n memory = some (dst, trace) ∧
          RespectsBound memory dst src n.toNat len trace := by
  intro respected
  let memory : Memory := fun addr =>
    if addr = 0x100 then 0x68 else if addr = 0x101 then 0x69 else 0
  have isString : IsString memory 0x100 2 := ⟨by decide, by decide, by decide⟩
  obtain ⟨fuel, trace, returns, respects⟩ :=
    respected memory 0x200 0x100 1 2 isString
  obtain ⟨final, loop, isTrace⟩ := Option.map_eq_some_iff.mp returns
  have ahead : KeepsAhead 0x200 0x100 2 := by decide
  have copies := strncpyLoop_copies isString ahead copiedTo_zero
    (Nat.zero_le 2) loop
  injection isTrace with _ same
  rw [same] at copies
  have bound := (copies.respectsBound_iff isString (by decide)).mp respects
  exact absurd bound (by decide)

end Strncpy

end Ysyx.Klib
