import Ysyx.Klib.Scan

/-!
# What `vsnprintf` writes and reads

The limit is tested between two pieces of the format only, and a `%` takes the
character behind it whatever it is.
-/

namespace Ysyx.Klib.Call

open Blocks (cell Traced)

variable {call : Call}

/-! ## The buffer -/

/-- All writes so far and in every later round are in a buffer of `size`
bytes. -/
def InBounds (call : Call) (size : Nat) : Prop :=
  ∀ rounds, ∀ i ∈ (call.run rounds).out.writes, i.toNat < size

/-- The bytes that a buffer must have for the first pieces of a format: their
text, and the NUL where the loop ends. -/
def spaceFor (call : Call) (rounds : Nat) : Nat :=
  (call.rendered rounds).length +
    if call.fmt (call.cursor rounds).pos = 0 ∨
        call.n.toNat ≤ (call.rendered rounds).length then 1 else 0

/-- The text of the format and its NUL fit in `size` bytes. -/
def Fits (call : Call) (size : Nat) : Prop :=
  ∀ rounds, call.Scans rounds → call.spaceFor rounds ≤ size

theorem rendered_le_spaceFor (rounds : Nat) :
    (call.rendered rounds).length ≤ call.spaceFor rounds :=
  Nat.le_add_right _ _

theorem scans_of_continues {rounds : Nat}
    (continues : ∀ round < rounds, call.Continues round) :
    call.Scans rounds :=
  fun round before => (continues round before).1

/-- While the text is short, `len` does not wrap around. -/
theorem continues_iff {round : Nat}
    (short : (call.rendered round).length < 2 ^ 32) :
    call.Continues round ↔ call.fmt (call.cursor round).pos ≠ 0 ∧
      (call.rendered round).length < call.n.toNat := by
  rw [Continues, BitVec.lt_def, BitVec.toNat_ofNat, Nat.mod_eq_of_lt short]

theorem mem_writes_followed {rounds : Nat} {i : Size} :
    i ∈ (call.followed rounds).out.writes ↔
      ∃ j < (call.rendered rounds).length, i = BitVec.ofNat 32 j := by
  rw [followed, Traced.mem_writes_storeAll, printed_length]
  simp only [cell_out, List.not_mem_nil, false_or]

theorem mem_writes_finished {rounds : Nat} {i : Size} :
    i ∈ (call.finished rounds).out.writes ↔
      i = BitVec.ofNat 32 (call.rendered rounds).length ∨
        ∃ j < (call.rendered rounds).length, i = BitVec.ofNat 32 j := by
  rw [← mem_writes_followed]
  exact List.mem_cons

section Bounds

variable {size : Nat}

theorem index_lt {j : Nat} (inBuffer : j < size) :
    (BitVec.ofNat 32 j).toNat < size := by
  rw [BitVec.toNat_ofNat]
  exact (Nat.mod_le j _).trans_lt inBuffer

theorem inBounds_of_fits (limit : size ≤ call.n.toNat)
    (fits : call.Fits size) : call.InBounds size := by
  have limitRange := call.n.isLt
  intro rounds i written
  obtain ⟨continues, followed⟩ | ⟨last, -, continues, stops, finished⟩ :=
    call.run_cases rounds
  · rw [followed, mem_writes_followed] at written
    obtain ⟨j, inText, rfl⟩ := written
    have space := fits rounds (scans_of_continues continues)
    have text := call.rendered_le_spaceFor rounds
    exact index_lt (by omega)
  · rw [finished, mem_writes_finished] at written
    have space := fits last (scans_of_continues continues)
    have text := call.rendered_le_spaceFor last
    have ends : call.spaceFor last = (call.rendered last).length + 1 := by
      rw [continues_iff (by omega), not_and_or, not_not, not_lt] at stops
      rw [spaceFor, if_pos stops]
    obtain rfl | ⟨j, inText, rfl⟩ := written
    · exact index_lt (by omega)
    · exact index_lt (by omega)

/-- The first piece that does not fit is written past the end. -/
theorem fits_of_inBounds (limit : size ≤ call.n.toNat)
    (inBounds : call.InBounds size) : call.Fits size := by
  have limitRange := call.n.isLt
  have sizeRange : (BitVec.ofNat 32 size).toNat = size := by
    rw [BitVec.toNat_ofNat, Nat.mod_eq_of_lt (by omega)]
  intro rounds
  induction rounds using Nat.strong_induction_on with
  | _ rounds inductionHypothesis =>
      intro scans
      have continues : ∀ round < rounds, call.Continues round := by
        intro round before
        have space := inductionHypothesis round before
          fun earlier order => scans earlier (by omega)
        have text := call.rendered_le_spaceFor round
        rw [continues_iff (by omega)]
        refine ⟨scans round before, ?_⟩
        by_contra full
        have ends : call.spaceFor round = (call.rendered round).length + 1 :=
          by rw [spaceFor, if_pos (.inr (not_lt.mp full))]
        omega
      by_contra tooLong
      rcases Nat.lt_or_ge size (call.rendered rounds).length with past | within
      · -- a character goes to the byte behind the buffer
        have written : BitVec.ofNat 32 size ∈ (call.run rounds).out.writes := by
          rw [run_eq_followed continues, mem_writes_followed]
          exact ⟨size, past, rfl⟩
        have bound := inBounds rounds _ written
        omega
      · -- the NUL goes there
        have ends : call.fmt (call.cursor rounds).pos = 0 ∨
            call.n.toNat ≤ (call.rendered rounds).length := by
          by_contra goesOn
          rw [spaceFor, if_neg goesOn] at tooLong
          omega
        have full : (call.rendered rounds).length = size := by
          rw [spaceFor, if_pos ends] at tooLong
          omega
        have stops : ¬call.Continues rounds := by
          rw [continues_iff (by omega), not_and_or, not_not, not_lt]
          exact ends
        have written : BitVec.ofNat 32 size ∈
            (call.run (rounds + 1)).out.writes := by
          rw [run_eq_finished continues stops (Nat.lt_succ_self rounds),
            mem_writes_finished, full]
          exact .inl rfl
        have bound := inBounds _ _ written
        omega

end Bounds

/-- Below the limit itself the NUL needs no space of its own. -/
theorem fits_limit_iff :
    call.Fits call.n.toNat ↔
      ∀ rounds, call.Scans rounds →
        (call.rendered rounds).length < call.n.toNat := by
  constructor
  · intro fits rounds scans
    by_contra full
    have space := fits rounds scans
    rw [spaceFor, if_pos (.inr (not_lt.mp full))] at space
    omega
  · intro short rounds scans
    have text := short rounds scans
    rw [spaceFor]
    split <;> omega

/-- `vsnprintf` stays in the buffer exactly if no part of the format has a text
of `n` characters or more, and `printf` exactly if the text and its NUL fit in
its buffer. -/
theorem inBounds_iff (call : Call) (buffer : Memory) (fmt : Nat → Byte)
    (ap : Nat → Arg) (below : Nat → Byte) :
    (call.InBounds call.n.toNat ↔
      ∀ rounds, call.Scans rounds →
        (call.rendered rounds).length < call.n.toNat) ∧
    ((printf buffer fmt ap below).InBounds bufferSize ↔
      (printf buffer fmt ap below).Fits bufferSize) := by
  constructor
  · rw [← fits_limit_iff]
    exact ⟨fits_of_inBounds le_rfl, inBounds_of_fits le_rfl⟩
  · have limit : bufferSize ≤ (printf buffer fmt ap below).n.toNat := by
      change 1024 ≤ (-1 : Size).toNat
      decide
    exact ⟨fits_of_inBounds limit, inBounds_of_fits limit⟩

/-- With a limit of one byte, the NUL goes to `out[1]`. -/
theorem inBounds_fails :
    ¬∀ call : Call, 1 ≤ call.n.toNat → call.InBounds call.n.toNat := by
  intro stays
  let call : Call :=
    { out := fun _ => 0
      n := 1
      fmt := fun i => if i = 0 then ascii 'a' else 0
      ap := fun _ => { word := 0 }
      below := fun _ => 0 }
  have written : 1 ∈ (call.run 2).out.writes := by decide
  exact absurd (stays call (by decide) 2 1 written) (by decide)

/-! ## The format -/

/-- The NUL of a format. -/
structure EndsAt (fmt : Nat → Byte) (nul : Nat) : Prop where
  isNul : fmt nul = 0
  chars : ∀ i < nul, fmt i ≠ 0

/-- The loop ends, and has read nothing behind the NUL. -/
def ReadsUpTo (call : Call) (nul : Nat) : Prop :=
  (∃ rounds, (call.run rounds).ended = true) ∧
    ∀ rounds, ∀ i ∈ (call.run rounds).reads, i ≤ nul

/-- A `%` that the scan takes for the start of a conversion and that stands
directly in front of the NUL comes only after the limit. -/
def NoOpenConversion (call : Call) (nul : Nat) : Prop :=
  ∀ round, (call.cursor round).pos + 1 = nul →
    call.fmt (call.cursor round).pos = ascii '%' →
    ∃ earlier ≤ round,
      call.n ≤ BitVec.ofNat 32 (call.rendered earlier).length

section Reads

variable {nul : Nat}

theorem cursor_succ_pos (call : Call) (round : Nat) :
    (call.cursor (round + 1)).pos = (call.cursor round).pos +
      if call.fmt (call.cursor round).pos = ascii '%' then 2 else 1 := rfl

theorem lt_cursor_succ (call : Call) (round : Nat) :
    (call.cursor round).pos < (call.cursor (round + 1)).pos := by
  rw [cursor_succ_pos]
  split <;> omega

theorem cursor_strictMono (call : Call) :
    StrictMono fun round => (call.cursor round).pos :=
  strictMono_nat_of_lt_succ call.lt_cursor_succ

/-- Before the NUL a round ends at or before the NUL, and so does what it
reads. -/
theorem next_le {round : Nat} (endsAt : EndsAt call.fmt nul)
    (closed : call.NoOpenConversion nul)
    (continues : ∀ earlier ≤ round, call.Continues earlier)
    (before : (call.cursor round).pos ≤ nul) :
    (call.cursor (round + 1)).pos ≤ nul := by
  have inFormat : (call.cursor round).pos < nul := by
    rcases Nat.lt_or_eq_of_le before with inFormat | atNul
    · exact inFormat
    · exact absurd (atNul ▸ endsAt.isNul) (continues round le_rfl).1
  rw [cursor_succ_pos]
  by_cases percent : call.fmt (call.cursor round).pos = ascii '%'
  · rw [if_pos percent]
    have notLast : (call.cursor round).pos + 1 ≠ nul := by
      intro last
      obtain ⟨earlier, order, full⟩ := closed round last percent
      exact absurd (continues earlier order).2 (BitVec.not_lt.mpr full)
    omega
  · rw [if_neg percent]
    exact inFormat

theorem cursor_le {rounds : Nat} (endsAt : EndsAt call.fmt nul)
    (closed : call.NoOpenConversion nul)
    (continues : ∀ round < rounds, call.Continues round) :
    (call.cursor rounds).pos ≤ nul := by
  induction rounds with
  | zero => exact Nat.zero_le _
  | succ rounds inductionHypothesis =>
      apply next_le endsAt closed
      · intro earlier order
        exact continues earlier (by omega)
      · exact inductionHypothesis fun round before =>
          continues round (by omega)

theorem readUpTo_le {rounds : Nat} (endsAt : EndsAt call.fmt nul)
    (closed : call.NoOpenConversion nul)
    (continues : ∀ round < rounds, call.Continues round) :
    ∀ i ∈ call.readUpTo rounds, i ≤ nul := by
  induction rounds with
  | zero => exact fun i read => absurd read List.not_mem_nil
  | succ rounds inductionHypothesis =>
      intro i read
      have behind := cursor_le endsAt closed continues
      rw [cursor_succ_pos] at behind
      rw [readUpTo] at read
      rcases List.mem_append.mp read with here | earlier
      · by_cases percent : call.fmt (call.cursor rounds).pos = ascii '%'
        · rw [if_pos percent] at here behind
          simp only [List.mem_cons, List.not_mem_nil, or_false] at here
          omega
        · rw [if_neg percent] at here behind
          simp only [List.mem_cons, List.not_mem_nil, or_false] at here
          omega
      · exact inductionHypothesis
          (fun round before => continues round (by omega)) i earlier

theorem readsUpTo_of_closed (endsAt : EndsAt call.fmt nul)
    (closed : call.NoOpenConversion nul) : call.ReadsUpTo nul := by
  constructor
  · obtain ⟨continues, -⟩ | ⟨last, -, -, -, finished⟩ :=
      call.run_cases (nul + 1)
    · have inFormat := cursor_le endsAt closed continues
      have far := call.cursor_strictMono.le_apply (x := nul + 1)
      change nul + 1 ≤ (call.cursor (nul + 1)).pos at far
      omega
    · refine ⟨nul + 1, ?_⟩
      rw [finished]
      rfl
  · intro rounds i read
    obtain ⟨continues, followed⟩ | ⟨last, -, continues, stops, finished⟩ :=
      call.run_cases rounds
    · rw [followed] at read
      exact readUpTo_le endsAt closed continues i read
    · rw [finished] at read
      rcases List.mem_cons.mp read with rfl | earlier
      · exact cursor_le endsAt closed continues
      · exact readUpTo_le endsAt closed continues i earlier

/-- Every round reads the place where it starts. -/
theorem mem_reads_run {rounds : Nat}
    (continues : ∀ round < rounds, call.Continues round) :
    (call.cursor rounds).pos ∈ (call.run (rounds + 1)).reads := by
  by_cases goesOn : call.Continues rounds
  · have followed : call.run (rounds + 1) = call.followed (rounds + 1) := by
      rw [run, run_eq_followed continues]
      exact step_followed goesOn
    rw [followed]
    change _ ∈ (if _ then _ else _) ++ _
    split <;> simp
  · rw [run_eq_finished continues goesOn (Nat.lt_succ_self rounds)]
    exact List.mem_cons_self

/-- The NUL is taken for a conversion, and the scan goes on behind it. -/
theorem closed_of_readsUpTo (endsAt : EndsAt call.fmt nul)
    (readsUpTo : call.ReadsUpTo nul) : call.NoOpenConversion nul := by
  intro round last percent
  by_contra short
  push Not at short
  have continues : ∀ earlier < round + 1, call.Continues earlier := by
    intro earlier order
    have order : earlier ≤ round := Nat.le_of_lt_succ order
    refine ⟨endsAt.chars _ ?_, BitVec.not_le.mp (short earlier order)⟩
    have position : (call.cursor earlier).pos ≤ (call.cursor round).pos :=
      call.cursor_strictMono.monotone order
    omega
  have behind := readsUpTo.2 _ _ (mem_reads_run continues)
  rw [cursor_succ_pos, if_pos percent] at behind
  omega

/-- `vsnprintf` reads the format up to its NUL only, and ends, exactly if no
conversion is open in front of the NUL. -/
theorem readsUpTo_iff (endsAt : EndsAt call.fmt nul) :
    call.ReadsUpTo nul ↔ call.NoOpenConversion nul :=
  ⟨closed_of_readsUpTo endsAt, readsUpTo_of_closed endsAt⟩

/-- `"000%"` with a limit of three bytes. -/
theorem readsUpTo_iff_limit :
    let call : Call :=
      { out := fun _ => 0
        n := 3
        fmt := fun i => if i < 3 then ascii '0' else
          if i = 3 then ascii '%' else 0
        ap := fun _ => { word := 0 }
        below := fun _ => 0 }
    call.ReadsUpTo 4 ↔ call.NoOpenConversion 4 :=
  readsUpTo_iff ⟨rfl, by decide⟩

/-- `"%"`: what lies behind the NUL is read. -/
theorem readsUpTo_fails :
    ¬∀ (call : Call) (nul : Nat), EndsAt call.fmt nul →
      call.ReadsUpTo nul := by
  intro stays
  let call : Call :=
    { out := fun _ => 0
      n := 16
      fmt := fun i => if i = 0 then ascii '%' else 0
      ap := fun _ => { word := 0 }
      below := fun _ => 0 }
  have read : 2 ∈ (call.run 2).reads := by decide
  have bound := (stays call 1 ⟨rfl, by decide⟩).2 2 2 read
  exact absurd bound (by decide)

end Reads

end Ysyx.Klib.Call
