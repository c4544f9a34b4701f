import Ysyx.Klib.Digits

/-!
# The scan of a format

Where the loop of `vsnprintf` is in the format and in the arguments does not
depend on the limit, as long as the loop goes on.  This module follows the
scan without the limit, and shows that the loop follows it up to its end.
-/

namespace Ysyx.Klib

open Blocks (cell Traced)

/-- A place in the format and in the arguments. -/
structure Cursor where
  pos : Nat := 0
  ap : Nat := 0

namespace Call

variable {call : Call}

/-- The conversion that starts at a place, if one does. -/
def conversionAt (call : Call) (at_ : Cursor) : Option Conversion :=
  if call.fmt at_.pos = ascii '%' then
    Conversion.ofByte (call.fmt (at_.pos + 1))
  else none

/-- The place behind one round; the character behind a `%` is skipped whatever
it is. -/
def next (call : Call) (at_ : Cursor) : Cursor where
  pos := at_.pos + if call.fmt at_.pos = ascii '%' then 2 else 1
  ap := at_.ap + if (call.conversionAt at_).isSome then 1 else 0

/-- What one round prints, with `convert` for the conversions. -/
def piece (call : Call) (convert : Conversion → Arg → List Byte)
    (at_ : Cursor) : List Byte :=
  if call.fmt at_.pos = ascii '%' then
    (call.conversionAt at_).elim [] fun kind => convert kind (call.ap at_.ap)
  else [call.fmt at_.pos]

def cursor (call : Call) : Nat → Cursor
  | 0 => {}
  | rounds + 1 => call.next (call.cursor rounds)

def scanned (call : Call) (convert : Conversion → Arg → List Byte) :
    Nat → List Byte
  | 0 => []
  | rounds + 1 =>
      call.scanned convert rounds ++ call.piece convert (call.cursor rounds)

/-- What the code prints in the first rounds. -/
def printed (call : Call) (rounds : Nat) : List Byte :=
  call.scanned (Conversion.text call.below) rounds

/-- What C asks to print for the same part of the format. -/
def rendered (call : Call) (rounds : Nat) : List Byte :=
  call.scanned Conversion.rendering rounds

/-- The places that are read in the first rounds, the last one first. -/
def readUpTo (call : Call) : Nat → List Nat
  | 0 => []
  | rounds + 1 =>
      let pos := (call.cursor rounds).pos
      (if call.fmt pos = ascii '%' then [pos + 1, pos] else [pos]) ++
        call.readUpTo rounds

/-- The scan has not met the NUL in these rounds. -/
def Scans (call : Call) (rounds : Nat) : Prop :=
  ∀ round < rounds, call.fmt (call.cursor round).pos ≠ 0

/-- The loop goes on at a place of the scan. -/
def Continues (call : Call) (round : Nat) : Prop :=
  call.fmt (call.cursor round).pos ≠ 0 ∧
    BitVec.ofNat 32 (call.rendered round).length < call.n

/-! ## Lengths -/

theorem piece_length (at_ : Cursor) :
    (call.piece (Conversion.text call.below) at_).length =
      (call.piece Conversion.rendering at_).length := by
  rw [piece, piece]
  by_cases percent : call.fmt at_.pos = ascii '%'
  · rw [if_pos percent, if_pos percent]
    cases call.conversionAt at_ with
    | none => rfl
    | some kind => exact Conversion.text_length _ _ _
  · rw [if_neg percent, if_neg percent]

/-- The code prints as much as C asks for. -/
theorem printed_length (rounds : Nat) :
    (call.printed rounds).length = (call.rendered rounds).length := by
  induction rounds with
  | zero => rfl
  | succ rounds inductionHypothesis =>
      rw [printed, rendered] at inductionHypothesis ⊢
      rw [scanned, scanned, List.length_append, List.length_append,
        inductionHypothesis, piece_length]

theorem rendered_length_mono {earlier later : Nat} (order : earlier ≤ later) :
    (call.rendered earlier).length ≤ (call.rendered later).length := by
  induction later, order using Nat.le_induction with
  | base => exact le_rfl
  | succ later _ inductionHypothesis =>
      rw [rendered, rendered, scanned, List.length_append]
      rw [rendered, rendered] at inductionHypothesis
      omega

/-! ## The loop follows the scan -/

end Call

namespace Printing

/-- Printing a text moves `len` and the buffer only. -/
theorem puts_eq (state : Printing) (text : List Byte) :
    state.puts text =
      { state with
        len := state.len + BitVec.ofNat 32 text.length
        out := state.out.storeAll state.len text } := by
  induction text generalizing state with
  | nil =>
      rw [List.length_nil]
      change state = { state with len := state.len + 0#32, out := state.out }
      rw [BitVec.add_zero]
  | cons char rest inductionHypothesis =>
      change (state.put char).puts rest = _
      rw [inductionHypothesis]
      have len : state.len + 1 + BitVec.ofNat 32 rest.length =
          state.len + BitVec.ofNat 32 (rest.length + 1) := by
        rw [BitVec.ofNat_add, BitVec.add_assoc, BitVec.add_comm 1]
        rfl
      simp only [put, len, List.length_cons]
      rfl

end Printing

namespace Call

variable {call : Call}

/-- One round of the loop. -/
theorem body_eq (state : Printing) :
    let at_ : Cursor := ⟨state.pos, state.ap⟩
    let text := call.piece (Conversion.text call.below) at_
    call.body state =
      { state with
        pos := (call.next at_).pos
        ap := (call.next at_).ap
        len := state.len + BitVec.ofNat 32 text.length
        out := state.out.storeAll state.len text
        reads := (if call.fmt state.pos = ascii '%' then [state.pos + 1]
          else []) ++ state.reads } := by
  intro at_ text
  by_cases percent : call.fmt state.pos = ascii '%'
  · have conversion : call.conversionAt at_ =
        Conversion.ofByte (call.fmt (state.pos + 1)) := if_pos percent
    simp only [body, if_pos percent, text, piece, at_, next, conversion]
    cases kind : Conversion.ofByte (call.fmt (state.pos + 1)) with
    | none =>
        simp [kind, Printing.advance, Printing.readFmt, Traced.storeAll]
    | some kind' =>
        simp [kind, Printing.advance, Printing.readFmt, Printing.puts_eq]
  · have none : call.conversionAt at_ = none := if_neg percent
    simp only [body, if_neg percent, text, piece, at_, next, none]
    simp [Printing.advance, Printing.put, Traced.storeAll]

/-- `out[i]`. -/
theorem cell_out (i : Nat) : cell (0 : Size) i = BitVec.ofNat 32 i :=
  BitVec.zero_add _

/-- The state after some rounds of the scan, in front of any limit. -/
def followed (call : Call) (rounds : Nat) : Printing where
  pos := (call.cursor rounds).pos
  ap := (call.cursor rounds).ap
  len := BitVec.ofNat 32 (call.rendered rounds).length
  out := Traced.storeAll { memory := call.out } 0 (call.printed rounds)
  reads := call.readUpTo rounds

/-- A round in front of the limit and of the NUL. -/
theorem step_followed {rounds : Nat} (continues : call.Continues rounds) :
    call.step (call.followed rounds) = call.followed (rounds + 1) := by
  have goesOn : call.step (call.followed rounds) =
      call.body (call.followed rounds).readFmt := if_pos continues
  rw [goesOn, body_eq]
  have out : Traced.storeAll { memory := call.out } 0
        (call.printed (rounds + 1)) =
      (call.followed rounds).out.storeAll (call.followed rounds).len
        (call.piece (Conversion.text call.below) (call.cursor rounds)) := by
    rw [printed, scanned, Traced.storeAll_append, ← printed, printed_length,
      cell_out]
    rfl
  have len : BitVec.ofNat 32 (call.rendered (rounds + 1)).length =
      (call.followed rounds).len + BitVec.ofNat 32
        (call.piece (Conversion.text call.below)
          (call.cursor rounds)).length := by
    rw [rendered, scanned, List.length_append, BitVec.ofNat_add, piece_length]
    rfl
  have reads : call.readUpTo (rounds + 1) =
      (if call.fmt (call.cursor rounds).pos = ascii '%' then
        [(call.cursor rounds).pos + 1] else []) ++
        (call.cursor rounds).pos :: call.readUpTo rounds := by
    rw [readUpTo]
    split <;> simp
  exact Printing.ext rfl rfl len.symm out.symm reads.symm rfl

/-- The loop follows the scan as long as it goes on. -/
theorem run_eq_followed {rounds : Nat}
    (continues : ∀ round < rounds, call.Continues round) :
    call.run rounds = call.followed rounds := by
  induction rounds with
  | zero => rfl
  | succ rounds inductionHypothesis =>
      rw [run, inductionHypothesis fun round before =>
        continues round (by omega)]
      exact step_followed (continues rounds (Nat.lt_succ_self rounds))

/-- The state that `vsnprintf` leaves when the loop ends after so many
rounds. -/
def finished (call : Call) (rounds : Nat) : Printing :=
  { call.followed rounds with
    out := (call.followed rounds).out.store
      (BitVec.ofNat 32 (call.rendered rounds).length) 0
    reads := (call.cursor rounds).pos :: call.readUpTo rounds
    ended := true }

theorem run_of_ended {rounds : Nat} (ended : (call.run rounds).ended = true)
    (more : Nat) : call.run (rounds + more) = call.run rounds := by
  induction more with
  | zero => rfl
  | succ more inductionHypothesis =>
      rw [← Nat.add_assoc, run, inductionHypothesis]
      exact if_pos ended

/-- The loop ends where the scan meets the NUL or the limit. -/
theorem run_eq_finished {last rounds : Nat}
    (continues : ∀ round < last, call.Continues round)
    (stops : ¬call.Continues last) (after : last < rounds) :
    call.run rounds = call.finished last := by
  obtain ⟨more, rfl⟩ := Nat.exists_eq_add_of_lt after
  have finishes : call.run (last + 1) = call.finished last := by
    rw [run, run_eq_followed continues]
    exact if_neg stops
  have ended : (call.run (last + 1)).ended = true := by
    rw [finishes]
    rfl
  rw [Nat.add_right_comm, run_of_ended ended, finishes]

/-- Every state of the loop is one of the scan, or the last one. -/
theorem run_cases (call : Call) (rounds : Nat) :
    (∀ round < rounds, call.Continues round) ∧
        call.run rounds = call.followed rounds ∨
      ∃ last < rounds, (∀ round < last, call.Continues round) ∧
        ¬call.Continues last ∧ call.run rounds = call.finished last := by
  by_cases continues : ∀ round < rounds, call.Continues round
  · exact .inl ⟨continues, run_eq_followed continues⟩
  · right
    have stops : ∃ round, round < rounds ∧ ¬call.Continues round := by
      push Not at continues
      exact continues
    classical
    have first := Nat.find_spec stops
    have before : ∀ round < Nat.find stops, call.Continues round := by
      intro round earlier
      by_contra stopsHere
      exact Nat.find_min stops earlier ⟨by omega, stopsHere⟩
    exact ⟨Nat.find stops, first.1, before, first.2,
      run_eq_finished before first.2 first.1⟩

end Call

end Ysyx.Klib
