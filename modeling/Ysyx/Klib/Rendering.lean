import Ysyx.Klib.FormatBounds

/-!
# What `vsnprintf` renders

Formats of literal characters and of the conversions `%d`, `%u`, `%c` and `%s`,
with one argument for each conversion.
-/

namespace Ysyx.Klib

open Blocks (Holds Traced cell)

/-- A literal character, or a conversion with its argument. -/
inductive Piece where
  | literal (char : Byte) (plain : char ≠ 0 ∧ char ≠ ascii '%')
  | conversion (kind : Conversion) (arg : Arg) (standard : kind ≠ .p)

namespace Piece

def spelling : Piece → List Byte
  | .literal char _ => [char]
  | .conversion kind _ _ => [ascii '%', kind.toByte]

def args : Piece → List Arg
  | .literal _ _ => []
  | .conversion _ arg _ => [arg]

def text (convert : Conversion → Arg → List Byte) : Piece → List Byte
  | .literal char _ => [char]
  | .conversion kind arg _ => convert kind arg

/-- `%d` of `INT_MIN`. -/
def IsIntMin : Piece → Prop
  | .literal _ _ => False
  | .conversion kind arg _ => kind = .d ∧ arg.word = BitVec.intMin 32

end Piece

/-- What C asks to print. -/
def rendering (pieces : List Piece) : List Byte :=
  pieces.flatMap (Piece.text Conversion.rendering)

namespace Call

variable {call : Call} {pieces : List Piece}

/-- The format spells the pieces and the arguments are those of the pieces,
from a place on. -/
structure PrintsFrom (call : Call) (at_ : Cursor) (pieces : List Piece) :
    Prop where
  fmt : Holds (fun i => call.fmt (at_.pos + i))
    (pieces.flatMap Piece.spelling ++ [0])
  ap : Holds (fun i => call.ap (at_.ap + i)) (pieces.flatMap Piece.args)

/-- A call with a format and arguments. -/
def Prints (call : Call) (pieces : List Piece) : Prop :=
  call.PrintsFrom {} pieces

/-- One piece is one round. -/
theorem PrintsFrom.head {at_ : Cursor} {head : Piece}
    (prints : call.PrintsFrom at_ (head :: pieces)) :
    call.fmt at_.pos ≠ 0 ∧
      (∀ convert, call.piece convert at_ = head.text convert) ∧
      (call.next at_).pos = at_.pos + head.spelling.length ∧
      (call.next at_).ap = at_.ap + head.args.length := by
  obtain ⟨fmt, ap⟩ := prints
  rw [List.flatMap_cons, List.append_assoc, Blocks.holds_append] at fmt
  rw [List.flatMap_cons, Blocks.holds_append] at ap
  cases head with
  | literal char plain =>
      have here : call.fmt at_.pos = char := fmt.1 0 Nat.zero_lt_one
      have notPercent : ¬call.fmt at_.pos = ascii '%' := by
        rw [here]
        exact plain.2
      have none : call.conversionAt at_ = none := if_neg notPercent
      refine ⟨by rw [here]; exact plain.1, ?_, ?_, ?_⟩
      · intro convert
        rw [piece, if_neg notPercent, here]
        rfl
      · rw [next, if_neg notPercent]
        rfl
      · rw [next, none]
        rfl
  | conversion kind arg standard =>
      have here : call.fmt at_.pos = ascii '%' := fmt.1 0 Nat.zero_lt_two
      have letter : call.fmt (at_.pos + 1) = kind.toByte :=
        fmt.1 1 Nat.one_lt_two
      have isArg : call.ap at_.ap = arg := ap.1 0 Nat.zero_lt_one
      have known : call.conversionAt at_ = some kind := by
        rw [conversionAt, if_pos here, letter, Conversion.ofByte_toByte]
      refine ⟨by rw [here]; decide, ?_, ?_, ?_⟩
      · intro convert
        rw [piece, if_pos here, known, isArg]
        rfl
      · rw [next, if_pos here]
        rfl
      · rw [next, known]
        rfl

theorem PrintsFrom.tail {at_ : Cursor} {head : Piece}
    (prints : call.PrintsFrom at_ (head :: pieces)) :
    call.PrintsFrom (call.next at_) pieces := by
  obtain ⟨-, -, pos, ap⟩ := prints.head
  constructor
  · have fmt := prints.fmt
    rw [List.flatMap_cons, List.append_assoc, Blocks.holds_append] at fmt
    simpa only [pos, Nat.add_assoc] using fmt.2
  · have args := prints.ap
    rw [List.flatMap_cons, Blocks.holds_append] at args
    simpa only [ap, Nat.add_assoc] using args.2

/-- The scan takes the pieces one by one, up to the NUL. -/
theorem PrintsFrom.scan {rounds : Nat}
    (prints : call.PrintsFrom (call.cursor rounds) pieces) :
    (∀ convert, call.scanned convert (rounds + pieces.length) =
        call.scanned convert rounds ++ pieces.flatMap (Piece.text convert)) ∧
      call.fmt (call.cursor (rounds + pieces.length)).pos = 0 ∧
      ∀ round < pieces.length,
        call.fmt (call.cursor (rounds + round)).pos ≠ 0 := by
  induction pieces generalizing rounds with
  | nil =>
      refine ⟨fun convert => (List.append_nil _).symm,
        prints.fmt 0 Nat.zero_lt_one, ?_⟩
      intro round before
      exact absurd before (Nat.not_lt_zero round)
  | cons head pieces inductionHypothesis =>
      obtain ⟨notNul, text, -, -⟩ := prints.head
      have tail : call.PrintsFrom (call.cursor (rounds + 1)) pieces :=
        prints.tail
      obtain ⟨scanned, nul, chars⟩ := inductionHypothesis tail
      have shift (round : Nat) : rounds + 1 + round = rounds + (round + 1) := by
        omega
      rw [List.length_cons]
      rw [shift] at nul
      refine ⟨?_, nul, ?_⟩
      · intro convert
        rw [← shift, scanned convert, Call.scanned, text, List.flatMap_cons,
          List.append_assoc]
      · intro round before
        cases round with
        | zero => exact notNul
        | succ round =>
            rw [← shift]
            exact chars round (Nat.lt_of_succ_lt_succ before)

/-- With room in the buffer the loop takes every piece, and then the NUL. -/
theorem Prints.run (prints : call.Prints pieces)
    (room : (rendering pieces).length < call.n.toNat) :
    call.printed pieces.length = pieces.flatMap
        (Piece.text (Conversion.text call.below)) ∧
      (call.printed pieces.length).length = (rendering pieces).length ∧
      (∀ round < pieces.length, call.Continues round) ∧
      ¬call.Continues pieces.length := by
  have limitRange := call.n.isLt
  have fromStart : call.PrintsFrom (call.cursor 0) pieces := prints
  obtain ⟨scanned, nul, chars⟩ := fromStart.scan
  rw [Nat.zero_add] at nul
  simp only [Nat.zero_add] at scanned chars
  have rendered : call.rendered pieces.length = rendering pieces :=
    scanned Conversion.rendering
  refine ⟨scanned _, by rw [printed_length, rendered], ?_, ?_⟩
  · intro round before
    have short : (call.rendered round).length ≤ (rendering pieces).length := by
      rw [← rendered]
      exact rendered_length_mono before.le
    rw [continues_iff (by omega)]
    exact ⟨chars round before, by omega⟩
  · intro continues
    exact continues.1 nul

/-- `vsnprintf` ends, with a text and a NUL in the buffer, and returns the
length of the text. -/
def Renders (call : Call) (text : List Byte) : Prop :=
  ∃ rounds, (call.run rounds).ended = true ∧
    Holds (fun i => (call.run rounds).out.memory (BitVec.ofNat 32 i))
      (text ++ [0]) ∧
    call.returned rounds = text.length

/-- The text and the NUL in the buffer. -/
theorem holds_finished {rounds : Nat}
    (short : (call.printed rounds).length < 2 ^ 32) :
    Holds (fun i => (call.finished rounds).out.memory (BitVec.ofNat 32 i))
      (call.printed rounds ++ [0]) := by
  have out : (call.finished rounds).out = Traced.storeAll
      { memory := call.out } 0 (call.printed rounds ++ [0]) := by
    rw [Traced.storeAll_append, cell_out, printed_length]
    rfl
  simp only [out, ← cell_out]
  apply Traced.holds_storeAll
  rw [List.length_append, List.length_singleton]
  exact short

/-- The only state in which the loop has ended. -/
theorem Prints.run_of_ended (prints : call.Prints pieces)
    (room : (rendering pieces).length < call.n.toNat) {rounds : Nat}
    (ended : (call.run rounds).ended = true) :
    call.run rounds = call.finished pieces.length := by
  obtain ⟨-, -, continues, stops⟩ := prints.run room
  rcases Nat.lt_or_ge pieces.length rounds with after | before
  · exact run_eq_finished continues stops after
  · have followed : call.run rounds = call.followed rounds :=
      run_eq_followed fun round earlier => continues round (by omega)
    rw [followed] at ended
    cases ended

theorem finished_returned {rounds : Nat}
    (short : (call.rendered rounds).length < 2 ^ 32) :
    (call.finished rounds).len.toInt = (call.rendered rounds).length ↔
      (call.rendered rounds).length < 2 ^ 31 := by
  change (BitVec.ofNat 32 (call.rendered rounds).length).toInt = _ ↔ _
  rw [BitVec.toInt_eq_toNat_cond, BitVec.toNat_ofNat, Nat.mod_eq_of_lt short]
  split <;> omega

/-- The buffer holds what was printed; its length is returned as an `int`. -/
theorem Prints.renders_of_run_iff (prints : call.Prints pieces)
    (room : (rendering pieces).length < call.n.toNat) :
    call.Renders (rendering pieces) ↔
      call.printed pieces.length = rendering pieces ∧
        (rendering pieces).length < 2 ^ 31 := by
  have limitRange := call.n.isLt
  obtain ⟨-, length, continues, stops⟩ := prints.run room
  have rendered : (call.rendered pieces.length).length =
      (rendering pieces).length := by
    rw [← printed_length, length]
  have holds := holds_finished
    (show (call.printed pieces.length).length < 2 ^ 32 by omega)
  have returned := finished_returned
    (show (call.rendered pieces.length).length < 2 ^ 32 by omega)
  rw [rendered] at returned
  constructor
  · rintro ⟨rounds, ended, text, returns⟩
    have last := prints.run_of_ended room ended
    rw [last] at text
    rw [Call.returned, last] at returns
    refine ⟨?_, returned.mp returns⟩
    have both := holds.unique text (by simp [length])
    exact List.append_cancel_right both
  · rintro ⟨same, short⟩
    have last := run_eq_finished continues stops (Nat.lt_succ_self _)
    refine ⟨pieces.length + 1, ?_, ?_, ?_⟩
    · rw [last]
      rfl
    · rw [last, ← same]
      exact holds
    · rw [Call.returned, last]
      exact returned.mpr short

end Call

/-! ## The digits of `INT_MIN` -/

theorem Piece.text_length (below : Nat → Byte) (piece : Piece) :
    (piece.text (Conversion.text below)).length =
      (piece.text Conversion.rendering).length := by
  cases piece with
  | literal char plain => rfl
  | conversion kind arg standard => exact Conversion.text_length _ _ _

theorem Piece.text_eq {piece : Piece} (notMin : ¬piece.IsIntMin)
    (below : Nat → Byte) :
    piece.text (Conversion.text below) = piece.text Conversion.rendering := by
  cases piece with
  | literal char plain => rfl
  | conversion kind arg standard => exact Conversion.text_eq notMin

/-- Zeros in front of `NUM_CHAR` show in the text. -/
theorem Piece.text_ne {piece : Piece} (isMin : piece.IsIntMin) :
    piece.text (Conversion.text fun _ => 0) ≠
      piece.text Conversion.rendering := by
  cases piece with
  | literal char plain => exact absurd isMin id
  | conversion kind arg standard =>
      obtain ⟨rfl, isMin⟩ := isMin
      intro same
      change Conversion.d.text (fun _ => 0) arg = decimal arg.word.toInt at same
      rw [Conversion.text_d_intMin isMin, isMin] at same
      exact absurd same (by decide)

/-- Texts of the same lengths are equal piece by piece. -/
theorem flatMap_text_eq_iff {pieces : List Piece} :
    pieces.flatMap (Piece.text (Conversion.text fun _ => 0)) =
        rendering pieces ↔
      ∀ piece ∈ pieces, ¬piece.IsIntMin := by
  induction pieces with
  | nil => simp [rendering]
  | cons head rest inductionHypothesis =>
      rw [rendering] at inductionHypothesis ⊢
      rw [List.flatMap_cons, List.flatMap_cons, List.forall_mem_cons,
        ← inductionHypothesis]
      constructor
      · intro same
        obtain ⟨first, others⟩ :=
          List.append_inj same (Piece.text_length _ head)
        exact ⟨fun isMin => Piece.text_ne isMin first, others⟩
      · rintro ⟨notMin, others⟩
        rw [Piece.text_eq notMin, others]

/-- With room in the buffer, `vsnprintf` renders a format, whatever lies in
front of `NUM_CHAR`, exactly if no argument of a `%d` is `INT_MIN` and the
length is an `int`. -/
theorem renders_iff {call : Call} {pieces : List Piece}
    (prints : call.Prints pieces)
    (room : (rendering pieces).length < call.n.toNat) :
    (∀ below, { call with below := below }.Renders (rendering pieces)) ↔
      (∀ piece ∈ pieces, ¬piece.IsIntMin) ∧
        (rendering pieces).length < 2 ^ 31 := by
  have printsWith (below : Nat → Byte) :
      { call with below := below }.Prints pieces := ⟨prints.fmt, prints.ap⟩
  have printed (below : Nat → Byte) :
      { call with below := below }.printed pieces.length =
        pieces.flatMap (Piece.text (Conversion.text below)) :=
    ((printsWith below).run room).1
  constructor
  · intro renders
    obtain ⟨same, short⟩ :=
      ((printsWith fun _ => 0).renders_of_run_iff room).mp (renders _)
    rw [printed, flatMap_text_eq_iff] at same
    exact ⟨same, short⟩
  · rintro ⟨notMin, short⟩ below
    refine ((printsWith below).renders_of_run_iff room).mpr ⟨?_, short⟩
    rw [printed]
    exact List.flatMap_congr fun piece member =>
      Piece.text_eq (notMin piece member) below

/-- `"%d!"` of 7. -/
theorem renders_iff_seven :
    let call : Call :=
      { out := fun _ => 0
        n := 16
        fmt := fun i => if i = 0 then ascii '%' else if i = 1 then ascii 'd'
          else if i = 2 then ascii '!' else 0
        ap := fun _ => { word := 7 }
        below := fun _ => 0 }
    let pieces := [.conversion .d { word := 7 } (by decide),
      .literal (ascii '!') (by decide)]
    (∀ below, { call with below := below }.Renders (rendering pieces)) ↔
      (∀ piece ∈ pieces, ¬piece.IsIntMin) ∧
        (rendering pieces).length < 2 ^ 31 := by
  intro call pieces
  have prints : call.Prints pieces := by
    constructor
    · simp [Blocks.holds_cons, pieces, call, Piece.spelling,
        Conversion.toByte, Blocks.holds_nil]
    · simp [Blocks.holds_cons, pieces, call, Piece.args, Blocks.holds_nil]
  exact renders_iff prints (by decide)

/-- `"%d"` of `INT_MIN`. -/
theorem renders_fails :
    ¬∀ (call : Call) (pieces : List Piece), call.Prints pieces →
      (rendering pieces).length < call.n.toNat →
        call.Renders (rendering pieces) := by
  intro renders
  let call : Call :=
    { out := fun _ => 0
      n := 16
      fmt := fun i => if i = 0 then ascii '%' else if i = 1 then ascii 'd'
        else 0
      ap := fun _ => { word := 0x80000000 }
      below := fun _ => 0 }
  let pieces : List Piece :=
    [.conversion .d { word := 0x80000000 } (by decide)]
  have prints : call.Prints pieces := by
    constructor
    · simp [Blocks.holds_cons, pieces, call, Piece.spelling,
        Conversion.toByte, Blocks.holds_nil]
    · simp [Blocks.holds_cons, pieces, call, Piece.args, Blocks.holds_nil]
  have room : (rendering pieces).length < call.n.toNat := by decide
  have renders := renders call pieces prints room
  have same := ((prints.renders_of_run_iff room).mp renders).1
  rw [(prints.run room).1, flatMap_text_eq_iff] at same
  exact same _ List.mem_cons_self ⟨rfl, rfl⟩

end Ysyx.Klib
