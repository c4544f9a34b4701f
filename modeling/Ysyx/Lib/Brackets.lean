import Mathlib.Algebra.BigOperators.Group.List.Basic
import Mathlib.Algebra.Ring.Int.Defs
import Mathlib.Order.Basic

/-!
# Bracketed sequences

A sequence of tokens as a tree, in which every group carries its two brackets,
and the operator that splits such a sequence: among the tokens outside the
groups that have a level, the last one of the highest level.  A sequence as it
is read, by the number of brackets open after each of its prefixes.
-/

universe u

/-- Tokens and groups in brackets. -/
inductive Items (α : Type u) where
  | nil
  | leaf (token : α) (rest : Items α)
  | group (opening : α) (inner : Items α) (closing : α) (rest : Items α)

namespace Items

variable {α : Type u}

def flatten : Items α → List α
  | nil => []
  | leaf token rest => token :: rest.flatten
  | group opening inner closing rest =>
      opening :: (inner.flatten ++ closing :: rest.flatten)

def append : Items α → Items α → Items α
  | nil, right => right
  | leaf token rest, right => leaf token (rest.append right)
  | group opening inner closing rest, right =>
      group opening inner closing (rest.append right)

@[simp]
theorem flatten_append (left right : Items α) :
    (left.append right).flatten = left.flatten ++ right.flatten := by
  induction left with
  | nil => rfl
  | leaf token rest inductionHypothesis =>
      simp [append, flatten, inductionHypothesis]
  | group opening inner closing rest _ inductionHypothesis =>
      simp [append, flatten, inductionHypothesis]

theorem flatten_eq_nil {items : Items α} (empty : items.flatten = []) :
    items = nil := by
  cases items with
  | nil => rfl
  | leaf => cases empty
  | group => cases empty

theorem append_nil (items : Items α) : items.append nil = items := by
  induction items with
  | nil => rfl
  | leaf token rest inductionHypothesis =>
      rw [append, inductionHypothesis]
  | group opening inner closing rest _ inductionHypothesis =>
      rw [append, inductionHypothesis]

theorem append_assoc (first second third : Items α) :
    (first.append second).append third =
      first.append (second.append third) := by
  induction first with
  | nil => rfl
  | leaf token rest inductionHypothesis =>
      rw [append, append, append, inductionHypothesis]
  | group opening inner closing rest _ inductionHypothesis =>
      rw [append, append, append, inductionHypothesis]

/-- The number of tokens. -/
def size (items : Items α) : Nat := items.flatten.length

@[simp]
theorem size_nil : (nil : Items α).size = 0 := rfl

@[simp]
theorem size_leaf (token : α) (rest : Items α) :
    (leaf token rest).size = rest.size + 1 := rfl

@[simp]
theorem size_group (opening : α) (inner : Items α) (closing : α)
    (rest : Items α) :
    (group opening inner closing rest).size = inner.size + rest.size + 2 := by
  simp [size, flatten]
  omega

@[simp]
theorem size_append (left right : Items α) :
    (left.append right).size = left.size + right.size := by
  simp [size]

/-! ## Brackets -/

section Brackets

variable (opens closes : α → Prop)

/-- Every bracket belongs to a group. -/
def Closed : Items α → Prop
  | nil => True
  | leaf token rest => ¬opens token ∧ ¬closes token ∧ rest.Closed
  | group opening inner closing rest =>
      opens opening ∧ inner.Closed ∧ closes closing ∧ rest.Closed

/-- Every bracket inside a group and every opening bracket belongs to a
group. -/
def Shaped : Items α → Prop
  | nil => True
  | leaf token rest => ¬opens token ∧ rest.Shaped
  | group opening inner closing rest =>
      opens opening ∧ inner.Closed opens closes ∧ closes closing ∧ rest.Shaped

variable {opens closes}

theorem Closed.shaped {items : Items α} (closed : items.Closed opens closes) :
    items.Shaped opens closes := by
  induction items with
  | nil => trivial
  | leaf token rest inductionHypothesis =>
      exact ⟨closed.1, inductionHypothesis closed.2.2⟩
  | group opening inner closing rest _ inductionHypothesis =>
      exact ⟨closed.1, closed.2.1, closed.2.2.1,
        inductionHypothesis closed.2.2.2⟩

theorem closed_append {left right : Items α} :
    (left.append right).Closed opens closes ↔
      left.Closed opens closes ∧ right.Closed opens closes := by
  induction left with
  | nil => simp [append, Closed]
  | leaf token rest inductionHypothesis =>
      simp [append, Closed, inductionHypothesis, and_assoc]
  | group opening inner closing rest _ inductionHypothesis =>
      simp [append, Closed, inductionHypothesis, and_assoc]

theorem shaped_append {left right : Items α} :
    (left.append right).Shaped opens closes ↔
      left.Shaped opens closes ∧ right.Shaped opens closes := by
  induction left with
  | nil => simp [append, Shaped]
  | leaf token rest inductionHypothesis =>
      simp [append, Shaped, inductionHypothesis, and_assoc]
  | group opening inner closing rest _ inductionHypothesis =>
      simp [append, Shaped, inductionHypothesis, and_assoc]

variable (opens closes) [DecidablePred opens] [DecidablePred closes]

/-- A walk over the tokens with the given number of groups open closes all of
them; closing brackets outside the groups are passed over. -/
def Paired : Nat → List α → Prop
  | depth, [] => depth = 0
  | 0, token :: rest => if opens token then Paired 1 rest else Paired 0 rest
  | depth + 1, token :: rest =>
      if opens token then Paired (depth + 2) rest
      else if closes token then Paired depth rest
      else Paired (depth + 1) rest

/-- The tokens close `depth` groups and then form a sequence. -/
private def Closing : Nat → List α → Prop
  | 0, tokens => ∃ items : Items α, items.Shaped opens closes ∧
      items.flatten = tokens
  | depth + 1, tokens => ∃ (inner : Items α) (closing : α) (rest : List α),
      inner.Closed opens closes ∧ closes closing ∧
      tokens = inner.flatten ++ closing :: rest ∧ Closing depth rest

variable {opens closes}

private theorem Paired.closing {depth : Nat} {tokens : List α}
    (paired : Paired opens closes depth tokens) :
    Closing opens closes depth tokens := by
  induction tokens generalizing depth with
  | nil =>
      cases depth with
      | zero => exact ⟨nil, trivial, rfl⟩
      | succ depth => cases paired
  | cons token rest inductionHypothesis =>
      cases depth with
      | zero =>
          rw [Paired] at paired
          split at paired
          · obtain ⟨inner, closing, tail, closed, closesIt, rfl, items, shaped,
              rfl⟩ := inductionHypothesis paired
            exact ⟨group token inner closing items,
              ⟨‹_›, closed, closesIt, shaped⟩, rfl⟩
          · obtain ⟨items, shaped, rfl⟩ := inductionHypothesis paired
            exact ⟨leaf token items, ⟨‹_›, shaped⟩, rfl⟩
      | succ depth =>
          rw [Paired] at paired
          split at paired
          · obtain ⟨inner, closing, _, closed, closesIt, rfl, after, last, tail,
              afterClosed, lastCloses, rfl, closingRest⟩ :=
                inductionHypothesis paired
            exact ⟨group token inner closing after, last, tail,
              ⟨‹_›, closed, closesIt, afterClosed⟩, lastCloses,
              by simp [flatten], closingRest⟩
          · split at paired
            · exact ⟨nil, token, rest, trivial, ‹_›, rfl,
                inductionHypothesis paired⟩
            · obtain ⟨inner, closing, tail, closed, closesIt, rfl,
                closingRest⟩ := inductionHypothesis paired
              exact ⟨leaf token inner, closing, tail, ⟨‹_›, ‹_›, closed⟩,
                closesIt, rfl, closingRest⟩

/-- Tokens whose opening brackets are all closed are a bracketed sequence. -/
theorem Paired.exists_shaped {tokens : List α}
    (paired : Paired opens closes 0 tokens) :
    ∃ items : Items α, items.Shaped opens closes ∧ items.flatten = tokens :=
  paired.closing

end Brackets

/-! ## The splitting operator -/

section Levels

variable (level : α → Option Nat)

/-- Outside the groups all levels are below the bound. -/
def Below (bound : Nat) : Items α → Prop
  | nil => True
  | leaf token rest =>
      (∀ value, level token = some value → value < bound) ∧ rest.Below bound
  | group _ _ _ rest => rest.Below bound

variable {level}

theorem Below.mono {items : Items α} {bound larger : Nat}
    (below : items.Below level bound) (le : bound ≤ larger) :
    items.Below level larger := by
  induction items with
  | nil => trivial
  | leaf token rest inductionHypothesis =>
      exact ⟨fun value isLevel => Nat.lt_of_lt_of_le (below.1 value isLevel) le,
        inductionHypothesis below.2⟩
  | group opening inner closing rest _ inductionHypothesis =>
      exact inductionHypothesis below

theorem below_append {left right : Items α} {bound : Nat} :
    (left.append right).Below level bound ↔
      left.Below level bound ∧ right.Below level bound := by
  induction left with
  | nil => simp [append, Below]
  | leaf token rest inductionHypothesis =>
      simp [append, Below, inductionHypothesis, and_assoc]
  | group opening inner closing rest _ inductionHypothesis =>
      simpa [append, Below] using inductionHypothesis

variable (level)

/-- `token` is the last one of the highest level outside the groups. -/
structure Splits (items left : Items α) (token : α) (right : Items α)
    (value : Nat) : Prop where
  eq : items = left.append (leaf token right)
  level_eq : level token = some value
  left_below : left.Below level (value + 1)
  right_below : right.Below level value

variable {level}

theorem Splits.below {items left right : Items α} {token : α} {value : Nat}
    (splits : Splits level items left token right value) :
    items.Below level (value + 1) := by
  rw [splits.eq, below_append]
  refine ⟨splits.left_below, fun other isLevel => ?_,
    splits.right_below.mono (Nat.le_succ value)⟩
  rw [splits.level_eq] at isLevel
  cases isLevel
  exact Nat.lt_succ_self value

/-- A sequence has a splitting operator unless no token outside the groups has
a level. -/
theorem below_zero_or_splits (items : Items α) :
    items.Below level 0 ∨
      ∃ left token right value, Splits level items left token right value := by
  induction items with
  | nil => exact .inl trivial
  | leaf token rest inductionHypothesis =>
      rcases inductionHypothesis with none | ⟨left, other, right, value, splits⟩
      · cases isLevel : level token with
        | none => exact .inl ⟨by simp [isLevel], none⟩
        | some value =>
            exact .inr ⟨nil, token, rest, value, rfl, isLevel, trivial,
              none.mono (Nat.zero_le value)⟩
      · right
        by_cases higher : ∃ own, level token = some own ∧ value < own
        · obtain ⟨own, isLevel, above⟩ := higher
          exact ⟨nil, token, rest, own, rfl, isLevel, trivial,
            splits.below.mono above⟩
        · refine ⟨leaf token left, other, right, value, ?_, splits.level_eq,
            ⟨fun own isLevel => ?_, splits.left_below⟩, splits.right_below⟩
          · rw [splits.eq, append]
          · by_contra above
            exact higher ⟨own, isLevel, by omega⟩
  | group opening inner closing rest _ inductionHypothesis =>
      rcases inductionHypothesis with none | ⟨left, other, right, value, splits⟩
      · exact .inl none
      · right
        refine ⟨group opening inner closing left, other, right, value, ?_,
          splits.level_eq, splits.left_below, splits.right_below⟩
        rw [splits.eq, append]

end Levels

end Items

/-! ## Counting -/

namespace Brackets

variable {α : Type u} (opens closes : α → Prop)
variable [DecidablePred opens] [DecidablePred closes]

def weight (token : α) : Int :=
  if opens token then 1 else if closes token then -1 else 0

/-- Opening brackets less closing ones among the first tokens. -/
def excess (tokens : List α) (count : Nat) : Int :=
  ((tokens.take count).map (weight opens closes)).sum

/-- No prefix closes more than it opens, and the totals are equal. -/
structure Balanced (tokens : List α) : Prop where
  nonneg : ∀ count, count ≤ tokens.length →
    0 ≤ excess opens closes tokens count
  total : excess opens closes tokens tokens.length = 0

/-- The bracket that opens at `i` is closed at `j`: behind `j` the count is for
the first time what it was before `i`. -/
structure Matching (tokens : List α) (i j : Nat) : Prop where
  lt : i < j
  opening : ∃ token, tokens[i]? = some token ∧ opens token
  closing : ∃ token, tokens[j]? = some token ∧ closes token
  returns : excess opens closes tokens (j + 1) = excess opens closes tokens i
  inside : ∀ count, i < count → count ≤ j →
    excess opens closes tokens i < excess opens closes tokens count

variable {opens closes}

@[simp]
theorem excess_zero (tokens : List α) : excess opens closes tokens 0 = 0 := rfl

@[simp]
theorem excess_cons_succ (token : α) (rest : List α) (count : Nat) :
    excess opens closes (token :: rest) (count + 1) =
      weight opens closes token + excess opens closes rest count := by
  simp [excess]

theorem excess_append_of_le {left : List α} {count : Nat}
    (le : count ≤ left.length) (right : List α) :
    excess opens closes (left ++ right) count =
      excess opens closes left count := by
  simp [excess, List.take_append_of_le_length le]

theorem excess_concat (left : List α) (last : α) :
    excess opens closes (left ++ [last]) (left.length + 1) =
      excess opens closes left left.length + weight opens closes last := by
  simp [excess]

/-- In a balanced sequence the bracket at the front is closed by the one at the
end exactly when what is between them is balanced. -/
theorem matching_ends_iff {opening closing : α} {inner : List α}
    (opensIt : opens opening) (closesIt : closes closing)
    (notOpens : ¬opens closing) :
    Matching opens closes (opening :: (inner ++ [closing])) 0
        (inner.length + 1) ↔
      Balanced opens closes inner := by
  have first : weight opens closes opening = 1 := if_pos opensIt
  have last : weight opens closes closing = -1 := by
    rw [weight, if_neg notOpens, if_pos closesIt]
  have within : ∀ count, count ≤ inner.length →
      excess opens closes (opening :: (inner ++ [closing])) (count + 1) =
        1 + excess opens closes inner count := by
    intro count le
    rw [excess_cons_succ, first, excess_append_of_le le]
  have whole : excess opens closes (opening :: (inner ++ [closing]))
      (inner.length + 1 + 1) = excess opens closes inner inner.length := by
    rw [excess_cons_succ, first, excess_concat, last]
    omega
  constructor
  · intro matching
    refine ⟨fun count le => ?_, ?_⟩
    · have above := matching.inside (count + 1) (Nat.succ_pos count) (by omega)
      rw [within count le, excess_zero] at above
      omega
    · rw [← whole, matching.returns, excess_zero]
  · intro balanced
    refine ⟨Nat.succ_pos _, ⟨opening, rfl, opensIt⟩, ⟨closing, ?_, closesIt⟩,
      ?_, ?_⟩
    · simp
    · rw [whole, balanced.total, excess_zero]
    · intro count positive le
      cases count with
      | zero => omega
      | succ count =>
          have nonneg := balanced.nonneg count (by omega)
          rw [within count (by omega), excess_zero]
          omega

end Brackets
