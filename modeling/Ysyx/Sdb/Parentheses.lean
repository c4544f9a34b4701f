import Ysyx.Sdb.Trees

/-!
# What `check_parantheses` decides

Its count is a count over the prefixes of the range, and the parentheses that
it takes away at the two ends are a pair.
-/

namespace Ysyx.Sdb

/-- The tokens from `p` to `q`. -/
def tokenRange (tokens : List Token) (p q : Nat) : List Token :=
  (tokens.drop p).take (q + 1 - p)

theorem length_tokenRange {tokens : List Token} {p q : Nat}
    (inside : q < tokens.length) :
    (tokenRange tokens p q).length = q + 1 - p := by
  simp only [tokenRange, List.length_take, List.length_drop]
  omega

/-! ## The count -/

abbrev weight : Token → Int := Brackets.weight Opens Closes

abbrev excess : List Token → Nat → Int := Brackets.excess Opens Closes

abbrev Balanced : List Token → Prop := Brackets.Balanced Opens Closes

theorem excess_zero (range : List Token) : excess range 0 = 0 := rfl

theorem excess_cons (token : Token) (rest : List Token) (count : Nat) :
    excess (token :: rest) (count + 1) = weight token + excess rest count :=
  Brackets.excess_cons_succ token rest count

theorem parenCount_cons (cnt : Int) (token : Token) (rest : List Token) :
    parenCount cnt (token :: rest) =
      if cnt + weight token < 0 then none
      else parenCount (cnt + weight token) rest := by
  by_cases opens : token.type = .lparen
  · have one : weight token = 1 := if_pos opens
    simp only [parenCount, if_pos opens, one]
  · by_cases closes : token.type = .rparen
    · have minusOne : weight token = -1 :=
        (if_neg opens).trans (if_pos closes)
      simp only [parenCount, if_neg opens, if_pos closes, minusOne]
      rfl
    · have zero : weight token = 0 := (if_neg opens).trans (if_neg closes)
      simp only [parenCount, if_neg opens, if_neg closes, zero, add_zero]

/-- The loop ends with the last count unless one of the counts is negative. -/
theorem parenCount_eq_some_iff (range : List Token) (cnt total : Int) :
    parenCount cnt range = some total ↔
      (∀ count, 0 < count → count ≤ range.length →
        0 ≤ cnt + excess range count) ∧
      cnt + excess range range.length = total := by
  induction range generalizing cnt with
  | nil =>
      simp only [parenCount, List.length_nil, Option.some.injEq]
      constructor
      · rintro rfl
        exact ⟨fun count positive le => by omega, by simp⟩
      · rintro ⟨_, rfl⟩
        simp
  | cons token rest inductionHypothesis =>
      rw [parenCount_cons]
      constructor
      · intro ends
        split at ends
        · cases ends
        · obtain ⟨nonneg, sum⟩ := (inductionHypothesis _).mp ends
          refine ⟨fun count positive le => ?_, ?_⟩
          · cases count with
            | zero => omega
            | succ count =>
                rw [List.length_cons] at le
                rw [excess_cons]
                cases count with
                | zero =>
                    rw [excess_zero]
                    omega
                | succ count =>
                    have := nonneg (count + 1) (Nat.succ_pos count) (by omega)
                    omega
          · rw [List.length_cons, excess_cons]
            omega
      · rintro ⟨nonneg, sum⟩
        have first := nonneg 1 Nat.one_pos (by simp)
        rw [excess_cons, excess_zero] at first
        rw [if_neg (by omega), inductionHypothesis]
        refine ⟨fun count positive le => ?_, ?_⟩
        · have := nonneg (count + 1) (Nat.succ_pos count)
            (by rw [List.length_cons]; omega)
          rw [excess_cons] at this
          omega
        · rw [List.length_cons, excess_cons] at sum
          omega

/-- Part 1 passes the balanced ranges. -/
theorem parenCount_eq_zero_iff (range : List Token) :
    parenCount 0 range = some 0 ↔ Balanced range := by
  rw [parenCount_eq_some_iff]
  simp only [Int.zero_add]
  constructor
  · rintro ⟨nonneg, total⟩
    refine ⟨fun count le => ?_, total⟩
    cases count with
    | zero => exact le_refl 0
    | succ count => exact nonneg (count + 1) (Nat.succ_pos count) le
  · intro balanced
    exact ⟨fun count _ => balanced.nonneg count, balanced.total⟩

/-! ## The three results -/

theorem checkParantheses_eq_neg_one_iff {range : List Token}
    (nonempty : range ≠ []) :
    checkParantheses range.length range = -1 ↔ ¬Balanced range := by
  rw [← parenCount_eq_zero_iff]
  constructor
  · intro isMinusOne balanced
    have := checkParantheses_of_balanced balanced range.length
    omega
  · intro unbalanced
    obtain ⟨count, isCount⟩ := Nat.exists_eq_succ_of_ne_zero
      (List.length_pos_iff.mpr nonempty).ne'
    rw [isCount]
    exact checkParantheses_of_unbalanced unbalanced count

/-- The interior is called unbalanced exactly when it is; the empty one is
not. -/
theorem checkParantheses_interior (inner : List Token) :
    checkParantheses inner.length inner = -1 ↔ ¬Balanced inner := by
  cases inner with
  | nil =>
      have balanced : Balanced ([] : List Token) :=
        (parenCount_eq_zero_iff []).mp rfl
      simp [checkParantheses, balanced]
  | cons token rest =>
      exact checkParantheses_eq_neg_one_iff (List.cons_ne_nil token rest)

/-- Part 3. -/
theorem checkParantheses_ends (opening closing : Token) (inner : List Token) :
    checkParantheses (inner.length + 2) (opening :: (inner ++ [closing])) = 1 ↔
      Balanced (opening :: (inner ++ [closing])) ∧ Opens opening ∧
        Closes closing ∧ Balanced inner := by
  have first : (opening :: (inner ++ [closing])).head?.map Token.type =
      some opening.type := rfl
  have last : (opening :: (inner ++ [closing])).getLast?.map Token.type =
      some closing.type := by
    rw [← List.cons_append, List.getLast?_concat, Option.map_some]
  have stripped : (opening :: (inner ++ [closing])).tail.dropLast = inner := by
    simp
  have three := checkParantheses_cases inner.length inner
  have interior := checkParantheses_interior inner
  have count := parenCount_eq_zero_iff (opening :: (inner ++ [closing]))
  rw [checkParantheses, first, last, stripped]
  by_cases balanced : Balanced (opening :: (inner ++ [closing]))
  · rw [if_neg (not_not_intro (count.mpr balanced))]
    by_cases ends : Opens opening ∧ Closes closing
    · obtain ⟨opens, closes⟩ := ends
      rw [if_neg]
      · by_cases innerBalanced : Balanced inner
        · have notMinusOne : checkParantheses inner.length inner ≠ -1 :=
            fun isMinusOne => interior.mp isMinusOne innerBalanced
          have ret := three.resolve_left notMinusOne
          simp only
          rw [if_neg notMinusOne, if_pos ret]
          simp [balanced, opens, closes, innerBalanced]
        · simp only
          rw [if_pos (interior.mpr innerBalanced)]
          simp [innerBalanced]
      · rintro (notOpening | notClosing)
        · exact notOpening (congrArg some opens)
        · exact notClosing (congrArg some closes)
    · rw [if_pos]
      · constructor
        · intro isOne
          exact absurd isOne (by decide)
        · rintro ⟨_, opens, closes, _⟩
          exact absurd ⟨opens, closes⟩ ends
      · by_contra both
        push Not at both
        exact ends ⟨Option.some.inj both.1, Option.some.inj both.2⟩
  · rw [if_pos (mt count.mp balanced)]
    constructor
    · intro isOne
      exact absurd isOne (by decide)
    · intro all
      exact absurd all.1 balanced

/-- One token is never a pair. -/
theorem checkParantheses_singleton (token : Token) :
    checkParantheses 1 [token] ≠ 1 := by
  rw [checkParantheses]
  split <;> decide

/-- A range in its own parentheses is the balanced one whose first token opens
the group that its last one closes. -/
theorem checkParantheses_eq_one_iff {range : List Token}
    (nonempty : range ≠ []) :
    checkParantheses range.length range = 1 ↔
      Balanced range ∧
        Brackets.Matching Opens Closes range 0 (range.length - 1) := by
  obtain ⟨opening, rest, rfl⟩ := List.exists_cons_of_ne_nil nonempty
  rcases List.eq_nil_or_concat rest with rfl | ⟨inner, closing, rfl⟩
  · constructor
    · intro isOne
      exact absurd isOne (checkParantheses_singleton opening)
    · rintro ⟨_, matching⟩
      exact absurd matching.lt (Nat.lt_irrefl 0)
  · have length : (opening :: (inner ++ [closing])).length =
        inner.length + 2 := by simp
    rw [List.concat_eq_append, length, checkParantheses_ends]
    refine and_congr_right fun balanced => ?_
    constructor
    · rintro ⟨opens, closes, innerBalanced⟩
      exact (Brackets.matching_ends_iff opens closes closes.not_opens).mpr
        innerBalanced
    · intro matching
      obtain ⟨first, isFirst, opens⟩ := matching.opening
      obtain ⟨last, isLast, closes⟩ := matching.closing
      have isOpening : opening = first := by simpa using isFirst
      have isClosing : closing = last := by simpa using isLast
      subst isOpening isClosing
      exact ⟨opens, closes,
        (Brackets.matching_ends_iff opens closes closes.not_opens).mp matching⟩

/-- `check_parantheses(p, q)` on every range of the token array. -/
theorem checkParantheses_exact (tokens : List Token) (p q : Nat) (le : p ≤ q)
    (inside : q < tokens.length) :
    (checkParantheses (q + 1 - p) (tokenRange tokens p q) = 1 ↔
      Balanced (tokenRange tokens p q) ∧
        Brackets.Matching Opens Closes (tokenRange tokens p q) 0 (q - p)) ∧
    (checkParantheses (q + 1 - p) (tokenRange tokens p q) = -1 ↔
      ¬Balanced (tokenRange tokens p q)) := by
  have length := length_tokenRange (p := p) inside
  have nonempty : tokenRange tokens p q ≠ [] := by
    rw [← List.length_pos_iff, length]
    omega
  have last : q - p = (tokenRange tokens p q).length - 1 := by omega
  rw [← length, last]
  exact ⟨checkParantheses_eq_one_iff nonempty,
    checkParantheses_eq_neg_one_iff nonempty⟩

/-- `1 + ( 2 )`. -/
def sumWithGroup : List Token :=
  [⟨.number, ['1']⟩, ⟨.plus, ['+']⟩, ⟨.lparen, ['(']⟩, ⟨.number, ['2']⟩,
   ⟨.rparen, [')']⟩]

theorem checkParantheses_exact_sumWithGroup :
    (checkParantheses (4 + 1 - 2) (tokenRange sumWithGroup 2 4) = 1 ↔
      Balanced (tokenRange sumWithGroup 2 4) ∧
        Brackets.Matching Opens Closes (tokenRange sumWithGroup 2 4) 0
          (4 - 2)) ∧
    (checkParantheses (4 + 1 - 2) (tokenRange sumWithGroup 2 4) = -1 ↔
      ¬Balanced (tokenRange sumWithGroup 2 4)) :=
  checkParantheses_exact sumWithGroup 2 4 (by decide) (by decide)

end Ysyx.Sdb
