import Ysyx.Lib.Brackets
import Ysyx.Sdb.Expr

/-!
# Evaluation of a bracketed sequence

What `check_parantheses` and `find_main_op_pos` find in a bracketed sequence
of tokens, and from it one equation for `eval` at each shape of the sequence.
-/

namespace Ysyx.Sdb

def Opens (token : Token) : Prop := token.type = .lparen

def Closes (token : Token) : Prop := token.type = .rparen

instance : DecidablePred Opens := fun token =>
  inferInstanceAs (Decidable (token.type = _))

instance : DecidablePred Closes := fun token =>
  inferInstanceAs (Decidable (token.type = _))

/-- The `flag` of an operator; a register and a hexadecimal number have one,
too. -/
def level : TokenType → Option Nat
  | .or => some 6
  | .and => some 5
  | .eq | .noeq => some 4
  | .plus | .minus => some 3
  | .times | .slash => some 2
  | .pointerDeref | .negative => some 1
  | .reg | .hex => some 0
  | _ => none

/-- The level of a token. -/
def Token.level (token : Token) : Option Nat := Sdb.level token.type

/-! ## Parentheses -/

section Parentheses

variable {inner items rest : Items Token}

theorem Closes.not_opens {token : Token} (closes : Closes token) :
    ¬Opens token := by
  intro opens
  have : TokenType.rparen = .lparen := closes.symm.trans opens
  cases this

theorem parenCount_opens {token : Token} (opens : Opens token) {cnt : Int}
    (nonneg : 0 ≤ cnt) (tail : List Token) :
    parenCount cnt (token :: tail) = parenCount (cnt + 1) tail := by
  have isOpening : token.type = .lparen := opens
  simp only [parenCount, if_pos isOpening]
  exact if_neg (by omega)

theorem parenCount_closes {token : Token} (closes : Closes token) (cnt : Int)
    (tail : List Token) :
    parenCount cnt (token :: tail) =
      if cnt - 1 < 0 then none else parenCount (cnt - 1) tail := by
  have isClosing : token.type = .rparen := closes
  simp [parenCount, isClosing]

theorem parenCount_other {token : Token} (notOpens : ¬Opens token)
    (notCloses : ¬Closes token) {cnt : Int} (nonneg : 0 ≤ cnt)
    (tail : List Token) :
    parenCount cnt (token :: tail) = parenCount cnt tail := by
  have notOpening : token.type ≠ .lparen := notOpens
  have notClosing : token.type ≠ .rparen := notCloses
  simp only [parenCount, if_neg notOpening, if_neg notClosing]
  exact if_neg (by omega)

theorem parenCount_closed (closed : items.Closed Opens Closes) {cnt : Int}
    (nonneg : 0 ≤ cnt) (tail : List Token) :
    parenCount cnt (items.flatten ++ tail) = parenCount cnt tail := by
  induction items generalizing cnt tail with
  | nil => rfl
  | leaf token rest inductionHypothesis =>
      obtain ⟨notOpens, notCloses, restClosed⟩ := closed
      rw [Items.flatten, List.cons_append,
        parenCount_other notOpens notCloses nonneg]
      exact inductionHypothesis restClosed nonneg tail
  | group opening inner closing rest innerHypothesis restHypothesis =>
      obtain ⟨opens, innerClosed, closes, restClosed⟩ := closed
      rw [Items.flatten, List.cons_append, List.append_assoc,
        parenCount_opens opens nonneg, List.cons_append,
        innerHypothesis innerClosed (by omega), parenCount_closes closes,
        if_neg (by omega), Int.add_sub_cancel]
      exact restHypothesis restClosed nonneg tail

theorem parenCount_flatten (closed : items.Closed Opens Closes) :
    parenCount 0 items.flatten = some 0 := by
  have := parenCount_closed closed (le_refl 0) []
  rwa [List.append_nil] at this

theorem checkParantheses_cases (count : Nat) (range : List Token) :
    checkParantheses count range = -1 ∨ checkParantheses count range = 0 ∨
      checkParantheses count range = 1 := by
  fun_induction checkParantheses count range with
  | case1 => simp
  | case2 => simp
  | case3 => simp
  | case4 => simp
  | case5 => simp
  | case6 => simp
  | case7 => simp
  | case8 count range _ _ ret _ notZeroOne inductionHypothesis =>
      omega

theorem checkParantheses_of_unbalanced {range : List Token}
    (unbalanced : parenCount 0 range ≠ some 0) (count : Nat) :
    checkParantheses (count + 1) range = -1 := by
  cases count with
  | zero => rw [checkParantheses, if_neg unbalanced]
  | succ count => rw [checkParantheses, if_pos unbalanced]

theorem checkParantheses_of_balanced {range : List Token}
    (balanced : parenCount 0 range = some 0) (count : Nat) :
    checkParantheses count range = 0 ∨ checkParantheses count range = 1 := by
  have cases := checkParantheses_cases count range
  have notMinusOne : checkParantheses count range ≠ -1 := by
    cases count with
    | zero => exact (by decide : (0 : Int) ≠ -1)
    | succ count =>
        cases count with
        | zero =>
            rw [checkParantheses, if_pos balanced]
            decide
        | succ count =>
            simp only [checkParantheses, balanced, ne_eq, not_true_eq_false,
              if_false]
            split_ifs <;> decide
  omega

/-- A group stands in its own parentheses. -/
theorem checkParantheses_group {opening closing : Token}
    (opens : Opens opening) (closed : inner.Closed Opens Closes)
    (closes : Closes closing) :
    checkParantheses (inner.size + 2)
      (Items.group opening inner closing .nil).flatten = 1 := by
  have balanced : parenCount 0 (Items.group opening inner closing .nil).flatten =
      some 0 :=
    parenCount_flatten ⟨opens, closed, closes, trivial⟩
  have stripped :
      (Items.group opening inner closing .nil).flatten.tail.dropLast =
        inner.flatten := by
    simp [Items.flatten]
  have last : (Items.group opening inner closing .nil).flatten.getLast? =
      some closing := by
    simp only [Items.flatten]
    rw [← List.cons_append, List.getLast?_concat]
  have first : (Items.group opening inner closing .nil).flatten.head? =
      some opening := rfl
  have ret := checkParantheses_of_balanced (parenCount_flatten closed)
    inner.size
  rw [checkParantheses, if_neg (by simpa using balanced), if_neg, stripped]
  · simp only
    rw [if_neg (by omega), if_pos ret]
  · simp [first, last, show opening.type = _ from opens,
      show closing.type = _ from closes]

/-- Only a group does. -/
theorem checkParantheses_ne_one (shaped : items.Shaped Opens Closes)
    (notGroup : ∀ opening inner closing,
      items ≠ .group opening inner closing .nil) :
    checkParantheses items.size items.flatten ≠ 1 := by
  intro isOne
  cases items with
  | nil => cases isOne
  | leaf token rest =>
      have notOpening : token.type ≠ .lparen := shaped.1
      rw [Items.size_leaf] at isOne
      cases size : rest.size with
      | zero =>
          rw [size, checkParantheses] at isOne
          split at isOne <;> cases isOne
      | succ count =>
          rw [size, checkParantheses] at isOne
          split at isOne
          · cases isOne
          · rw [if_pos (.inl (by simpa [Items.flatten] using notOpening))] at isOne
            cases isOne
  | group opening inner closing rest =>
      obtain ⟨opens, innerClosed, closes, restShaped⟩ := shaped
      rw [Items.size_group, checkParantheses] at isOne
      split at isOne
      · cases isOne
      split at isOne
      · cases isOne
      have restSize : 0 < rest.size := by
        cases rest with
        | nil => exact absurd rfl (notGroup opening inner closing)
        | leaf => simp
        | group => simp
      have stripped :
          (Items.group opening inner closing rest).flatten.tail.dropLast =
            inner.flatten ++ closing :: rest.flatten.dropLast := by
        have nonempty : rest.flatten ≠ [] := List.length_pos_iff.mp restSize
        simp [Items.flatten, List.dropLast_append_of_ne_nil,
          List.dropLast_cons_of_ne_nil nonempty]
      have unbalanced : parenCount 0
          (Items.group opening inner closing rest).flatten.tail.dropLast =
            none := by
        rw [stripped, parenCount_closed innerClosed (le_refl 0),
          parenCount_closes closes, if_pos (by decide)]
      have ret : checkParantheses (inner.size + rest.size)
          (Items.group opening inner closing rest).flatten.tail.dropLast =
            -1 := by
        obtain ⟨count, isCount⟩ := Nat.exists_eq_add_of_le'
          (show 1 ≤ inner.size + rest.size by omega)
        rw [isCount]
        exact checkParantheses_of_unbalanced (by simp [unbalanced]) count
      simp only [ret, if_true] at isOne
      cases isOne

end Parentheses

/-! ## The main operator -/

section MainOp

variable {items left right : Items Token} {token : Token} {value : Nat}

theorem consider_of_some {type : TokenType} (isLevel : level type = some value)
    {best : Int × Int} (le : best.2 ≤ value) (i : Nat) :
    consider type i best = (max best.1 i, (value : Int)) := by
  obtain ⟨op, flag⟩ := best
  cases type <;> cases isLevel <;>
    simp_all [consider, operatorLevels, considerLevel]

theorem consider_of_lt {type : TokenType} {best : Int × Int}
    (lower : ∀ value, level type = some value → (value : Int) < best.2)
    (i : Nat) : consider type i best = best := by
  obtain ⟨op, flag⟩ := best
  cases type <;>
    simp_all [consider, operatorLevels, considerLevel, level]

/-- The loop of `find_main_op_pos` over the tokens outside the groups. -/
def scanOps : Items Token → Nat → Int × Int → Int × Int
  | .nil, _, best => best
  | .leaf token rest, i, best =>
      scanOps rest (i + 1) (consider token.type i best)
  | .group _ inner _ rest, i, best => scanOps rest (i + inner.size + 2) best

theorem scanOps_append (i : Nat) (best : Int × Int) :
    scanOps (left.append right) i best =
      scanOps right (i + left.size) (scanOps left i best) := by
  induction left generalizing i best with
  | nil => rfl
  | leaf token rest inductionHypothesis =>
      rw [Items.append, scanOps, scanOps, inductionHypothesis, Items.size_leaf]
      congr 1
      omega
  | group opening inner closing rest _ inductionHypothesis =>
      rw [Items.append, scanOps, scanOps, inductionHypothesis, Items.size_group]
      congr 1
      omega

/-- Lower levels do not change the operator. -/
theorem scanOps_of_lt {bound : Nat} (below : items.Below Token.level bound)
    {best : Int × Int} (lower : ∀ value < bound, (value : Int) < best.2)
    (i : Nat) : scanOps items i best = best := by
  induction items generalizing i with
  | nil => rfl
  | leaf token rest inductionHypothesis =>
      rw [scanOps, consider_of_lt fun value isLevel =>
        lower value (below.1 value isLevel)]
      exact inductionHypothesis below.2 (i + 1)
  | group opening inner closing rest _ inductionHypothesis =>
      exact inductionHypothesis below _

/-- The operator found so far stands before the next position, and its level
is within the bound. -/
theorem scanOps_bound {bound : Nat}
    (below : items.Below Token.level (bound + 1)) {best : Int × Int} {i : Nat}
    (before : best.1 < i) (flag : best.2 ≤ bound) :
    (scanOps items i best).1 < (i + items.size : Nat) ∧
      (scanOps items i best).2 ≤ bound := by
  induction items generalizing i best with
  | nil => exact ⟨before, flag⟩
  | leaf token rest inductionHypothesis =>
      have step : (consider token.type i best).1 < (i + 1 : Nat) ∧
          (consider token.type i best).2 ≤ bound := by
        by_cases lower : ∀ value, level token.type = some value →
            (value : Int) < best.2
        · rw [consider_of_lt lower]
          exact ⟨by omega, flag⟩
        · push Not at lower
          obtain ⟨value, isLevel, le⟩ := lower
          have inBound := below.1 value isLevel
          rw [consider_of_some isLevel le]
          exact ⟨by simp only; omega, by simp only; omega⟩
      have following := inductionHypothesis below.2 step.1 step.2
      rw [scanOps, Items.size_leaf, show i + (rest.size + 1) =
        i + 1 + rest.size by omega]
      exact following
  | group opening inner closing rest _ inductionHypothesis =>
      rw [scanOps, Items.size_group, show i + (inner.size + rest.size + 2) =
        i + inner.size + 2 + rest.size by omega]
      exact inductionHypothesis below (by omega) flag

/-- The scan ends at the splitting operator. -/
theorem scanOps_splits
    (splits : items.Splits Token.level left token right value) (i : Nat) :
    scanOps items i (-1, -1) = (((i + left.size : Nat) : Int), (value : Int)) := by
  obtain ⟨before, flag⟩ := scanOps_bound splits.left_below
    (show ((-1, -1) : Int × Int).1 < (i : Nat) by simp only; omega)
    (show ((-1, -1) : Int × Int).2 ≤ (value : Nat) by simp only; omega)
  rw [splits.eq, scanOps_append, scanOps,
    consider_of_some splits.level_eq flag, max_eq_right before.le]
  exact scanOps_of_lt splits.right_below (fun lower less => by
    simp only
    omega) _

section Steps

variable (rest : List Token) (i remaining depth : Nat) (best : Int × Int)

theorem mainOpFrom_open (opens : Opens token) :
    mainOpFrom (token :: rest) i remaining (depth + 1) best =
      mainOpFrom rest (i + 1) (remaining - 1) (depth + 2) best := by
  simp only [mainOpFrom]
  exact if_pos opens

theorem mainOpFrom_close (closes : Closes token) :
    mainOpFrom (token :: rest) i remaining (depth + 1) best =
      mainOpFrom rest (i + 1) (remaining - 1) depth best := by
  simp only [mainOpFrom]
  exact (if_neg closes.not_opens).trans (if_pos closes)

theorem mainOpFrom_inside (notOpens : ¬Opens token)
    (notCloses : ¬Closes token) :
    mainOpFrom (token :: rest) i remaining (depth + 1) best =
      mainOpFrom rest (i + 1) (remaining - 1) (depth + 1) best := by
  simp only [mainOpFrom]
  exact (if_neg notOpens).trans (if_neg notCloses)

theorem mainOpFrom_enter (opens : Opens token) :
    mainOpFrom (token :: rest) i (remaining + 1) 0 best =
      mainOpFrom rest (i + 1) remaining 1 best := by
  simp only [mainOpFrom]
  exact if_pos opens

theorem mainOpFrom_outside (notOpens : ¬Opens token) :
    mainOpFrom (token :: rest) i (remaining + 1) 0 best =
      mainOpFrom rest (i + 1) remaining 0 (consider token.type i best) := by
  simp only [mainOpFrom]
  exact if_neg notOpens

end Steps

/-- The inner loop passes over a group. -/
theorem mainOpFrom_skip {inner : Items Token}
    (closed : inner.Closed Opens Closes) {closing : Token}
    (closes : Closes closing) (rest : List Token) (i remaining depth : Nat)
    (best : Int × Int) :
    mainOpFrom (inner.flatten ++ closing :: rest) i remaining (depth + 1) best =
      mainOpFrom rest (i + inner.size + 1) (remaining - (inner.size + 1)) depth
        best := by
  induction inner generalizing rest closing i remaining depth with
  | nil => exact mainOpFrom_close rest i remaining depth best closes
  | leaf token tail inductionHypothesis =>
      obtain ⟨notOpens, notCloses, tailClosed⟩ := closed
      rw [Items.flatten, List.cons_append, mainOpFrom_inside _ _ _ _ _ notOpens
        notCloses, inductionHypothesis tailClosed closes, Items.size_leaf]
      congr 1 <;> omega
  | group opening inner last tail innerHypothesis tailHypothesis =>
      obtain ⟨opens, innerClosed, lastCloses, tailClosed⟩ := closed
      rw [Items.flatten, List.cons_append, List.append_assoc, List.cons_append,
        mainOpFrom_open _ _ _ _ _ opens, innerHypothesis innerClosed lastCloses,
        tailHypothesis tailClosed closes, Items.size_group]
      congr 1 <;> omega

/-- `find_main_op_pos` scans the tokens outside the groups. -/
theorem mainOpFrom_flatten (shaped : items.Shaped Opens Closes)
    (post : List Token) (i : Nat) (best : Int × Int) :
    mainOpFrom (items.flatten ++ post) i items.size 0 best =
      .ok (scanOps items i best).1 := by
  induction items generalizing i best with
  | nil => simp [Items.flatten, mainOpFrom, scanOps]
  | leaf token rest inductionHypothesis =>
      obtain ⟨notOpens, restShaped⟩ := shaped
      rw [Items.flatten, List.cons_append, Items.size_leaf,
        mainOpFrom_outside _ _ _ _ notOpens, inductionHypothesis restShaped,
        scanOps]
  | group opening inner closing rest _ inductionHypothesis =>
      obtain ⟨opens, innerClosed, closes, restShaped⟩ := shaped
      rw [Items.flatten, List.cons_append, List.append_assoc, List.cons_append,
        Items.size_group, mainOpFrom_enter _ _ _ _ opens,
        mainOpFrom_skip innerClosed closes,
        show inner.size + rest.size + 1 - (inner.size + 1) = rest.size by omega,
        inductionHypothesis restShaped, scanOps]
      congr 3
      omega

/-- Without a closing parenthesis the inner loop leaves the tokens. -/
theorem paired_of_mainOpFrom {tokens : List Token} {i depth : Nat}
    {best : Int × Int} {op : Int}
    (found : mainOpFrom tokens i tokens.length depth best = .ok op) :
    Items.Paired Opens Closes depth tokens := by
  induction tokens generalizing i depth best with
  | nil =>
      cases depth with
      | zero => rfl
      | succ depth => cases found
  | cons token rest inductionHypothesis =>
      rw [List.length_cons] at found
      by_cases opens : Opens token
      · cases depth with
        | zero =>
            rw [mainOpFrom_enter _ _ _ _ opens] at found
            rw [Items.Paired, if_pos opens]
            exact inductionHypothesis found
        | succ depth =>
            rw [mainOpFrom_open _ _ _ _ _ opens] at found
            rw [Items.Paired, if_pos opens]
            exact inductionHypothesis found
      · cases depth with
        | zero =>
            rw [mainOpFrom_outside _ _ _ _ opens] at found
            rw [Items.Paired, if_neg opens]
            exact inductionHypothesis found
        | succ depth =>
            rw [Items.Paired, if_neg opens]
            by_cases closes : Closes token
            · rw [mainOpFrom_close _ _ _ _ _ closes] at found
              rw [if_pos closes]
              exact inductionHypothesis found
            · rw [mainOpFrom_inside _ _ _ _ _ opens closes] at found
              rw [if_neg closes]
              exact inductionHypothesis found

/-- Balanced parentheses are paired. -/
theorem paired_of_parenCount {tokens : List Token} {depth : Nat}
    (balanced : parenCount depth tokens = some 0) :
    Items.Paired Opens Closes depth tokens := by
  induction tokens generalizing depth with
  | nil =>
      have : (depth : Int) = 0 := by simpa [parenCount] using balanced
      show depth = 0
      omega
  | cons token rest inductionHypothesis =>
      by_cases opens : Opens token
      · rw [parenCount_opens opens (by omega)] at balanced
        cases depth with
        | zero =>
            rw [Items.Paired, if_pos opens]
            exact inductionHypothesis balanced
        | succ depth =>
            rw [Items.Paired, if_pos opens]
            exact inductionHypothesis balanced
      · by_cases closes : Closes token
        · rw [parenCount_closes closes] at balanced
          cases depth with
          | zero => cases balanced
          | succ depth =>
              rw [if_neg (by omega), Nat.cast_succ, Int.add_sub_cancel]
                at balanced
              rw [Items.Paired, if_neg opens, if_pos closes]
              exact inductionHypothesis balanced
        · rw [parenCount_other opens closes (by omega)] at balanced
          cases depth with
          | zero =>
              rw [Items.Paired, if_neg opens]
              exact inductionHypothesis balanced
          | succ depth =>
              rw [Items.Paired, if_neg opens, if_neg closes]
              exact inductionHypothesis balanced

end MainOp

/-! ## Evaluation -/

/-- The sequence stands in the tokens from `p` on. -/
def At (tokens : List Token) (p : Nat) (items : Items Token) : Prop :=
  ∃ before after, tokens = before ++ (items.flatten ++ after) ∧
    before.length = p

section At

variable {tokens : List Token} {p : Nat} {items left right : Items Token}

theorem At.whole (items : Items Token) : At items.flatten 0 items :=
  ⟨[], [], by simp, rfl⟩

theorem At.drop_eq (stands : At tokens p items) :
    ∃ after, tokens.drop p = items.flatten ++ after := by
  obtain ⟨before, after, rfl, rfl⟩ := stands
  exact ⟨after, List.drop_left⟩

theorem At.range_eq (stands : At tokens p items) :
    (tokens.drop p).take items.size = items.flatten := by
  obtain ⟨after, equal⟩ := stands.drop_eq
  rw [equal]
  exact List.take_left

theorem At.append_left (stands : At tokens p (left.append right)) :
    At tokens p left := by
  obtain ⟨before, after, rfl, rfl⟩ := stands
  exact ⟨before, right.flatten ++ after, by simp, rfl⟩

theorem At.append_right (stands : At tokens p (left.append right)) :
    At tokens (p + left.size) right := by
  obtain ⟨before, after, rfl, rfl⟩ := stands
  exact ⟨before ++ left.flatten, after, by simp, by simp [Items.size]⟩

theorem At.head {token : Token} (stands : At tokens p (.leaf token right)) :
    tokens[p]? = some token := by
  obtain ⟨before, after, rfl, rfl⟩ := stands
  simp [Items.flatten]

theorem At.tail {token : Token} (stands : At tokens p (.leaf token right)) :
    At tokens (p + 1) right := by
  obtain ⟨before, after, rfl, rfl⟩ := stands
  exact ⟨before ++ [token], after, by simp [Items.flatten], by simp⟩

theorem At.inner {opening closing : Token} {inner : Items Token}
    (stands : At tokens p (.group opening inner closing right)) :
    At tokens (p + 1) inner := by
  obtain ⟨before, after, rfl, rfl⟩ := stands
  exact ⟨before ++ [opening], closing :: (right.flatten ++ after),
    by simp [Items.flatten], by simp⟩

end At

/-- A call that has depth left for its range. -/
theorem exists_depth {count fuel : Nat} (enough : count < fuel) :
    ∃ depth, fuel = depth + 1 ∧ count ≤ depth := by
  obtain ⟨depth, rfl⟩ := Nat.exists_eq_add_of_le' (Nat.zero_lt_of_lt enough)
  exact ⟨depth, rfl, Nat.le_of_lt_succ enough⟩

section Eval

variable (machine : Machine) {tokens : List Token} {p : Nat}
variable {items left right inner : Items Token} {token : Token} {value : Nat}

theorem findMainOpPos_splits (shaped : items.Shaped Opens Closes)
    (stands : At tokens p items)
    (splits : items.Splits Token.level left token right value) :
    findMainOpPos tokens p items.size = .ok (.ofNat (p + left.size)) := by
  obtain ⟨after, equal⟩ := stands.drop_eq
  rw [findMainOpPos, equal, mainOpFrom_flatten shaped, scanOps_splits splits]
  rfl

theorem findMainOpPos_none (shaped : items.Shaped Opens Closes)
    (stands : At tokens p items) (below : items.Below Token.level 0) :
    findMainOpPos tokens p items.size = .ok (.negSucc 0) := by
  obtain ⟨after, equal⟩ := stands.drop_eq
  rw [findMainOpPos, equal, mainOpFrom_flatten shaped,
    scanOps_of_lt below fun value less => absurd less (Nat.not_lt_zero value)]
  rfl

/-- One token. -/
theorem eval_leaf (stands : At tokens p (.leaf token .nil)) (fuel : Nat) :
    eval machine tokens (fuel + 1) p 1 = .ok (evalToken machine token) := by
  rw [eval, stands.head]

/-- A group is evaluated without its parentheses. -/
theorem eval_group {opening closing : Token}
    (shaped : (Items.group opening inner closing .nil).Shaped Opens Closes)
    (stands : At tokens p (.group opening inner closing .nil)) (fuel : Nat) :
    eval machine tokens (fuel + 1) p (inner.size + 2) =
      eval machine tokens fuel (p + 1) inner.size := by
  obtain ⟨opens, closed, closes, -⟩ := shaped
  have range := stands.range_eq
  rw [Items.size_group, Items.size_nil, Nat.add_zero] at range
  rw [eval, range, if_pos (checkParantheses_group opens closed closes)]

/-- The two sides of the splitting operator are evaluated, the right one first;
a unary operator does not look at its left side. -/
theorem eval_splits (shaped : items.Shaped Opens Closes)
    (stands : At tokens p items)
    (splits : items.Splits Token.level left token right value)
    (many : 2 ≤ items.size) (fuel : Nat) :
    eval machine tokens (fuel + 1) p items.size = (do
      let val2 ← eval machine tokens fuel (p + left.size + 1) right.size
      if token.type = .negative then
        return -val2
      else if token.type = .pointerDeref then
        machine.deref val2
      else
        let val1 ← eval machine tokens fuel p left.size
        evalBinary token.type val1 val2) := by
  have notGroup : ∀ opening inner closing,
      items ≠ .group opening inner closing .nil := by
    intro opening inner closing isGroup
    have equal := splits.eq
    rw [isGroup] at equal
    cases left with
    | nil => cases equal
    | leaf => cases equal
    | group =>
        rw [Items.append, Items.group.injEq] at equal
        rename_i rest
        cases rest <;> cases equal.2.2.2
  have operator : tokens[p + left.size]? = some token := by
    have standing := stands
    rw [splits.eq] at standing
    exact standing.append_right.head
  have found := findMainOpPos_splits shaped stands splits
  have sizes : items.size = left.size + right.size + 1 := by
    rw [splits.eq, Items.size_append, Items.size_leaf]
    omega
  have check := checkParantheses_ne_one shaped notGroup
  rw [← stands.range_eq] at check
  obtain ⟨count, isCount⟩ := Nat.exists_eq_add_of_le' many
  rw [isCount] at found check ⊢
  rw [eval, if_neg check, found]
  simp only [operator]
  rw [show p + count + 1 - (p + left.size) = right.size by omega,
    show p + left.size - p = left.size by omega]

/-- Without an operator the evaluation does not come back. -/
theorem eval_stuck (shaped : items.Shaped Opens Closes)
    (stands : At tokens p items) (below : items.Below Token.level 0)
    (notGroup : ∀ opening inner closing,
      items ≠ .group opening inner closing .nil)
    (many : 2 ≤ items.size) (fuel : Nat) :
    ∃ stop, eval machine tokens fuel p items.size = .error stop := by
  have found := findMainOpPos_none shaped stands below
  have check := checkParantheses_ne_one shaped notGroup
  rw [← stands.range_eq] at check
  obtain ⟨count, isCount⟩ := Nat.exists_eq_add_of_le' many
  rw [isCount] at found check ⊢
  cases fuel with
  | zero => exact ⟨.outOfFuel, rfl⟩
  | succ fuel =>
      rw [eval, if_neg check, found]
      cases eval machine tokens fuel 0 (p + count + 2) with
      | error stop => exact ⟨stop, rfl⟩
      | ok value => exact ⟨.outOfBounds, rfl⟩

end Eval

end Ysyx.Sdb
