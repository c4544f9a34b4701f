import Ysyx.Sdb.Trees

/-!
# Inputs that come back

For which texts `expr` returns without leaving the array of tokens.
-/

namespace Ysyx.Sdb

open Nemu (Word)

/-- A unary operator follows before the next binary operator. -/
def Discarded : Items Token → Prop
  | .nil => False
  | .leaf token rest =>
      token.level = some 1 ∨
        (∀ value, token.level = some value → value < 2) ∧ Discarded rest
  | .group _ _ _ rest => Discarded rest

/-- The sequence ends here, or goes on with an operator, a register or a
hexadecimal number. -/
def Apart : Items Token → Prop
  | .nil => True
  | .leaf token _ => token.level ≠ none
  | .group _ _ _ _ => False

/-- Two operands stand side by side only where a later unary operator discards
them, and so do parentheses that cannot be evaluated.  Operands here are
decimal numbers, groups and single closing parentheses. -/
def Ready : Items Token → Prop
  | .nil => True
  | .leaf token rest =>
      (token.level ≠ none ∨ Discarded rest ∨ Apart rest) ∧ Ready rest
  | .group _ inner _ rest =>
      (Discarded rest ∨ Ready inner ∧ Apart rest) ∧ Ready rest

section Ready

variable {items left right : Items Token} {token : Token} {value : Nat}

/-- A sequence without unary operators discards nothing. -/
theorem not_discarded (below : items.Below Token.level 1) :
    ¬Discarded items := by
  induction items with
  | nil => exact id
  | leaf token rest inductionHypothesis =>
      rintro (isUnary | ⟨-, discarded⟩)
      · exact absurd (below.1 1 isUnary) (by omega)
      · exact inductionHypothesis below.2 discarded
  | group opening inner closing rest _ inductionHypothesis =>
      exact inductionHypothesis below

/-- A unary operator discards everything back to the last binary one. -/
theorem discarded_append_unary (below : left.Below Token.level 2)
    (isUnary : token.level = some 1) :
    Discarded (left.append (.leaf token right)) := by
  induction left with
  | nil => exact .inl isUnary
  | leaf other rest inductionHypothesis =>
      exact .inr ⟨below.1, inductionHypothesis below.2⟩
  | group opening inner closing rest _ inductionHypothesis =>
      exact inductionHypothesis below

theorem ready_append_unary (below : left.Below Token.level 2)
    (isUnary : token.level = some 1) :
    Ready (left.append (.leaf token right)) ↔ Ready right := by
  induction left with
  | nil => simp [Items.append, Ready, isUnary]
  | leaf other rest inductionHypothesis =>
      rw [Items.append, Ready, inductionHypothesis below.2]
      exact and_iff_right
        (.inr (.inl (discarded_append_unary below.2 isUnary)))
  | group opening inner closing rest _ inductionHypothesis =>
      rw [Items.append, Ready, inductionHypothesis below]
      exact and_iff_right (.inl (discarded_append_unary below isUnary))

theorem discarded_append (keeps : ¬Discarded (.leaf token right)) :
    Discarded (left.append (.leaf token right)) ↔ Discarded left := by
  induction left with
  | nil => exact iff_of_false keeps id
  | leaf other rest inductionHypothesis =>
      rw [Items.append, Discarded, Discarded, inductionHypothesis]
  | group opening inner closing rest _ inductionHypothesis =>
      exact inductionHypothesis

theorem apart_append (isOperator : token.level ≠ none) :
    Apart (left.append (.leaf token right)) ↔ Apart left := by
  cases left with
  | nil => exact iff_of_true isOperator trivial
  | leaf => rfl
  | group => rfl

/-- Any other operator keeps both of its sides. -/
theorem ready_append (isOperator : token.level ≠ none)
    (keeps : ¬Discarded (.leaf token right)) :
    Ready (left.append (.leaf token right)) ↔ Ready left ∧ Ready right := by
  induction left with
  | nil => simp [Items.append, Ready, isOperator]
  | leaf other rest inductionHypothesis =>
      rw [Items.append, Ready, Ready, inductionHypothesis,
        discarded_append keeps, apart_append isOperator, and_assoc]
  | group opening inner closing rest _ inductionHypothesis =>
      rw [Items.append, Ready, Ready, inductionHypothesis,
        discarded_append keeps, apart_append isOperator, and_assoc]

/-- Operands alone are evaluated only one at a time. -/
theorem not_ready (below : items.Below Token.level 0)
    (notGroup : ∀ opening inner closing,
      items ≠ .group opening inner closing .nil)
    (many : 2 ≤ items.size) : ¬Ready items := by
  have noLevel : ∀ {token : Token} {rest : Items Token},
      (Items.leaf token rest).Below Token.level 0 → token.level = none := by
    intro token rest leafBelow
    cases isLevel : token.level with
    | none => rfl
    | some value => exact absurd (leafBelow.1 value isLevel) (by omega)
  have notApart : ∀ {rest : Items Token}, rest.Below Token.level 0 →
      rest ≠ .nil → ¬Apart rest := by
    intro rest restBelow nonempty
    cases rest with
    | nil => exact absurd rfl nonempty
    | leaf token tail => exact fun apart => apart (noLevel restBelow)
    | group => exact id
  cases items with
  | nil => exact absurd many (by decide)
  | leaf token rest =>
      rintro ⟨isOperator | discarded | apart, -⟩
      · exact isOperator (noLevel below)
      · exact not_discarded (below.2.mono (by omega)) discarded
      · refine notApart below.2 (fun empty => ?_) apart
        rw [empty, Items.size_leaf, Items.size_nil] at many
        omega
  | group opening inner closing rest =>
      have restBelow : rest.Below Token.level 0 := below
      rintro ⟨discarded | ⟨-, apart⟩, -⟩
      · exact not_discarded (restBelow.mono (by omega)) discarded
      · refine notApart restBelow (fun empty => ?_) apart
        exact notGroup opening inner closing (by rw [empty])

end Ready

/-! ## Evaluation -/

section Eval

variable {machine : Machine} {tokens : List Token}

theorem level_eq_one {token : Token} :
    token.level = some 1 ↔
      token.type = .negative ∨ token.type = .pointerDeref := by
  rw [Token.level]
  cases token.type <;> decide

/-- What splits a ready sequence keeps one or both sides. -/
theorem ready_of_splits {items left right : Items Token} {token : Token}
    {value : Nat} (splits : items.Splits Token.level left token right value) :
    Ready items ↔ (token.level = some 1 ∨ Ready left) ∧ Ready right := by
  obtain ⟨rfl, isLevel, leftBelow, rightBelow⟩ := splits
  by_cases isUnary : token.level = some 1
  · rw [isLevel, Option.some.injEq] at isUnary
    subst isUnary
    rw [ready_append_unary leftBelow isLevel]
    exact (and_iff_right (.inl isLevel)).symm
  · have keeps : ¬Discarded (.leaf token right) := by
      rintro (unary | ⟨small, discarded⟩)
      · exact isUnary unary
      · have less := small value isLevel
        have notOne : value ≠ 1 := fun isOne => isUnary (by rw [isLevel, isOne])
        exact not_discarded (rightBelow.mono (by omega)) discarded
    rw [ready_append (by rw [isLevel]; exact Option.some_ne_none value) keeps]
    simp [isUnary]

theorem ready_group {opening closing : Token} {inner : Items Token} :
    Ready (.group opening inner closing .nil) ↔ Ready inner := by
  simp [Ready, Discarded, Apart]

/-- A single token is ready, and so is nothing. -/
theorem ready_of_few {items : Items Token} (few : ¬2 ≤ items.size) :
    Ready items := by
  cases items with
  | nil => trivial
  | leaf token rest =>
      rw [Items.size_leaf] at few
      have single : rest.flatten = [] :=
        List.eq_nil_of_length_eq_zero (show rest.size = 0 by omega)
      obtain rfl := Items.flatten_eq_nil single
      exact ⟨.inr (.inr trivial), trivial⟩
  | group opening inner closing rest =>
      rw [Items.size_group] at few
      omega

/-- A sequence that has to be split: the operator, and what stands to its left
and to its right. -/
structure Cut (items left : Items Token) (token : Token)
    (right : Items Token) : Prop where
  splits : ∃ value, items.Splits Token.level left token right value
  many : 2 ≤ items.size

/-- What a sequence is worth when no part of it faults.  A unary operator does
not look at what stands to its left. -/
inductive Denotes (machine : Machine) : Items Token → Word → Prop where
  | nil : Denotes machine .nil intMax
  | leaf (token : Token) :
      Denotes machine (.leaf token .nil) (evalToken machine token)
  | group {opening closing : Token} {inner : Items Token} {value : Word}
      (worth : Denotes machine inner value) :
      Denotes machine (.group opening inner closing .nil) value
  | negative {items left right : Items Token} {token : Token} {value : Word}
      (cut : Cut items left token right) (isNegative : token.type = .negative)
      (worth : Denotes machine right value) : Denotes machine items (-value)
  | deref {items left right : Items Token} {token : Token} {addr word : Word}
      (cut : Cut items left token right) (isDeref : token.type = .pointerDeref)
      (worth : Denotes machine right addr)
      (read : machine.paddrRead addr = some word) : Denotes machine items word
  | binary {items left right : Items Token} {token : Token}
      {val1 val2 result : Word} (cut : Cut items left token right)
      (isBinary : token.level ≠ some 1) (worthLeft : Denotes machine left val1)
      (worthRight : Denotes machine right val2)
      (computes : evalBinary token.type val1 val2 = .ok result) :
      Denotes machine items result

/-- In a part that is not discarded `INT_MIN` is divided by -1, or an address
is read that no memory and no device has. -/
inductive Faults (machine : Machine) : Items Token → Prop where
  | group {opening closing : Token} {inner : Items Token}
      (faults : Faults machine inner) :
      Faults machine (.group opening inner closing .nil)
  | right {items left right : Items Token} {token : Token}
      (cut : Cut items left token right) (faults : Faults machine right) :
      Faults machine items
  | left {items left right : Items Token} {token : Token}
      (cut : Cut items left token right) (isBinary : token.level ≠ some 1)
      (faults : Faults machine left) : Faults machine items
  | read {items left right : Items Token} {token : Token} {addr : Word}
      (cut : Cut items left token right) (isDeref : token.type = .pointerDeref)
      (worth : Denotes machine right addr)
      (unmapped : machine.paddrRead addr = none) : Faults machine items
  | division {items left right : Items Token} {token : Token}
      (cut : Cut items left token right) (isSlash : token.type = .slash)
      (worthLeft : Denotes machine left intMin)
      (worthRight : Denotes machine right (-1)) : Faults machine items

/-- Only the quotient that overflows has no value. -/
theorem evalBinary_eq_error {type : TokenType} {val1 val2 : Word} {stop : Stop}
    (fails : evalBinary type val1 val2 = .error stop) :
    type = .slash ∧ val1 = intMin ∧ val2 = -1 := by
  unfold evalBinary at fails
  split at fails
  case h_8 =>
    split_ifs at fails with zero overflow
    exact ⟨rfl, overflow⟩
  all_goals cases fails

namespace Cut

variable {items left right : Items Token} {token : Token}

theorem size_eq (cut : Cut items left token right) :
    items.size = left.size + right.size + 1 := by
  obtain ⟨value, splits⟩ := cut.splits
  rw [splits.eq, Items.size_append, Items.size_leaf]
  omega

theorem shaped (cut : Cut items left token right)
    (shaped : items.Shaped Opens Closes) :
    left.Shaped Opens Closes ∧ right.Shaped Opens Closes := by
  obtain ⟨value, splits⟩ := cut.splits
  rw [splits.eq, Items.shaped_append] at shaped
  exact ⟨shaped.1, shaped.2.2⟩

theorem stands {p : Nat} (cut : Cut items left token right)
    (stands : At tokens p items) :
    At tokens p left ∧ At tokens (p + left.size + 1) right := by
  obtain ⟨value, splits⟩ := cut.splits
  rw [splits.eq] at stands
  exact ⟨stands.append_left, stands.append_right.tail⟩

theorem eval_eq {p : Nat} (cut : Cut items left token right)
    (shaped : items.Shaped Opens Closes) (stands : At tokens p items)
    (fuel : Nat) :
    eval machine tokens (fuel + 1) p items.size = (do
      let val2 ← eval machine tokens fuel (p + left.size + 1) right.size
      if token.type = .negative then
        return -val2
      else if token.type = .pointerDeref then
        machine.deref val2
      else
        let val1 ← eval machine tokens fuel p left.size
        evalBinary token.type val1 val2) := by
  obtain ⟨value, splits⟩ := cut.splits
  exact eval_splits machine shaped stands splits cut.many fuel

end Cut

/-- A sequence gets its worth as soon as there is more depth than tokens. -/
theorem eval_of_denotes {items : Items Token} {value : Word}
    (worth : Denotes machine items value) {p fuel : Nat}
    (shaped : items.Shaped Opens Closes) (stands : At tokens p items)
    (enough : items.size < fuel) :
    eval machine tokens fuel p items.size = .ok value := by
  induction worth generalizing p fuel with
  | nil =>
      obtain ⟨depth, rfl, -⟩ := exists_depth enough
      rfl
  | leaf token =>
      obtain ⟨depth, rfl, -⟩ := exists_depth enough
      exact eval_leaf machine stands depth
  | group _ inductionHypothesis =>
      rw [Items.size_group, Items.size_nil, Nat.add_zero] at enough ⊢
      obtain ⟨depth, rfl, room⟩ := exists_depth enough
      rw [eval_group machine shaped stands]
      exact inductionHypothesis shaped.2.1.shaped stands.inner (by omega)
  | negative cut isNegative _ inductionHypothesis =>
      obtain ⟨depth, rfl, room⟩ := exists_depth enough
      have size := cut.size_eq
      rw [cut.eval_eq shaped stands, inductionHypothesis (cut.shaped shaped).2
        (cut.stands stands).2 (by omega)]
      exact if_pos isNegative
  | deref cut isDeref _ read inductionHypothesis =>
      obtain ⟨depth, rfl, room⟩ := exists_depth enough
      have size := cut.size_eq
      rw [cut.eval_eq shaped stands, inductionHypothesis (cut.shaped shaped).2
        (cut.stands stands).2 (by omega)]
      simp [isDeref, Machine.deref, read, bind, Except.bind]
  | binary cut isBinary _ _ computes leftHypothesis rightHypothesis =>
      obtain ⟨depth, rfl, room⟩ := exists_depth enough
      have size := cut.size_eq
      rw [Ne, level_eq_one, not_or] at isBinary
      rw [cut.eval_eq shaped stands, rightHypothesis (cut.shaped shaped).2
        (cut.stands stands).2 (by omega), leftHypothesis (cut.shaped shaped).1
        (cut.stands stands).1 (by omega)]
      simp [isBinary, computes, bind, Except.bind]

/-- A fault leaves it without a value. -/
theorem eval_of_faults {items : Items Token} (faults : Faults machine items)
    {p fuel : Nat} (shaped : items.Shaped Opens Closes)
    (stands : At tokens p items) (enough : items.size < fuel) :
    ∃ stop, eval machine tokens fuel p items.size = .error stop := by
  induction faults generalizing p fuel with
  | group _ inductionHypothesis =>
      rw [Items.size_group, Items.size_nil, Nat.add_zero] at enough ⊢
      obtain ⟨depth, rfl, room⟩ := exists_depth enough
      rw [eval_group machine shaped stands]
      exact inductionHypothesis shaped.2.1.shaped stands.inner (by omega)
  | right cut _ inductionHypothesis =>
      obtain ⟨depth, rfl, room⟩ := exists_depth enough
      have size := cut.size_eq
      obtain ⟨stop, stops⟩ := inductionHypothesis (cut.shaped shaped).2
        (cut.stands stands).2 (show _ < depth by omega)
      exact ⟨stop, by rw [cut.eval_eq shaped stands, stops]; rfl⟩
  | left cut isBinary _ inductionHypothesis =>
      obtain ⟨depth, rfl, room⟩ := exists_depth enough
      have size := cut.size_eq
      rw [Ne, level_eq_one, not_or] at isBinary
      obtain ⟨stop, stops⟩ := inductionHypothesis (cut.shaped shaped).1
        (cut.stands stands).1 (show _ < depth by omega)
      rw [cut.eval_eq shaped stands]
      cases eval machine tokens depth _ _ with
      | error stop => exact ⟨stop, rfl⟩
      | ok val2 => exact ⟨stop, by simp [isBinary, stops, bind, Except.bind]⟩
  | read cut isDeref worth unmapped =>
      obtain ⟨depth, rfl, room⟩ := exists_depth enough
      have size := cut.size_eq
      rw [cut.eval_eq shaped stands, eval_of_denotes worth
        (cut.shaped shaped).2 (cut.stands stands).2 (by omega)]
      exact ⟨.badRead,
        by simp [isDeref, Machine.deref, unmapped, bind, Except.bind]⟩
  | division cut isSlash worthLeft worthRight =>
      obtain ⟨depth, rfl, room⟩ := exists_depth enough
      have size := cut.size_eq
      rw [cut.eval_eq shaped stands, eval_of_denotes worthRight
        (cut.shaped shaped).2 (cut.stands stands).2 (by omega),
        eval_of_denotes worthLeft (cut.shaped shaped).1
        (cut.stands stands).1 (by omega)]
      exact ⟨.divisionTrap, by simp [isSlash, bind, Except.bind]; rfl⟩

/-- A ready sequence is one token, nothing, a group or cut into ready parts. -/
theorem exists_cut {items : Items Token} (ready : Ready items)
    (many : 2 ≤ items.size)
    (notGroup : ∀ opening inner closing,
      items ≠ .group opening inner closing .nil) :
    ∃ left token right, Cut items left token right ∧
      (token.level = some 1 ∨ Ready left) ∧ Ready right := by
  rcases items.below_zero_or_splits with below |
    ⟨left, token, right, value, splits⟩
  · exact absurd ready (not_ready below notGroup many)
  · exact ⟨left, token, right, ⟨⟨value, splits⟩, many⟩,
      (ready_of_splits splits).mp ready⟩

/-- The sides of a cut decide about the whole. -/
theorem denotes_or_faults_of_cut {items left right : Items Token}
    {token : Token} (cut : Cut items left token right)
    (leftParts : token.level = some 1 ∨
      (∃ value, Denotes machine left value) ∨ Faults machine left)
    (rightParts :
      (∃ value, Denotes machine right value) ∨ Faults machine right) :
    (∃ value, Denotes machine items value) ∨ Faults machine items := by
  obtain ⟨val2, worthRight⟩ | faults := rightParts
  · by_cases isUnary : token.level = some 1
    · rcases level_eq_one.mp isUnary with isNegative | isDeref
      · exact .inl ⟨-val2, .negative cut isNegative worthRight⟩
      · cases read : machine.paddrRead val2 with
        | none => exact .inr (.read cut isDeref worthRight read)
        | some word => exact .inl ⟨word, .deref cut isDeref worthRight read⟩
    · obtain ⟨val1, worthLeft⟩ | faults := leftParts.resolve_left isUnary
      · cases computes : evalBinary token.type val1 val2 with
        | ok result =>
            exact .inl ⟨result,
              .binary cut isUnary worthLeft worthRight computes⟩
        | error stop =>
            obtain ⟨isSlash, rfl, rfl⟩ := evalBinary_eq_error computes
            exact .inr (.division cut isSlash worthLeft worthRight)
      · exact .inr (.left cut isUnary faults)
  · exact .inr (.right cut faults)

theorem denotes_or_faults {items : Items Token} (ready : Ready items) :
    (∃ value, Denotes machine items value) ∨ Faults machine items := by
  induction size : items.size using Nat.strong_induction_on
    generalizing items with
  | h count inductionHypothesis =>
  subst size
  by_cases many : 2 ≤ items.size
  · by_cases isGroup : ∃ opening inner closing,
        items = .group opening inner closing .nil
    · obtain ⟨opening, inner, closing, rfl⟩ := isGroup
      have innerReady := ready_group.mp ready
      rcases inductionHypothesis inner.size
          (by rw [Items.size_group]; omega) innerReady rfl with
        ⟨value, worth⟩ | faults
      · exact .inl ⟨value, .group worth⟩
      · exact .inr (.group faults)
    · push Not at isGroup
      obtain ⟨left, token, right, cut, leftReady, rightReady⟩ :=
        exists_cut ready many isGroup
      have sizes := cut.size_eq
      exact denotes_or_faults_of_cut cut
        (leftReady.imp_right fun isReady =>
          inductionHypothesis left.size (by omega) isReady rfl)
        (inductionHypothesis right.size (by omega) rightReady rfl)
  · cases items with
    | nil => exact .inl ⟨intMax, .nil⟩
    | leaf token rest =>
        rw [Items.size_leaf] at many
        have single : rest.flatten = [] :=
          List.eq_nil_of_length_eq_zero (show rest.size = 0 by omega)
        obtain rfl := Items.flatten_eq_nil single
        exact .inl ⟨_, .leaf token⟩
    | group opening inner closing rest =>
        rw [Items.size_group] at many
        omega

/-- Any other sequence has no value at any depth. -/
theorem eval_of_not_ready {items : Items Token} (stuck : ¬Ready items)
    {p : Nat} (shaped : items.Shaped Opens Closes)
    (stands : At tokens p items) (fuel : Nat) :
    ∃ stop, eval machine tokens fuel p items.size = .error stop := by
  induction fuel generalizing items p with
  | zero => exact ⟨.outOfFuel, rfl⟩
  | succ fuel inductionHypothesis =>
  by_cases isGroup : ∃ opening inner closing,
      items = .group opening inner closing .nil
  · obtain ⟨opening, inner, closing, rfl⟩ := isGroup
    rw [Items.size_group, Items.size_nil, Nat.add_zero,
      eval_group machine shaped stands]
    exact inductionHypothesis (fun ready => stuck (ready_group.mpr ready))
      shaped.2.1.shaped stands.inner
  · push Not at isGroup
    have many : 2 ≤ items.size := by
      by_contra few
      exact stuck (ready_of_few few)
    rcases items.below_zero_or_splits with below |
      ⟨left, token, right, value, splits⟩
    · exact eval_stuck machine shaped stands below isGroup many (fuel + 1)
    · have cut : Cut items left token right := ⟨⟨value, splits⟩, many⟩
      rw [ready_of_splits splits, level_eq_one] at stuck
      rw [cut.eval_eq shaped stands]
      by_cases rightReady : Ready right
      · have isBinary : ¬(token.type = .negative ∨
            token.type = .pointerDeref) := fun unary =>
          stuck ⟨.inl unary, rightReady⟩
        rw [not_or] at isBinary
        obtain ⟨stop, stops⟩ := inductionHypothesis
          (fun ready => stuck ⟨.inr ready, rightReady⟩)
          (cut.shaped shaped).1 (cut.stands stands).1
        cases eval machine tokens fuel _ _ with
        | error stop => exact ⟨stop, rfl⟩
        | ok val2 => exact ⟨stop, by simp [isBinary, stops, bind, Except.bind]⟩
      · obtain ⟨stop, stops⟩ := inductionHypothesis rightReady
          (cut.shaped shaped).2 (cut.stands stands).2
        exact ⟨stop, by rw [stops]; rfl⟩

end Eval

/-! ## Texts -/

/-- At most one token, or a bracketed sequence that is ready and does not
fault. -/
def Evaluable (machine : Machine) (tokens : List Token) : Prop :=
  tokens.length ≤ 1 ∨
    ∃ items : Items Token, items.Shaped Opens Closes ∧
      items.flatten = tokens ∧ Ready items ∧ ¬Faults machine items

/-- A part that is not discarded faults. -/
def Crashes (machine : Machine) (tokens : List Token) : Prop :=
  ∃ items : Items Token, items.Shaped Opens Closes ∧
    items.flatten = tokens ∧ Faults machine items

section Texts

variable {machine : Machine} {tokens : List Token}

theorem eval_of_evaluable (evaluable : Evaluable machine tokens) :
    ∃ value, ∀ fuel, tokens.length < fuel →
      eval machine tokens fuel 0 tokens.length = .ok value := by
  rcases evaluable with short | ⟨items, shaped, rfl, ready, noFault⟩
  · cases tokens with
    | nil =>
        refine ⟨intMax, fun fuel enough => ?_⟩
        obtain ⟨depth, rfl, -⟩ := exists_depth enough
        rfl
    | cons token rest =>
        obtain rfl : rest = [] := List.eq_nil_of_length_eq_zero
          (Nat.le_zero.mp (Nat.le_of_succ_le_succ short))
        refine ⟨evalToken machine token, fun fuel enough => ?_⟩
        obtain ⟨depth, rfl, -⟩ := exists_depth enough
        exact eval_leaf machine (At.whole (.leaf token .nil)) depth
  · obtain ⟨value, worth⟩ := (denotes_or_faults ready).resolve_right noFault
    exact ⟨value, fun _ enough =>
      eval_of_denotes worth shaped (At.whole items) enough⟩

theorem Evaluable.not_crashes (evaluable : Evaluable machine tokens) :
    ¬Crashes machine tokens := by
  rintro ⟨items, shaped, rfl, faults⟩
  obtain ⟨value, evaluates⟩ := eval_of_evaluable evaluable
  obtain ⟨stop, stops⟩ := eval_of_faults faults shaped (At.whole items)
    (Nat.lt_succ_self items.size)
  have evaluated := evaluates (items.size + 1) (Nat.lt_succ_self _)
  cases stops.symm.trans evaluated

theorem eval_of_not_evaluable (stuck : ¬Evaluable machine tokens) {fuel : Nat}
    (enough : tokens.length < fuel) :
    ∃ stop, eval machine tokens fuel 0 tokens.length = .error stop := by
  obtain ⟨long, noItems⟩ := not_or.mp stuck
  by_cases paired : Items.Paired Opens Closes 0 tokens
  · obtain ⟨items, shaped, rfl⟩ := paired.exists_shaped
    by_cases ready : Ready items
    · have faults : Faults machine items := by
        by_contra noFault
        exact noItems ⟨items, shaped, rfl, ready, noFault⟩
      exact eval_of_faults faults shaped (At.whole items) enough
    · exact eval_of_not_ready ready shaped (At.whole items) fuel
  · cases fuel with
    | zero => exact ⟨.outOfFuel, rfl⟩
    | succ fuel =>

        have unbalanced : parenCount 0 tokens ≠ some 0 := fun balanced =>
          paired (paired_of_parenCount balanced)
        obtain ⟨count, isCount⟩ :=
          Nat.exists_eq_add_of_le' (show 2 ≤ tokens.length by omega)
        have check : checkParantheses (count + 2)
            ((tokens.drop 0).take (count + 2)) ≠ 1 := by
          rw [List.drop_zero, ← isCount, List.take_length, isCount,
            checkParantheses, if_pos unbalanced]
          decide
        cases found : findMainOpPos tokens 0 tokens.length with
        | error stop =>
            refine ⟨stop, ?_⟩
            rw [isCount] at found ⊢
            rw [eval, if_neg check, found]
        | ok op => exact absurd (paired_of_mainOpFrom found) paired

theorem length_markUnary (tokens : List Token) :
    (markUnary tokens).length = tokens.length := by
  rw [markUnary]
  generalize none = before
  induction tokens generalizing before with
  | nil => rfl
  | cons token rest inductionHypothesis =>
      simp only [markUnaryAfter, List.length_cons, inductionHypothesis]

theorem expr_eq (machine : Machine) (fuel : Nat) (e : List Char) :
    expr machine fuel e =
      if Fits (words e) then
        if Tokenisable e then do
          let res ← eval machine (markUnary (words e)) fuel 0
            (markUnary (words e)).length
          return (res, true)
        else
          return (0, false)
      else
        .error .outOfBounds := by
  rw [expr, makeToken_eq]
  split
  · split <;> rfl
  · rfl

section Returns

variable {e : List Char}

/-- A text without tokens is refused, and every other one accepted. -/
theorem Returns.success_iff {value : Word} {success : Bool}
    (returns : Returns machine e (value, success)) :
    Fits (words e) ∧ (success = true ↔ Tokenisable e) ∧
      (Tokenisable e → Evaluable machine (markUnary (words e))) := by
  obtain ⟨enough, isResult⟩ := returns
  let count := (markUnary (words e)).length
  have returned := isResult (max enough (count + 1)) (le_max_left _ _)
  rw [expr_eq] at returned
  by_cases fits : Fits (words e)
  · refine ⟨fits, ?_⟩
    rw [if_pos fits] at returned
    by_cases tokenisable : Tokenisable e
    · rw [if_pos tokenisable] at returned
      by_cases evaluable : Evaluable machine (markUnary (words e))
      · cases evaluated : eval machine (markUnary (words e))
            (max enough (count + 1)) 0 (markUnary (words e)).length with
        | error stop =>
            rw [evaluated] at returned
            cases returned
        | ok res =>
            rw [evaluated] at returned
            cases returned
            exact ⟨iff_of_true rfl tokenisable, fun _ => evaluable⟩
      · obtain ⟨stop, stops⟩ := eval_of_not_evaluable evaluable
          (show count < max enough (count + 1) by omega)
        rw [stops] at returned
        cases returned
    · rw [if_neg tokenisable] at returned
      cases returned
      exact ⟨iff_of_false Bool.false_ne_true tokenisable,
        fun isTokenisable => absurd isTokenisable tokenisable⟩
  · rw [if_neg fits] at returned
    cases returned

theorem returns_of_not_tokenisable (fits : Fits (words e))
    (untokenisable : ¬Tokenisable e) : Returns machine e (0, false) := by
  refine ⟨0, fun fuel _ => ?_⟩
  rw [expr_eq, if_pos fits, if_neg untokenisable]
  rfl

theorem exists_returns_of_evaluable (fits : Fits (words e))
    (tokenisable : Tokenisable e)
    (evaluable : Evaluable machine (markUnary (words e))) :
    ∃ value, Returns machine e (value, true) := by
  obtain ⟨value, evaluates⟩ := eval_of_evaluable evaluable
  refine ⟨value, (markUnary (words e)).length + 1, fun fuel enough => ?_⟩
  rw [expr_eq, if_pos fits, if_pos tokenisable, evaluates fuel enough]
  rfl

end Returns

/-- `expr` returns exactly if the tokens fit into the array and their texts into
the tokens, and the text has a position without a token or its tokens can be
evaluated. -/
theorem expr_returns_iff (machine : Machine) (e : List Char) :
    (∃ result, Returns machine e result) ↔
      Fits (words e) ∧
        (¬Tokenisable e ∨ Evaluable machine (markUnary (words e))) := by
  constructor
  · rintro ⟨⟨value, success⟩, returns⟩
    obtain ⟨fits, -, evaluable⟩ := returns.success_iff
    exact ⟨fits, imp_iff_not_or.mp evaluable⟩
  · rintro ⟨fits, evaluable⟩
    by_cases tokenisable : Tokenisable e
    · obtain ⟨value, returns⟩ := exists_returns_of_evaluable fits tokenisable
        (evaluable.resolve_left fun untokenisable => untokenisable tokenisable)
      exact ⟨(value, true), returns⟩
    · exact ⟨(0, false), returns_of_not_tokenisable fits tokenisable⟩

/-- Two numbers side by side have no operator between them. -/
theorem expr_two_numbers_stuck :
    ¬∀ (machine : Machine) (e : List Char),
      ∃ result, Returns machine e result := by
  intro always
  let zero : Machine := ⟨0, ⟨fun _ => 0, fun _ => 0, rfl⟩, fun _ => some 0⟩
  obtain ⟨result, enough, returns⟩ := always zero ['1', ' ', '2']
  have returned := returns enough le_rfl
  rw [expr_eq, if_pos (by decide +kernel), if_pos (by decide +kernel)] at returned
  let one : Token := ⟨.number, ['1']⟩
  let two : Token := ⟨.number, ['2']⟩
  have tokens : markUnary (words ['1', ' ', '2']) = [one, two] := by
    decide +kernel
  have shaped : (Items.leaf one (.leaf two .nil)).Shaped Opens Closes :=
    ⟨by decide, by decide, trivial⟩
  have numbers : (Items.leaf one (.leaf two .nil)).Below Token.level 0 :=
    ⟨by decide, by decide, trivial⟩
  obtain ⟨stop, stops⟩ : ∃ stop, eval zero [one, two] enough 0 2 =
      .error stop :=
    eval_stuck zero shaped (At.whole _) numbers (by simp) (by simp) enough
  rw [tokens] at returned
  simp only [List.length_cons, List.length_nil, Nat.reduceAdd, stops] at returned
  cases returned

end Texts

end Ysyx.Sdb
