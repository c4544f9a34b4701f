import Ysyx.Sdb.Marking

/-!
# Texts of decimal expressions

A text that spells the tokens of a decimal expression, with spaces anywhere
between them, is cut into these tokens and evaluates to the value of the
expression.
-/

namespace Ysyx.Sdb

open Nemu (Word)

/-- The tokens one after the other, with spaces before, between and behind
them. -/
inductive Spelled : List Token → List Char → Prop where
  | nil : Spelled [] []
  | space {tokens : List Token} {e : List Char} (spelled : Spelled tokens e) :
      Spelled tokens (' ' :: e)
  | token {token : Token} {tokens : List Token} {e : List Char}
      (spelled : Spelled tokens e) : Spelled (token :: tokens) (token.str ++ e)

/-! ## Cutting a text -/

/-- A match is passed over. -/
theorem wordsFrom_append (text e : List Char) :
    wordsFrom text.length (text ++ e) = wordsFrom 0 e := by
  induction text with
  | nil => rfl
  | cons char rest inductionHypothesis => exact inductionHypothesis

/-- A token at the start of the text. -/
theorem wordsFrom_token {token : Token} {e : List Char}
    (nonempty : token.str ≠ []) (notSpace : token.type ≠ .notype)
    (matched : firstMatch (token.str ++ e) =
      some (token.type, token.str.length)) :
    wordsFrom 0 (token.str ++ e) =
      (token :: (wordsFrom 0 e).1, (wordsFrom 0 e).2) := by
  obtain ⟨type, str⟩ := token
  cases str with
  | nil => exact absurd rfl nonempty
  | cons char rest =>
      have following : wordsFrom ((char :: rest).length - 1) (rest ++ e) =
          wordsFrom 0 e := wordsFrom_append rest e
      have text : (char :: (rest ++ e)).take (char :: rest).length =
          char :: rest := List.take_left
      simp only [List.cons_append] at matched ⊢
      simp only [wordsFrom, matched, if_neg notSpace, following, text]

theorem firstMatch_space (e : List Char) :
    firstMatch (' ' :: e) =
      some (.notype, ((' ' :: e).takeWhile (· ∈ [' '])).length) := by
  have run : (Regex.many [' ']).longest (' ' :: e) =
      some ((' ' :: e).takeWhile (· ∈ [' '])).length :=
    Regex.longest_takeWhile (by simp)
  rw [firstMatch, rules, List.findSome?_cons, run]
  rfl

/-- Spaces at the start do not count. -/
theorem wordsFrom_dropWhile (e : List Char) :
    wordsFrom 0 e = wordsFrom 0 (e.dropWhile (· ∈ [' '])) := by
  cases e with
  | nil => rfl
  | cons char rest =>
      by_cases space : char = ' '
      · subst space
        have passed := wordsFrom_append (rest.takeWhile (· ∈ [' ']))
          (rest.dropWhile (· ∈ [' ']))
        rw [List.takeWhile_append_dropWhile] at passed
        have run : ((' ' :: rest).takeWhile (· ∈ [' '])).length - 1 =
            (rest.takeWhile (· ∈ [' '])).length := by
          simp
        simp only [wordsFrom, firstMatch_space, if_true, run]
        rw [passed]
        simp
      · simp [space]

theorem wordsFrom_space (e : List Char) :
    wordsFrom 0 (' ' :: e) = wordsFrom 0 e := by
  rw [wordsFrom_dropWhile, wordsFrom_dropWhile e]
  simp

/-! ## The tokens of decimal expressions -/

/-- The operators and parentheses. -/
def symbols : List Token :=
  leftParen :: rightParen ::
    [BinaryOp.plus, .minus, .times, .slash, .eq, .noeq, .and, .or].map
      BinaryOp.token

/-- A constant of decimal digits. -/
def IsNumber (token : Token) : Prop :=
  token.type = .number ∧ token.str ≠ [] ∧
    ∀ char ∈ token.str, char ∈ decimalDigits

/-- A sequence that does not go on with a number. -/
def StartsWithSymbol (tokens : List Token) : Prop :=
  ∀ token, tokens.head? = some token → token ∈ symbols

/-- Symbols and numbers, and no two numbers side by side. -/
def Separate : List Token → Prop
  | [] => True
  | token :: rest =>
      (token ∈ symbols ∨ IsNumber token ∧ StartsWithSymbol rest) ∧ Separate rest

theorem firstMatch_symbol {token : Token} (member : token ∈ symbols)
    (e : List Char) :
    firstMatch (token.str ++ e) = some (token.type, token.str.length) := by
  simp only [symbols, List.map_cons, List.map_nil, List.mem_cons,
    List.not_mem_nil, or_false] at member
  rcases member with rfl | rfl | rfl | rfl | rfl | rfl | rfl | rfl | rfl | rfl
  all_goals
    simp [leftParen, rightParen, BinaryOp.token, BinaryOp.str, BinaryOp.type,
      firstMatch, rules, Regex.longest, Regex.ends, Regex.word]

/-- Only the last two rules match a digit. -/
theorem digit_starts {rule : Rule} (isRule : rule ∈ rules.take 12)
    {char : Char} (digit : char ∈ decimalDigits) :
    char ∉ rule.regex.starts := by
  have disjoint : (rules.take 12).all (fun rule =>
      decimalDigits.all fun char => !rule.regex.starts.elem char) = true := by
    decide +kernel
  have absent := List.all_eq_true.mp (List.all_eq_true.mp disjoint rule isRule)
    char digit
  simpa using absent

theorem hexRegex_longest {first : Char} {rest : List Char}
    (noX : ∀ char, rest.head? = some char → char ≠ 'x' ∧ char ≠ 'X') :
    hexRegex.longest (first :: rest) = none := by
  rw [Regex.longest, List.max?_eq_none_iff, List.eq_nil_iff_forall_not_mem]
  intro length member
  simp only [hexRegex, Regex.ends, List.mem_flatMap, List.mem_map] at member
  obtain ⟨one, isOne, _, ⟨two, isTwo, -⟩, -⟩ := member
  split at isOne
  · obtain rfl := List.mem_singleton.mp isOne
    rw [List.drop_succ_cons, List.drop_zero] at isTwo
    cases rest with
    | nil => cases isTwo
    | cons second tail =>
        obtain ⟨notLower, notUpper⟩ := noX second rfl
        simp [Regex.ends, notLower, notUpper] at isTwo
  · cases isOne

/-- At a digit the last two rules decide. -/
theorem firstMatch_of_digit {char : Char} (digit : char ∈ decimalDigits)
    (rest : List Char) :
    firstMatch (char :: rest) =
      ((hexRegex.longest (char :: rest)).map (TokenType.hex, ·)).or
        (((Regex.many decimalDigits).longest (char :: rest)).map
          (TokenType.number, ·)) := by
  have others : (rules.take 12).findSome? (fun rule =>
      (rule.regex.longest (char :: rest)).map (rule.tokenType, ·)) = none := by
    rw [List.findSome?_eq_none_iff]
    intro rule member
    rw [Regex.longest_eq_none_of_head (digit_starts member digit)]
    rfl
  have last : rules.drop 12 =
      [⟨hexRegex, .hex⟩, ⟨.many decimalDigits, .number⟩] := rfl
  rw [firstMatch, ← List.take_append_drop 12 rules, List.findSome?_append,
    others, Option.none_or, last]
  simp only [List.findSome?_cons, List.findSome?_nil]
  cases hexRegex.longest (char :: rest) with
  | some length => rfl
  | none =>
      cases (Regex.many decimalDigits).longest (char :: rest) <;> rfl

theorem firstMatch_number {token : Token} (isNumber : IsNumber token)
    {e : List Char}
    (ends : ∀ char, e.head? = some char →
      char ∉ decimalDigits ∧ char ≠ 'x' ∧ char ≠ 'X') :
    firstMatch (token.str ++ e) = some (token.type, token.str.length) := by
  obtain ⟨isType, nonempty, digits⟩ := isNumber
  have longest := Regex.longest_many nonempty digits
    fun char isHead => (ends char isHead).1
  obtain ⟨first, rest, text⟩ := List.exists_cons_of_ne_nil nonempty
  rw [text] at digits longest ⊢
  have hex : hexRegex.longest (first :: rest ++ e) = none := by
    refine hexRegex_longest fun char isHead => ?_
    cases rest with
    | nil => exact (ends char isHead).2
    | cons second tail =>
        obtain rfl := Option.some.inj isHead
        have digit := digits second (by simp)
        constructor <;> rintro rfl <;> revert digit <;> decide
  rw [List.cons_append] at hex longest ⊢
  rw [firstMatch_of_digit (digits first List.mem_cons_self), hex, longest,
    isType]
  rfl

/-- What follows a number in the text does not belong to it. -/
theorem head_of_spelled {tokens : List Token} {e : List Char}
    (spelled : Spelled tokens e) (starts : StartsWithSymbol tokens)
    (char : Char) (isHead : e.head? = some char) :
    char ∉ decimalDigits ∧ char ≠ 'x' ∧ char ≠ 'X' := by
  cases spelled with
  | nil => cases isHead
  | space =>
      cases isHead
      decide
  | @token token tokens rest =>
      have member := starts token rfl
      simp only [symbols, List.map_cons, List.map_nil, List.mem_cons,
        List.not_mem_nil, or_false] at member
      rcases member with rfl | rfl | rfl | rfl | rfl | rfl | rfl | rfl | rfl |
        rfl
      all_goals
        cases isHead
        decide

/-- A text that spells separate tokens is cut into them. -/
theorem wordsFrom_of_spelled {tokens : List Token} {e : List Char}
    (spelled : Spelled tokens e) (separate : Separate tokens) :
    wordsFrom 0 e = (tokens, true) := by
  induction spelled with
  | nil => rfl
  | space _ inductionHypothesis =>
      rw [wordsFrom_space, inductionHypothesis separate]
  | @token token tokens rest spelled inductionHypothesis =>
      obtain ⟨symbol | ⟨isNumber, starts⟩, restSeparate⟩ := separate
      · have nonempty : token.str ≠ [] ∧ token.type ≠ .notype := by
          revert token
          decide
        rw [wordsFrom_token nonempty.1 nonempty.2 (firstMatch_symbol symbol _),
          inductionHypothesis restSeparate]
      · have notSpace : token.type ≠ .notype := by
          rw [isNumber.1]
          decide
        rw [wordsFrom_token isNumber.2.1 notSpace
            (firstMatch_number isNumber (head_of_spelled spelled starts)),
          inductionHypothesis restSeparate]

/-! ## Decimal expressions -/

namespace Expression

/-- Decimal constants below `2 ^ 31` of at most 31 digits, binary operators and
parentheses. -/
def Decimal : Expression → Prop
  | operand kind str =>
      kind = .number ∧ str ≠ [] ∧ (∀ char ∈ str, char ∈ decimalDigits) ∧
        str.length ≤ 31 ∧ digitsValue 10 str < 2 ^ 31
  | paren inner => inner.Decimal
  | unary _ _ => False
  | binary _ left right => left.Decimal ∧ right.Decimal

theorem mem_symbols (op : BinaryOp) : op.token ∈ symbols := by
  cases op <;> decide

theorem separate_cons {token : Token} (symbol : token ∈ symbols)
    {rest : List Token} (separate : Separate rest) :
    Separate (token :: rest) :=
  ⟨.inl symbol, separate⟩

theorem separate_unmarked {e : Expression} (decimal : e.Decimal)
    {rest : List Token} (starts : StartsWithSymbol rest)
    (separate : Separate rest) : Separate (e.unmarked ++ rest) := by
  induction e generalizing rest with
  | operand kind str =>
      obtain ⟨rfl, nonempty, digits, -⟩ := decimal
      exact ⟨.inr ⟨⟨rfl, nonempty, digits⟩, starts⟩, separate⟩
  | paren inner inductionHypothesis =>
      have closing : rightParen ∈ symbols := by decide
      have following : Separate (inner.unmarked ++ rightParen :: rest) :=
        inductionHypothesis decimal
          (fun token isHead => Option.some.inj isHead ▸ closing)
          (separate_cons closing separate)
      rw [unmarked, List.cons_append, List.append_assoc, List.singleton_append]
      exact separate_cons (by decide) following
  | unary => exact decimal.elim
  | binary op left right leftHypothesis rightHypothesis =>
      have following := separate_cons (mem_symbols op)
        (rightHypothesis decimal.2 starts separate)
      rw [unmarked, List.append_assoc, List.cons_append]
      exact leftHypothesis decimal.1
        (fun token isHead => Option.some.inj isHead ▸ mem_symbols op) following

theorem str_length_of_decimal {e : Expression} (decimal : e.Decimal) :
    ∀ token ∈ e.unmarked, token.str.length < strSize := by
  induction e with
  | operand kind str =>
      intro token member
      obtain rfl := List.mem_singleton.mp member
      exact Nat.lt_succ_of_le decimal.2.2.2.1
  | paren inner inductionHypothesis =>
      intro token member
      simp only [unmarked, List.mem_cons, List.mem_append, List.not_mem_nil,
        or_false] at member
      rcases member with rfl | member | rfl
      · decide
      · exact inductionHypothesis decimal token member
      · decide
  | unary => exact decimal.elim
  | binary op left right leftHypothesis rightHypothesis =>
      intro token member
      simp only [unmarked, List.mem_append, List.mem_cons] at member
      rcases member with member | rfl | member
      · exact leftHypothesis decimal.1 token member
      · cases op <;> decide
      · exact rightHypothesis decimal.2 token member

/-- No `-` or `*` of a decimal expression is marked. -/
theorem mark_of_decimal {e : Expression} (decimal : e.Decimal)
    (before : Option TokenType) (rest : List Token) :
    markUnaryAfter before (e.unmarked ++ rest) =
        e.tokens ++ markUnaryAfter (some e.lastType) rest ∧
      ¬TakesUnary (some e.lastType) := by
  induction e generalizing before rest with
  | operand kind str =>
      obtain ⟨rfl, -⟩ := decimal
      refine ⟨?_, fun takes => takes.2 rfl⟩
      have same : markToken before ⟨.number, str⟩ = ⟨.number, str⟩ :=
        markToken_of_other (operand_not_minus .number)
      show markUnaryAfter before (⟨.number, str⟩ :: rest) = _
      rw [markUnaryAfter_cons, same]
      rfl
  | paren inner inductionHypothesis =>
      refine ⟨?_, fun takes => takes.1 rfl⟩
      have plain : ∀ type, markToken type leftParen = leftParen ∧
          markToken type rightParen = rightParen := fun type =>
        ⟨markToken_of_other (by decide), markToken_of_other (by decide)⟩
      rw [unmarked, List.cons_append, List.append_assoc, List.singleton_append,
        markUnaryAfter_cons, (plain before).1,
        (inductionHypothesis decimal _ _).1, markUnaryAfter_cons, (plain _).2]
      simp [tokens, items, Items.flatten, lastType, rightParen]
  | unary => exact decimal.elim
  | binary op left right leftHypothesis rightHypothesis =>
      obtain ⟨leftMarked, notTakes⟩ := leftHypothesis decimal.1 before
        (op.token :: (right.unmarked ++ rest))
      obtain ⟨rightMarked, lastNotTakes⟩ :=
        rightHypothesis decimal.2 (some op.token.type) rest
      refine ⟨?_, lastNotTakes⟩
      rw [unmarked, List.append_assoc, List.cons_append, leftMarked,
        markUnaryAfter_cons, markToken_of_not_takes notTakes, rightMarked]
      simp [tokens, items, Items.flatten, lastType]

/-- A division by zero aside, `eval` follows C. -/
theorem evalBinary_type {op : BinaryOp} {val1 val2 : Word}
    (divisor : op = .slash → val2 ≠ 0) :
    (evalBinary op.type val1 val2).toOption = op.apply val1 val2 := by
  cases op with
  | plus => rfl
  | minus => rfl
  | times => rfl
  | slash =>
      have nonzero := divisor rfl
      show Except.toOption (if val2 = 0 then _ else _) =
        if val2 = 0 ∨ val1 = intMin ∧ val2 = -1 then none else _
      rw [if_neg nonzero]
      by_cases overflow : val1 = intMin ∧ val2 = -1
      · rw [if_pos overflow, if_pos (.inr overflow)]
        rfl
      · rw [if_neg overflow, if_neg (not_or.mpr ⟨nonzero, overflow⟩)]
        rfl
  | eq =>
      by_cases same : val1 = val2 <;>
        simp [evalBinary, ofBool, BinaryOp.type, BinaryOp.apply, same,
          Except.toOption]
  | noeq =>
      by_cases same : val1 = val2 <;>
        simp [evalBinary, ofBool, BinaryOp.type, BinaryOp.apply, same,
          Except.toOption]
  | and =>
      simp only [evalBinary, ofBool, BinaryOp.type, BinaryOp.apply,
        decide_eq_true_eq, Except.toOption]
      split_ifs <;> first | rfl | tauto
  | or =>
      simp only [evalBinary, ofBool, BinaryOp.type, BinaryOp.apply,
        decide_eq_true_eq, Except.toOption]
      split_ifs <;> first | rfl | tauto

/-- A decimal expression has a value unless a division has none. -/
theorem exists_value {machine : Machine} {e : Expression} (decimal : e.Decimal)
    (noZero : ¬e.DividesByZero machine) (noOverflow : ¬e.Overflows machine) :
    ∃ value, e.value machine = some value := by
  induction e with
  | operand kind str => exact ⟨_, rfl⟩
  | paren inner inductionHypothesis =>
      exact inductionHypothesis decimal noZero noOverflow
  | unary => exact decimal.elim
  | binary op left right leftHypothesis rightHypothesis =>
      simp only [DividesByZero, Overflows, not_or, not_and] at noZero noOverflow
      obtain ⟨val1, isLeft⟩ :=
        leftHypothesis decimal.1 noZero.2.1 noOverflow.2.1
      obtain ⟨val2, isRight⟩ :=
        rightHypothesis decimal.2 noZero.2.2 noOverflow.2.2
      simp only [value, isLeft, isRight, Option.bind_some]
      cases op with
      | slash =>
          have divides : ¬(val2 = 0 ∨ val1 = intMin ∧ val2 = -1) := by
            rintro (rfl | ⟨rfl, rfl⟩)
            · exact noZero.1 rfl isRight
            · exact noOverflow.1 rfl isLeft isRight
          exact ⟨_, if_neg divides⟩
      | _ => exact ⟨_, rfl⟩

/-- `eval` follows C on decimal expressions. -/
theorem evalValue_eq_value {machine : Machine} {e : Expression}
    (decimal : e.Decimal) (noZero : ¬e.DividesByZero machine) :
    e.evalValue machine = e.value machine := by
  induction e with
  | operand kind str =>
      obtain ⟨rfl, -⟩ := decimal
      rfl
  | paren inner inductionHypothesis => exact inductionHypothesis decimal noZero
  | unary => exact decimal.elim
  | binary op left right leftHypothesis rightHypothesis =>
      simp only [DividesByZero, not_or, not_and] at noZero
      obtain ⟨divisor, leftNoZero, rightNoZero⟩ := noZero
      rw [evalValue, value, leftHypothesis decimal.1 leftNoZero,
        rightHypothesis decimal.2 rightNoZero]
      cases left.value machine with
      | none => rfl
      | some val1 =>
          cases isRight : right.value machine with
          | none => rfl
          | some val2 =>
              refine evalBinary_type fun isSlash isZero => ?_
              exact divisor isSlash (by rw [isRight, isZero])

end Expression

theorem words_of_spelled {expression : Expression}
    (decimal : expression.Decimal) {e : List Char}
    (spelled : Spelled expression.unmarked e) :
    wordsFrom 0 e = (expression.unmarked, true) := by
  have separate := Expression.separate_unmarked decimal
    (show StartsWithSymbol [] from fun _ isHead => by cases isHead) trivial
  rw [List.append_nil] at separate
  exact wordsFrom_of_spelled spelled separate

/-- `expr` on the text of a decimal expression. -/
theorem expr_of_spelled (machine : Machine) {expression : Expression}
    (decimal : expression.Decimal) (wellFormed : expression.WellFormed)
    (noZero : ¬expression.DividesByZero machine) {value : Word}
    (isValue : expression.value machine = some value) {e : List Char}
    (spelled : Spelled expression.unmarked e) {fuel : Nat}
    (enough : expression.items.size < fuel) :
    expr machine fuel e =
      if expression.unmarked.length ≤ tokensSize then
        .ok (value, true)
      else
        .error .outOfBounds := by
  have cut := words_of_spelled decimal spelled
  have isWords : words e = expression.unmarked := by rw [words, cut]
  have tokenisable : Tokenisable e := by rw [Tokenisable, cut]
  have fits : Fits (words e) ↔ expression.unmarked.length ≤ tokensSize := by
    rw [isWords]
    exact and_iff_left (Expression.str_length_of_decimal decimal)
  have marked : markUnary (words e) = expression.tokens := by
    have marks := (Expression.mark_of_decimal decimal none []).1
    rw [List.append_nil] at marks
    rw [isWords, markUnary, marks]
    simp [markUnaryAfter]
  have evaluated : eval machine expression.tokens fuel 0
      expression.tokens.length = .ok value :=
    Expression.eval_eq_ok machine wellFormed (At.whole expression.items) enough
      ((Expression.evalValue_eq_value decimal noZero).trans isValue)
  rw [expr_eq, marked]
  by_cases small : expression.unmarked.length ≤ tokensSize
  · rw [if_pos (fits.mpr small), if_pos tokenisable, if_pos small, evaluated]
    rfl
  · rw [if_neg fun all => small (fits.mp all), if_neg small]

/-- A decimal expression in which no division is one by zero or of `INT_MIN` by
-1 has a value, and `expr` returns it if and only if the tokens have room in the
array. -/
theorem decimal_returns_iff (machine : Machine) {expression : Expression}
    (decimal : expression.Decimal) (wellFormed : expression.WellFormed)
    (noZero : ¬expression.DividesByZero machine)
    (noOverflow : ¬expression.Overflows machine) {e : List Char}
    (spelled : Spelled expression.unmarked e) :
    ∃ value, expression.value machine = some value ∧
      (Returns machine e (value, true) ↔
        expression.unmarked.length ≤ tokensSize) := by
  obtain ⟨value, isValue⟩ :=
    Expression.exists_value decimal noZero noOverflow
  refine ⟨value, isValue, ?_⟩
  have result := fun {fuel : Nat} =>
    @expr_of_spelled machine expression decimal wellFormed noZero value isValue
      e spelled fuel
  constructor
  · rintro ⟨enough, returns⟩
    have enoughDepth :
        expression.items.size < max enough (expression.items.size + 1) :=
      le_max_right enough _
    have returned := returns _ (le_max_left enough (expression.items.size + 1))
    rw [result enoughDepth] at returned
    by_contra large
    rw [if_neg large] at returned
    cases returned
  · intro small
    refine ⟨expression.items.size + 1, fun fuel enough => ?_⟩
    rw [result enough]
    exact if_pos small

/-- One digit is a constant. -/
theorem decimal_digit {char : Char} (digit : char ∈ decimalDigits)
    (small : digitsValue 10 [char] < 2 ^ 31) :
    (Expression.operand .number [char]).Decimal :=
  ⟨rfl, List.cons_ne_nil char [],
    fun _ member => List.mem_singleton.mp member ▸ digit, by simp, small⟩

/-- `1 + 2*3` is 7. -/
theorem decimal_returns_at_seven :
    ∃ value, (Expression.binary .plus (.operand .number ['1'])
        (.binary .times (.operand .number ['2'])
          (.operand .number ['3']))).value
            ⟨0, ⟨fun _ => 0, fun _ => 0, rfl⟩, fun _ => none⟩ = some value ∧
      (Returns ⟨0, ⟨fun _ => 0, fun _ => 0, rfl⟩, fun _ => none⟩
          ['1', ' ', '+', ' ', '2', '*', '3'] (value, true) ↔
        5 ≤ tokensSize) :=
  decimal_returns_iff ⟨0, ⟨fun _ => 0, fun _ => 0, rfl⟩, fun _ => none⟩
    (show (Expression.binary .plus (.operand .number ['1'])
      (.binary .times (.operand .number ['2'])
        (.operand .number ['3']))).Decimal from
      ⟨decimal_digit (by decide) (by decide),
        decimal_digit (by decide) (by decide),
        decimal_digit (by decide) (by decide)⟩)
    (by decide) (by simp [Expression.DividesByZero])
    (by simp [Expression.Overflows])
    (show Spelled [⟨.number, ['1']⟩, ⟨.plus, ['+']⟩, ⟨.number, ['2']⟩,
        ⟨.times, ['*']⟩, ⟨.number, ['3']⟩] (['1'] ++ ' ' :: (['+'] ++ ' ' ::
        (['2'] ++ (['*'] ++ (['3'] ++ []))))) from
      .token (.space (.token (.space (.token (.token (.token .nil)))))))

/-! ## Too many tokens -/

/-- `1+1+…+1` with `count` signs. -/
def ones : Nat → Expression
  | 0 => .operand .number ['1']
  | count + 1 => .binary .plus (ones count) (.operand .number ['1'])

theorem level_ones (count : Nat) : (ones count).level ≤ 3 := by
  cases count with
  | zero => exact Nat.zero_le 3
  | succ count => exact Nat.le_refl 3

theorem ones_wellFormed (count : Nat) : (ones count).WellFormed := by
  induction count with
  | zero => trivial
  | succ count inductionHypothesis =>
      exact ⟨level_ones count, by decide, inductionHypothesis, trivial⟩

theorem ones_decimal (count : Nat) : (ones count).Decimal := by
  have one : (Expression.operand .number ['1']).Decimal :=
    decimal_digit (by decide) (by decide)
  induction count with
  | zero => exact one
  | succ count inductionHypothesis => exact ⟨inductionHypothesis, one⟩

theorem ones_not_dividesByZero (machine : Machine) (count : Nat) :
    ¬(ones count).DividesByZero machine := by
  induction count with
  | zero => exact id
  | succ count inductionHypothesis =>
      rintro (⟨isSlash, -⟩ | divides | divides)
      · cases isSlash
      · exact inductionHypothesis divides
      · exact divides

theorem ones_not_overflows (machine : Machine) (count : Nat) :
    ¬(ones count).Overflows machine := by
  induction count with
  | zero => exact id
  | succ count inductionHypothesis =>
      rintro (⟨isSlash, -⟩ | overflows | overflows)
      · cases isSlash
      · exact inductionHypothesis overflows
      · exact overflows

theorem length_ones (count : Nat) :
    (ones count).unmarked.length = 2 * count + 1 := by
  induction count with
  | zero => rfl
  | succ count inductionHypothesis =>
      simp only [ones, Expression.unmarked, List.length_append,
        List.length_cons, List.length_nil, inductionHypothesis]
      omega

/-- The tokens without any spaces. -/
theorem spelled_flatMap (tokens : List Token) :
    Spelled tokens (tokens.flatMap Token.str) := by
  induction tokens with
  | nil => exact .nil
  | cons token rest inductionHypothesis =>
      rw [List.flatMap_cons]
      exact .token inductionHypothesis

/-- A sum of 50001 ones has one token too many. -/
theorem decimal_not_returns_at_long_sum :
    ¬∀ (machine : Machine) (expression : Expression) (e : List Char),
      expression.Decimal → expression.WellFormed →
      ¬expression.DividesByZero machine → ¬expression.Overflows machine →
      Spelled expression.unmarked e →
      ∃ value, expression.value machine = some value ∧
        Returns machine e (value, true) := by
  intro always
  let zero : Machine := ⟨0, ⟨fun _ => 0, fun _ => 0, rfl⟩, fun _ => none⟩
  obtain ⟨many, isMany⟩ : ∃ many, many = 50000 := ⟨_, rfl⟩
  have spelled := spelled_flatMap (ones many).unmarked
  obtain ⟨value, isValue, enough, returns⟩ := always zero (ones many) _
    (ones_decimal many) (ones_wellFormed many)
    (ones_not_dividesByZero zero many) (ones_not_overflows zero many) spelled
  have enoughDepth : (ones many).items.size <
      max enough ((ones many).items.size + 1) := le_max_right enough _
  have returned := returns _ (le_max_left enough ((ones many).items.size + 1))
  rw [expr_of_spelled zero (ones_decimal many) (ones_wellFormed many)
    (ones_not_dividesByZero zero many) isValue spelled enoughDepth, if_neg]
    at returned
  · cases returned
  · rw [length_ones, tokensSize]
    omega

end Ysyx.Sdb
