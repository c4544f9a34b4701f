import Ysyx.Sdb.Bounds
import Ysyx.Sdb.Grammar

/-!
# Unary or binary

Which `-` and `*` the loop in `expr` marks as unary.
-/

namespace Ysyx.Sdb

/-- A `-` or `*` after this token becomes unary. -/
def TakesUnary (before : Option TokenType) : Prop :=
  before ≠ some .rparen ∧ before ≠ some .number

instance : DecidablePred TakesUnary := fun _ =>
  inferInstanceAs (Decidable (_ ∧ _))

/-- One turn of the loop. -/
def markToken (before : Option TokenType) (token : Token) : Token :=
  ⟨if (token.type = .minus ∨ token.type = .times) ∧
      before ≠ some .rparen ∧ before ≠ some .number then
    if token.type = .times then .pointerDeref else .negative
  else token.type, token.str⟩

theorem markUnaryAfter_cons (before : Option TokenType) (token : Token)
    (rest : List Token) :
    markUnaryAfter before (token :: rest) =
      markToken before token ::
        markUnaryAfter (some (markToken before token).type) rest := rfl

/-- Only `-` and `*` change. -/
theorem markToken_of_other {before : Option TokenType} {token : Token}
    (other : token.type ≠ .minus ∧ token.type ≠ .times) :
    markToken before token = token := by
  simp [markToken, other.1, other.2]

theorem markToken_of_not_takes {before : Option TokenType} {token : Token}
    (notTakes : ¬TakesUnary before) : markToken before token = token := by
  rw [markToken, if_neg fun unary => notTakes unary.2]

/-- The mark of a token does not decide whether the next one is unary. -/
theorem takesUnary_markToken (before : Option TokenType) (token : Token) :
    TakesUnary (some (markToken before token).type) ↔
      TakesUnary (some token.type) := by
  obtain ⟨type, str⟩ := token
  by_cases takes : TakesUnary before
  · cases type <;> simp [TakesUnary, markToken, takes.1, takes.2]
  · rw [markToken_of_not_takes takes]

/-! ## Operand positions -/

/-- The operators, marked or not. -/
def IsOperator (type : TokenType) : Prop :=
  type ∈ [TokenType.plus, .minus, .times, .slash, .eq, .noeq, .and, .or,
    .negative, .pointerDeref]

instance : DecidablePred IsOperator := fun type =>
  inferInstanceAs (Decidable (type ∈ _))

/-- The start, and behind `(` or an operator. -/
def OperandPosition (tokens : List Token) : Nat → Prop
  | 0 => True
  | i + 1 => ∃ token, tokens[i]? = some token ∧
      (token.type = .lparen ∨ IsOperator token.type)

def IsUnary (type : TokenType) : Prop :=
  type = .negative ∨ type = .pointerDeref

/-- The type before the token at a place. -/
def typeBefore (before : Option TokenType) (tokens : List Token) :
    Nat → Option TokenType
  | 0 => before
  | i + 1 => tokens[i]?.map Token.type

/-- The token at each place is marked by the unmarked token before it. -/
theorem markUnaryAfter_getElem (before : Option TokenType)
    (tokens : List Token) (i : Nat) :
    ∃ previous,
      (TakesUnary previous ↔ TakesUnary (typeBefore before tokens i)) ∧
      (markUnaryAfter before tokens)[i]? =
        tokens[i]?.map (markToken previous) := by
  induction tokens generalizing before i with
  | nil => exact ⟨typeBefore before [] i, Iff.rfl, by simp [markUnaryAfter]⟩
  | cons token rest inductionHypothesis =>
      cases i with
      | zero => exact ⟨before, Iff.rfl, rfl⟩
      | succ i =>
          obtain ⟨previous, takes, marked⟩ :=
            inductionHypothesis (some (markToken before token).type) i
          refine ⟨previous, takes.trans ?_, ?_⟩
          · cases i with
            | zero => exact takesUnary_markToken before token
            | succ i => rfl
          · rw [markUnaryAfter_cons]
            exact marked

theorem isUnary_markToken {previous : Option TokenType} {token : Token}
    (either : token.type = .minus ∨ token.type = .times) :
    IsUnary (markToken previous token).type ↔ TakesUnary previous := by
  constructor
  · intro unary
    by_contra notTakes
    rw [markToken_of_not_takes notTakes] at unary
    rcases either with isMinus | isTimes
    · simp [IsUnary, isMinus] at unary
    · simp [IsUnary, isTimes] at unary
  · intro takes
    rw [markToken, if_pos ⟨either, takes⟩]
    split
    · exact .inr rfl
    · exact .inl rfl

/-- The first token is unary, and a later one by the token before it. -/
theorem isUnary_marked_zero {tokens : List Token} {token marked : Token}
    (isToken : tokens[0]? = some token)
    (isMarked : (markUnary tokens)[0]? = some marked)
    (either : token.type = .minus ∨ token.type = .times) :
    IsUnary marked.type := by
  obtain ⟨previous, takes, getElem⟩ := markUnaryAfter_getElem none tokens 0
  rw [markUnary, getElem, isToken, Option.map_some] at isMarked
  cases isMarked
  rw [isUnary_markToken either, takes, typeBefore]
  decide

theorem isUnary_marked_succ {tokens : List Token} {i : Nat}
    {before token marked : Token} (isBefore : tokens[i]? = some before)
    (isToken : tokens[i + 1]? = some token)
    (isMarked : (markUnary tokens)[i + 1]? = some marked)
    (either : token.type = .minus ∨ token.type = .times) :
    IsUnary marked.type ↔ TakesUnary (some before.type) := by
  obtain ⟨previous, takes, getElem⟩ :=
    markUnaryAfter_getElem none tokens (i + 1)
  rw [markUnary, getElem, isToken, Option.map_some] at isMarked
  cases isMarked
  rw [isUnary_markToken either, takes, typeBefore, isBefore, Option.map_some]

/-- What can stand in an expression before it is marked. -/
theorem Expression.unmarked_type (e : Expression) :
    ∀ token ∈ e.unmarked, token.type ≠ .notype := by
  induction e with
  | operand kind str =>
      intro token member
      obtain rfl := List.mem_singleton.mp member
      show kind.type ≠ .notype
      cases kind <;> decide
  | paren inner inductionHypothesis =>
      intro token member
      simp only [unmarked, List.mem_cons, List.mem_append, List.not_mem_nil,
        or_false] at member
      rcases member with rfl | member | rfl
      · decide
      · exact inductionHypothesis token member
      · decide
  | unary op inner inductionHypothesis =>
      intro token member
      rcases List.mem_cons.mp member with rfl | member
      · cases op <;> decide
      · exact inductionHypothesis token member
  | binary op left right leftHypothesis rightHypothesis =>
      intro token member
      simp only [unmarked, List.mem_append, List.mem_cons] at member
      rcases member with member | rfl | member
      · exact leftHypothesis token member
      · cases op <;> decide
      · exact rightHypothesis token member

theorem takesUnary_iff {type : TokenType} (notSpace : type ≠ .notype) :
    TakesUnary (some type) ↔
      (type = .lparen ∨ IsOperator type) ∨ type = .reg ∨ type = .hex := by
  cases type <;> simp_all [TakesUnary, IsOperator]

/-- In the tokens of an expression exactly the `-` and `*` in operand position
are marked as unary, if and only if none of them directly follows a register or
a hexadecimal number. -/
theorem marking_iff (e : Expression) :
    (∀ (i : Nat) (token marked : Token), e.unmarked[i]? = some token →
        (markUnary e.unmarked)[i]? = some marked →
        token.type = .minus ∨ token.type = .times →
        (IsUnary marked.type ↔ OperandPosition e.unmarked i)) ↔
      ∀ (i : Nat) (operand next : Token), e.unmarked[i]? = some operand →
        e.unmarked[i + 1]? = some next →
        operand.type = .reg ∨ operand.type = .hex →
        next.type ≠ .minus ∧ next.type ≠ .times := by
  constructor
  · intro agrees i operand next isOperand isNext isLiteral
    rw [← not_or]
    intro either
    have inside : i + 1 < (markUnary e.unmarked).length := by
      rw [length_markUnary]
      exact (List.getElem?_eq_some_iff.mp isNext).1
    have isMarked := List.getElem?_eq_getElem inside
    have unary := (isUnary_marked_succ isOperand isNext isMarked either).mpr
    obtain ⟨before, isBefore, opens⟩ :=
      (agrees (i + 1) next _ isNext isMarked either).mp (unary (by
        rcases isLiteral with isReg | isHex
        · rw [isReg]
          decide
        · rw [isHex]
          decide))
    rw [isOperand, Option.some.injEq] at isBefore
    subst isBefore
    rcases isLiteral with isReg | isHex
    · rw [isReg] at opens
      revert opens
      decide
    · rw [isHex] at opens
      revert opens
      decide
  · intro apart i token marked isToken isMarked either
    cases i with
    | zero =>
        exact iff_of_true (isUnary_marked_zero isToken isMarked either) trivial
    | succ i =>
        have inside : i < e.unmarked.length :=
          Nat.lt_of_succ_lt (List.getElem?_eq_some_iff.mp isToken).1
        have isBefore := List.getElem?_eq_getElem inside
        have notSpace := e.unmarked_type _ (List.getElem_mem inside)
        rw [isUnary_marked_succ isBefore isToken isMarked either,
          takesUnary_iff notSpace]
        have notLiteral : ¬(e.unmarked[i].type = .reg ∨
            e.unmarked[i].type = .hex) := by
          intro isLiteral
          have notEither := apart i _ token isBefore isToken isLiteral
          rcases either with isMinus | isTimes
          · exact notEither.1 isMinus
          · exact notEither.2 isTimes
        rw [or_iff_left notLiteral]
        constructor
        · exact fun opens => ⟨_, isBefore, opens⟩
        · rintro ⟨before, same, opens⟩
          rw [isBefore, Option.some.injEq] at same
          subst same
          exact opens

/-- In `$sp-4` the `-` counts as unary. -/
theorem marking_fails_at_sp_minus_four :
    ¬∀ (e : Expression), e.WellFormed →
      ∀ (i : Nat) (token marked : Token), e.unmarked[i]? = some token →
        (markUnary e.unmarked)[i]? = some marked →
        token.type = .minus ∨ token.type = .times →
        (IsUnary marked.type ↔ OperandPosition e.unmarked i) := by
  intro always
  have agrees := (always
    (.binary .minus (.operand .reg ['$', 's', 'p']) (.operand .number ['4']))
    (by decide) 1 ⟨.minus, ['-']⟩ ⟨.negative, ['-']⟩ rfl rfl (.inl rfl)).mp
    (.inl rfl)
  obtain ⟨before, same, opens⟩ := agrees
  cases same
  revert opens
  decide

/-! ## Marked expressions can be evaluated -/

/-- The type of the last token. -/
def Expression.lastType : Expression → TokenType
  | operand kind _ => kind.type
  | paren _ => .rparen
  | unary _ inner => inner.lastType
  | binary _ _ right => right.lastType

theorem markToken_level (before : Option TokenType) (op : BinaryOp) :
    (markToken before op.token).level ≠ none ∧
      TakesUnary (some (markToken before op.token).type) := by
  constructor
  · by_cases takes : TakesUnary before
    · cases op <;> simp [markToken, BinaryOp.token, BinaryOp.type, Token.level,
        level, takes.1, takes.2]
    · rw [markToken_of_not_takes takes, Expression.level_token]
      exact Option.some_ne_none _
  · rw [takesUnary_markToken]
    cases op <;> decide

theorem markToken_unary {before : Option TokenType} (takes : TakesUnary before)
    (op : UnaryOp) : markToken before ⟨op.unmarked, op.str⟩ = op.token := by
  cases op <;> simp [markToken, UnaryOp.unmarked, UnaryOp.token, UnaryOp.type,
    takes.1, takes.2]

theorem operand_not_minus (kind : OperandKind) :
    kind.type ≠ .minus ∧ kind.type ≠ .times := by
  cases kind <;> decide

theorem takesUnary_unary (op : UnaryOp) : TakesUnary (some op.type) := by
  cases op <;> decide

/-- However its operators are marked, an expression is a sequence that is ready
in front of everything but an operand. -/
theorem exists_ready (e : Expression) {before : Option TokenType}
    (takes : TakesUnary before) (rest : List Token) :
    ∃ items : Items Token, items.Closed Opens Closes ∧
      markUnaryAfter before (e.unmarked ++ rest) =
        items.flatten ++ markUnaryAfter (some e.lastType) rest ∧
      ∀ tail : Items Token, Apart tail → Ready tail →
        Ready (items.append tail) := by
  induction e generalizing before rest with
  | operand kind str =>
      have same : markToken before ⟨kind.type, str⟩ = ⟨kind.type, str⟩ :=
        markToken_of_other (operand_not_minus kind)
      refine ⟨.leaf ⟨kind.type, str⟩ .nil, (Expression.operand kind str).items_closed,
        ?_, fun tail apart ready => ⟨.inr (.inr apart), ready⟩⟩
      show markUnaryAfter before (⟨kind.type, str⟩ :: rest) = _
      rw [markUnaryAfter_cons, same]
      rfl
  | paren inner inductionHypothesis =>
      obtain ⟨items, closed, marked, ready⟩ := inductionHypothesis
        (show TakesUnary (some .lparen) by decide)
        (rightParen :: rest)
      refine ⟨.group leftParen items rightParen .nil, ⟨rfl, closed, rfl, trivial⟩,
        ?_, fun tail apart readyTail => ⟨.inr ⟨?_, apart⟩, readyTail⟩⟩
      · have openParen : markToken before leftParen = leftParen :=
          markToken_of_other (by decide)
        have closeParen : ∀ type, markToken type rightParen = rightParen :=
          fun type => markToken_of_other (by decide)
        show markUnaryAfter before
          (leftParen :: (inner.unmarked ++ [rightParen] ++ rest)) = _
        rw [markUnaryAfter_cons, openParen, List.append_assoc,
          List.singleton_append, show leftParen.type = .lparen from rfl, marked,
          markUnaryAfter_cons, closeParen]
        simp [Items.flatten, Expression.lastType, rightParen]
      · have alone := ready .nil trivial trivial
        rwa [Items.append_nil] at alone
  | unary op inner inductionHypothesis =>
      obtain ⟨items, closed, marked, ready⟩ := inductionHypothesis
        (takesUnary_unary op) rest
      obtain ⟨notOpens, notCloses⟩ := Expression.unary_not_paren op
      have isOperator : op.token.level ≠ none := by cases op <;> decide
      refine ⟨.leaf op.token items, ⟨notOpens, notCloses, closed⟩, ?_,
        fun tail apart readyTail => ⟨.inl isOperator, ready tail apart readyTail⟩⟩
      · show markUnaryAfter before
          (⟨op.unmarked, op.str⟩ :: (inner.unmarked ++ rest)) = _
        rw [markUnaryAfter_cons, markToken_unary takes]
        exact congrArg (op.token :: ·) marked
  | binary op left right leftHypothesis rightHypothesis =>
      obtain ⟨leftItems, leftClosed, leftMarked, leftReady⟩ :=
        leftHypothesis takes (op.token :: (right.unmarked ++ rest))
      obtain ⟨isOperator, takesRight⟩ :=
        markToken_level (some left.lastType) op
      obtain ⟨rightItems, rightClosed, rightMarked, rightReady⟩ :=
        rightHypothesis takesRight rest
      refine ⟨leftItems.append
        (.leaf (markToken (some left.lastType) op.token) rightItems), ?_, ?_, ?_⟩
      · rw [Items.closed_append]
        refine ⟨leftClosed, ?_, ?_, rightClosed⟩
        · intro opens
          exact isOperator (by rw [Token.level, opens]; rfl)
        · intro closes
          exact isOperator (by rw [Token.level, closes]; rfl)
      · rw [Expression.unmarked, List.append_assoc, List.cons_append, leftMarked,
          markUnaryAfter_cons, rightMarked]
        simp [Items.flatten, Expression.lastType]
      · intro tail apart readyTail
        rw [Items.append_assoc]
        exact leftReady _ isOperator
          ⟨.inl isOperator, rightReady tail apart readyTail⟩

/-- The tokens of an expression can be evaluated, unless a part of it faults. -/
theorem evaluable_marked {machine : Machine} {e : Expression}
    (noCrash : ¬Crashes machine (markUnary e.unmarked)) :
    Evaluable machine (markUnary e.unmarked) := by
  obtain ⟨items, closed, marked, ready⟩ :=
    exists_ready e (show TakesUnary none by decide) []
  have alone := ready .nil trivial trivial
  rw [Items.append_nil] at alone
  have flat : items.flatten = markUnary e.unmarked := by
    rw [List.append_nil] at marked
    rw [markUnary, marked]
    simp [markUnaryAfter]
  exact .inr ⟨items, closed.shaped, flat, alone,
    fun faults => noCrash ⟨items, closed.shaped, flat, faults⟩⟩

end Ysyx.Sdb
