import Ysyx.Sdb.Registers

/-!
# Well-formed expressions

Expressions as trees with the precedence of C, the tokens that spell them, and
the value that `eval` gives for them.
-/

namespace Ysyx.Sdb

open Nemu (Word)

inductive OperandKind where
  | number | hex | reg
  deriving DecidableEq, Repr

inductive UnaryOp where
  | negative | pointerDeref
  deriving DecidableEq, Repr

inductive BinaryOp where
  | plus | minus | times | slash | eq | noeq | and | or
  deriving DecidableEq, Repr

inductive Expression where
  | operand (kind : OperandKind) (str : List Char)
  | paren (inner : Expression)
  | unary (op : UnaryOp) (inner : Expression)
  | binary (op : BinaryOp) (left right : Expression)
  deriving DecidableEq, Repr

/-! ## Tokens -/

def OperandKind.type : OperandKind → TokenType
  | number => .number
  | hex => .hex
  | reg => .reg

def UnaryOp.type : UnaryOp → TokenType
  | negative => .negative
  | pointerDeref => .pointerDeref

/-- The type before the unary operators are marked. -/
def UnaryOp.unmarked : UnaryOp → TokenType
  | negative => .minus
  | pointerDeref => .times

def UnaryOp.str : UnaryOp → List Char
  | negative => ['-']
  | pointerDeref => ['*']

def BinaryOp.type : BinaryOp → TokenType
  | plus => .plus
  | minus => .minus
  | times => .times
  | slash => .slash
  | eq => .eq
  | noeq => .noeq
  | and => .and
  | or => .or

def BinaryOp.str : BinaryOp → List Char
  | plus => ['+']
  | minus => ['-']
  | times => ['*']
  | slash => ['/']
  | eq => ['=', '=']
  | noeq => ['!', '=']
  | and => ['&', '&']
  | or => ['|', '|']

def UnaryOp.token (op : UnaryOp) : Token := ⟨op.type, op.str⟩

def BinaryOp.token (op : BinaryOp) : Token := ⟨op.type, op.str⟩

def leftParen : Token := ⟨.lparen, ['(']⟩

def rightParen : Token := ⟨.rparen, [')']⟩

namespace Expression

/-- The tokens of an expression with the unary operators marked. -/
def items : Expression → Items Token
  | operand kind str => .leaf ⟨kind.type, str⟩ .nil
  | paren inner => .group leftParen inner.items rightParen .nil
  | unary op inner => .leaf op.token inner.items
  | binary op left right => left.items.append (.leaf op.token right.items)

def tokens (e : Expression) : List Token := e.items.flatten

/-- The tokens of an expression as `make_token` finds them. -/
def unmarked : Expression → List Token
  | operand kind str => [⟨kind.type, str⟩]
  | paren inner => leftParen :: (inner.unmarked ++ [rightParen])
  | unary op inner => ⟨op.unmarked, op.str⟩ :: inner.unmarked
  | binary op left right => left.unmarked ++ op.token :: right.unmarked

end Expression

/-! ## Precedence -/

/-- The precedence in C, from `*` and `/` at 2 to `||` at 6. -/
def BinaryOp.level : BinaryOp → Nat
  | times | slash => 2
  | plus | minus => 3
  | eq | noeq => 4
  | and => 5
  | or => 6

namespace Expression

/-- The level of the outermost operator. -/
def level : Expression → Nat
  | operand _ _ | paren _ => 0
  | unary _ _ => 1
  | binary op _ _ => op.level

/-- The tree is the one that C reads: operators that bind closer stand below,
and binary operators of one level associate to the left. -/
def WellFormed : Expression → Prop
  | operand _ _ => True
  | paren inner => inner.WellFormed
  | unary _ inner => inner.level ≤ 1 ∧ inner.WellFormed
  | binary op left right =>
      left.level ≤ op.level ∧ right.level < op.level ∧
        left.WellFormed ∧ right.WellFormed

instance decidableWellFormed : (e : Expression) → Decidable e.WellFormed
  | operand _ _ => inferInstanceAs (Decidable True)
  | paren inner => decidableWellFormed inner
  | unary _ inner =>
      have := decidableWellFormed inner
      inferInstanceAs (Decidable (_ ∧ _))
  | binary _ left right =>
      have := decidableWellFormed left
      have := decidableWellFormed right
      inferInstanceAs (Decidable (_ ∧ _ ∧ _ ∧ _))

end Expression

/-! ## Values -/

/-- The value of a unary operator; only some addresses can be read. -/
def UnaryOp.apply (machine : Machine) : UnaryOp → Word → Option Word
  | negative, value => some (-value)
  | pointerDeref, value => machine.paddrRead value

/-- The value of a binary operator in C on wrapping `int`s; not every quotient
has one. -/
def BinaryOp.apply : BinaryOp → Word → Word → Option Word
  | plus, left, right => some (left + right)
  | minus, left, right => some (left - right)
  | times, left, right => some (left * right)
  | slash, left, right =>
      if right = 0 ∨ left = intMin ∧ right = -1 then none
      else some (left.sdiv right)
  | eq, left, right => some (if left = right then 1 else 0)
  | noeq, left, right => some (if left = right then 0 else 1)
  | and, left, right => some (if left = 0 ∨ right = 0 then 0 else 1)
  | or, left, right => some (if left = 0 ∧ right = 0 then 0 else 1)

def OperandKind.value (machine : Machine) (str : List Char) :
    OperandKind → Word
  | number => strtol 10 str
  | hex => strtol 16 (str.drop 2)
  | reg => ((registerNamed str).map (Register.value machine)).getD 0

namespace Expression

/-- The value of an expression. -/
def value (machine : Machine) : Expression → Option Word
  | operand kind str => some (kind.value machine str)
  | paren inner => inner.value machine
  | unary op inner => (inner.value machine).bind (op.apply machine)
  | binary op left right =>
      (left.value machine).bind fun val1 =>
        (right.value machine).bind fun val2 => op.apply val1 val2

/-- Both sides of every operator are evaluated, and a divisor is 0. -/
def DividesByZero (machine : Machine) : Expression → Prop
  | operand _ _ => False
  | paren inner => inner.DividesByZero machine
  | unary _ inner => inner.DividesByZero machine
  | binary op left right =>
      op = .slash ∧ right.value machine = some 0 ∨
        left.DividesByZero machine ∨ right.DividesByZero machine

/-- `INT_MIN` is divided by -1. -/
def Overflows (machine : Machine) : Expression → Prop
  | operand _ _ => False
  | paren inner => inner.Overflows machine
  | unary _ inner => inner.Overflows machine
  | binary op left right =>
      (op = .slash ∧ left.value machine = some intMin ∧
          right.value machine = some (-1)) ∨
        left.Overflows machine ∨ right.Overflows machine

/-- What `eval` computes: of several unary operators in front of one operand
only the last is applied. -/
def evalValue (machine : Machine) : Expression → Option Word
  | operand kind str => some (evalToken machine ⟨kind.type, str⟩)
  | paren inner => inner.evalValue machine
  | unary op inner =>
      if inner.level = 1 then inner.evalValue machine
      else (inner.evalValue machine).bind (op.apply machine)
  | binary op left right =>
      (left.evalValue machine).bind fun val1 =>
        (right.evalValue machine).bind fun val2 =>
          (evalBinary op.type val1 val2).toOption

/-! ## Shape -/

theorem operand_not_paren (kind : OperandKind) :
    kind.type ≠ .lparen ∧ kind.type ≠ .rparen := by
  cases kind <;> decide

theorem unary_not_paren (op : UnaryOp) :
    op.type ≠ .lparen ∧ op.type ≠ .rparen := by
  cases op <;> decide

theorem binary_not_paren (op : BinaryOp) :
    op.type ≠ .lparen ∧ op.type ≠ .rparen := by
  cases op <;> decide

theorem items_closed (e : Expression) : e.items.Closed Opens Closes := by
  induction e with
  | operand kind str =>
      obtain ⟨notOpens, notCloses⟩ := operand_not_paren kind
      exact ⟨notOpens, notCloses, trivial⟩
  | paren inner inductionHypothesis =>
      exact ⟨rfl, inductionHypothesis, rfl, trivial⟩
  | unary op inner inductionHypothesis =>
      obtain ⟨notOpens, notCloses⟩ := unary_not_paren op
      exact ⟨notOpens, notCloses, inductionHypothesis⟩
  | binary op left right leftHypothesis rightHypothesis =>
      rw [items, Items.closed_append]
      obtain ⟨notOpens, notCloses⟩ := binary_not_paren op
      exact ⟨leftHypothesis, notOpens, notCloses, rightHypothesis⟩

theorem size_pos (e : Expression) : 0 < e.items.size := by
  cases e with
  | operand => exact Nat.one_pos
  | paren => simp [items]
  | unary => simp [items]
  | binary =>
      rw [items, Items.size_append, Items.size_leaf]
      omega

theorem two_le_level (op : BinaryOp) : 2 ≤ op.level := by
  cases op <;> decide

theorem level_token (op : BinaryOp) : op.token.level = some op.level := by
  cases op <;> rfl

/-- All operators of an expression are below its outermost one. -/
theorem items_below {e : Expression} (wellFormed : e.WellFormed) :
    e.items.Below Token.level (e.level + 1) := by
  induction e with
  | operand kind str =>
      refine ⟨fun value isLevel => ?_, trivial⟩
      cases kind <;> cases isLevel <;> exact Nat.one_pos
  | paren inner => trivial
  | unary op inner inductionHypothesis =>
      obtain ⟨innerLevel, innerFormed⟩ := wellFormed
      refine ⟨fun value isLevel => ?_,
        (inductionHypothesis innerFormed).mono (by simpa [level] using innerLevel)⟩
      cases op <;> cases isLevel <;> exact Nat.lt_succ_self 1
  | binary op left right leftHypothesis rightHypothesis =>
      obtain ⟨leftLevel, rightLevel, leftFormed, rightFormed⟩ := wellFormed
      rw [items, Items.below_append]
      refine ⟨(leftHypothesis leftFormed).mono (by simpa [level] using leftLevel),
        fun value isLevel => ?_, (rightHypothesis rightFormed).mono ?_⟩
      · rw [level_token] at isLevel
        cases isLevel
        exact Nat.lt_succ_self _
      · rw [level]
        omega

/-- The outermost binary operator splits the tokens. -/
theorem splits_binary {op : BinaryOp} {left right : Expression}
    (wellFormed : (binary op left right).WellFormed) :
    (binary op left right).items.Splits Token.level left.items op.token
      right.items op.level := by
  obtain ⟨leftLevel, rightLevel, leftFormed, rightFormed⟩ := wellFormed
  exact ⟨rfl, level_token op, (items_below leftFormed).mono (by omega),
    (items_below rightFormed).mono rightLevel⟩

/-- The last of several unary operators splits the tokens. -/
theorem exists_splits_unary {op : UnaryOp} {inner : Expression}
    (wellFormed : (unary op inner).WellFormed) :
    ∃ (left : Items Token) (last : UnaryOp) (right : Items Token),
      (unary op inner).items.Splits Token.level left last.token right 1 := by
  induction inner generalizing op with
  | operand kind str =>
      refine ⟨.nil, op, _, rfl, by cases op <;> rfl, trivial, ?_⟩
      exact items_below wellFormed.2
  | paren inner =>
      exact ⟨.nil, op, _, rfl, by cases op <;> rfl, trivial, trivial⟩
  | unary next inner inductionHypothesis =>
      obtain ⟨left, last, right, splits⟩ := inductionHypothesis wellFormed.2
      refine ⟨.leaf op.token left, last, right, ?_, splits.level_eq,
        ⟨fun value isLevel => ?_, splits.left_below⟩, splits.right_below⟩
      · rw [items, splits.eq, Items.append]
      · cases op <;> cases isLevel <;> decide
  | binary inner left right =>
      exact absurd (wellFormed.1.trans_lt (two_le_level inner))
        (Nat.lt_irrefl _)

/-! ## Evaluation -/

section Eval

variable (machine : Machine) {tokens : List Token} {p : Nat}

/-- A unary operator in front of another one is passed over. -/
theorem eval_unary_unary {op next : UnaryOp} {inner : Expression}
    (wellFormed : (unary op (unary next inner)).WellFormed)
    (stands : At tokens p (unary op (unary next inner)).items) (fuel : Nat) :
    eval machine tokens (fuel + 1) p (unary op (unary next inner)).items.size =
      eval machine tokens (fuel + 1) (p + 1) (unary next inner).items.size := by
  obtain ⟨left, last, right, splits⟩ := exists_splits_unary wellFormed.2
  have outer : (unary op (unary next inner)).items.Splits Token.level
      (.leaf op.token left) last.token right 1 := by
    refine ⟨?_, splits.level_eq, ⟨fun value isLevel => ?_, splits.left_below⟩,
      splits.right_below⟩
    · rw [items, splits.eq, Items.append]
    · cases op <;> cases isLevel <;> decide
  have innerSize := inner.size_pos
  rw [eval_splits machine (items_closed _).shaped stands outer
      (by simp [items]),
    eval_splits machine (items_closed _).shaped stands.tail splits
      (by simp [items]; omega), Items.size_leaf,
    show p + (left.size + 1) + 1 = p + 1 + left.size + 1 by omega]
  cases last <;> rfl

theorem toOption_bind {α β : Type} (result : Except Stop α)
    (next : α → Except Stop β) :
    (result >>= next).toOption =
      result.toOption.bind fun value => (next value).toOption := by
  cases result <;> rfl

theorem toOption_unary (op : UnaryOp) (value : Word) :
    (if op.token.type = .negative then (return -value : Except Stop Word)
      else machine.deref value).toOption = op.apply machine value := by
  cases op with
  | negative => rfl
  | pointerDeref =>
      rw [if_neg (by decide), Machine.deref, UnaryOp.apply]
      cases machine.paddrRead value <;> rfl

/-- `eval` on the tokens of an expression. -/
theorem eval_items {e : Expression} (wellFormed : e.WellFormed)
    (stands : At tokens p e.items) {fuel : Nat} (enough : e.items.size < fuel) :
    (eval machine tokens fuel p e.items.size).toOption =
      e.evalValue machine := by
  induction e generalizing p fuel with
  | operand kind str =>
      obtain ⟨depth, rfl, -⟩ := exists_depth enough
      exact congrArg Except.toOption (eval_leaf machine stands depth)
  | paren inner inductionHypothesis =>
      have size : (paren inner).items.size = inner.items.size + 2 := by
        simp [items]
      obtain ⟨depth, rfl, room⟩ := exists_depth enough
      rw [size, eval_group machine (items_closed (paren inner)).shaped stands,
        inductionHypothesis wellFormed stands.inner (by omega)]
      rfl
  | unary op inner inductionHypothesis =>
      obtain ⟨depth, rfl, room⟩ := exists_depth enough
      have size : (unary op inner).items.size = inner.items.size + 1 := rfl
      have innerSize := inner.size_pos
      by_cases chained : inner.level = 1
      · cases inner with
        | unary next operand =>
            rw [eval_unary_unary machine wellFormed stands, evalValue,
              if_pos chained]
            exact inductionHypothesis wellFormed.2 stands.tail (by omega)
        | operand => cases chained
        | paren => cases chained
        | binary op => cases op <;> cases chained
      · have innerLevel : inner.level + 1 ≤ 1 := by
          have := wellFormed.1
          omega
        have splits : (unary op inner).items.Splits Token.level .nil op.token
            inner.items 1 :=
          ⟨rfl, by cases op <;> rfl, trivial,
            (items_below wellFormed.2).mono innerLevel⟩
        rw [eval_splits machine (items_closed _).shaped stands splits (by omega),
          Items.size_nil, Nat.add_zero, toOption_bind,
          inductionHypothesis wellFormed.2 stands.tail (by omega), evalValue,
          if_neg chained]
        congr 1
        funext value
        rw [← toOption_unary machine op]
        cases op <;> rfl
  | binary op left right leftHypothesis rightHypothesis =>
      obtain ⟨depth, rfl, room⟩ := exists_depth enough
      have size : (binary op left right).items.size =
          left.items.size + (right.items.size + 1) := by
        rw [items, Items.size_append, Items.size_leaf]
      have leftSize := left.size_pos
      have binary : op.token.type ≠ .negative ∧
          op.token.type ≠ .pointerDeref := by
        cases op <;> decide
      rw [eval_splits machine (items_closed _).shaped stands
          (splits_binary wellFormed) (by omega), toOption_bind,
        rightHypothesis wellFormed.2.2.2 stands.append_right.tail (by omega),
        evalValue, Option.bind_comm]
      congr 1
      funext val2
      rw [if_neg binary.1, if_neg binary.2, toOption_bind,
        leftHypothesis wellFormed.2.2.1 stands.append_left (by omega)]
      rfl

theorem eval_eq_ok {e : Expression} (wellFormed : e.WellFormed)
    (stands : At tokens p e.items) {fuel : Nat} (enough : e.items.size < fuel)
    {value : Word} (isValue : e.evalValue machine = some value) :
    eval machine tokens fuel p e.items.size = .ok value := by
  have evaluated :=
    (eval_items machine wellFormed stands enough).trans isValue
  cases result : eval machine tokens fuel p e.items.size with
  | error stop => rw [result] at evaluated; cases evaluated
  | ok other =>
      rw [result] at evaluated
      exact congrArg _ (Option.some.inj evaluated)

/-- `eval` gives a well-formed expression this value, if any. -/
theorem evalsTo_iff {e : Expression} (wellFormed : e.WellFormed)
    {value : Word} :
    EvalsTo machine e.tokens value ↔ e.evalValue machine = some value := by
  constructor
  · rintro ⟨enough, returns⟩
    have depth : e.items.size < max enough (e.items.size + 1) := by omega
    have evaluated :=
      eval_items machine wellFormed (At.whole e.items) depth
    have returned := returns _ (le_max_left enough (e.items.size + 1))
    exact evaluated.symm.trans (congrArg Except.toOption returned)
  · intro isValue
    exact ⟨e.items.size + 1, fun fuel enough =>
      eval_eq_ok machine wellFormed (At.whole e.items) enough isValue⟩

end Eval

end Expression

theorem EvalsTo.unique {machine : Machine} {tokens : List Token}
    {value other : Word} (evals : EvalsTo machine tokens value)
    (evalsOther : EvalsTo machine tokens other) : value = other := by
  obtain ⟨enough, returns⟩ := evals
  obtain ⟨enoughOther, returnsOther⟩ := evalsOther
  have same := (returns (max enough enoughOther) (le_max_left _ _)).symm.trans
    (returnsOther (max enough enoughOther) (le_max_right _ _))
  exact Except.ok.inj same

end Ysyx.Sdb
