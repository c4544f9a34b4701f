import Ysyx.Sdb.Grammar
import Mathlib.Algebra.Ring.Parity

/-!
# Chains of unary operators

Which sequences of unary operators `eval` applies in full.
-/

namespace Ysyx.Sdb

open Nemu (Word)

/-- The operators in front of an operand. -/
def unaryChain (ops : List UnaryOp) (operand : Expression) : Expression :=
  ops.foldr Expression.unary operand

/-- All of the operators applied, the last one first. -/
def applyAll (machine : Machine) (ops : List UnaryOp) (value : Word) :
    Option Word :=
  ops.foldr (fun op chain => chain.bind (op.apply machine)) (some value)

/-- The expression stands alone, in parentheses or as an operand of binary
operators; with this value for it the second expression has that result. -/
inductive Within (machine : Machine) (inner : Expression) (value : Word) :
    Expression → Word → Prop where
  | alone : Within machine inner value inner value
  | paren {e : Expression} {result : Word}
      (within : Within machine inner value e result) :
      Within machine inner value (.paren e) result
  | left {op : BinaryOp} {left right : Expression} {result other whole : Word}
      (within : Within machine inner value left result)
      (evals : EvalsTo machine right.tokens other)
      (computes : evalBinary op.type result other = .ok whole) :
      Within machine inner value (.binary op left right) whole
  | right {op : BinaryOp} {left right : Expression} {result other whole : Word}
      (evals : EvalsTo machine left.tokens other)
      (within : Within machine inner value right result)
      (computes : evalBinary op.type other result = .ok whole) :
      Within machine inner value (.binary op left right) whole

section Chains

variable {machine : Machine} {operand inner e : Expression}
variable {value result : Word} {outer : List UnaryOp} {innermost : UnaryOp}

theorem level_unaryChain :
    (unaryChain (outer ++ [innermost]) operand).level = 1 := by
  cases outer <;> rfl

theorem wellFormed_unaryChain (primary : operand.level = 0)
    (wellFormed : operand.WellFormed) :
    (unaryChain (outer ++ [innermost]) operand).WellFormed := by
  induction outer with
  | nil => exact ⟨primary.le.trans (Nat.zero_le 1), wellFormed⟩
  | cons op rest inductionHypothesis =>
      exact ⟨level_unaryChain.le, inductionHypothesis⟩

theorem wellFormed_operand
    (wellFormed : (unaryChain (outer ++ [innermost]) operand).WellFormed) :
    operand.WellFormed := by
  induction outer with
  | nil => exact wellFormed.2
  | cons op rest inductionHypothesis => exact inductionHypothesis wellFormed.2

/-- Only the innermost operator is applied. -/
theorem evalValue_unaryChain (primary : operand.level = 0) :
    (unaryChain (outer ++ [innermost]) operand).evalValue machine =
      (operand.evalValue machine).bind (innermost.apply machine) := by
  induction outer with
  | nil =>
      show (Expression.unary innermost operand).evalValue machine = _
      rw [Expression.evalValue, if_neg (by rw [primary]; decide)]
  | cons op rest inductionHypothesis =>
      show (Expression.unary op
        (unaryChain (rest ++ [innermost]) operand)).evalValue machine = _
      rw [Expression.evalValue, if_pos level_unaryChain, inductionHypothesis]

theorem applyAll_cons (op : UnaryOp) (ops : List UnaryOp) :
    applyAll machine (op :: ops) value =
      (applyAll machine ops value).bind (op.apply machine) := rfl

theorem applyAll_concat :
    applyAll machine (outer ++ [innermost]) value =
      (innermost.apply machine value).bind (applyAll machine outer) := by
  induction outer with
  | nil =>
      show innermost.apply machine value = _
      cases innermost.apply machine value <;> rfl
  | cons op rest inductionHypothesis =>
      rw [List.cons_append, applyAll_cons, inductionHypothesis,
        Option.bind_assoc]
      rfl

theorem applyAll_negative (negative : ∀ op ∈ outer, op = .negative) :
    applyAll machine outer value =
      some (if Even outer.length then value else -value) := by
  induction outer with
  | nil => simp [applyAll]
  | cons op rest inductionHypothesis =>
      obtain ⟨rfl, restNegative⟩ := List.forall_mem_cons.mp negative
      rw [applyAll_cons, inductionHypothesis restNegative]
      by_cases even : Even rest.length
      · simp [Nat.even_add_one, even, UnaryOp.apply]
      · simp [Nat.even_add_one, even, UnaryOp.apply]

theorem Within.wellFormed (within : Within machine inner value e result)
    (wellFormed : e.WellFormed) : inner.WellFormed := by
  induction within with
  | alone => exact wellFormed
  | paren _ inductionHypothesis => exact inductionHypothesis wellFormed
  | left _ _ _ inductionHypothesis => exact inductionHypothesis wellFormed.2.2.1
  | right _ _ _ inductionHypothesis => exact inductionHypothesis wellFormed.2.2.2

/-- What is around an expression does not depend on how it got its value. -/
theorem Within.evalValue_eq (within : Within machine inner value e result)
    (wellFormed : e.WellFormed)
    (isValue : inner.evalValue machine = some value) :
    e.evalValue machine = some result := by
  induction within with
  | alone => exact isValue
  | paren _ inductionHypothesis => exact inductionHypothesis wellFormed
  | left _ evals computes inductionHypothesis =>
      obtain ⟨-, -, leftFormed, rightFormed⟩ := wellFormed
      rw [Expression.evalValue, inductionHypothesis leftFormed,
        (Expression.evalsTo_iff machine rightFormed).mp evals]
      exact congrArg Except.toOption computes
  | right evals _ computes inductionHypothesis =>
      obtain ⟨-, -, leftFormed, rightFormed⟩ := wellFormed
      rw [Expression.evalValue, inductionHypothesis rightFormed,
        (Expression.evalsTo_iff machine leftFormed).mp evals]
      exact congrArg Except.toOption computes

end Chains

/-! ## A machine that tells the chains apart -/

/-- Address 5 holds 1 and all others hold 2. -/
def probe : Machine where
  pc := 0
  cpu := ⟨fun _ => 0, fun _ => 0, rfl⟩
  paddrRead addr := some (if addr = 5 then 1 else 2)

/-- The values that reads and signs can give. -/
def probed : List Word := [1, 2, -1, -2]

section Probe

variable {ops : List UnaryOp} {value start : Word}

theorem neg_mem_probed (member : value ∈ probed) : -value ∈ probed := by
  simp only [probed, List.mem_cons, List.not_mem_nil, or_false] at member
  rcases member with rfl | rfl | rfl | rfl <;> decide

theorem exists_applyAll (ops : List UnaryOp) (value : Word) :
    ∃ chain, applyAll probe ops value = some chain := by
  induction ops with
  | nil => exact ⟨value, rfl⟩
  | cons op rest inductionHypothesis =>
      obtain ⟨chain, isChain⟩ := inductionHypothesis
      rw [applyAll_cons, isChain]
      cases op <;> exact ⟨_, rfl⟩

theorem applyAll_mem_probed (deref : .pointerDeref ∈ ops) :
    ∃ chain ∈ probed, applyAll probe ops value = some chain := by
  induction ops with
  | nil => cases deref
  | cons op rest inductionHypothesis =>
      cases op with
      | negative =>
          have later : .pointerDeref ∈ rest := by simpa using deref
          obtain ⟨chain, member, isChain⟩ := inductionHypothesis later
          exact ⟨-chain, neg_mem_probed member,
            by rw [applyAll_cons, isChain]; rfl⟩
      | pointerDeref =>
          obtain ⟨chain, isChain⟩ := exists_applyAll rest value
          refine ⟨if chain = 5 then 1 else 2, ?_,
            by rw [applyAll_cons, isChain]; rfl⟩
          split <;> decide

theorem applyAll_mem_of_mem (member : value ∈ probed) :
    ∃ chain ∈ probed, applyAll probe ops value = some chain := by
  by_cases deref : .pointerDeref ∈ ops
  · exact applyAll_mem_probed deref
  · have negative : ∀ op ∈ ops, op = .negative := by
      intro op isOp
      cases op with
      | negative => rfl
      | pointerDeref => exact absurd isOp deref
    refine ⟨_, ?_, applyAll_negative negative⟩
    split
    · exact member
    · exact neg_mem_probed member

/-- Another read gives 2. -/
theorem applyAll_of_deref (deref : .pointerDeref ∈ ops)
    (member : value ∈ probed) :
    applyAll probe ops value = some 2 ∨
      applyAll probe ops value = some (-2) := by
  induction ops with
  | nil => cases deref
  | cons op rest inductionHypothesis =>
      rw [applyAll_cons]
      cases op with
      | negative =>
          have later : .pointerDeref ∈ rest := by simpa using deref
          rcases inductionHypothesis later with two | minusTwo
          · exact .inr (by rw [two]; rfl)
          · exact .inl (by rw [minusTwo]; rfl)
      | pointerDeref =>
          obtain ⟨chain, inner, isChain⟩ :=
            applyAll_mem_of_mem member
          have notFive : chain ≠ 5 := by
            rintro rfl
            revert inner
            decide
          rw [isChain]
          exact .inl (congrArg some (if_neg notFive))

/-- A chain that adds nothing to its innermost operator is an even number of
signs. -/
theorem negative_of_applyAll_eq {innermost : UnaryOp}
    (isStart : innermost.apply probe 5 = some start)
    (same : applyAll probe ops start = some start) :
    (∀ op ∈ ops, op = .negative) ∧ Even ops.length := by
  have noDeref : .pointerDeref ∉ ops := by
    intro deref
    cases innermost with
    | negative =>
        obtain rfl : -5 = start := Option.some.inj isStart
        obtain ⟨chain, member, isChain⟩ :=
          applyAll_mem_probed deref
        obtain rfl : -5 = chain := Option.some.inj (same.symm.trans isChain)
        revert member
        decide
    | pointerDeref =>
        obtain rfl : 1 = start := Option.some.inj isStart
        rcases applyAll_of_deref deref (show (1 : Word) ∈ probed by decide) with
          two | minusTwo
        · exact absurd (same.symm.trans two) (by decide)
        · exact absurd (same.symm.trans minusTwo) (by decide)
  have negative : ∀ op ∈ ops, op = .negative := by
    intro op isOp
    cases op with
    | negative => rfl
    | pointerDeref => exact absurd isOp noDeref
  refine ⟨negative, ?_⟩
  by_contra odd
  rw [applyAll_negative negative, if_neg odd] at same
  cases innermost <;> cases isStart <;> revert same <;> decide

end Probe

/-- The operand of every chain. -/
def five : Expression := .operand .number ['5']

theorem evalsTo_five : EvalsTo probe five.tokens 5 :=
  (Expression.evalsTo_iff probe
    (show five.WellFormed from trivial)).mpr rfl

/-- `eval` applies all the operators in front of an operand, wherever this
stands, if and only if those in front of the innermost one are an even number
of signs. -/
theorem unary_chain_iff (outer : List UnaryOp) (innermost : UnaryOp) :
    (∀ (machine : Machine) (operand : Expression) (value chain : Word)
        (e : Expression) (result : Word),
      operand.level = 0 → EvalsTo machine operand.tokens value →
      applyAll machine (outer ++ [innermost]) value = some chain →
      e.WellFormed →
      Within machine (unaryChain (outer ++ [innermost]) operand) chain e
        result →
      EvalsTo machine e.tokens result) ↔
      (∀ op ∈ outer, op = .negative) ∧ Even outer.length := by
  constructor
  · intro always
    have primary : five.level = 0 := rfl
    have chainFormed :
        (unaryChain (outer ++ [innermost]) five).WellFormed :=
      wellFormed_unaryChain primary trivial
    obtain ⟨chain, isChain⟩ := exists_applyAll (outer ++ [innermost]) 5
    have evals := always probe five 5 chain _ _ primary evalsTo_five
      isChain chainFormed .alone
    have value := (Expression.evalsTo_iff probe chainFormed).mp evals
    rw [evalValue_unaryChain primary] at value
    have isStart : innermost.apply probe 5 = some chain := value
    rw [applyAll_concat, isStart] at isChain
    exact negative_of_applyAll_eq isStart isChain
  · rintro ⟨negative, even⟩ machine operand value chain e result primary evals
      isChain wellFormed within
    have chainFormed := within.wellFormed wellFormed
    have isValue : operand.evalValue machine = some value :=
      (Expression.evalsTo_iff machine (wellFormed_operand chainFormed)).mp evals
    rw [applyAll_concat] at isChain
    obtain ⟨start, isStart, isSame⟩ := Option.bind_eq_some_iff.mp isChain
    rw [applyAll_negative negative, if_pos even] at isSame
    have chainValue :
        (unaryChain (outer ++ [innermost]) operand).evalValue machine =
          some chain := by
      rw [evalValue_unaryChain primary, isValue, ← isSame]
      exact isStart
    exact (Expression.evalsTo_iff machine wellFormed).mpr
      (within.evalValue_eq wellFormed chainValue)

/-- `--5` is -5. -/
theorem two_signs_give_one :
    ¬∀ (ops : List UnaryOp) (machine : Machine) (operand : Expression)
        (value chain : Word) (e : Expression) (result : Word),
      ops ≠ [] → operand.level = 0 → EvalsTo machine operand.tokens value →
      applyAll machine ops value = some chain → e.WellFormed →
      Within machine (unaryChain ops operand) chain e result →
      EvalsTo machine e.tokens result := by
  intro always
  have chainFormed : (unaryChain [.negative, .negative] five).WellFormed := by
    decide
  have evals := always [.negative, .negative] probe five 5 5 _ _ (by decide) rfl
    evalsTo_five rfl chainFormed .alone
  have value := (Expression.evalsTo_iff probe chainFormed).mp evals
  revert value
  decide

end Ysyx.Sdb
