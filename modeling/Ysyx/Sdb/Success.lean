import Ysyx.Sdb.Marking

/-!
# The success flag

When `*success` tells good texts from bad ones.
-/

namespace Ysyx.Sdb

open Nemu (Word)

/-- The text is a well-formed expression that does not divide by zero. -/
def IsExpression (machine : Machine) (e : List Char) : Prop :=
  ∃ expression : Expression, expression.WellFormed ∧
    expression.unmarked = words e ∧ ¬expression.DividesByZero machine

/-- `expr` returns, and `*success` is false exactly for a text that has no
tokens, is not a well-formed expression, or divides by zero. -/
def Truthful (machine : Machine) (e : List Char) : Prop :=
  ∃ value success, Returns machine e (value, success) ∧
    (success = false ↔ ¬Tokenisable e ∨ ¬IsExpression machine e)

/-- The flag is truthful if and only if the tokens fit, and a text that has
tokens throughout is a well-formed expression without a division by zero, of
which no part that is evaluated divides `INT_MIN` by -1 or reads where no memory
and no device is. -/
theorem success_truthful_iff (machine : Machine) (e : List Char) :
    Truthful machine e ↔
      Fits (words e) ∧ (Tokenisable e →
        IsExpression machine e ∧
          ¬Crashes machine (markUnary (words e))) := by
  constructor
  · rintro ⟨value, success, returns, truthful⟩
    obtain ⟨fits, accepted, evaluable⟩ := returns.success_iff
    refine ⟨fits, fun tokenisable => ⟨?_, (evaluable tokenisable).not_crashes⟩⟩
    by_contra bad
    have refused := truthful.mpr (.inr bad)
    rw [accepted.mpr tokenisable] at refused
    cases refused
  · rintro ⟨fits, good⟩
    by_cases tokenisable : Tokenisable e
    · obtain ⟨⟨expression, wellFormed, isText, noZero⟩, noCrash⟩ :=
        good tokenisable
      rw [← isText] at noCrash
      have evaluable := evaluable_marked noCrash
      rw [isText] at evaluable
      obtain ⟨value, returns⟩ :=
        exists_returns_of_evaluable fits tokenisable evaluable
      refine ⟨value, true, returns, iff_of_false Bool.noConfusion ?_⟩
      exact not_or.mpr ⟨fun untokenisable => untokenisable tokenisable,
        fun bad => bad ⟨expression, wellFormed, isText, noZero⟩⟩
    · exact ⟨0, false, returns_of_not_tokenisable fits tokenisable,
        iff_of_true rfl (.inl tokenisable)⟩

namespace Expression

theorem unmarked_ne_nil (e : Expression) : e.unmarked ≠ [] := by
  cases e <;> simp [unmarked]

/-- One token is an operand. -/
theorem eq_operand_of_unmarked {e : Expression} {token : Token}
    (single : e.unmarked = [token]) :
    ∃ kind str, e = operand kind str ∧ token = ⟨kind.type, str⟩ := by
  cases e with
  | operand kind str => exact ⟨kind, str, rfl, (List.singleton_inj.mp single).symm⟩
  | paren inner => simp [unmarked] at single
  | unary op inner => simp [unmarked, inner.unmarked_ne_nil] at single
  | binary op left right =>
      have := congrArg List.length single
      have leftLength := List.length_pos_iff.mpr left.unmarked_ne_nil
      simp [unmarked] at this
      omega

/-- The only expression with these tokens is a division by zero. -/
theorem dividesByZero_of_unmarked (machine : Machine) {e : Expression}
    (tokens : e.unmarked =
      [⟨.number, ['1']⟩, ⟨.slash, ['/']⟩, ⟨.number, ['0']⟩]) :
    e.DividesByZero machine := by
  cases e with
  | operand kind str => simp [unmarked] at tokens
  | paren inner => simp [unmarked, leftParen] at tokens
  | unary op inner => cases op <;> simp [unmarked, UnaryOp.unmarked] at tokens
  | binary op left right =>
      have leftLength := List.length_pos_iff.mpr left.unmarked_ne_nil
      have rightLength := List.length_pos_iff.mpr right.unmarked_ne_nil
      have lengths := congrArg List.length tokens
      simp only [unmarked, List.length_append, List.length_cons,
        List.length_nil] at lengths
      have leftOne : left.unmarked.length = 1 := by omega
      obtain ⟨first, isFirst⟩ := List.length_eq_one_iff.mp leftOne
      rw [unmarked, isFirst, List.singleton_append, List.cons.injEq,
        List.cons.injEq] at tokens
      obtain ⟨-, isSlash, isZero⟩ := tokens
      obtain ⟨kind, str, rfl, sameToken⟩ := eq_operand_of_unmarked isZero
      cases kind <;> cases sameToken
      cases op <;> cases isSlash
      exact .inl ⟨rfl, rfl⟩

end Expression

/-- `1/0` is accepted. -/
theorem success_not_truthful_at_division :
    ¬∀ (machine : Machine) (e : List Char), Truthful machine e := by
  intro always
  let zero : Machine := ⟨0, ⟨fun _ => 0, fun _ => 0, rfl⟩, fun _ => some 0⟩
  obtain ⟨value, success, returns, truthful⟩ := always zero ['1', '/', '0']
  have tokenisable : Tokenisable ['1', '/', '0'] := by decide +kernel
  have tokens : words ['1', '/', '0'] =
      [⟨.number, ['1']⟩, ⟨.slash, ['/']⟩, ⟨.number, ['0']⟩] := by
    decide +kernel
  have bad : ¬IsExpression zero ['1', '/', '0'] := by
    rintro ⟨expression, -, isText, noZero⟩
    exact noZero (Expression.dividesByZero_of_unmarked zero
      (isText.trans tokens))
  have refused := truthful.mpr (.inr bad)
  rw [returns.success_iff.2.1.mpr tokenisable] at refused
  cases refused

end Ysyx.Sdb
