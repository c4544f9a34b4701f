/-!
# Well-nested calls

Call and return sequences in which every return has its call.  They are given
as trees, so that the call that a return matches is part of the structure.
-/

namespace Nesting

universe u v

/-- A call or a return, with what a machine sees of it. -/
inductive Transfer (α : Type u) where
  | call (site : α)
  | ret (site : α)
  deriving DecidableEq, Repr

/-- Nothing, or a call with everything that runs before its return, this
return, and what follows it. -/
inductive Calls (α : Type u) where
  | done
  | call (site : α) (body : Calls α) (last : α) (rest : Calls α)
  deriving DecidableEq, Repr

namespace Calls

variable {α : Type u}

/-- The sequence of calls and returns. -/
def trace : Calls α → List (Transfer α)
  | done => []
  | call site body last rest =>
      .call site :: (body.trace ++ .ret last :: rest.trace)

/-- The largest number of calls that are open at once. -/
def depth : Calls α → Nat
  | done => 0
  | call _ body _ rest => max (body.depth + 1) rest.depth

/-- For every return of the sequence, the call that it matches. -/
def callers : Calls α → List α
  | done => []
  | call site body _ rest => body.callers ++ site :: rest.callers

/-- One output for each call and return, where a return has the output of its
call. -/
def Paired {β : Type v} : Calls α → List β → Prop
  | done, outs => outs = []
  | call _ body _ rest, outs =>
      ∃ out inside after, outs = out :: (inside ++ out :: after) ∧
        body.Paired inside ∧ rest.Paired after

theorem depth_call (site : α) (body : Calls α) (last : α) (rest : Calls α) :
    (call site body last rest).depth = max (body.depth + 1) rest.depth :=
  rfl

end Calls

end Nesting
