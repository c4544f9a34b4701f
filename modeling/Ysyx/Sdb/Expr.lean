import Ysyx.Nemu.Inst
import Ysyx.Sdb.Lexer

/-!
# The expressions of the debugger

`expr` of the simple debugger with the functions under it:
`check_parantheses`, `find_main_op_pos`, `eval` and `isa_reg_str2val`.
-/

namespace Ysyx.Sdb

open Nemu (Word CpuState)

/-- What an expression can read: the pc, the registers, and the answers of
`paddr_read(addr, 4)`; `none` is a read outside the memory and the devices,
which panics. -/
structure Machine where
  pc : Word
  cpu : CpuState
  paddrRead : Word → Option Word

/-! ## Registers -/

def regs : List (List Char) :=
  [['$', '0'], ['r', 'a'], ['s', 'p'], ['g', 'p'], ['t', 'p'], ['t', '0'],
   ['t', '1'], ['t', '2'], ['s', '0'], ['s', '1'], ['a', '0'], ['a', '1'],
   ['a', '2'], ['a', '3'], ['a', '4'], ['a', '5'], ['a', '6'], ['a', '7'],
   ['s', '2'], ['s', '3'], ['s', '4'], ['s', '5'], ['s', '6'], ['s', '7'],
   ['s', '8'], ['s', '9'], ['s', '1', '0'], ['s', '1', '1'], ['t', '3'],
   ['t', '4'], ['t', '5'], ['t', '6']]

/-- `isa_reg_str2val`; `none` is the failure path, which returns 0. -/
def isaRegStr2val (machine : Machine) (s : List Char) : Option Word :=
  if s = ['p', 'c'] then
    some machine.pc
  else if s = ['m', 's', 't', 'a', 't', 'u', 's'] then
    some (machine.cpu.sr Nemu.CSR_MSTATUS)
  else if s = ['m', 'e', 'p', 'c'] then
    some (machine.cpu.sr Nemu.CSR_MEPC)
  else if s = ['m', 't', 'v', 'e', 'c'] then
    some (machine.cpu.sr Nemu.CSR_MTVEC)
  else if s = ['m', 'c', 'a', 'u', 's', 'e'] then
    some (machine.cpu.sr Nemu.CSR_MCAUSE)
  else
    (regs.findIdx? (s = ·)).map fun i => machine.cpu.gpr (BitVec.ofNat 5 i)

/-! ## Numbers -/

/-- The value of a digit in `strtol`. -/
def digitValue (char : Char) : Nat :=
  if 'a' ≤ char then char.toNat - 'a'.toNat + 10
  else if 'A' ≤ char then char.toNat - 'A'.toNat + 10
  else char.toNat - '0'.toNat

/-- The value of a text of digits. -/
def digitsValue (base : Nat) (digits : List Char) : Nat :=
  digits.foldl (fun value char => value * base + digitValue char) 0

/-- `strtol` on a text of digits, cut to an `int`: it stops at the largest
64-bit `long`. -/
def strtol (base : Nat) (digits : List Char) : Word :=
  BitVec.ofNat 32 (min (digitsValue base digits) (2 ^ 63 - 1))

/-! ## Parentheses -/

/-- The count of part 1; `none` when it gets negative. -/
def parenCount : Int → List Token → Option Int
  | cnt, [] => some cnt
  | cnt, token :: rest =>
      let cnt :=
        if token.type = .lparen then cnt + 1
        else if token.type = .rparen then cnt - 1
        else cnt
      if cnt < 0 then none else parenCount cnt rest

/-- `check_parantheses`, on the number of tokens from `p` to `q` and the tokens
themselves. -/
def checkParantheses : Nat → List Token → Int
  -- the token at `p` is the `)` at which the caller has just looked
  | 0, _ => 0
  | 1, range => if parenCount 0 range = some 0 then 0 else -1
  | count + 2, range =>
      if parenCount 0 range ≠ some 0 then -1
      else if range.head?.map Token.type ≠ some .lparen ∨
          range.getLast?.map Token.type ≠ some .rparen then 0
      else
        let ret := checkParantheses count range.tail.dropLast
        if ret = -1 then 0 else if ret = 0 ∨ ret = 1 then 1 else 2

/-! ## The main operator -/

/-- The operators that `find_main_op_pos` looks at, with their `flag`. -/
def operatorLevels : List (Int × List TokenType) :=
  [(6, [.or]), (5, [.and]), (4, [.eq, .noeq]), (3, [.plus, .minus]),
   (2, [.times, .slash]), (1, [.pointerDeref, .negative]), (0, [.reg, .hex])]

/-- One of the seven `if`s: `op` and `flag` after the token at `i`. -/
def considerLevel (type : TokenType) (i : Nat) (best : Int × Int)
    (entry : Int × List TokenType) : Int × Int :=
  if best.2 ≤ entry.1 ∧ type ∈ entry.2 then (max best.1 i, entry.1) else best

/-- The body of the loop behind the parentheses. -/
def consider (type : TokenType) (i : Nat) (best : Int × Int) : Int × Int :=
  operatorLevels.foldl (considerLevel type i) best

/-- The loop of `find_main_op_pos` over the tokens from `i` on, `remaining` of
them up to `q`.  While `depth` is not zero the inner loop runs, which does not
look at `q`. -/
def mainOpFrom : List Token → Nat → Nat → Nat → Int × Int → Except Stop Int
  | _, _, 0, 0, best => .ok best.1
  | [], _, _, _, _ => .error .outOfBounds
  | token :: rest, i, remaining, depth + 1, best =>
      if token.type = .lparen then
        mainOpFrom rest (i + 1) (remaining - 1) (depth + 2) best
      else if token.type = .rparen then
        mainOpFrom rest (i + 1) (remaining - 1) depth best
      else
        mainOpFrom rest (i + 1) (remaining - 1) (depth + 1) best
  | token :: rest, i, remaining + 1, 0, best =>
      if token.type = .lparen then
        mainOpFrom rest (i + 1) remaining 1 best
      else
        mainOpFrom rest (i + 1) remaining 0 (consider token.type i best)

/-- `find_main_op_pos`, on the `count` tokens from `p`; `-1` without an
operator. -/
def findMainOpPos (tokens : List Token) (p count : Nat) : Except Stop Int :=
  mainOpFrom (tokens.drop p) p count 0 (-1, -1)

/-! ## Evaluation -/

/-- `INT_MAX`. -/
def intMax : Word := 0x7fffffff

/-- `INT_MIN`. -/
def intMin : Word := 0x80000000

/-- A C truth value. -/
def ofBool (value : Bool) : Word := if value then 1 else 0

/-- The case of one token. -/
def evalToken (machine : Machine) (token : Token) : Word :=
  match token.type with
  | .number => strtol 10 token.str
  | .reg => (isaRegStr2val machine token.str.tail).getD 0
  | .hex => strtol 16 (token.str.drop 2)
  | _ => 0

/-- The `switch` over the operator.  Overflow wraps, but for the quotient of
`INT_MIN` and -1, which traps. -/
def evalBinary (type : TokenType) (val1 val2 : Word) : Except Stop Word :=
  match type with
  | .eq => .ok (ofBool (val1 = val2))
  | .noeq => .ok (ofBool (val1 ≠ val2))
  | .and => .ok (ofBool (val1 ≠ 0 ∧ val2 ≠ 0))
  | .or => .ok (ofBool (val1 ≠ 0 ∨ val2 ≠ 0))
  | .plus => .ok (val1 + val2)
  | .minus => .ok (val1 - val2)
  | .times => .ok (val1 * val2)
  | .slash =>
      if val2 = 0 then .ok intMax
      else if val1 = intMin ∧ val2 = -1 then .error .divisionTrap
      else .ok (val1.sdiv val2)
  | _ => .ok 0

/-- The dereference of an address. -/
def Machine.deref (machine : Machine) (addr : Word) : Except Stop Word :=
  match machine.paddrRead addr with
  | some word => .ok word
  | none => .error .badRead

/-- `eval` on the `count` tokens from `p`. -/
def eval (machine : Machine) (tokens : List Token) :
    Nat → Nat → Nat → Except Stop Word
  | 0, _, _ => .error .outOfFuel
  | _ + 1, _, 0 => .ok intMax
  | _ + 1, p, 1 =>
      match tokens[p]? with
      | none => .error .outOfBounds
      | some token => .ok (evalToken machine token)
  | fuel + 1, p, count + 2 =>
      if checkParantheses (count + 2) ((tokens.drop p).take (count + 2)) = 1 then
        eval machine tokens fuel (p + 1) count
      else
        match findMainOpPos tokens p (count + 2) with
        | .error stop => .error stop
        -- `eval(0, q)`, and then `tokens[-1]`
        | .ok (.negSucc _) => do
            let _ ← eval machine tokens fuel 0 (p + count + 2)
            .error .outOfBounds
        | .ok (.ofNat op) => do
            let val2 ← eval machine tokens fuel (op + 1) (p + count + 1 - op)
            match tokens[op]? with
            | none => .error .outOfBounds
            | some token =>
                if token.type = .negative then
                  return -val2
                else if token.type = .pointerDeref then
                  machine.deref val2
                else
                  let val1 ← eval machine tokens fuel p (op - p)
                  evalBinary token.type val1 val2

/-! ## The command -/

/-- The loop of `expr` that finds the unary operators; `before` is the type of
the token before, as it is after its own turn. -/
def markUnaryAfter : Option TokenType → List Token → List Token
  | _, [] => []
  | before, token :: rest =>
      let type :=
        if (token.type = .minus ∨ token.type = .times) ∧
            before ≠ some .rparen ∧ before ≠ some .number then
          if token.type = .times then .pointerDeref else .negative
        else
          token.type
      ⟨type, token.str⟩ :: markUnaryAfter (some type) rest

def markUnary (tokens : List Token) : List Token :=
  markUnaryAfter none tokens

/-- `expr`: the result and `*success`, with a bound on the depth of the
recursion. -/
def expr (machine : Machine) (fuel : Nat) (e : List Char) :
    Except Stop (Word × Bool) := do
  match ← makeToken e with
  | none => return (0, false)
  | some tokens =>
      let tokens := markUnary tokens
      let res ← eval machine tokens fuel 0 tokens.length
      -- `if (res == INT_MAX) *success = false;` is overwritten at once
      return (res, true)

/-- `expr` returns this: whatever the depth allowed, from some depth on. -/
def Returns (machine : Machine) (e : List Char) (result : Word × Bool) : Prop :=
  ∃ enough, ∀ fuel, enough ≤ fuel → expr machine fuel e = .ok result

/-- `eval` on all the tokens gives this value. -/
def EvalsTo (machine : Machine) (tokens : List Token) (value : Word) : Prop :=
  ∃ enough, ∀ fuel, enough ≤ fuel →
    eval machine tokens fuel 0 tokens.length = .ok value

end Ysyx.Sdb
