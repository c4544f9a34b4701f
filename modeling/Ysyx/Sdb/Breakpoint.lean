import Ysyx.Nemu.Paddr
import Ysyx.Sdb.Spelling
import Ysyx.Sdb.Watchpoint

/-!
# Breakpoints

`cmd_b` and `cmd_w` of the simple debugger, and the loop of `cpu_exec` with the
test of the watchpoints in it, for NEMU as its own machine and with
`CONFIG_WATCHPOINT`.
-/

namespace Ysyx.Sdb

open Nemu (Word)

/-- `nemu_state.state`. -/
inductive NemuState where
  | nemuRunning | nemuStop | nemuEnd | nemuAbort | nemuQuit
  deriving DecidableEq, Repr

structure Debugger where
  guest : Nemu.State
  nemuState : NemuState
  pool : WpPool

/-- What an expression can read. -/
def Debugger.machine (debugger : Debugger) : Machine where
  pc := debugger.guest.pc
  cpu := debugger.guest.cpu
  paddrRead addr := Nemu.paddrRead debugger.guest.pmem addr 4

/-! ## The commands

The result `none` is a failed assertion, an access outside of an array, or a
recursion of `expr` that goes below `depth`. -/

/-- Bytes of `expression` in a node. -/
def expressionSize : Nat := 256

/-- Bytes of `pcstr`. -/
def pcstrSize : Nat := 50

/-- `wp_set`. -/
def wpSet (args : List Char) (res : Word) (pool : WpPool) : Option WpPool :=
  (newWp pool).bind fun (wp, pool) =>
    if args.length < expressionSize then
      some { pool with
        expression := Function.update pool.expression wp args
        value := Function.update pool.value wp res }
    else
      none

/-- `cmd_w`. -/
def cmdW (depth : Nat) (args : Option (List Char)) (debugger : Debugger) :
    Option Debugger :=
  match args with
  | none => some debugger
  | some args =>
      (expr debugger.machine depth args).toOption.bind fun (res, success) =>
        if success then
          (wpSet args res debugger.pool).map fun pool => { debugger with pool }
        else
          some debugger

/-- The text that `cmd_b` puts together. -/
def pcstr (args : List Char) : List Char :=
  ['$', 'p', 'c'] ++ (['=', '='] ++ args)

/-- `cmd_b`. -/
def cmdB (depth : Nat) (args : Option (List Char)) (debugger : Debugger) :
    Option Debugger :=
  match args with
  | none => some debugger
  | some args =>
      if (pcstr args).length < pcstrSize then
        cmdW depth (some (pcstr args)) debugger
      else
        none

/-! ## The loop -/

/-- The loop of `wp_difftest` from `pos` on, for at most `rounds` nodes; the
result is `diffnum` and the pool. -/
def wpDifftestFrom (machine : Machine) (depth : Nat) :
    Nat → Option Wp → Nat → WpPool → Option (Nat × WpPool)
  | _, none, diffnum, pool => some (diffnum, pool)
  | 0, some _, _, _ => none
  | rounds + 1, some pos, diffnum, pool =>
      (expr machine depth (pool.expression pos)).toOption.bind
        fun (newValue, _) =>
          if pool.value pos ≠ newValue then
            wpDifftestFrom machine depth rounds (pool.next pos) (diffnum + 1)
              { pool with value := Function.update pool.value pos newValue }
          else
            wpDifftestFrom machine depth rounds (pool.next pos) diffnum pool

/-- `wp_difftest`. -/
def wpDifftest (machine : Machine) (depth : Nat) (pool : WpPool) :
    Option (Nat × WpPool) :=
  wpDifftestFrom machine depth NR_WP pool.head 0 pool

/-- `trace_and_difftest`. -/
def traceAndDifftest (depth : Nat) (debugger : Debugger) : Option Debugger :=
  (wpDifftest debugger.machine depth debugger.pool).map fun (diffnum, pool) =>
    { debugger with
      pool
      nemuState := if 0 < diffnum then .nemuStop else debugger.nemuState }

/-- `exec_once`; `none` is an instruction that the host leaves undefined. -/
def execOnce (debugger : Debugger) : Option Debugger :=
  let snpc := { debugger.guest with pc := debugger.guest.pc + 4 }
  match debugger.guest.outcome with
  | .done _ _ _ => some { debugger with guest := debugger.guest.step }
  | .nemuTrap _ _ =>
      some { debugger with guest := snpc, nemuState := .nemuEnd }
  | .invalid _ =>
      some { debugger with guest := snpc, nemuState := .nemuAbort }
  | .undefined => none

/-- One round of the loop of `execute`, up to the test of the state. -/
def round (depth : Nat) (debugger : Debugger) : Option Debugger :=
  (execOnce debugger).bind (traceAndDifftest depth)

/-- `execute`, without devices. -/
def execute (depth : Nat) : Nat → Debugger → Option Debugger
  | 0, debugger => some debugger
  | n + 1, debugger =>
      (round depth debugger).bind fun debugger =>
        if debugger.nemuState ≠ .nemuRunning then some debugger
        else execute depth n debugger

/-- `cpu_exec` does not go on from here. -/
def NemuState.HasEnded (state : NemuState) : Prop :=
  state = .nemuEnd ∨ state = .nemuAbort ∨ state = .nemuQuit

instance (state : NemuState) : Decidable state.HasEnded :=
  inferInstanceAs (Decidable (_ ∨ _ ∨ _))

/-- `cpu_exec`. -/
def cpuExec (depth n : Nat) (debugger : Debugger) : Option Debugger :=
  if debugger.nemuState.HasEnded then
    some debugger
  else
    (execute depth n { debugger with nemuState := .nemuRunning }).map
      fun debugger =>
        if debugger.nemuState = .nemuRunning then
          { debugger with nemuState := .nemuStop }
        else
          debugger

/-! ## Runs -/

/-- The states in which a round starts: also after the window was closed, as the
loop tests the state before `device_update`. -/
def Debugger.Looping (debugger : Debugger) : Prop :=
  debugger.nemuState = .nemuRunning ∨ debugger.nemuState = .nemuQuit

/-- What comes after `set` while the guest is executed, by any commands. -/
inductive Debugging (depth : Nat) (set : Debugger) : Debugger → Prop
  | refl : Debugging depth set set
  | round {before after : Debugger} (debugging : Debugging depth set before)
      (looping : before.Looping) (executed : round depth before = some after) :
      Debugging depth set after
  /-- The devices show other bytes, and may close the simulator. -/
  | deviceUpdate {debugger : Debugger}
      (debugging : Debugging depth set debugger) (pmem : Nemu.Pmem)
      (same : ∀ addr, Nemu.inPmem addr → pmem addr = debugger.guest.pmem addr)
      (state : NemuState)
      (quits : state = debugger.nemuState ∨ state = .nemuQuit) :
      Debugging depth set
        { debugger with
          guest := { debugger.guest with pmem }
          nemuState := state }
  | resume {debugger : Debugger} (debugging : Debugging depth set debugger)
      (goesOn : ¬debugger.nemuState.HasEnded) :
      Debugging depth set { debugger with nemuState := .nemuRunning }
  | pause {debugger : Debugger} (debugging : Debugging depth set debugger)
      (isRunning : debugger.nemuState = .nemuRunning) :
      Debugging depth set { debugger with nemuState := .nemuStop }

namespace Debugging

variable {depth : Nat} {set debugger after : Debugger}

theorem execute {n : Nat} (debugging : Debugging depth set debugger)
    (isRunning : debugger.nemuState = .nemuRunning)
    (executed : Sdb.execute depth n debugger = some after) :
    Debugging depth set after := by
  induction n generalizing debugger with
  | zero =>
      obtain rfl := Option.some.inj executed
      exact debugging
  | succ n inductionHypothesis =>
      rw [Sdb.execute, Option.bind_eq_some_iff] at executed
      obtain ⟨next, isNext, executed⟩ := executed
      have later := debugging.round (.inl isRunning) isNext
      by_cases goesOn : next.nemuState = .nemuRunning
      · rw [if_neg (not_not.mpr goesOn)] at executed
        exact inductionHypothesis later goesOn executed
      · rw [if_pos goesOn] at executed
        obtain rfl := Option.some.inj executed
        exact later

/-- `si` and `c` stay in the run. -/
theorem cpuExec {n : Nat} (debugging : Debugging depth set debugger)
    (executed : Sdb.cpuExec depth n debugger = some after) :
    Debugging depth set after := by
  rw [Sdb.cpuExec] at executed
  by_cases ended : debugger.nemuState.HasEnded
  · rw [if_pos ended] at executed
    obtain rfl := Option.some.inj executed
    exact debugging
  · rw [if_neg ended, Option.map_eq_some_iff] at executed
    obtain ⟨last, isLast, rfl⟩ := executed
    have later := (debugging.resume ended).execute rfl isLast
    by_cases isRunning : last.nemuState = .nemuRunning
    · rw [if_pos isRunning]
      exact later.pause isRunning
    · rw [if_neg isRunning]
      exact later

end Debugging

/-! ## Addresses -/

/-- A token that stands for a number. -/
def IsConstant (token : Token) (value : Word) : Prop :=
  token.type = .number ∧ strtol 10 token.str = value ∨
    token.type = .hex ∧ strtol 16 (token.str.drop 2) = value

/-- The text is one number for the debugger, and has room in `pcstr`. -/
def IsAddress (args : List Char) (address : Word) : Prop :=
  (pcstr args).length < pcstrSize ∧
    ∃ token, makeToken args = .ok (some [token]) ∧ IsConstant token address

/-- The digits of a number in base 16. -/
theorem digitsValue_toDigits (n : Nat) :
    digitsValue 16 (Nat.toDigits 16 n) = n ∧
      ∀ char ∈ Nat.toDigits 16 n, char ∈ hexDigits := by
  have digit : ∀ d < 16, digitValue d.digitChar = d ∧ d.digitChar ∈ hexDigits := by
    decide
  induction n using Nat.strong_induction_on with
  | _ n inductionHypothesis =>
      rw [Nat.toDigits_eq_if (by decide)]
      by_cases single : n < 16
      · rw [if_pos single]
        refine ⟨?_, List.forall_mem_singleton.mpr (digit n single).2⟩
        simpa [digitsValue] using (digit n single).1
      · have last := digit (n % 16) (Nat.mod_lt n (by decide))
        obtain ⟨value, areDigits⟩ := inductionHypothesis (n / 16) (by omega)
        rw [if_neg single]
        constructor
        · rw [digitsValue, List.foldl_append, List.foldl_cons, List.foldl_nil,
            last.1, ← digitsValue, value]
          omega
        · rw [List.forall_mem_append]
          exact ⟨areDigits, List.forall_mem_singleton.mpr last.2⟩

theorem firstMatch_hex {x : Char} (isX : x ∈ ['x', 'X']) {digits : List Char}
    (nonempty : digits ≠ []) (areDigits : ∀ char ∈ digits, char ∈ hexDigits) :
    firstMatch ('0' :: x :: digits) = some (.hex, digits.length + 2) := by
  have word : hexRegex.Matches (['0'] ++ ([x] ++ digits)) :=
    .seq (.oneOf List.mem_cons_self)
      (.seq (.oneOf isX) (.many nonempty areDigits))
  have longest : hexRegex.longest ('0' :: x :: digits) = _ :=
    Regex.longest_of_matches word
  rw [firstMatch_of_digit (by decide), longest]
  rfl

/-- `0x` and up to 29 digits are an address. -/
theorem isAddress_hex {x : Char} (isX : x ∈ ['x', 'X']) {digits : List Char}
    (nonempty : digits ≠ []) (areDigits : ∀ char ∈ digits, char ∈ hexDigits)
    (room : digits.length ≤ 29) :
    IsAddress ('0' :: x :: digits) (strtol 16 digits) := by
  have isWord : wordsFrom 0 ('0' :: x :: digits) =
      ([⟨.hex, '0' :: x :: digits⟩], true) := by
    let token : Token := ⟨.hex, '0' :: x :: digits⟩
    have text : token.str ++ [] = '0' :: x :: digits := List.append_nil _
    have isToken : wordsFrom 0 (token.str ++ []) = ([token], true) := by
      apply wordsFrom_token
      · exact List.cons_ne_nil '0' _
      · exact show TokenType.hex ≠ .notype by decide
      · rw [text]
        exact firstMatch_hex isX nonempty areDigits
    rwa [text] at isToken
  refine ⟨?_, ⟨.hex, '0' :: x :: digits⟩, ?_, .inr ⟨rfl, rfl⟩⟩
  · simp only [pcstr, List.length_append, List.length_cons, List.length_nil,
      pcstrSize]
    omega
  · have fits : Fits (words ('0' :: x :: digits)) := by
      rw [words, isWord]
      refine ⟨show 1 ≤ tokensSize by decide, ?_⟩
      rw [List.forall_mem_singleton, List.length_cons, List.length_cons, strSize]
      omega
    have tokenisable : Tokenisable ('0' :: x :: digits) :=
      congrArg Prod.snd isWord
    rw [makeToken_eq, if_pos fits, if_pos tokenisable, words, isWord]

/-- Every address has a text. -/
theorem exists_isAddress (address : Word) : ∃ args, IsAddress args address := by
  obtain ⟨value, areDigits⟩ := digitsValue_toDigits address.toNat
  have room : (Nat.toDigits 16 address.toNat).length ≤ 8 := by
    rw [Nat.length_toDigits_le_iff (by decide) (by decide)]
    exact address.isLt
  have isAddress := isAddress_hex (by decide : 'x' ∈ ['x', 'X'])
    Nat.toDigits_ne_nil areDigits (room.trans (by decide))
  have small : min address.toNat (2 ^ 63 - 1) = address.toNat := by omega
  rw [strtol, value, small, BitVec.ofNat_toNat, BitVec.setWidth_eq] at isAddress
  exact ⟨_, isAddress⟩

/-! ## The expression of a breakpoint -/

theorem IsConstant.exists_kind {token : Token} {value : Word}
    (isConstant : IsConstant token value) :
    ∃ kind : OperandKind, token = ⟨kind.type, token.str⟩ ∧
      ∀ machine, evalToken machine ⟨kind.type, token.str⟩ = value := by
  obtain ⟨type, str⟩ := token
  rcases isConstant with ⟨rfl, rfl⟩ | ⟨rfl, rfl⟩
  · exact ⟨.number, rfl, fun _ => rfl⟩
  · exact ⟨.hex, rfl, fun _ => rfl⟩

/-- The first token of the expression is the register. -/
theorem firstMatch_pc (e : List Char) :
    firstMatch (['$', 'p', 'c'] ++ (['=', '='] ++ e)) = some (.reg, 3) := by
  simp [firstMatch, rules, Regex.longest, Regex.ends, Regex.word, regRegex,
    dollarRegex, hexRegex, decimalDigits]

/-- The token of the register. -/
def pcToken : Token := ⟨.reg, ['$', 'p', 'c']⟩

theorem wordsFrom_pcstr (args : List Char) :
    wordsFrom 0 (pcstr args) =
      (pcToken :: BinaryOp.eq.token :: words args, (wordsFrom 0 args).2) := by
  have register : wordsFrom 0 (pcToken.str ++ (BinaryOp.eq.token.str ++ args)) =
      _ :=
    wordsFrom_token (List.cons_ne_nil _ _) (by decide) (firstMatch_pc args)
  have operator : wordsFrom 0 (BinaryOp.eq.token.str ++ args) = _ :=
    wordsFrom_token (List.cons_ne_nil _ _) (by decide)
      (firstMatch_symbol (Expression.mem_symbols .eq) args)
  rw [operator] at register
  exact register

/-- The expression is the comparison, and is cut into its tokens. -/
theorem pcstr_spells {args : List Char} {token : Token}
    (cut : makeToken args = .ok (some [token])) :
    words (pcstr args) = [pcToken, BinaryOp.eq.token, token] ∧
      Tokenisable (pcstr args) ∧ Fits (words (pcstr args)) := by
  rw [makeToken_eq] at cut
  by_cases fits : Fits (words args)
  · by_cases tokenisable : Tokenisable args
    · rw [if_pos fits, if_pos tokenisable] at cut
      have isToken : words args = [token] :=
        Option.some.inj (Except.ok.inj cut)
      have isWords : words (pcstr args) =
          [pcToken, BinaryOp.eq.token, token] := by
        rw [words, wordsFrom_pcstr, isToken]
      refine ⟨isWords, ?_, ?_⟩
      · rw [Tokenisable, wordsFrom_pcstr]
        exact tokenisable
      · rw [isWords]
        rw [isToken] at fits
        refine ⟨show 3 ≤ tokensSize by decide, ?_⟩
        simp only [List.forall_mem_cons]
        exact ⟨by decide, by decide, fits.2 token List.mem_cons_self,
          fun _ member => absurd member List.not_mem_nil⟩
    · rw [if_pos fits, if_neg tokenisable] at cut
      cases cut
  · rw [if_neg fits] at cut
    cases cut

/-- What `expr` says on `$pc==A`. -/
theorem expr_pcstr {args : List Char} {address : Word}
    (isAddress : IsAddress args address) (machine : Machine) {depth : Nat}
    (enough : 3 < depth) :
    expr machine depth (pcstr args) =
      .ok (ofBool (machine.pc = address), true) := by
  obtain ⟨-, token, cut, isConstant⟩ := isAddress
  obtain ⟨isWords, tokenisable, fits⟩ := pcstr_spells cut
  obtain ⟨kind, isToken, value⟩ := isConstant.exists_kind
  let comparison : Expression :=
    .binary .eq (.operand .reg ['$', 'p', 'c']) (.operand kind token.str)
  have unmarked : markUnary (words (pcstr args)) = comparison.tokens := by
    rw [isWords, isToken]
    cases kind <;> rfl
  have wellFormed : comparison.WellFormed :=
    ⟨show 0 ≤ 4 by decide, show 0 < 4 by decide, trivial, trivial⟩
  have isValue : comparison.evalValue machine =
      some (ofBool (machine.pc = address)) := by
    rw [← value machine]
    rfl
  have evaluated : eval machine comparison.tokens depth 0
      comparison.tokens.length = .ok (ofBool (machine.pc = address)) :=
    Expression.eval_eq_ok machine wellFormed (At.whole comparison.items)
      (show comparison.items.size < depth from enough) isValue
  rw [expr_eq, if_pos fits, if_pos tokenisable, unmarked, evaluated]
  rfl

/-! ## The only watchpoint -/

section Single

variable {pool : WpPool} {wp : Wp} {free : List Wp} {depth : Nat}

/-- The lists do not depend on what the nodes watch. -/
theorem WpPool.Lists.write {active : List Wp} (lists : pool.Lists active free)
    (expression : Wp → List Char) (value : Wp → Word) :
    { pool with expression, value }.Lists active free :=
  ⟨lists.head, lists.free_, lists.nodup, lists.all⟩

/-- One watchpoint is set. -/
theorem wpSet_eq (unset : pool.Lists [] free) {args : List Char}
    (room : args.length < expressionSize) (res : Word) :
    ∃ set wp rest, wpSet args res pool = some set ∧ set.Lists [wp] rest ∧
      set.expression wp = args ∧ set.value wp = res := by
  cases free with
  | nil => exact absurd unset.length (by decide)
  | cons wp rest =>
      obtain ⟨after, isNew, lists⟩ := unset.newWp_eq
      refine ⟨_, wp, rest, ?_,
        lists.write (Function.update after.expression wp args)
          (Function.update after.value wp res), ?_, ?_⟩
      · rw [wpSet, isNew]
        exact if_pos room
      · exact Function.update_self ..
      · exact Function.update_self ..

/-- One watchpoint is tested. -/
theorem wpDifftest_eq {machine : Machine} (lists : pool.Lists [wp] free)
    {newValue : Word} {success : Bool}
    (isValue : expr machine depth (pool.expression wp) =
      .ok (newValue, success)) :
    ∃ diffnum tested, wpDifftest machine depth pool = some (diffnum, tested) ∧
      (0 < diffnum ↔ pool.value wp ≠ newValue) ∧ tested.Lists [wp] free ∧
      tested.expression wp = pool.expression wp ∧
      tested.value wp = newValue := by
  have isHead : pool.head = some wp := lists.head.1
  have isLast : pool.next wp = none := lists.head.2
  have loop : wpDifftest machine depth pool =
      if pool.value wp ≠ newValue then
        some (1, { pool with
          value := Function.update pool.value wp newValue })
      else
        some (0, pool) := by
    have start : wpDifftest machine depth pool =
        wpDifftestFrom machine depth (31 + 1) (some wp) 0 pool := by
      rw [wpDifftest, isHead]
      rfl
    rw [start]
    simp only [wpDifftestFrom, isValue, isLast]
    rfl
  by_cases changed : pool.value wp ≠ newValue
  · rw [if_pos changed] at loop
    refine ⟨_, _, loop, iff_of_true Nat.one_pos changed, lists.write _ _, rfl,
      ?_⟩
    exact Function.update_self ..
  · rw [if_neg changed] at loop
    exact ⟨_, _, loop, iff_of_false (Nat.lt_irrefl 0) changed, lists, rfl,
      not_not.mp changed⟩

end Single

/-- The breakpoint is the only watchpoint, and its value is up to date. -/
def BreaksAt (args : List Char) (address : Word) (debugger : Debugger) : Prop :=
  ∃ wp free, debugger.pool.Lists [wp] free ∧
    debugger.pool.expression wp = pcstr args ∧
    debugger.pool.value wp = ofBool (debugger.guest.pc = address)

section Runs

variable {args : List Char} {address : Word} {depth : Nat}
  {debugger before executed set : Debugger}

theorem ofBool_injective : Function.Injective ofBool := by
  decide

theorem BreaksAt.of_same (breaks : BreaksAt args address debugger)
    {other : Debugger} (pool : other.pool = debugger.pool)
    (pc : other.guest.pc = debugger.guest.pc) : BreaksAt args address other := by
  obtain ⟨wp, free, single⟩ := breaks
  refine ⟨wp, free, ?_⟩
  rw [pool, pc]
  exact single

/-- `b A` sets the breakpoint. -/
theorem cmdB_breaksAt (isAddress : IsAddress args address) (enough : 3 < depth)
    {free : List Wp} (unset : debugger.pool.Lists [] free) :
    ∃ set, cmdB depth (some args) debugger = some set ∧
      BreaksAt args address set := by
  have room : (pcstr args).length < expressionSize :=
    isAddress.1.trans (by decide)
  have isValue := expr_pcstr isAddress debugger.machine enough
  obtain ⟨pool, wp, rest, isSet, lists, expression, value⟩ :=
    wpSet_eq unset room (ofBool (debugger.machine.pc = address))
  refine ⟨{ debugger with pool }, ?_, wp, rest, lists, expression, value⟩
  rw [cmdB, if_pos isAddress.1, cmdW, isValue]
  simp only [Except.toOption, Option.bind_some, if_true, isSet]
  rfl

/-- An instruction changes neither the watchpoints nor stops the loop as a
watchpoint does. -/
theorem execOnce_pool (isExecuted : execOnce before = some executed)
    (looping : before.Looping) :
    executed.pool = before.pool ∧ executed.nemuState ≠ .nemuStop := by
  have notStopped : before.nemuState ≠ .nemuStop := by
    rcases looping with isState | isState <;> rw [isState] <;> decide
  rw [execOnce] at isExecuted
  split at isExecuted
  · obtain rfl := Option.some.inj isExecuted
    exact ⟨rfl, notStopped⟩
  · obtain rfl := Option.some.inj isExecuted
    exact ⟨rfl, show NemuState.nemuEnd ≠ .nemuStop by decide⟩
  · obtain rfl := Option.some.inj isExecuted
    exact ⟨rfl, show NemuState.nemuAbort ≠ .nemuStop by decide⟩
  · cases isExecuted

/-- One round keeps the breakpoint, and stops when the pc comes to the address
or leaves it. -/
theorem BreaksAt.round_eq (breaks : BreaksAt args address before)
    (isAddress : IsAddress args address) (enough : 3 < depth)
    (looping : before.Looping) (isExecuted : execOnce before = some executed) :
    ∃ after, round depth before = some after ∧
      after.guest = executed.guest ∧ BreaksAt args address after ∧
      (after.nemuState = .nemuStop ↔
        ¬(before.guest.pc = address ↔ after.guest.pc = address)) := by
  obtain ⟨samePool, notStopped⟩ := execOnce_pool isExecuted looping
  obtain ⟨wp, free, lists, expression, value⟩ := breaks
  rw [← samePool] at lists expression value
  have isValue := expr_pcstr isAddress executed.machine enough
  rw [← expression] at isValue
  obtain ⟨diffnum, tested, isTested, counts, testedLists, testedExpression,
    testedValue⟩ := wpDifftest_eq lists isValue
  rw [expression] at testedExpression
  refine ⟨{ executed with
      pool := tested
      nemuState := if 0 < diffnum then .nemuStop else executed.nemuState },
    ?_, rfl, ⟨wp, free, testedLists, testedExpression, testedValue⟩, ?_⟩
  · rw [round, isExecuted, Option.bind_some, traceAndDifftest, isTested]
    rfl
  · have stops : (if 0 < diffnum then NemuState.nemuStop
        else executed.nemuState) = .nemuStop ↔ 0 < diffnum := by
      by_cases differs : 0 < diffnum
      · exact iff_of_true (if_pos differs) differs
      · rw [if_neg differs]
        exact iff_of_false notStopped differs
    rw [value, ofBool_injective.ne_iff, ne_eq, decide_eq_decide] at counts
    exact stops.trans counts

/-- A run keeps the breakpoint. -/
theorem Debugging.breaksAt (debugging : Debugging depth set debugger)
    (isAddress : IsAddress args address) (enough : 3 < depth)
    (breaks : BreaksAt args address set) : BreaksAt args address debugger := by
  induction debugging with
  | refl => exact breaks
  | round debugging looping isRound inductionHypothesis =>
      have executes := isRound
      rw [Sdb.round, Option.bind_eq_some_iff] at executes
      obtain ⟨executed, isExecuted, -⟩ := executes
      obtain ⟨after, isAfter, -, breaksAfter, -⟩ :=
        inductionHypothesis.round_eq isAddress enough looping isExecuted
      cases isAfter.symm.trans isRound
      exact breaksAfter
  | deviceUpdate _ _ _ _ _ inductionHypothesis =>
      exact inductionHypothesis.of_same rfl rfl
  | resume _ _ inductionHypothesis => exact inductionHypothesis.of_same rfl rfl
  | pause _ _ inductionHypothesis => exact inductionHypothesis.of_same rfl rfl

/-- After `b A`, a round stops exactly when the pc is `A` after it, if and only
if the pc was not `A` before it. -/
theorem breakpoint_exact_iff (isAddress : IsAddress args address)
    (enough : 3 < depth) {free : List Wp}
    (unset : debugger.pool.Lists [] free) :
    ∃ set, cmdB depth (some args) debugger = some set ∧
      ∀ before, Debugging depth set before → before.Looping →
        ∀ executed, execOnce before = some executed →
          ∃ after, round depth before = some after ∧
            after.guest = executed.guest ∧
            ((after.nemuState = .nemuStop ↔ after.guest.pc = address) ↔
              before.guest.pc ≠ address) := by
  obtain ⟨set, isSet, breaks⟩ := cmdB_breaksAt isAddress enough unset
  refine ⟨set, isSet, fun before debugging looping executed isExecuted => ?_⟩
  obtain ⟨after, isAfter, guest, -, stops⟩ :=
    (debugging.breaksAt isAddress enough breaks).round_eq isAddress enough
      looping isExecuted
  refine ⟨after, isAfter, guest, ?_⟩
  rw [stops]
  tauto

end Runs

/-- A guest in front of a memory full of `nop`. -/
def nops (cpu : Nemu.CpuState) : Debugger where
  guest :=
    { pc := 0x80000000
      cpu
      pmem := fun addr => if addr &&& 3 = 0 then 0x13 else 0 }
  nemuState := .nemuStop
  pool := initWpPool fun _ => []

/-- The breakpoint at the next instruction. -/
theorem breakpoint_exact_iff_next :
    ∃ set,
      cmdB 4 (some ['0', 'x', '8', '0', '0', '0', '0', '0', '0', '4'])
          (nops ⟨fun _ => 0, fun _ => 0, rfl⟩) = some set ∧
      ∀ before, Debugging 4 set before → before.Looping →
        ∀ executed, execOnce before = some executed →
          ∃ after, round 4 before = some after ∧
            after.guest = executed.guest ∧
            ((after.nemuState = .nemuStop ↔ after.guest.pc = 0x80000004) ↔
              before.guest.pc ≠ 0x80000004) := by
  have isAddress : IsAddress
      ['0', 'x', '8', '0', '0', '0', '0', '0', '0', '4'] 0x80000004 :=
    isAddress_hex (by decide) (List.cons_ne_nil '8' _)
      (List.forall_iff_forall_mem.mp (by decide)) (by decide)
  exact breakpoint_exact_iff isAddress (by decide)
    (initWpPool_lists fun _ => [])

/-- A breakpoint set where the guest stands stops when the guest leaves. -/
theorem breakpoint_exact_fails :
    ¬∀ (args : List Char) (address : Word) (depth : Nat)
      (debugger set before after : Debugger) (free : List Wp),
      IsAddress args address → debugger.pool.Lists [] free →
      cmdB depth (some args) debugger = some set →
      Debugging depth set before → before.Looping →
      round depth before = some after →
      (after.nemuState = .nemuStop ↔ after.guest.pc = address) := by
  intro always
  have isAddress : IsAddress
      ['0', 'x', '8', '0', '0', '0', '0', '0', '0', '0'] 0x80000000 :=
    isAddress_hex (by decide) (List.cons_ne_nil '8' _)
      (List.forall_iff_forall_mem.mp (by decide)) (by decide)
  have stops : (cmdB 4
      (some ['0', 'x', '8', '0', '0', '0', '0', '0', '0', '0'])
      (nops ⟨fun _ => 0, fun _ => 0, rfl⟩)).bind
        (fun set => (round 4 { set with nemuState := .nemuRunning }).map
          fun after => (set.nemuState, after.nemuState, after.guest.pc)) =
        some (.nemuStop, .nemuStop, 0x80000004) := by
    decide +kernel
  obtain ⟨set, isSet, rounds⟩ := Option.bind_eq_some_iff.mp stops
  obtain ⟨after, isRound, result⟩ := Option.map_eq_some_iff.mp rounds
  simp only [Prod.mk.injEq] at result
  obtain ⟨goesOn, stopped, pc⟩ := result
  have resumed : Debugging 4 set { set with nemuState := .nemuRunning } :=
    .resume .refl (by rw [goesOn]; decide)
  have stopsAt := (always _ _ 4 _ set _ after _ isAddress
    (initWpPool_lists fun _ => []) isSet resumed (.inl rfl) isRound).mp stopped
  rw [pc] at stopsAt
  cases stopsAt

end Ysyx.Sdb
