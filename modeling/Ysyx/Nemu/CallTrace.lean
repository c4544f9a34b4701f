import Ysyx.Lib.Nesting
import Ysyx.Nemu.Ftrace

/-!
# The call trace

`trace_func_call`, `trace_func_ret` and `find_symbol_func`: the depth that they
count, and the names that they log.
-/

namespace Ysyx.Nemu

open Nesting

/-! ## The symbol table -/

/-- `SymEntry`.  `read_symbol_table` copies a size of 32 bits. -/
structure SymEntry where
  name : List Char
  addr : Word
  info : BitVec 8
  size : BitVec 64
  size_lt : size.toNat < 2 ^ 32
  deriving DecidableEq

def STT_FUNC : BitVec 8 := 2

/-- `ELF32_ST_TYPE(info) == STT_FUNC`. -/
def SymEntry.isFunc (entry : SymEntry) : Bool :=
  entry.info &&& 0xf = STT_FUNC

/-- The test of `find_symbol_func`. -/
def SymEntry.found (target : Word) (isCall : Bool) (entry : SymEntry) : Bool :=
  entry.isFunc &&
    if isCall then entry.addr = target
    else entry.addr ≤ target ∧
      target.setWidth 64 < entry.addr.setWidth 64 + entry.size

def findSymbolFunc (symbolTbl : List SymEntry) (target : Word)
    (isCall : Bool) : Int :=
  match symbolTbl.findIdx? (SymEntry.found target isCall) with
  | some i => i
  | none => -1

/-! ## The trace -/

/-- The name in a line; `outside` is read at an index that no entry has. -/
inductive LoggedName where
  | text (name : List Char)
  | outside (i : Int)
  deriving DecidableEq, Repr

/-- `symbol_tbl[i].name`. -/
def symbolName (symbolTbl : List SymEntry) (i : Int) : LoggedName :=
  if i < 0 then .outside i
  else
    match symbolTbl[i.toNat]? with
    | some entry => .text entry.name
    | none => .outside i

/-- `"???"`. -/
def unknownName : List Char := ['?', '?', '?']

inductive FuncLine where
  | call (pc : Word) (indent : Int) (name : LoggedName) (target : Word)
  | ret (pc : Word) (indent : Int) (name : LoggedName)
  deriving DecidableEq, Repr

def FuncLine.indent : FuncLine → Int
  | call _ indent _ _ => indent
  | ret _ indent _ => indent

structure TailRecNode where
  pc : Word
  depend : Word
  deriving DecidableEq, Repr

/-- `symbol_tbl`, `call_depth` and the list behind `tail_rec_head`. -/
structure CallTrace where
  symbolTbl : Option (List SymEntry)
  callDepth : Int
  tailRec : List TailRecNode
  deriving DecidableEq

/-- The line of a call; `i` is tested for zero. -/
def callLine (symbolTbl : List SymEntry) (callDepth : Int) (pc target : Word) :
    FuncLine :=
  let i := findSymbolFunc symbolTbl target true
  .call pc ((callDepth - 3) * 2)
    (if i ≠ 0 then symbolName symbolTbl i else .text unknownName) target

/-- The line of a return. -/
def retLine (symbolTbl : List SymEntry) (callDepth : Int) (pc : Word) :
    FuncLine :=
  let i := findSymbolFunc symbolTbl pc false
  .ret pc ((callDepth - 3) * 2)
    (if i ≥ 0 then symbolName symbolTbl i else .text unknownName)

/-- `trace_func_call`, and the lines in the log. -/
def traceFuncCall (trace : CallTrace) (pc target : Word) (isTail : Bool) :
    CallTrace × List FuncLine :=
  match trace.symbolTbl with
  | none => (trace, [])
  | some symbolTbl =>
      let callDepth := trace.callDepth + 1
      if callDepth ≤ 2 then ({ trace with callDepth }, [])
      else
        let tailRec :=
          if isTail then ⟨pc, target⟩ :: trace.tailRec else trace.tailRec
        ({ trace with callDepth, tailRec },
          [callLine symbolTbl callDepth pc target])

/-- `trace_func_ret` on a loaded table: the depth, the list and the lines. -/
def traceFuncRetFrom (symbolTbl : List SymEntry) :
    List TailRecNode → Int → Word → Int × List TailRecNode × List FuncLine
  | [], callDepth, pc =>
      if callDepth ≤ 2 then (callDepth, [], [])
      else (callDepth - 1, [], [retLine symbolTbl callDepth pc])
  | node :: rest, callDepth, pc =>
      if callDepth ≤ 2 then (callDepth, node :: rest, [])
      else
        let line := retLine symbolTbl callDepth pc
        if findSymbolFunc symbolTbl node.depend true =
            findSymbolFunc symbolTbl pc false then
          let (callDepth, tailRec, lines) :=
            traceFuncRetFrom symbolTbl rest (callDepth - 1) node.pc
          (callDepth, tailRec, line :: lines)
        else (callDepth - 1, node :: rest, [line])

/-- `trace_func_ret`. -/
def traceFuncRet (trace : CallTrace) (pc : Word) :
    CallTrace × List FuncLine :=
  match trace.symbolTbl with
  | none => (trace, [])
  | some symbolTbl =>
      let (callDepth, tailRec, lines) :=
        traceFuncRetFrom symbolTbl trace.tailRec trace.callDepth pc
      ({ trace with callDepth, tailRec }, lines)

/-! ## The names -/

section Names

variable {symbolTbl : List SymEntry}

/-- The pc lies in the symbol. -/
def SymEntry.Contains (entry : SymEntry) (pc : Word) : Prop :=
  entry.addr.toNat ≤ pc.toNat ∧ pc.toNat < entry.addr.toNat + entry.size.toNat

/-- The name of a function symbol with the property, or that there is none. -/
def Names (symbolTbl : List SymEntry) (property : SymEntry → Prop)
    (name : LoggedName) : Prop :=
  (∃ entry ∈ symbolTbl, entry.isFunc = true ∧ property entry ∧
    name = .text entry.name) ∨
  ((∀ entry ∈ symbolTbl, entry.isFunc = true → ¬property entry) ∧
    name = .text unknownName)

/-- The line has the name that it should have. -/
def FuncLine.Faithful (symbolTbl : List SymEntry) : FuncLine → Prop
  | call _ _ name target => Names symbolTbl (·.addr = target) name
  | ret pc _ name => Names symbolTbl (·.Contains pc) name

theorem found_call_iff (entry : SymEntry) (target : Word) :
    entry.found target true = true ↔
      entry.isFunc = true ∧ entry.addr = target := by
  simp [SymEntry.found]

/-- The sum has 64 bits and does not wrap. -/
theorem found_ret_iff (entry : SymEntry) (pc : Word) :
    entry.found pc false = true ↔ entry.isFunc = true ∧ entry.Contains pc := by
  have addrLt := entry.addr.isLt
  have pcLt := pc.isLt
  have sizeLt := entry.size_lt
  have sum : (entry.addr.setWidth 64 + entry.size).toNat =
      entry.addr.toNat + entry.size.toNat := by
    rw [BitVec.toNat_add, BitVec.toNat_setWidth_of_le (by decide)]
    exact Nat.mod_eq_of_lt (by omega)
  have below : pc.setWidth 64 < entry.addr.setWidth 64 + entry.size ↔
      pc.toNat < entry.addr.toNat + entry.size.toNat := by
    rw [BitVec.lt_def, sum, BitVec.toNat_setWidth_of_le (by decide)]
  simp [SymEntry.found, SymEntry.Contains, below, BitVec.le_def]

theorem symbolName_of_lt {i : Nat} (isIn : i < symbolTbl.length) :
    symbolName symbolTbl i = .text symbolTbl[i].name := by
  rw [symbolName, if_neg (by omega), Int.toNat_natCast,
    List.getElem?_eq_getElem isIn]

/-- What the search returns: a match with no match in front of it, or -1. -/
theorem findSymbolFunc_cases (symbolTbl : List SymEntry) (target : Word)
    (isCall : Bool) :
    (∃ i, ∃ isIn : i < symbolTbl.length,
      findSymbolFunc symbolTbl target isCall = i ∧
      symbolTbl[i].found target isCall = true ∧
      (i ≠ 0 → ∀ first, symbolTbl.head? = some first →
        first.found target isCall = false)) ∨
    (findSymbolFunc symbolTbl target isCall = -1 ∧
      ∀ entry ∈ symbolTbl, entry.found target isCall = false) := by
  cases search : symbolTbl.findIdx? (SymEntry.found target isCall) with
  | none =>
      right
      refine ⟨?_, List.findIdx?_eq_none_iff.mp search⟩
      rw [findSymbolFunc, search]
  | some i =>
      left
      obtain ⟨isIn, isFound, before⟩ :=
        List.findIdx?_eq_some_iff_getElem.mp search
      refine ⟨i, isIn, by rw [findSymbolFunc, search], isFound,
        fun notFirst first isFirst => ?_⟩
      have nonempty : 0 < symbolTbl.length := Nat.zero_lt_of_lt isIn
      rw [List.head?_eq_getElem?, List.getElem?_eq_getElem nonempty] at isFirst
      have notFound := before 0 (Nat.pos_of_ne_zero notFirst)
      rw [Option.some.inj isFirst] at notFound
      exact Bool.eq_false_iff.mpr notFound

/-- The name in the line of a return is always right. -/
theorem faithful_retLine (symbolTbl : List SymEntry) (callDepth : Int)
    (pc : Word) : (retLine symbolTbl callDepth pc).Faithful symbolTbl := by
  rcases findSymbolFunc_cases symbolTbl pc false with
    ⟨i, isIn, found, isFound, _⟩ | ⟨missed, notFound⟩
  · left
    obtain ⟨isFunc, contains⟩ := (found_ret_iff _ _).mp isFound
    refine ⟨symbolTbl[i], List.getElem_mem isIn, isFunc, contains, ?_⟩
    rw [found, if_pos (by omega), symbolName_of_lt isIn]
  · right
    refine ⟨fun entry isEntry isFunc contains => ?_, ?_⟩
    · have isFound := (found_ret_iff _ _).mpr ⟨isFunc, contains⟩
      rw [notFound entry isEntry] at isFound
      cases isFound
    · rw [missed, if_neg (by decide)]

theorem faithful_traceFuncRetFrom (symbolTbl : List SymEntry)
    (tailRec : List TailRecNode) (callDepth : Int) (pc : Word) :
    ∀ line ∈ (traceFuncRetFrom symbolTbl tailRec callDepth pc).2.2,
      line.Faithful symbolTbl := by
  induction tailRec generalizing callDepth pc with
  | nil =>
      rw [traceFuncRetFrom]
      split
      · simp
      · simpa using faithful_retLine symbolTbl callDepth pc
  | cons node rest inductionHypothesis =>
      rw [traceFuncRetFrom]
      split
      · simp
      · split
        · intro line isLine
          rcases List.mem_cons.mp isLine with rfl | isLater
          · exact faithful_retLine symbolTbl callDepth pc
          · exact inductionHypothesis _ _ line isLater
        · simpa using faithful_retLine symbolTbl callDepth pc

/-- A function symbol at the target that the line of a call can name: the first
entry of the table is taken for a miss. -/
def Nameable (symbolTbl : List SymEntry) (target : Word) : Prop :=
  ∃ entry ∈ symbolTbl, entry.isFunc = true ∧ entry.addr = target ∧
    ((∀ first, symbolTbl.head? = some first →
        ¬(first.isFunc = true ∧ first.addr = target)) ∨
      entry.name = unknownName)

/-- The name in the line of a call is right exactly if it is not lost. -/
theorem faithful_callLine_iff (symbolTbl : List SymEntry) (callDepth : Int)
    (pc target : Word) :
    (callLine symbolTbl callDepth pc target).Faithful symbolTbl ↔
      Nameable symbolTbl target := by
  rcases findSymbolFunc_cases symbolTbl target true with
    ⟨i, isIn, found, isFound, before⟩ | ⟨missed, notFound⟩
  · have isTarget := (found_call_iff _ _).mp isFound
    cases i with
    | zero =>
        have first : symbolTbl.head? = some symbolTbl[0] :=
          List.head?_eq_getElem?.trans (List.getElem?_eq_getElem isIn)
        simp only [callLine, FuncLine.Faithful, found, Int.ofNat_zero,
          ne_eq, not_true_eq_false, if_false]
        constructor
        · rintro (⟨entry, isEntry, isFunc, isAddr, name⟩ | ⟨notTarget, _⟩)
          · exact ⟨entry, isEntry, isFunc, isAddr,
              .inr (LoggedName.text.inj name).symm⟩
          · exact absurd isTarget.2
              (notTarget _ (List.getElem_mem isIn) isTarget.1)
        · rintro ⟨entry, isEntry, isFunc, isAddr, notFirst | name⟩
          · exact absurd isTarget (notFirst _ first)
          · exact .inl ⟨entry, isEntry, isFunc, isAddr, by rw [name]⟩
    | succ i =>
        have isNamed : (callLine symbolTbl callDepth pc target).Faithful
            symbolTbl := by
          left
          refine ⟨symbolTbl[i + 1], List.getElem_mem isIn, isTarget.1,
            isTarget.2, ?_⟩
          rw [found, if_pos (by omega), symbolName_of_lt isIn]
        refine iff_of_true isNamed ⟨symbolTbl[i + 1], List.getElem_mem isIn,
          isTarget.1, isTarget.2, .inl fun first isFirst isIt => ?_⟩
        have notFound := before (Nat.succ_ne_zero i) first isFirst
        rw [(found_call_iff _ _).mpr isIt] at notFound
        cases notFound
  · have none : ∀ entry ∈ symbolTbl, entry.isFunc = true →
        entry.addr ≠ target := by
      intro entry isEntry isFunc isAddr
      have isFound := (found_call_iff _ _).mpr ⟨isFunc, isAddr⟩
      rw [notFound entry isEntry] at isFound
      cases isFound
    simp only [callLine, FuncLine.Faithful, missed]
    refine iff_of_false ?_ ?_
    · rintro (⟨entry, isEntry, isFunc, isAddr, _⟩ | ⟨_, name⟩)
      · exact none entry isEntry isFunc isAddr
      · cases name
    · rintro ⟨entry, isEntry, isFunc, isAddr, _⟩
      exact none entry isEntry isFunc isAddr

end Names

/-- The entries of the table, none before it is loaded. -/
def CallTrace.symbols (trace : CallTrace) : List SymEntry :=
  trace.symbolTbl.getD []

/-- The names in the lines of a call are right exactly if no line is written or
the name is not lost, and those in the lines of a return always are. -/
theorem traced_names_iff (trace : CallTrace) (pc target : Word)
    (isTail : Bool) :
    ((∀ line ∈ (traceFuncCall trace pc target isTail).2,
        line.Faithful trace.symbols) ↔
      trace.symbolTbl = none ∨ trace.callDepth + 1 ≤ 2 ∨
        Nameable trace.symbols target) ∧
    ∀ line ∈ (traceFuncRet trace pc).2, line.Faithful trace.symbols := by
  obtain ⟨table, callDepth, tailRec⟩ := trace
  cases table with
  | none => simp [traceFuncCall, traceFuncRet]
  | some symbolTbl =>
      constructor
      · by_cases ignored : callDepth + 1 ≤ 2
        · simp [traceFuncCall, ignored]
        · have named := faithful_callLine_iff symbolTbl (callDepth + 1) pc target
          simpa [traceFuncCall, ignored, CallTrace.symbols] using named
      · exact faithful_traceFuncRetFrom symbolTbl tailRec callDepth pc

/-- The undefined symbol at the front of every table, and one function. -/
def mainSymbols : List SymEntry :=
  [⟨[], 0, 0, 0, by decide⟩,
   ⟨['m', 'a', 'i', 'n'], 0x80000010, 0x12, 0x20, by decide⟩]

/-- Behind `_start` and `main`, a call of a target that is no function symbol. -/
def calledOutside : CallTrace × List FuncLine :=
  traceFuncCall ⟨some mainSymbols, 2, []⟩ 0x80000014 0x80000000 false

/-- The same call of the function in the first entry of a table. -/
def calledFirst : CallTrace × List FuncLine :=
  traceFuncCall ⟨some mainSymbols.tail, 2, []⟩ 0x80000014 0x80000010 false

/-- The first one is named by the memory in front of the table, the second one
is not named. -/
theorem traced_names_lost :
    calledOutside.2 = [.call 0x80000014 0 (.outside (-1)) 0x80000000] ∧
    ¬(∀ line ∈ calledOutside.2, line.Faithful mainSymbols) ∧
    calledFirst.2 = [.call 0x80000014 0 (.text unknownName) 0x80000010] ∧
    ¬(∀ line ∈ calledFirst.2, line.Faithful mainSymbols.tail) := by
  have outside : calledOutside.2 =
      [.call 0x80000014 0 (.outside (-1)) 0x80000000] := by decide
  have first : calledFirst.2 =
      [.call 0x80000014 0 (.text unknownName) 0x80000010] := by decide
  refine ⟨outside, fun faithful => ?_, first, fun faithful => ?_⟩
  · rw [outside] at faithful
    rcases faithful _ (List.mem_singleton_self _) with ⟨_, _, _, _, name⟩ | named
    · cases name
    · cases named.2
  · rw [first] at faithful
    rcases faithful _ (List.mem_singleton_self _) with
      ⟨entry, isEntry, _, _, name⟩ | named
    · rw [mainSymbols, List.tail_cons, List.mem_singleton] at isEntry
      subst isEntry
      exact absurd name (by decide)
    · exact named.1 _ (List.mem_singleton_self _) (by decide) rfl

/-! ## The depth -/

/-- Where a call or return is made, and where a call goes. -/
structure Site where
  pc : Word
  target : Word
  deriving DecidableEq, Repr

/-- `trace_func_call` without a tail call, or `trace_func_ret`. -/
def CallTrace.step (trace : CallTrace) :
    Transfer Site → CallTrace × List FuncLine
  | .call site => traceFuncCall trace site.pc site.target false
  | .ret site => traceFuncRet trace site.pc

/-- The transfers one after the other, and the lines of all of them. -/
def CallTrace.run (trace : CallTrace) :
    List (Transfer Site) → CallTrace × List FuncLine
  | [] => (trace, [])
  | transfer :: rest =>
      let first := trace.step transfer
      let later := first.1.run rest
      (later.1, first.2 ++ later.2)

/-- A loaded table and no tail call on the list. -/
abbrev traceAt (symbolTbl : List SymEntry) (callDepth : Int) : CallTrace :=
  ⟨some symbolTbl, callDepth, []⟩

/-- `INT_MAX`. -/
def maxIndent : Int := 2 ^ 31 - 1

/-- The depth comes back, every call and return is logged, a return with the
indentation of its call, and the indentations are what an `int` can hold. -/
structure BalancedTrace (symbolTbl : List SymEntry) (callDepth : Int)
    (calls : Calls Site) : Prop where
  restored : ((traceAt symbolTbl callDepth).run calls.trace).1.callDepth =
    callDepth
  aligned : calls.Paired
    (((traceAt symbolTbl callDepth).run calls.trace).2.map FuncLine.indent)
  inRange : ∀ line ∈ ((traceAt symbolTbl callDepth).run calls.trace).2,
    line.indent ≤ maxIndent

section Depth

variable {symbolTbl : List SymEntry} {callDepth : Int}

theorem run_append (trace : CallTrace) (first second : List (Transfer Site)) :
    trace.run (first ++ second) =
      (((trace.run first).1.run second).1,
        (trace.run first).2 ++ ((trace.run first).1.run second).2) := by
  induction first generalizing trace with
  | nil => rfl
  | cons transfer rest inductionHypothesis =>
      simp only [List.cons_append, CallTrace.run, inductionHypothesis,
        List.append_assoc]

theorem step_call_ignored (site : Site) (shallow : callDepth ≤ 1) :
    (traceAt symbolTbl callDepth).step (.call site) =
      (traceAt symbolTbl (callDepth + 1), []) := by
  have ignored : callDepth + 1 ≤ 2 := by omega
  simp only [CallTrace.step, traceFuncCall, traceAt, if_pos ignored]

theorem step_call_logged (site : Site) (deep : 2 ≤ callDepth) :
    (traceAt symbolTbl callDepth).step (.call site) =
      (traceAt symbolTbl (callDepth + 1),
        [callLine symbolTbl (callDepth + 1) site.pc site.target]) := by
  have logged : ¬callDepth + 1 ≤ 2 := by omega
  simp only [CallTrace.step, traceFuncCall, traceAt, if_neg logged]
  rfl

theorem step_ret_ignored (site : Site) (shallow : callDepth ≤ 2) :
    (traceAt symbolTbl callDepth).step (.ret site) =
      (traceAt symbolTbl callDepth, []) := by
  simp only [CallTrace.step, traceFuncRet, traceAt, traceFuncRetFrom]
  rw [if_pos shallow]

theorem step_ret_logged (site : Site) (deep : 3 ≤ callDepth) :
    (traceAt symbolTbl callDepth).step (.ret site) =
      (traceAt symbolTbl (callDepth - 1),
        [retLine symbolTbl callDepth site.pc]) := by
  simp only [CallTrace.step, traceFuncRet, traceAt, traceFuncRetFrom]
  rw [if_neg (by omega)]

/-! ### A table that stays loaded -/

theorem step_traceAt (symbolTbl : List SymEntry) (callDepth : Int)
    (transfer : Transfer Site) :
    ∃ depth lines, (traceAt symbolTbl callDepth).step transfer =
      (traceAt symbolTbl depth, lines) := by
  cases transfer with
  | call site =>
      by_cases shallow : callDepth ≤ 1
      · exact ⟨_, _, step_call_ignored site shallow⟩
      · exact ⟨_, _, step_call_logged site (by omega)⟩
  | ret site =>
      by_cases shallow : callDepth ≤ 2
      · exact ⟨_, _, step_ret_ignored site shallow⟩
      · exact ⟨_, _, step_ret_logged site (by omega)⟩

theorem run_traceAt (transfers : List (Transfer Site)) :
    ((traceAt symbolTbl callDepth).run transfers).1 =
      traceAt symbolTbl
        ((traceAt symbolTbl callDepth).run transfers).1.callDepth := by
  induction transfers generalizing callDepth with
  | nil => rfl
  | cons transfer rest inductionHypothesis =>
      obtain ⟨depth, lines, step⟩ := step_traceAt symbolTbl callDepth transfer
      simp only [CallTrace.run, step]
      exact inductionHypothesis

/-! ### Shallow calls -/

/-- A return takes away one at most. -/
theorem le_step_ret (symbolTbl : List SymEntry) (callDepth : Int)
    (site : Site) :
    min callDepth 2 ≤
        ((traceAt symbolTbl callDepth).step (.ret site)).1.callDepth ∧
      callDepth - 1 ≤
        ((traceAt symbolTbl callDepth).step (.ret site)).1.callDepth := by
  by_cases shallow : callDepth ≤ 2
  · rw [step_ret_ignored site shallow]
    simp only
    omega
  · rw [step_ret_logged site (by omega)]
    simp only
    omega

theorem step_call_depth (site : Site) :
    ((traceAt symbolTbl callDepth).step (.call site)).1 =
      traceAt symbolTbl (callDepth + 1) := by
  by_cases shallow : callDepth ≤ 1
  · rw [step_call_ignored site shallow]
  · rw [step_call_logged site (by omega)]

theorem run_call (site : Site) (body : Calls Site) (last : Site)
    (rest : Calls Site) :
    (traceAt symbolTbl callDepth).run (Calls.call site body last rest).trace =
      (((((traceAt symbolTbl (callDepth + 1)).run body.trace).1.step
          (.ret last)).1.run rest.trace).1,
        ((traceAt symbolTbl callDepth).step (.call site)).2 ++
          (((traceAt symbolTbl (callDepth + 1)).run body.trace).2 ++
            ((((traceAt symbolTbl (callDepth + 1)).run body.trace).1.step
              (.ret last)).2 ++
              ((((traceAt symbolTbl (callDepth + 1)).run body.trace).1.step
                (.ret last)).1.run rest.trace).2))) := by
  simp only [Calls.trace, CallTrace.run, run_append, step_call_depth]

/-- No sequence ends below its start, and below 2 every call raises the
depth. -/
theorem run_depth_ge (symbolTbl : List SymEntry) (callDepth : Int)
    (calls : Calls Site) :
    callDepth ≤ ((traceAt symbolTbl callDepth).run calls.trace).1.callDepth ∧
      (callDepth ≤ 1 → calls ≠ .done →
        callDepth <
          ((traceAt symbolTbl callDepth).run calls.trace).1.callDepth) := by
  induction calls generalizing callDepth with
  | done => exact ⟨le_refl _, fun _ notDone => absurd rfl notDone⟩
  | call site body last rest bodyHypothesis restHypothesis =>
      rw [run_call]
      have inside := (bodyHypothesis (callDepth + 1)).1
      rw [run_traceAt body.trace]
      generalize ((traceAt symbolTbl (callDepth + 1)).run
        body.trace).1.callDepth = reached at inside ⊢
      obtain ⟨back, lines, step⟩ := step_traceAt symbolTbl reached (.ret last)
      have returned := le_step_ret symbolTbl reached last
      rw [step] at returned ⊢
      have later := (restHypothesis back).1
      simp only at returned later ⊢
      omega

/-- From depth 2 on every sequence brings the depth back. -/
theorem run_deep (deep : 2 ≤ callDepth) (calls : Calls Site) :
    ((traceAt symbolTbl callDepth).run calls.trace).1 =
      traceAt symbolTbl callDepth := by
  induction calls generalizing callDepth with
  | done => rfl
  | call site body last rest bodyHypothesis restHypothesis =>
      rw [run_call, bodyHypothesis (by omega), step_ret_logged last (by omega),
        Int.add_sub_cancel]
      exact restHypothesis deep

/-- There a call is the lines of its body between its own two. -/
theorem run_call_deep (deep : 2 ≤ callDepth) (site : Site) (body : Calls Site)
    (last : Site) (rest : Calls Site) :
    ((traceAt symbolTbl callDepth).run
        (Calls.call site body last rest).trace).2 =
      callLine symbolTbl (callDepth + 1) site.pc site.target ::
        (((traceAt symbolTbl (callDepth + 1)).run body.trace).2 ++
          retLine symbolTbl (callDepth + 1) last.pc ::
            ((traceAt symbolTbl callDepth).run rest.trace).2) := by
  rw [run_call, run_deep (by omega), step_ret_logged last (by omega),
    Int.add_sub_cancel, step_call_logged site deep]
  rfl

theorem paired_run (deep : 2 ≤ callDepth) (calls : Calls Site) :
    calls.Paired (((traceAt symbolTbl callDepth).run calls.trace).2.map
      FuncLine.indent) := by
  induction calls generalizing callDepth with
  | done => rfl
  | call site body last rest bodyHypothesis restHypothesis =>
      rw [run_call_deep deep, List.map_cons, List.map_append, List.map_cons]
      exact ⟨_, _, _, rfl, bodyHypothesis (by omega), restHypothesis deep⟩

/-- The deepest call has the widest indentation. -/
theorem indent_le (deep : 2 ≤ callDepth) (calls : Calls Site) :
    ∀ line ∈ ((traceAt symbolTbl callDepth).run calls.trace).2,
      line.indent ≤ (callDepth + calls.depth - 3) * 2 := by
  induction calls generalizing callDepth with
  | done => simp [Calls.trace, CallTrace.run]
  | call site body last rest bodyHypothesis restHypothesis =>
      intro line isLine
      rw [run_call_deep deep] at isLine
      rw [Calls.depth_call]
      rcases List.mem_cons.mp isLine with rfl | isLater
      · simp only [callLine, FuncLine.indent]
        omega
      · rcases List.mem_append.mp isLater with inBody | isLater
        · have := bodyHypothesis (by omega) line inBody
          omega
        · rcases List.mem_cons.mp isLater with rfl | inRest
          · simp only [retLine, FuncLine.indent]
            omega
          · have := restHypothesis deep line inRest
            omega

theorem exists_indent (deep : 2 ≤ callDepth) (calls : Calls Site)
    (notDone : calls ≠ .done) :
    ∃ line ∈ ((traceAt symbolTbl callDepth).run calls.trace).2,
      line.indent = (callDepth + calls.depth - 3) * 2 := by
  induction calls generalizing callDepth with
  | done => exact absurd rfl notDone
  | call site body last rest bodyHypothesis restHypothesis =>
      rw [run_call_deep deep, Calls.depth_call]
      by_cases inRest : body.depth + 1 < rest.depth
      · obtain ⟨line, isLine, indent⟩ := restHypothesis deep (by
          rintro rfl
          exact absurd inRest (Nat.not_lt_zero _))
        refine ⟨line, by simp [isLine], ?_⟩
        omega
      · by_cases isLeaf : body = .done
        · subst isLeaf
          refine ⟨_, List.mem_cons_self, ?_⟩
          simp only [callLine, FuncLine.indent, Calls.depth] at inRest ⊢
          omega
        · obtain ⟨line, isLine, indent⟩ := @bodyHypothesis
            (callDepth + 1) (by omega) isLeaf
          refine ⟨line, by simp [isLine], ?_⟩
          omega

/-- From which depths the trace is balanced. -/
theorem balancedTrace_iff (symbolTbl : List SymEntry) (callDepth : Int)
    (calls : Calls Site) :
    BalancedTrace symbolTbl callDepth calls ↔
      calls = .done ∨
        2 ≤ callDepth ∧ callDepth + calls.depth ≤ 2 ^ 30 + 2 := by
  constructor
  · intro balanced
    by_cases isDone : calls = .done
    · exact .inl isDone
    · right
      have deep : 2 ≤ callDepth := by
        by_contra shallow
        have grows := (run_depth_ge symbolTbl callDepth calls).2
          (by omega) isDone
        exact absurd balanced.restored (Int.ne_of_gt grows)
      obtain ⟨line, isLine, indent⟩ := exists_indent deep calls isDone
      have inRange := balanced.inRange line isLine
      rw [indent, maxIndent] at inRange
      omega
  · rintro (rfl | ⟨deep, fits⟩)
    · exact ⟨rfl, rfl, by simp [Calls.trace, CallTrace.run]⟩
    · refine ⟨by rw [run_deep deep], paired_run deep calls,
        fun line isLine => ?_⟩
      have le := indent_le deep calls line isLine
      rw [maxIndent]
      omega

end Depth

/-- `_start` calls `main` from depth 0, and `main` returns. -/
def mainCall : Calls Site :=
  .call ⟨0x80000000, 0x80000010⟩ .done ⟨0x8000002c, 0⟩ .done

/-- Neither of the two is logged, and the depth stays one higher. -/
theorem mainCall_not_balanced :
    ((traceAt mainSymbols 0).run mainCall.trace).1.callDepth = 1 ∧
      ¬BalancedTrace mainSymbols 0 mainCall := by
  have depth :
      ((traceAt mainSymbols 0).run mainCall.trace).1.callDepth = 1 := by decide
  refine ⟨depth, fun balanced => ?_⟩
  have restored := balanced.restored
  rw [depth] at restored
  exact absurd restored (by decide)

end Ysyx.Nemu
