import Ysyx.Sdb.Trees

/-!
# Register operands

What a register in an expression stands for, and what its evaluation gives.
-/

namespace Ysyx.Sdb

open Nemu (Word CSR_MCAUSE CSR_MTVEC CSR_MTVAL CSR_MSTATUS CSR_MEPC)

inductive Register where
  | pc
  | gpr (index : BitVec 5)
  | sr (addr : BitVec 12)
  deriving DecidableEq, Repr

/-- The value of the register now. -/
def Register.value (machine : Machine) : Register → Word
  | pc => machine.pc
  | gpr index => machine.cpu.gpr index
  | sr addr => machine.cpu.sr addr

/-- The register with this name, by the names of the RISC-V calling convention
and of the privileged registers. -/
def registerNamed (name : List Char) : Option Register :=
  List.lookup name
    [(['$', '0'], .gpr 0), (['$', 'r', 'a'], .gpr 1), (['$', 's', 'p'], .gpr 2),
     (['$', 'g', 'p'], .gpr 3), (['$', 't', 'p'], .gpr 4),
     (['$', 't', '0'], .gpr 5), (['$', 't', '1'], .gpr 6),
     (['$', 't', '2'], .gpr 7), (['$', 's', '0'], .gpr 8),
     (['$', 's', '1'], .gpr 9), (['$', 'a', '0'], .gpr 10),
     (['$', 'a', '1'], .gpr 11), (['$', 'a', '2'], .gpr 12),
     (['$', 'a', '3'], .gpr 13), (['$', 'a', '4'], .gpr 14),
     (['$', 'a', '5'], .gpr 15), (['$', 'a', '6'], .gpr 16),
     (['$', 'a', '7'], .gpr 17), (['$', 's', '2'], .gpr 18),
     (['$', 's', '3'], .gpr 19), (['$', 's', '4'], .gpr 20),
     (['$', 's', '5'], .gpr 21), (['$', 's', '6'], .gpr 22),
     (['$', 's', '7'], .gpr 23), (['$', 's', '8'], .gpr 24),
     (['$', 's', '9'], .gpr 25), (['$', 's', '1', '0'], .gpr 26),
     (['$', 's', '1', '1'], .gpr 27), (['$', 't', '3'], .gpr 28),
     (['$', 't', '4'], .gpr 29), (['$', 't', '5'], .gpr 30),
     (['$', 't', '6'], .gpr 31), (['$', 'p', 'c'], .pc),
     (['m', 'c', 'a', 'u', 's', 'e'], .sr CSR_MCAUSE),
     (['m', 't', 'v', 'e', 'c'], .sr CSR_MTVEC),
     (['m', 't', 'v', 'a', 'l'], .sr CSR_MTVAL),
     (['m', 's', 't', 'a', 't', 'u', 's'], .sr CSR_MSTATUS),
     (['m', 'e', 'p', 'c'], .sr CSR_MEPC)]

/-! ## The texts of the tokens -/

/-- Every token is a word of a rule for its type. -/
theorem exists_rule_of_mem_wordsFrom {skip : Nat} {e : List Char}
    {token : Token} (member : token ∈ (wordsFrom skip e).1) :
    ∃ rule ∈ rules, rule.tokenType = token.type ∧
      rule.regex.Matches token.str := by
  induction e generalizing skip with
  | nil => cases skip <;> cases member
  | cons char rest inductionHypothesis =>
      cases skip with
      | succ skip => exact inductionHypothesis member
      | zero =>
          cases matched : firstMatch (char :: rest) with
          | none =>
              simp only [wordsFrom, matched] at member
              cases member
          | some found =>
              obtain ⟨type, substrLen⟩ := found
              simp only [wordsFrom, matched] at member
              split at member
              · exact inductionHypothesis member
              · rcases List.mem_cons.mp member with rfl | later
                · obtain ⟨rule, isRule, isType, longest⟩ :=
                    exists_rule_of_firstMatch matched
                  exact ⟨rule, isRule, isType,
                    (Regex.longest_eq_some.mp longest).1.2⟩
                · exact inductionHypothesis later

theorem regRegex_of_rule {rule : Rule} (member : rule ∈ rules)
    (isReg : rule.tokenType = .reg) : rule.regex = regRegex := by
  simp only [rules, List.mem_cons, List.not_mem_nil, or_false] at member
  rcases member with rfl | rfl | rfl | rfl | rfl | rfl | rfl | rfl | rfl | rfl |
    rfl | rfl | rfl | rfl <;> first | rfl | cases isReg

theorem regRegex_finite : regRegex.Finite := by
  simp [regRegex, dollarRegex, Regex.word, Regex.Finite]

/-- A register token is one of finitely many names. -/
theorem reg_mem_words {e : List Char} {token : Token}
    (member : token ∈ words e) (isReg : token.type = .reg) :
    token.str ∈ regRegex.words := by
  obtain ⟨rule, isRule, isType, describes⟩ :=
    exists_rule_of_mem_wordsFrom member
  rw [regRegex_of_rule isRule (isType.trans isReg)] at describes
  exact (Regex.matches_iff_mem_words regRegex_finite).mp describes

/-! ## The lookup -/

/-- The register at which `isa_reg_str2val` looks. -/
def lookedUp (s : List Char) : Option Register :=
  if s = ['p', 'c'] then some .pc
  else if s = ['m', 's', 't', 'a', 't', 'u', 's'] then some (.sr CSR_MSTATUS)
  else if s = ['m', 'e', 'p', 'c'] then some (.sr CSR_MEPC)
  else if s = ['m', 't', 'v', 'e', 'c'] then some (.sr CSR_MTVEC)
  else if s = ['m', 'c', 'a', 'u', 's', 'e'] then some (.sr CSR_MCAUSE)
  else (regs.findIdx? (s = ·)).map fun i => .gpr (BitVec.ofNat 5 i)

theorem isaRegStr2val_eq (machine : Machine) (s : List Char) :
    isaRegStr2val machine s = (lookedUp s).map (Register.value machine) := by
  rw [isaRegStr2val, lookedUp]
  split_ifs
  · rfl
  · rfl
  · rfl
  · rfl
  · rfl
  · rw [Option.map_map]
    rfl

/-- Behind a `$` stands the name of the register, except in `$0`. -/
theorem lookedUp_of_dollar {name : List Char}
    (member : name ∈ regRegex.words) (dollar : name.head? = some '$')
    (notZero : name ≠ ['$', '0']) :
    lookedUp name.tail = registerNamed name ∧
      (registerNamed name).isSome = true := by
  revert name
  decide +kernel

/-- All other names are unknown without their first character. -/
theorem lookedUp_of_other {name : List Char} (member : name ∈ regRegex.words)
    (other : ¬(name.head? = some '$' ∧ name ≠ ['$', '0'])) :
    lookedUp name.tail = none := by
  revert name
  decide +kernel

theorem evalsTo_singleton (machine : Machine) (token : Token) (value : Word) :
    EvalsTo machine [token] value ↔ evalToken machine token = value := by
  have step : ∀ fuel, eval machine [token] (fuel + 1) 0 1 =
      .ok (evalToken machine token) := fun fuel =>
    eval_leaf machine (At.whole (.leaf token .nil)) fuel
  constructor
  · rintro ⟨enough, returns⟩
    have returned := returns (enough + 1) (Nat.le_succ enough)
    rw [List.length_singleton, step] at returned
    exact Except.ok.inj returned
  · rintro rfl
    refine ⟨1, fun fuel positive => ?_⟩
    obtain ⟨fuel, rfl⟩ := Nat.exists_eq_add_of_le' positive
    exact step fuel

/-- A register token of a text evaluates to the register that it names, with
its name found, if it starts with `$` and is not `$0`; otherwise the lookup
fails. -/
theorem register_operand_iff (machine : Machine) {e : List Char}
    {tokens : List Token} (tokenised : makeToken e = .ok (some tokens))
    {token : Token} (member : token ∈ tokens) (isReg : token.type = .reg) :
    (∃ register, registerNamed token.str = some register ∧
        EvalsTo machine [token] (register.value machine) ∧
        (isaRegStr2val machine token.str.tail).isSome = true) ↔
      token.str.head? = some '$' ∧ token.str ≠ ['$', '0'] := by
  have isWord : token.str ∈ regRegex.words := by
    rw [makeToken_eq] at tokenised
    split at tokenised
    · split at tokenised <;> cases tokenised
      exact reg_mem_words member isReg
    · cases tokenised
  constructor
  · rintro ⟨register, -, -, found⟩
    by_contra other
    rw [isaRegStr2val_eq, lookedUp_of_other isWord other] at found
    cases found
  · rintro ⟨dollar, notZero⟩
    obtain ⟨same, named⟩ := lookedUp_of_dollar isWord dollar notZero
    obtain ⟨register, isRegister⟩ := Option.isSome_iff_exists.mp named
    have found : isaRegStr2val machine token.str.tail =
        some (register.value machine) := by
      rw [isaRegStr2val_eq, same, isRegister]
      rfl
    refine ⟨register, isRegister, ?_, by rw [found]; rfl⟩
    rw [evalsTo_singleton, evalToken, isReg, found]
    rfl

/-- The debugger finds the stack pointer. -/
theorem register_operand_at_sp :
    ∃ register, registerNamed ['$', 's', 'p'] = some register ∧
      EvalsTo ⟨0, ⟨fun _ => 0, fun _ => 0, rfl⟩, fun _ => some 0⟩
        [⟨.reg, ['$', 's', 'p']⟩]
        (register.value ⟨0, ⟨fun _ => 0, fun _ => 0, rfl⟩, fun _ => some 0⟩) ∧
      (isaRegStr2val ⟨0, ⟨fun _ => 0, fun _ => 0, rfl⟩, fun _ => some 0⟩
        ['s', 'p']).isSome = true :=
  (register_operand_iff ⟨0, ⟨fun _ => 0, fun _ => 0, rfl⟩, fun _ => some 0⟩
    (show makeToken ['$', 's', 'p'] = .ok (some [⟨.reg, ['$', 's', 'p']⟩]) by
      decide +kernel)
    List.mem_cons_self rfl).mpr ⟨rfl, by decide⟩

/-- The cause of a trap is not found: the lookup gets `cause`. -/
theorem register_operand_fails_at_mcause :
    ¬∀ (machine : Machine) (e : List Char) (tokens : List Token),
      makeToken e = .ok (some tokens) →
      ∀ token ∈ tokens, token.type = .reg →
        ∃ register, registerNamed token.str = some register ∧
          EvalsTo machine [token] (register.value machine) ∧
          (isaRegStr2val machine token.str.tail).isSome = true := by
  intro always
  obtain ⟨register, -, -, found⟩ :=
    always ⟨0, ⟨fun _ => 0, fun _ => 7, rfl⟩, fun _ => some 0⟩
      ['m', 'c', 'a', 'u', 's', 'e'] [⟨.reg, ['m', 'c', 'a', 'u', 's', 'e']⟩]
      (by decide +kernel) _ List.mem_cons_self rfl
  have unknown : lookedUp ['c', 'a', 'u', 's', 'e'] = none := by decide
  rw [isaRegStr2val_eq, List.tail_cons, unknown] at found
  cases found

end Ysyx.Sdb
