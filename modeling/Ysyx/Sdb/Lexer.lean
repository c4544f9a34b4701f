import Ysyx.Lib.Regex

/-!
# The tokens of an expression

`make_token` of the simple debugger: the rules, and the loop that cuts a text
into tokens and records them in the array `tokens`.
-/

namespace Ysyx.Sdb

/-- The `TK_…` values and the characters that stand for themselves. -/
inductive TokenType where
  | notype | eq | number | negative | noeq | and | pointerDeref | reg | hex | or
  | plus | minus | times | slash | lparen | rparen
  deriving DecidableEq, Repr

structure Token where
  type : TokenType
  str : List Char
  deriving DecidableEq, Repr

/-- What keeps the debugger from an answer: the recursion goes on, an array is
accessed outside of its bounds, a division raises `SIGFPE`, or `paddr_read`
panics. -/
inductive Stop where
  | outOfFuel
  | outOfBounds
  | divisionTrap
  | badRead
  deriving DecidableEq, Repr

/-! ## The rules -/

def decimalDigits : List Char :=
  ['0', '1', '2', '3', '4', '5', '6', '7', '8', '9']

def hexDigits : List Char :=
  decimalDigits ++
    ['a', 'b', 'c', 'd', 'e', 'f', 'A', 'B', 'C', 'D', 'E', 'F']

/-- `\$(0|ra|[sgt]p|pc|t[0-6]|a[0-7]|s([0-9]|1[0-1]))`. -/
def dollarRegex : Regex :=
  .seq (.oneOf ['$'])
    (.alt (.oneOf ['0'])
    (.alt (.word 'r' ['a'])
    (.alt (.seq (.oneOf ['s', 'g', 't']) (.oneOf ['p']))
    (.alt (.word 'p' ['c'])
    (.alt (.seq (.oneOf ['t']) (.oneOf ['0', '1', '2', '3', '4', '5', '6']))
    (.alt (.seq (.oneOf ['a'])
      (.oneOf ['0', '1', '2', '3', '4', '5', '6', '7']))
    (.seq (.oneOf ['s'])
      (.alt (.oneOf decimalDigits)
        (.seq (.oneOf ['1']) (.oneOf ['0', '1']))))))))))

/-- The registers with a `$`, and
`mcause|mtvec|mtval|mstatus|mepc` without one. -/
def regRegex : Regex :=
  .alt dollarRegex
    (.alt (.word 'm' ['c', 'a', 'u', 's', 'e'])
    (.alt (.word 'm' ['t', 'v', 'e', 'c'])
    (.alt (.word 'm' ['t', 'v', 'a', 'l'])
    (.alt (.word 'm' ['s', 't', 'a', 't', 'u', 's'])
    (.word 'm' ['e', 'p', 'c'])))))

/-- `0[xX][0-9a-fA-F]+`. -/
def hexRegex : Regex :=
  .seq (.oneOf ['0']) (.seq (.oneOf ['x', 'X']) (.many hexDigits))

/-- `struct rule`. -/
structure Rule where
  regex : Regex
  tokenType : TokenType

def rules : List Rule :=
  [⟨.many [' '], .notype⟩,
   ⟨.word '+' [], .plus⟩,
   ⟨.word '=' ['='], .eq⟩,
   ⟨.word '!' ['='], .noeq⟩,
   ⟨.word '&' ['&'], .and⟩,
   ⟨.word '|' ['|'], .or⟩,
   ⟨.word '-' [], .minus⟩,
   ⟨.word '*' [], .times⟩,
   ⟨.word '/' [], .slash⟩,
   ⟨.word '(' [], .lparen⟩,
   ⟨.word ')' [], .rparen⟩,
   ⟨regRegex, .reg⟩,
   ⟨hexRegex, .hex⟩,
   ⟨.many decimalDigits, .number⟩]

/-- The first rule that matches here, and the length of its match. -/
def firstMatch (e : List Char) : Option (TokenType × Nat) :=
  rules.findSome? fun rule =>
    (rule.regex.longest e).map fun substrLen => (rule.tokenType, substrLen)

/-! ## The loop -/

/-- Entries of the array `tokens`. -/
def tokensSize : Nat := 100000

/-- Bytes of `str` in a token, one of them for the final zero. -/
def strSize : Nat := 32

/-- The loop of `make_token`.  `skip` characters belong to the last match;
`none` is a position where no rule matches. -/
def makeTokenFrom :
    Nat → Nat → List Char → Except Stop (Option (List Token))
  | _, _, [] => .ok (some [])
  | nrToken, skip + 1, _ :: rest => makeTokenFrom nrToken skip rest
  | nrToken, 0, char :: rest =>
      match firstMatch (char :: rest) with
      | none => .ok none
      | some (type, substrLen) =>
          if type = .notype then
            makeTokenFrom nrToken (substrLen - 1) rest
          -- `token.str[substr_len]` and `tokens[nr_token]` are written
          else if strSize ≤ substrLen ∨ tokensSize ≤ nrToken then
            .error .outOfBounds
          else
            (makeTokenFrom (nrToken + 1) (substrLen - 1) rest).map
              (Option.map (⟨type, (char :: rest).take substrLen⟩ :: ·))

/-- `make_token`: the tokens, or `none` where it returns false. -/
def makeToken (e : List Char) : Except Stop (Option (List Token)) :=
  makeTokenFrom 0 0 e

/-! ## The words of a text -/

/-- The tokens up to the first position without a match, and whether there is
no such position. -/
def wordsFrom : Nat → List Char → List Token × Bool
  | _, [] => ([], true)
  | skip + 1, _ :: rest => wordsFrom skip rest
  | 0, char :: rest =>
      match firstMatch (char :: rest) with
      | none => ([], false)
      | some (type, substrLen) =>
          let following := wordsFrom (substrLen - 1) rest
          if type = .notype then
            following
          else
            (⟨type, (char :: rest).take substrLen⟩ :: following.1, following.2)

/-- The tokens that a text starts with. -/
def words (e : List Char) : List Token := (wordsFrom 0 e).1

/-- Every position is met by a rule. -/
def Tokenisable (e : List Char) : Prop := (wordsFrom 0 e).2 = true

/-- The tokens have room in the array, and their texts in the tokens. -/
def Fits (tokens : List Token) : Prop :=
  tokens.length ≤ tokensSize ∧ ∀ token ∈ tokens, token.str.length < strSize

instance (e : List Char) : Decidable (Tokenisable e) :=
  inferInstanceAs (Decidable (_ = _))

instance (tokens : List Token) : Decidable (Fits tokens) :=
  inferInstanceAs (Decidable (_ ∧ _))

theorem exists_rule_of_firstMatch {e : List Char} {type : TokenType}
    {substrLen : Nat} (matched : firstMatch e = some (type, substrLen)) :
    ∃ rule ∈ rules, rule.tokenType = type ∧
      rule.regex.longest e = some substrLen := by
  obtain ⟨rule, member, isMatch⟩ := List.exists_of_findSome?_eq_some matched
  cases found : rule.regex.longest e with
  | none => simp [found] at isMatch
  | some length =>
      rw [found] at isMatch
      cases isMatch
      exact ⟨rule, member, rfl, found⟩

theorem length_take_of_firstMatch {e : List Char} {type : TokenType}
    {substrLen : Nat} (matched : firstMatch e = some (type, substrLen)) :
    (e.take substrLen).length = substrLen := by
  obtain ⟨rule, -, -, longest⟩ := exists_rule_of_firstMatch matched
  rw [List.length_take, Nat.min_eq_left (Regex.longest_eq_some.mp longest).1.1]

/-- The loop records the words of the text if they fit. -/
theorem makeTokenFrom_eq {nrToken : Nat} (room : nrToken ≤ tokensSize)
    (skip : Nat) (e : List Char) :
    makeTokenFrom nrToken skip e =
      if nrToken + (wordsFrom skip e).1.length ≤ tokensSize ∧
          ∀ token ∈ (wordsFrom skip e).1, token.str.length < strSize then
        .ok (if (wordsFrom skip e).2 then some (wordsFrom skip e).1 else none)
      else
        .error .outOfBounds := by
  induction e generalizing nrToken skip with
  | nil => cases skip <;> simp [makeTokenFrom, wordsFrom, room]
  | cons char rest inductionHypothesis =>
      cases skip with
      | succ skip => exact inductionHypothesis room skip
      | zero =>
          cases matched : firstMatch (char :: rest) with
          | none => simp [makeTokenFrom, wordsFrom, matched, room]
          | some found =>
              obtain ⟨type, substrLen⟩ := found
              have length := length_take_of_firstMatch matched
              simp only [makeTokenFrom, wordsFrom, matched]
              by_cases space : type = .notype
              · simp only [if_pos space]
                exact inductionHypothesis room (substrLen - 1)
              · simp only [if_neg space, List.length_cons,
                  List.forall_mem_cons, length]
                by_cases full : strSize ≤ substrLen ∨ tokensSize ≤ nrToken
                · rw [if_pos full, if_neg (by omega)]
                · rw [if_neg full, inductionHypothesis (by omega)]
                  generalize wordsFrom (substrLen - 1) rest = following
                  by_cases fits : nrToken + 1 + following.1.length ≤ tokensSize ∧
                      ∀ token ∈ following.1, token.str.length < strSize
                  · have allFits :
                        nrToken + (following.1.length + 1) ≤ tokensSize ∧
                          substrLen < strSize ∧
                          ∀ token ∈ following.1, token.str.length < strSize :=
                      ⟨by omega, by omega, fits.2⟩
                    rw [if_pos fits, if_pos allFits]
                    cases following.2 <;> rfl
                  · rw [if_neg fits, if_neg]
                    · rfl
                    · rintro ⟨count, -, texts⟩
                      exact fits ⟨by omega, texts⟩

/-- `make_token` finds the words of the text if they fit. -/
theorem makeToken_eq (e : List Char) :
    makeToken e =
      if Fits (words e) then
        .ok (if Tokenisable e then some (words e) else none)
      else
        .error .outOfBounds := by
  rw [makeToken, makeTokenFrom_eq (Nat.zero_le _)]
  simp only [Nat.zero_add]
  rfl

end Ysyx.Sdb
