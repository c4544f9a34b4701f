import Mathlib.Data.List.Basic
import Mathlib.Data.List.TakeWhile
import Mathlib.Order.Basic

/-!
# Regular expressions

Extended regular expressions without empty words, matched at the start of a
text.  Of all matches the longest one counts.
-/

/-- One character, one or more characters, and the two ways to combine. -/
inductive Regex where
  | oneOf (chars : List Char)
  | many (chars : List Char)
  | seq (first second : Regex)
  | alt (first second : Regex)
  deriving DecidableEq, Repr

namespace Regex

/-- The word as a regular expression. -/
def word : Char → List Char → Regex
  | char, [] => oneOf [char]
  | char, next :: rest => seq (oneOf [char]) (word next rest)

/-- The words that an expression describes. -/
inductive Matches : Regex → List Char → Prop where
  | oneOf {chars : List Char} {char : Char} (mem : char ∈ chars) :
      Matches (oneOf chars) [char]
  | many {chars text : List Char} (nonempty : text ≠ [])
      (mem : ∀ char ∈ text, char ∈ chars) : Matches (many chars) text
  | seq {first second : Regex} {left right : List Char}
      (matchesFirst : Matches first left)
      (matchesSecond : Matches second right) :
      Matches (seq first second) (left ++ right)
  | altFirst {first second : Regex} {text : List Char}
      (matchesFirst : Matches first text) : Matches (alt first second) text
  | altSecond {first second : Regex} {text : List Char}
      (matchesSecond : Matches second text) : Matches (alt first second) text

/-- The lengths of all matches at the start of a text. -/
def ends : Regex → List Char → List Nat
  | oneOf _, [] => []
  | oneOf chars, char :: _ => if char ∈ chars then [1] else []
  | many chars, text => List.range' 1 (text.takeWhile (· ∈ chars)).length
  | seq first second, text =>
      (first.ends text).flatMap fun length =>
        (second.ends (text.drop length)).map (length + ·)
  | alt first second, text => first.ends text ++ second.ends text

/-- The length of the longest match at the start of a text. -/
def longest (regex : Regex) (text : List Char) : Option Nat :=
  (regex.ends text).max?

theorem mem_takeWhile_length {chars text : List Char} {length : Nat} :
    length ≤ (text.takeWhile (· ∈ chars)).length ↔
      length ≤ text.length ∧ ∀ char ∈ text.take length, char ∈ chars := by
  induction text generalizing length with
  | nil => simp
  | cons char rest inductionHypothesis =>
      cases length with
      | zero => simp
      | succ length =>
          by_cases member : char ∈ chars
          · simp [member, inductionHypothesis]
          · simp [member]

theorem mem_ends_oneOf {chars : List Char} {text : List Char} {length : Nat} :
    length ∈ (oneOf chars).ends text ↔
      length ≤ text.length ∧ (oneOf chars).Matches (text.take length) := by
  constructor
  · intro member
    cases text with
    | nil => simp [ends] at member
    | cons char rest =>
        rw [ends] at member
        split at member
        · obtain rfl := List.mem_singleton.mp member
          exact ⟨by simp, Matches.oneOf ‹_›⟩
        · cases member
  · rintro ⟨bound, describes⟩
    cases text with
    | nil =>
        rw [List.take_nil] at describes
        cases describes
    | cons char rest =>
        cases length with
        | zero => cases describes
        | succ length =>
            rw [List.take_succ_cons] at describes
            generalize tail : rest.take length = remaining at describes
            cases describes with
            | oneOf mem =>
                have short : length = 0 ∨ rest = [] := by
                  simpa using tail
                have exact_one : length + 1 = 1 := by
                  rcases short with rfl | rfl
                  · rfl
                  · simpa using bound
                simp [ends, mem, exact_one]

theorem mem_ends_many {chars : List Char} {text : List Char} {length : Nat} :
    length ∈ (many chars).ends text ↔
      length ≤ text.length ∧ (many chars).Matches (text.take length) := by
  have range : length ∈ (many chars).ends text ↔
      1 ≤ length ∧ length ≤ (text.takeWhile (· ∈ chars)).length := by
    rw [ends, List.mem_range'_1]
    omega
  rw [range, mem_takeWhile_length]
  constructor
  · rintro ⟨positive, bound, mem⟩
    refine ⟨bound, Matches.many ?_ mem⟩
    intro empty
    have := congrArg List.length empty
    rw [List.length_take, List.length_nil] at this
    omega
  · rintro ⟨bound, describes⟩
    cases describes with
    | many nonempty mem =>
        refine ⟨?_, bound, mem⟩
        by_contra zero
        exact nonempty (by simp [show length = 0 by omega])

/-- The matches of an expression are the beginnings of the text that it
describes. -/
theorem mem_ends {regex : Regex} {text : List Char} {length : Nat} :
    length ∈ regex.ends text ↔
      length ≤ text.length ∧ regex.Matches (text.take length) := by
  induction regex generalizing text length with
  | oneOf chars =>
      exact mem_ends_oneOf
  | many chars =>
      exact mem_ends_many
  | seq first second firstHypothesis secondHypothesis =>
      simp only [ends, List.mem_flatMap, List.mem_map]
      constructor
      · rintro ⟨left, memLeft, right, memRight, rfl⟩
        obtain ⟨leftBound, leftMatches⟩ := firstHypothesis.mp memLeft
        obtain ⟨rightBound, rightMatches⟩ := secondHypothesis.mp memRight
        rw [List.length_drop] at rightBound
        refine ⟨by omega, ?_⟩
        rw [List.take_add]
        exact Matches.seq leftMatches rightMatches
      · rintro ⟨bound, describes⟩
        generalize whole : text.take length = taken at describes
        cases describes with
        | @seq _ _ left right matchesFirst matchesSecond =>
            have lengths : length = left.length + right.length := by
              have := congrArg List.length whole
              rw [List.length_take, List.length_append] at this
              omega
            have split : text = left ++ (right ++ text.drop length) := by
              rw [← List.append_assoc, ← whole, List.take_append_drop]
            refine ⟨left.length, firstHypothesis.mpr ⟨by omega, ?_⟩,
              right.length, secondHypothesis.mpr ⟨?_, ?_⟩, lengths.symm⟩
            · rw [split, List.take_left]
              exact matchesFirst
            · rw [List.length_drop]
              omega
            · rw [split, List.drop_left, List.take_left]
              exact matchesSecond
  | alt first second firstHypothesis secondHypothesis =>
      rw [ends, List.mem_append, firstHypothesis, secondHypothesis]
      constructor
      · rintro (⟨bound, describes⟩ | ⟨bound, describes⟩)
        · exact ⟨bound, Matches.altFirst describes⟩
        · exact ⟨bound, Matches.altSecond describes⟩
      · rintro ⟨bound, describes⟩
        cases describes with
        | altFirst matchesFirst => exact .inl ⟨bound, matchesFirst⟩
        | altSecond matchesSecond => exact .inr ⟨bound, matchesSecond⟩

theorem longest_eq_some {regex : Regex} {text : List Char} {length : Nat} :
    regex.longest text = some length ↔
      (length ≤ text.length ∧ regex.Matches (text.take length)) ∧
      ∀ other, other ≤ text.length → regex.Matches (text.take other) →
        other ≤ length := by
  rw [longest, List.max?_eq_some_iff, mem_ends]
  simp only [mem_ends, and_imp]

/-- A text that is a word is the longest match. -/
theorem longest_of_matches {regex : Regex} {text : List Char}
    (describes : regex.Matches text) : regex.longest text = some text.length := by
  rw [longest_eq_some]
  refine ⟨⟨le_refl _, ?_⟩, fun other bound _ => bound⟩
  rw [List.take_length]
  exact describes

/-! ## First characters -/

/-- The characters with which a word may start. -/
def starts : Regex → List Char
  | oneOf chars => chars
  | many chars => chars
  | seq first _ => first.starts
  | alt first second => first.starts ++ second.starts

theorem Matches.head_mem {regex : Regex} {text : List Char}
    (describes : regex.Matches text) :
    ∃ char rest, text = char :: rest ∧ char ∈ regex.starts := by
  induction describes with
  | oneOf mem => exact ⟨_, [], rfl, mem⟩
  | @many chars text nonempty mem =>
      cases text with
      | nil => exact absurd rfl nonempty
      | cons char rest =>
          exact ⟨char, rest, rfl, mem char List.mem_cons_self⟩
  | seq _ _ firstHypothesis =>
      obtain ⟨char, rest, rfl, mem⟩ := firstHypothesis
      exact ⟨char, rest ++ _, rfl, mem⟩
  | altFirst _ inductionHypothesis =>
      obtain ⟨char, rest, equal, mem⟩ := inductionHypothesis
      exact ⟨char, rest, equal, List.mem_append_left _ mem⟩
  | altSecond _ inductionHypothesis =>
      obtain ⟨char, rest, equal, mem⟩ := inductionHypothesis
      exact ⟨char, rest, equal, List.mem_append_right _ mem⟩

/-- A text whose first character starts no word has no match. -/
theorem longest_eq_none_of_head {regex : Regex} {char : Char}
    {rest : List Char} (absent : char ∉ regex.starts) :
    regex.longest (char :: rest) = none := by
  rw [longest, List.max?_eq_none_iff, List.eq_nil_iff_forall_not_mem]
  intro length member
  obtain ⟨first, tail, equal, mem⟩ := (mem_ends.mp member).2.head_mem
  cases length with
  | zero => cases equal
  | succ length =>
      rw [List.take_succ_cons, List.cons.injEq] at equal
      exact absent (equal.1 ▸ mem)

/-! ## Finite languages -/

/-- No repetition. -/
def Finite : Regex → Prop
  | oneOf _ => True
  | many _ => False
  | seq first second => first.Finite ∧ second.Finite
  | alt first second => first.Finite ∧ second.Finite

/-- All words of an expression without repetition. -/
def words : Regex → List (List Char)
  | oneOf chars => chars.map fun char => [char]
  | many _ => []
  | seq first second =>
      first.words.flatMap fun left => second.words.map (left ++ ·)
  | alt first second => first.words ++ second.words

theorem matches_iff_mem_words {regex : Regex} (finite : regex.Finite)
    {text : List Char} : regex.Matches text ↔ text ∈ regex.words := by
  induction regex generalizing text with
  | oneOf chars =>
      rw [words, List.mem_map]
      constructor
      · rintro ⟨mem⟩
        exact ⟨_, mem, rfl⟩
      · rintro ⟨char, mem, rfl⟩
        exact Matches.oneOf mem
  | many chars => exact finite.elim
  | seq first second firstHypothesis secondHypothesis =>
      simp only [words, List.mem_flatMap, List.mem_map]
      constructor
      · intro describes
        cases describes with
        | seq matchesFirst matchesSecond =>
            exact ⟨_, (firstHypothesis finite.1).mp matchesFirst, _,
              (secondHypothesis finite.2).mp matchesSecond, rfl⟩
      · rintro ⟨left, leftMember, right, rightMember, rfl⟩
        exact Matches.seq ((firstHypothesis finite.1).mpr leftMember)
          ((secondHypothesis finite.2).mpr rightMember)
  | alt first second firstHypothesis secondHypothesis =>
      rw [words, List.mem_append, ← firstHypothesis finite.1,
        ← secondHypothesis finite.2]
      constructor
      · intro describes
        cases describes with
        | altFirst matchesFirst => exact .inl matchesFirst
        | altSecond matchesSecond => exact .inr matchesSecond
      · rintro (matchesFirst | matchesSecond)
        · exact Matches.altFirst matchesFirst
        · exact Matches.altSecond matchesSecond

/-! ## Runs of characters -/

/-- A run of characters matches as far as it goes. -/
theorem longest_takeWhile {chars text : List Char}
    (nonempty : text.takeWhile (· ∈ chars) ≠ []) :
    (many chars).longest text =
      some (text.takeWhile (· ∈ chars)).length := by
  have positive := List.length_pos_iff.mpr nonempty
  rw [longest, ends, List.max?_eq_some_iff]
  simp only [List.mem_range'_1]
  exact ⟨by omega, fun other bound => by omega⟩

theorem longest_many {chars text rest : List Char} (nonempty : text ≠ [])
    (mem : ∀ char ∈ text, char ∈ chars)
    (stops : ∀ char, rest.head? = some char → char ∉ chars) :
    (many chars).longest (text ++ rest) = some text.length := by
  have run : (text ++ rest).takeWhile (· ∈ chars) = text := by
    rw [List.takeWhile_append_of_pos (by simpa using mem)]
    cases rest with
    | nil => simp
    | cons char rest => simp [stops char rfl]
  rw [longest_takeWhile (by rwa [run]), run]

end Regex
