import Ysyx.Klib.Rendering

/-!
# `atoi` on what `sprintf` prints
-/

namespace Ysyx.Klib

open Blocks (Holds)

/-- `while (*nptr == ' ') { nptr ++; }`, for at most `fuel` tests. -/
def skipBlanks (nptr : Nat → Byte) : Nat → Nat → Option Nat
  | 0, _ => none
  | fuel + 1, pos =>
      if nptr pos = ascii ' ' then skipBlanks nptr fuel (pos + 1) else some pos

/-- `while (*nptr >= '0' && *nptr <= '9') { x = x * 10 + *nptr - '0';
nptr ++; }`, for at most `fuel` tests. -/
def atoiLoop (nptr : Nat → Byte) :
    Nat → Nat → BitVec 32 → Option (BitVec 32)
  | 0, _, _ => none
  | fuel + 1, pos, x =>
      if ascii '0' ≤ nptr pos ∧ nptr pos ≤ ascii '9' then
        atoiLoop nptr fuel (pos + 1)
          (x * 10 + (nptr pos).setWidth 32 - (ascii '0').setWidth 32)
      else some x

/-- `atoi`. -/
def atoi (fuel : Nat) (nptr : Nat → Byte) : Option (BitVec 32) :=
  (skipBlanks nptr fuel 0).bind fun pos => atoiLoop nptr fuel pos 0

section Digits

variable {nptr : Nat → Byte}

theorem ascii_toNat {char : Char} (digit : char.isDigit) :
    (ascii char).toNat = char.toNat ∧ 48 ≤ char.toNat ∧ char.toNat ≤ 57 := by
  obtain ⟨lower, upper⟩ := Char.isDigit_iff_toNat.mp digit
  change 48 ≤ char.toNat at lower
  change char.toNat ≤ 57 at upper
  refine ⟨?_, lower, upper⟩
  rw [ascii, BitVec.toNat_ofNat, Nat.mod_eq_of_lt (by omega)]

/-- One digit more. -/
theorem nextValue_eq {char : Char} (digit : char.isDigit) (value : Nat) :
    BitVec.ofNat 32 value * 10 + (ascii char).setWidth 32 -
        (ascii '0').setWidth 32 =
      BitVec.ofNat 32 (10 * value + (char.toNat - '0'.toNat)) := by
  obtain ⟨code, lower, upper⟩ := ascii_toNat digit
  have zero : ((ascii '0').setWidth 32).toNat = 48 := rfl
  have ten : (10 : BitVec 32).toNat = 10 := rfl
  apply BitVec.eq_of_toNat_eq
  simp only [BitVec.toNat_sub, BitVec.toNat_add, BitVec.toNat_mul,
    BitVec.toNat_setWidth, BitVec.toNat_ofNat, zero, ten, code]
  change _ = (10 * value + (char.toNat - 48)) % 2 ^ 32
  omega

/-- The loop reads a number up to its end. -/
theorem atoiLoop_digits {digits : List Char}
    (areDigits : ∀ char ∈ digits, char.isDigit) {fuel pos value : Nat}
    (holds : Holds (fun i => nptr (pos + i)) (digits.map ascii ++ [0]))
    (enough : digits.length < fuel) :
    atoiLoop nptr fuel pos (BitVec.ofNat 32 value) =
      some (BitVec.ofNat 32 (Nat.ofDigitChars 10 digits value)) := by
  induction digits generalizing fuel pos value with
  | nil =>
      obtain ⟨fuel, rfl⟩ : ∃ rest, fuel = rest + 1 := ⟨fuel - 1, by omega⟩
      have isEnd : nptr pos = 0 := holds 0 Nat.zero_lt_one
      rw [atoiLoop, isEnd, if_neg (by decide), Nat.ofDigitChars_nil]
  | cons char rest inductionHypothesis =>
      obtain ⟨fuel, rfl⟩ : ∃ rest, fuel = rest + 1 := ⟨fuel - 1, by omega⟩
      rw [List.forall_mem_cons] at areDigits
      rw [List.map_cons, List.cons_append, Blocks.holds_cons] at holds
      obtain ⟨code, lower, upper⟩ := ascii_toNat areDigits.1
      have here : nptr pos = ascii char := holds.1
      have inRange : ascii '0' ≤ nptr pos ∧ nptr pos ≤ ascii '9' := by
        rw [here, BitVec.le_def, BitVec.le_def, code]
        exact ⟨lower, upper⟩
      have holdsRest : Holds (fun i => nptr (pos + 1 + i))
          (rest.map ascii ++ [0]) := by
        simpa only [Nat.add_assoc, Nat.add_comm 1] using holds.2
      rw [atoiLoop, if_pos inRange, here, nextValue_eq areDigits.1,
        inductionHypothesis areDigits.2 holdsRest
          (Nat.lt_of_succ_lt_succ enough),
        Nat.ofDigitChars_cons]

theorem skipBlanks_of_ne {fuel : Nat} (notBlank : nptr 0 ≠ ascii ' ') :
    skipBlanks nptr (fuel + 1) 0 = some 0 :=
  if_neg notBlank

/-- `atoi` reads back what `decimalDigits` writes. -/
theorem atoi_decimalDigits {n : Nat}
    (holds : Holds nptr (decimalDigits n ++ [0])) :
    ∃ fuel, atoi fuel nptr = some (BitVec.ofNat 32 n) := by
  have areDigits : ∀ char ∈ Nat.toDigits 10 n, char.isDigit :=
    fun char member =>
      Nat.isDigit_of_mem_toDigits (by decide) (by decide) member
  have first : nptr 0 ≠ ascii ' ' := by
    obtain ⟨char, rest, isCons⟩ :=
      List.exists_cons_of_ne_nil (Nat.toDigits_ne_nil (n := n) (b := 10))
    rw [decimalDigits, isCons, List.map_cons, List.cons_append,
      Blocks.holds_cons] at holds
    rw [isCons, List.forall_mem_cons] at areDigits
    obtain ⟨code, lower, -⟩ := ascii_toNat areDigits.1
    intro blank
    rw [holds.1] at blank
    rw [blank] at code
    change 32 = char.toNat at code
    omega
  have fromStart : Holds (fun i => nptr (0 + i))
      ((Nat.toDigits 10 n).map ascii ++ [0]) := by
    simp only [Nat.zero_add]
    exact holds
  have value : atoiLoop nptr ((Nat.toDigits 10 n).length + 1) 0
      (BitVec.ofNat 32 0) =
        some (BitVec.ofNat 32 (Nat.ofDigitChars 10 (Nat.toDigits 10 n) 0)) :=
    atoiLoop_digits areDigits fromStart (Nat.lt_succ_self _)
  rw [Nat.ofDigitChars_ten_toDigits] at value
  refine ⟨(Nat.toDigits 10 n).length + 1, ?_⟩
  rw [atoi, skipBlanks_of_ne first]
  exact value

/-- A sign is not a digit. -/
theorem atoi_sign {fuel : Nat} {value : BitVec 32}
    (sign : nptr 0 = ascii '-') (returns : atoi fuel nptr = some value) :
    value = 0 := by
  cases fuel with
  | zero => cases returns
  | succ fuel =>
      have notBlank : nptr 0 ≠ ascii ' ' := by
        rw [sign]
        decide
      rw [atoi, skipBlanks_of_ne notBlank] at returns
      have loop : atoiLoop nptr (fuel + 1) 0 0 = some value := returns
      rw [atoiLoop, sign, if_neg (by decide)] at loop
      injection loop with isZero
      exact isZero.symm

end Digits

/-! ## The round trip -/

theorem decimalDigits_length {n : Nat} (word : n < 2 ^ 32) :
    (decimalDigits n).length ≤ 10 := by
  rw [decimalDigits, List.length_map,
    Nat.length_toDigits_le_iff (by decide) (by decide)]
  omega

section RoundTrip

variable {out : Memory} {fmt : Nat → Byte} {ap : Nat → Arg}
  {below : Nat → Byte}

theorem prints_percentD
    (spells : Holds fmt [ascii '%', ascii 'd', 0]) :
    (vsprintf out fmt ap below).Prints
      [.conversion .d (ap 0) (by decide)] where
  fmt := by
    simp only [Nat.zero_add]
    exact spells
  ap := by
    simp only [Nat.zero_add]
    exact Blocks.holds_singleton.mpr rfl

theorem room_percentD (out : Memory) (fmt : Nat → Byte) (ap : Nat → Arg)
    (below : Nat → Byte) :
    (rendering [.conversion .d (ap 0) (by decide)]).length <
      (vsprintf out fmt ap below).n.toNat := by
  have limit : (vsprintf out fmt ap below).n.toNat = 2 ^ 32 - 1 := rfl
  have bound : (ap 0).word.toInt.natAbs < 2 ^ 32 := by
    have upper := BitVec.toInt_lt (x := (ap 0).word)
    have lower := BitVec.le_toInt (x := (ap 0).word)
    omega
  have digits := decimalDigits_length bound
  have isDecimal : rendering [.conversion .d (ap 0) (by decide)] =
      decimal (ap 0).word.toInt := List.append_nil _
  rw [limit, isDecimal, decimal, List.length_append]
  split
  · rw [List.length_singleton]
    omega
  · rw [List.length_nil]
    omega

/-- The buffer of the only call that ends. -/
theorem holds_percentD (spells : Holds fmt [ascii '%', ascii 'd', 0])
    {rounds : Nat} (ended : ((vsprintf out fmt ap below).run rounds).ended) :
    Holds (fun i => ((vsprintf out fmt ap below).run rounds).out.memory
        (BitVec.ofNat 32 i))
      (Conversion.d.text below (ap 0) ++ [0]) := by
  have prints : (vsprintf out fmt ap below).Prints
      [.conversion .d (ap 0) (by decide)] := prints_percentD spells
  have room := room_percentD out fmt ap below
  obtain ⟨printed, length, -, -⟩ := prints.run room
  have limitRange := (vsprintf out fmt ap below).n.isLt
  change ((vsprintf out fmt ap below).printed 1).length = _ at length
  have short : ((vsprintf out fmt ap below).printed 1).length < 2 ^ 32 := by
    omega
  have isText : (vsprintf out fmt ap below).printed 1 =
      Conversion.d.text below (ap 0) := printed.trans (List.append_nil _)
  rw [prints.run_of_ended room ended, ← isText]
  exact Call.holds_finished short

/-- `atoi` gives back exactly the numbers that have no sign. -/
theorem atoi_sprintf_iff (spells : Holds fmt [ascii '%', ascii 'd', 0]) :
    (∃ rounds fuel, ((vsprintf out fmt ap below).run rounds).ended = true ∧
      atoi fuel (fun i => ((vsprintf out fmt ap below).run rounds).out.memory
        (BitVec.ofNat 32 i)) = some (ap 0).word) ↔
    0 ≤ (ap 0).word.toInt := by
  constructor
  · rintro ⟨rounds, fuel, ended, returns⟩
    by_contra negative
    have text := holds_percentD spells ended
    rw [Conversion.text_d_of_neg (not_le.mp negative), List.cons_append,
      Blocks.holds_cons] at text
    have isZero := atoi_sign text.1 returns
    rw [isZero] at negative
    exact negative (by decide)
  · intro nonneg
    have prints : (vsprintf out fmt ap below).Prints
        [.conversion .d (ap 0) (by decide)] := prints_percentD spells
    obtain ⟨-, -, continues, stops⟩ :=
      prints.run (room_percentD out fmt ap below)
    have ended : ((vsprintf out fmt ap below).run 2).ended = true := by
      rw [Call.run_eq_finished continues stops Nat.one_lt_two]
      rfl
    have text := holds_percentD spells ended
    rw [Conversion.text_d_of_nonneg nonneg] at text
    obtain ⟨fuel, returns⟩ := atoi_decimalDigits text
    have value : BitVec.ofNat 32 (ap 0).word.toInt.natAbs = (ap 0).word := by
      rw [← BitVec.ofInt_natCast, Int.natAbs_of_nonneg nonneg,
        BitVec.ofInt_toInt]
    rw [value] at returns
    exact ⟨2, fuel, ended, returns⟩

/-- `"%d"` of 42. -/
theorem atoi_sprintf_iff_42 :
    let printing := vsprintf (fun _ => 0)
      (fun i => if i = 0 then ascii '%' else if i = 1 then ascii 'd' else 0)
      (fun _ => { word := 42 }) (fun _ => 0)
    (∃ rounds fuel, (printing.run rounds).ended = true ∧
      atoi fuel (fun i => (printing.run rounds).out.memory
        (BitVec.ofNat 32 i)) = some 42) ↔
    0 ≤ (42 : BitVec 32).toInt :=
  atoi_sprintf_iff (by simp [Blocks.holds_cons, Blocks.holds_nil])

/-- `"%d"` of -1. -/
theorem atoi_sprintf_fails :
    ¬∀ (out : Memory) (fmt : Nat → Byte) (ap : Nat → Arg)
        (below : Nat → Byte), Holds fmt [ascii '%', ascii 'd', 0] →
      ∃ rounds fuel, ((vsprintf out fmt ap below).run rounds).ended = true ∧
        atoi fuel (fun i => ((vsprintf out fmt ap below).run rounds).out.memory
          (BitVec.ofNat 32 i)) = some (ap 0).word := by
  intro roundTrip
  have spells : Holds
      (fun i => if i = 0 then ascii '%' else if i = 1 then ascii 'd' else 0)
      [ascii '%', ascii 'd', 0] := by
    simp [Blocks.holds_cons, Blocks.holds_nil]
  obtain ⟨rounds, fuel, ended, returns⟩ :=
    roundTrip (fun _ => 0) _ (fun _ => { word := -1 }) (fun _ => 0) spells
  have text := holds_percentD spells ended
  rw [Conversion.text_d_of_neg (by decide), List.cons_append,
    Blocks.holds_cons] at text
  exact absurd (atoi_sign text.1 returns) (by decide)

end RoundTrip

end Ysyx.Klib
