import Ysyx.Klib.Stdio
import Mathlib.Tactic.IntervalCases

/-!
# The text of one conversion

What C asks a conversion to print, and that `vsnprintf` prints it, for all
arguments but one: the digits of `INT_MIN` are looked up in front of
`NUM_CHAR`.
-/

namespace Ysyx.Klib

/-! ## The renderings of C -/

def decimalDigits (n : Nat) : List Byte := (Nat.toDigits 10 n).map ascii

def decimal (value : Int) : List Byte :=
  (if value < 0 then [ascii '-'] else []) ++ decimalDigits value.natAbs

/-- The digits of a pointer; there is none for the null pointer. -/
def hexDigits (n : Nat) : List Byte :=
  if n = 0 then [] else (Nat.toDigits 16 n).map fun char => ascii char.toUpper

/-- What a conversion stands for; the text of `%p` is up to the
implementation. -/
def Conversion.rendering (kind : Conversion) (arg : Arg) : List Byte :=
  match kind with
  | .d => decimal arg.word.toInt
  | .u => decimalDigits arg.word.toNat
  | .c => [arg.word.setWidth 8]
  | .s => arg.pointee
  | .p => [ascii '0', ascii 'x'] ++ hexDigits arg.word.toNat

/-! ## The digit loop -/

section Loop

variable {below : Nat → Byte}

theorem numChar_decimal {i : Nat} (digit : i < 10) :
    numChar below i = ascii i.digitChar := by
  interval_cases i <;> rfl

theorem numChar_hex {i : Nat} (digit : i < 16) :
    numChar below i = ascii i.digitChar.toUpper := by
  interval_cases i <;> rfl

/-- The lowest digit comes first, and 0 has no digit. -/
theorem fillBuf_succ {base rounds n : Nat} (positive : 0 < n) :
    fillBuf below base (rounds + 1) n =
      numChar below (n % base : Nat) :: fillBuf below base rounds (n / base : Nat) := by
  have notZero : (n : Int) ≠ 0 := by omega
  rw [fillBuf, if_neg notZero]
  rfl

/-- Read backwards, the buffer holds the digits that `Nat.toDigits` gives. -/
theorem fillBuf_reverse {base : Nat} (two : 1 < base) {toByte : Char → Byte}
    (looksUp : ∀ i < base, numChar below i = toByte i.digitChar)
    {rounds n : Nat} (enough : n < base ^ rounds) :
    (fillBuf below base rounds n).reverse =
      if n = 0 then [] else (Nat.toDigits base n).map toByte := by
  induction rounds generalizing n with
  | zero =>
      have zero : n = 0 := by simpa using enough
      rw [zero]
      rfl
  | succ rounds inductionHypothesis =>
      rcases Nat.eq_zero_or_pos n with rfl | positive
      · simp [fillBuf]
      · have less : n / base < base ^ rounds := by
          rw [Nat.div_lt_iff_lt_mul (by omega), ← Nat.pow_succ]
          exact enough
        rw [fillBuf_succ positive, List.reverse_cons,
          inductionHypothesis less, looksUp _ (Nat.mod_lt _ (by omega)),
          if_neg positive.ne']
        by_cases single : n < base
        · rw [if_pos (Nat.div_eq_of_lt single),
            Nat.toDigits_of_lt_base single, Nat.mod_eq_of_lt single]
          rfl
        · have more : n / base ≠ 0 := by
            rw [Nat.div_ne_zero_iff]
            omega
          rw [if_neg more,
            Nat.toDigits_of_base_le two (Nat.le_of_not_lt single),
            List.map_append]
          rfl

theorem fillBuf_neg_length (base : Int) (rounds : Nat) (value : Int) :
    (fillBuf below base rounds (-value)).length =
      (fillBuf below base rounds value).length := by
  induction rounds generalizing value with
  | zero => rfl
  | succ rounds inductionHypothesis =>
      by_cases zero : value = 0
      · rw [zero]
        rfl
      · rw [fillBuf, fillBuf, if_neg (by omega), if_neg zero, Int.neg_tdiv,
          List.length_cons, List.length_cons, inductionHypothesis]

theorem buf_decimal {n : Nat} (word : n < 2 ^ 32) :
    (if n = 0 then [ascii '0'] else []) ++ (buf below 10 n).reverse =
      decimalDigits n := by
  have enough : n < 10 ^ 32 := by omega
  rw [buf, show (10 : Int) = (10 : Nat) from rfl,
    fillBuf_reverse (by decide) (fun i digit => numChar_decimal digit) enough]
  by_cases zero : n = 0
  · rw [zero]
    rfl
  · rw [if_neg zero, if_neg zero]
    rfl

theorem buf_decimal_of_pos {n : Nat} (word : n < 2 ^ 32) (positive : n ≠ 0) :
    (buf below 10 n).reverse = decimalDigits n := by
  rw [← buf_decimal word, if_neg positive]
  rfl

theorem buf_hex {n : Nat} (word : n < 2 ^ 32) :
    (buf below 16 n).reverse = hexDigits n := by
  have enough : n < 16 ^ 32 := by omega
  rw [buf, show (16 : Int) = (16 : Nat) from rfl]
  exact fillBuf_reverse (by decide) (fun i digit => numChar_hex digit) enough

end Loop

/-! ## The five conversions -/

namespace Conversion

section Signed

variable {below : Nat → Byte} {arg : Arg}

theorem text_d_of_nonneg (nonneg : 0 ≤ arg.word.toInt) :
    d.text below arg = decimalDigits arg.word.toInt.natAbs := by
  have notNegative : ¬arg.word.slt 0 = true := by
    rw [BitVec.slt_iff_toInt_lt]
    exact not_lt.mpr nonneg
  obtain ⟨n, isNat⟩ := Int.eq_ofNat_of_zero_le nonneg
  have zero_iff : arg.word = 0 ↔ n = 0 := by
    rw [← BitVec.toInt_inj, isNat]
    exact Int.natCast_inj
  have bound : n < 2 ^ 32 := by
    have upper := BitVec.toInt_lt (x := arg.word)
    omega
  simp only [text, if_neg notNegative, isNat, zero_iff, Int.natAbs_natCast]
  exact buf_decimal bound

theorem text_d_of_neg (negative : arg.word.toInt < 0) :
    d.text below arg =
      ascii '-' :: (buf below 10 (0 - arg.word).toInt).reverse := by
  have isNegative : arg.word.slt 0 = true := by
    rw [BitVec.slt_iff_toInt_lt]
    exact negative
  have notZero : arg.word ≠ 0 := by
    intro zero
    rw [zero] at negative
    exact absurd negative (by decide)
  simp only [text, if_pos isNegative, if_neg notZero]
  rfl

theorem text_d_of_ne (notMin : arg.word ≠ BitVec.intMin 32) :
    d.text below arg = decimal arg.word.toInt := by
  by_cases negative : arg.word.toInt < 0
  · have negated : (0 - arg.word).toInt = (arg.word.toInt.natAbs : Nat) := by
      rw [show (0 - arg.word) = -arg.word from BitVec.zero_sub _,
        BitVec.toInt_neg_of_ne_intMin notMin]
      omega
    have bound : arg.word.toInt.natAbs < 2 ^ 32 := by
      have lower := BitVec.le_toInt (x := arg.word)
      omega
    have notZero : arg.word.toInt.natAbs ≠ 0 := by omega
    rw [text_d_of_neg negative, negated, buf_decimal_of_pos bound notZero,
      decimal, if_pos negative]
    rfl
  · rw [text_d_of_nonneg (not_lt.mp negative), decimal, if_neg negative]
    rfl

/-- The bytes in front of `NUM_CHAR` take the place of the digits. -/
theorem text_d_intMin (isMin : arg.word = BitVec.intMin 32) :
    d.text (fun _ => 0) arg = ascii '-' :: List.replicate 10 0 := by
  rw [text, isMin]
  rfl

end Signed

/-- A conversion prints what C asks it to print, unless it is `%d` of
`INT_MIN`. -/
theorem text_eq {below : Nat → Byte} {kind : Conversion} {arg : Arg}
    (notMin : ¬(kind = .d ∧ arg.word = BitVec.intMin 32)) :
    kind.text below arg = kind.rendering arg := by
  have word := arg.word.isLt
  cases kind with
  | d => exact text_d_of_ne fun isMin => notMin ⟨rfl, isMin⟩
  | u =>
      have zero_iff : arg.word = 0 ↔ arg.word.toNat = 0 := by
        rw [← BitVec.toNat_inj]
        rfl
      simp only [text, rendering, zero_iff]
      exact buf_decimal word
  | c => rfl
  | s => rfl
  | p =>
      simp only [text, rendering]
      rw [buf_hex word]

/-- What a conversion prints is always as long as it should be. -/
theorem text_length (below : Nat → Byte) (kind : Conversion) (arg : Arg) :
    (kind.text below arg).length = (kind.rendering arg).length := by
  by_cases isMin : kind = .d ∧ arg.word = BitVec.intMin 32
  · obtain ⟨rfl, isMin⟩ := isMin
    have negative : arg.word.toInt < 0 := by
      rw [isMin]
      decide
    have negated : (0 - arg.word).toInt = -(2147483648 : Nat) := by
      rw [isMin]
      rfl
    rw [text_d_of_neg negative, negated, List.length_cons,
      List.length_reverse, buf, fillBuf_neg_length, ← buf,
      ← List.length_reverse, buf_decimal_of_pos (by decide) (by decide),
      rendering, isMin]
    rfl
  · rw [text_eq isMin]

end Conversion

end Ysyx.Klib
