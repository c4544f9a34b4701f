import Mathlib.Data.BitVec
import Mathlib.Tactic.FinCases

/-!
# The bytes of a word

A word of 32 bits as four bytes, and how bitwise operations, sums and shifts of
words act on the bytes.
-/

namespace Ysyx.Bytes

scoped instance neZero_four : NeZero 4 := ⟨by decide⟩

/-- Byte `i` of `x`, from the least significant. -/
def byte (x : BitVec 32) (i : Fin 4) : BitVec 8 := x.extractLsb' (8 * i) 8

/-- The word of four bytes. -/
def ofBytes (bytes : Fin 4 → BitVec 8) : BitVec 32 :=
  bytes 3 ++ bytes 2 ++ bytes 1 ++ bytes 0

/-- `x` with another byte `i`. -/
def setByte (x : BitVec 32) (i : Fin 4) (value : BitVec 8) : BitVec 32 :=
  ofBytes fun k => if k = i then value else byte x k

variable {x y : BitVec 32} {i : Fin 4}

theorem getLsbD_byte (x : BitVec 32) (i : Fin 4) (k : Nat) :
    (byte x i).getLsbD k = (decide (k < 8) && x.getLsbD (8 * i + k)) :=
  BitVec.getLsbD_extractLsb' ..

@[simp] theorem byte_ofBytes (bytes : Fin 4 → BitVec 8) (i : Fin 4) :
    byte (ofBytes bytes) i = bytes i := by
  apply BitVec.eq_of_getLsbD_eq
  intro k inByte
  rw [getLsbD_byte]
  simp only [ofBytes, BitVec.getLsbD_append, inByte, decide_true,
    Bool.true_and]
  fin_cases i <;> grind

@[simp] theorem ofBytes_byte (x : BitVec 32) : ofBytes (byte x) = x := by
  apply BitVec.eq_of_getLsbD_eq
  intro k inWord
  simp only [ofBytes, BitVec.getLsbD_append, getLsbD_byte]
  grind

/-- Words with the same bytes are equal. -/
theorem ext_byte (same : ∀ i, byte x i = byte y i) : x = y := by
  rw [← ofBytes_byte x, ← ofBytes_byte y, funext same]

@[simp] theorem byte_setByte (x : BitVec 32) (i k : Fin 4)
    (value : BitVec 8) :
    byte (setByte x i value) k = if k = i then value else byte x k :=
  byte_ofBytes ..

@[simp] theorem byte_zero (i : Fin 4) : byte 0#32 i = 0#8 :=
  BitVec.extractLsb'_zero ..

theorem byte_and (x y : BitVec 32) (i : Fin 4) :
    byte (x &&& y) i = byte x i &&& byte y i :=
  BitVec.extractLsb'_and ..

theorem byte_or (x y : BitVec 32) (i : Fin 4) :
    byte (x ||| y) i = byte x i ||| byte y i :=
  BitVec.extractLsb'_or ..

theorem byte_xor (x y : BitVec 32) (i : Fin 4) :
    byte (x ^^^ y) i = byte x i ^^^ byte y i :=
  BitVec.extractLsb'_xor ..

/-! ## Values -/

theorem byte_toNat (x : BitVec 32) (i : Fin 4) :
    (byte x i).toNat = x.toNat / 2 ^ (8 * i.val) % 2 ^ 8 := by
  rw [byte, BitVec.extractLsb'_toNat, Nat.shiftRight_eq_div_pow]

theorem toNat_eq_bytes (x : BitVec 32) :
    x.toNat = (byte x 0).toNat + 2 ^ 8 * (byte x 1).toNat +
      2 ^ 16 * (byte x 2).toNat + 2 ^ 24 * (byte x 3).toNat := by
  simp only [byte_toNat, Fin.val_zero, Fin.val_one, Fin.val_two,
    show (3 : Fin 4).val = 3 from rfl]
  omega

theorem ofBytes_toNat (bytes : Fin 4 → BitVec 8) :
    (ofBytes bytes).toNat = (bytes 0).toNat + 2 ^ 8 * (bytes 1).toNat +
      2 ^ 16 * (bytes 2).toNat + 2 ^ 24 * (bytes 3).toNat := by
  rw [toNat_eq_bytes]
  simp only [byte_ofBytes]

theorem byte_zero_eq (x : BitVec 32) : byte x 0 = x.setWidth 8 := by
  apply BitVec.eq_of_toNat_eq
  rw [byte_toNat, BitVec.toNat_setWidth]
  simp

theorem setWidth_setWidth_byte (value : BitVec 8) :
    (value.setWidth 32).setWidth 8 = value := by
  rw [BitVec.setWidth_setWidth_of_le _ (by decide), BitVec.setWidth_eq]

/-! ## Shifts -/

theorem getLsbD_ofBytes (bytes : Fin 4 → BitVec 8) (i : Fin 4) {k : Nat}
    (inByte : k < 8) :
    (ofBytes bytes).getLsbD (8 * i + k) = (bytes i).getLsbD k := by
  have same := congrArg (BitVec.getLsbD · k) (byte_ofBytes bytes i)
  simp only [getLsbD_byte, inByte, decide_true, Bool.true_and] at same
  exact same

/-- A word is the sum of its bytes in their places. -/
theorem sum_bytes (x : BitVec 32) :
    (byte x 3).setWidth 32 <<< 24 + (byte x 2).setWidth 32 <<< 16 +
      (byte x 1).setWidth 32 <<< 8 + (byte x 0).setWidth 32 = x := by
  apply BitVec.eq_of_toNat_eq
  have parts := toNat_eq_bytes x
  have inWord := x.isLt
  simp only [BitVec.toNat_add, BitVec.toNat_shiftLeft, BitVec.toNat_setWidth,
    Nat.shiftLeft_eq]
  omega

/-- The bytes of a left shift, each shifted on its own. -/
theorem shiftLeft_bytes (x : BitVec 32) (amount : Nat) :
    ((byte x 3).setWidth 32 <<< amount) <<< 24 +
      ((byte x 2).setWidth 32 <<< amount) <<< 16 +
      ((byte x 1).setWidth 32 <<< amount) <<< 8 +
      (byte x 0).setWidth 32 <<< amount = x <<< amount := by
  have commute : ∀ (y : BitVec 32) (place : Nat),
      (y <<< amount) <<< place = (y <<< place) <<< amount := by
    intro y place
    rw [← BitVec.shiftLeft_add, Nat.add_comm, BitVec.shiftLeft_add]
  rw [commute, commute, commute, ← BitVec.shiftLeft_add_distrib,
    ← BitVec.shiftLeft_add_distrib, ← BitVec.shiftLeft_add_distrib, sum_bytes]

theorem setByte_three (y : BitVec 32) :
    setByte 0#32 3 (byte y 0) = y <<< 24 := by
  apply BitVec.eq_of_toNat_eq
  rw [setByte, ofBytes_toNat, BitVec.toNat_shiftLeft, Nat.shiftLeft_eq]
  simp [byte_toNat]
  omega

theorem setByte_two_three (old y : BitVec 32) (zero : byte old 0 = 0)
    (one : byte old 1 = 0) :
    setByte (setByte old 2 (byte y 0)) 3 (byte y 1) = y <<< 16 := by
  apply BitVec.eq_of_toNat_eq
  rw [setByte, ofBytes_toNat, BitVec.toNat_shiftLeft, Nat.shiftLeft_eq]
  simp [byte_setByte, byte_toNat, zero, one]
  omega

/-- A byte at the top of a word, shifted right. -/
def topShifted (value : BitVec 8) (amount : Nat) : BitVec 32 :=
  (value.setWidth 32 <<< 24) >>> amount

theorem getLsbD_topShifted (value : BitVec 8) (amount k : Nat) :
    (topShifted value amount).getLsbD k =
      (decide (24 ≤ k + amount) && value.getLsbD (k + amount - 24)) := by
  rw [topShifted, BitVec.getLsbD_ushiftRight, BitVec.getLsbD_shiftLeft,
    BitVec.getLsbD_setWidth, Nat.add_comm amount k]
  by_cases inWord : k + amount < 32
  · grind
  · rw [BitVec.getLsbD_of_ge value (k + amount - 24) (by omega)]
    grind

/-- The bytes of `y 2`, `y 1` and `y 0`, moved down by one, two and three
places and added. -/
def lowBytes (y : Fin 4 → BitVec 32) : Fin 4 → BitVec 8
  | 0 => byte (y 2) 1 + byte (y 1) 2 + byte (y 0) 3
  | 1 => byte (y 2) 2 + byte (y 1) 3
  | 2 => byte (y 2) 3
  | 3 => 0

/-- The same with `|||` for `+`. -/
def lowBytesOr (y : Fin 4 → BitVec 32) : Fin 4 → BitVec 8
  | 0 => byte (y 2) 1 ||| byte (y 1) 2 ||| byte (y 0) 3
  | 1 => byte (y 2) 2 ||| byte (y 1) 3
  | 2 => byte (y 2) 3
  | 3 => 0

/-- What the lower three bytes of `x` leave of a right shift. -/
def lowShifted (x : BitVec 32) (amount : Nat) : BitVec 32 :=
  ofBytes (lowBytes fun i => topShifted (byte x i) amount)

theorem getLsbD_byte_topShifted (value : BitVec 8) (amount : Nat) (i : Fin 4)
    {k : Nat} (inByte : k < 8) :
    (byte (topShifted value amount) i).getLsbD k =
      (decide (24 ≤ 8 * i + k + amount) &&
        value.getLsbD (8 * i + k + amount - 24)) := by
  rw [getLsbD_byte, getLsbD_topShifted, decide_eq_true inByte, Bool.true_and]

/-- Bytes that come from different bytes of a word do not meet. -/
theorem byte_topShifted_and (a b : BitVec 8) (amount : Nat) {i j : Fin 4}
    (apart : i < j) :
    byte (topShifted a amount) i &&& byte (topShifted b amount) j = 0#8 := by
  apply BitVec.eq_of_getLsbD_eq
  intro k inByte
  rw [BitVec.getLsbD_and, getLsbD_byte_topShifted _ _ _ inByte,
    getLsbD_byte_topShifted _ _ _ inByte, BitVec.getLsbD_zero]
  have order : i.val < j.val := apart
  by_cases low : 8 * j.val + k + amount < 32
  · have first : ¬ 24 ≤ 8 * i.val + k + amount := by omega
    simp [first]
  · rw [BitVec.getLsbD_of_ge b _ (by omega)]
    simp

theorem lowShifted_eq (x : BitVec 32) (amount : Nat) :
    lowShifted x amount =
      ofBytes (lowBytesOr fun i => topShifted (byte x i) amount) := by
  rw [lowShifted]
  congr 1
  funext k
  fin_cases k
  · simp only [lowBytes, lowBytesOr]
    rw [BitVec.add_eq_or_of_and_eq_zero (byte (topShifted (byte x 2) amount) 1)
        _ (byte_topShifted_and _ _ _ (by decide)),
      BitVec.add_eq_or_of_and_eq_zero]
    rw [BitVec.and_comm, BitVec.and_or_distrib_left,
      BitVec.and_comm, byte_topShifted_and _ _ _ (by decide),
      BitVec.and_comm, byte_topShifted_and _ _ _ (by decide), BitVec.or_self]
  · exact BitVec.add_eq_or_of_and_eq_zero _ _
      (byte_topShifted_and _ _ _ (by decide))
  · rfl
  · rfl

theorem getLsbD_lowShifted (x : BitVec 32) (amount : Nat) (k : Nat) :
    (lowShifted x amount).getLsbD k =
      (decide (k + amount < 24) && x.getLsbD (k + amount)) := by
  by_cases inWord : k < 32
  · obtain ⟨i, r, inByte, rfl⟩ : ∃ (i : Fin 4) (r : Nat), r < 8 ∧
        k = 8 * i + r :=
      ⟨⟨k / 8, by omega⟩, k % 8, by omega, by simp only; omega⟩
    rw [lowShifted_eq, getLsbD_ofBytes _ _ inByte]
    fin_cases i
    all_goals
      simp only [lowBytesOr, BitVec.getLsbD_or, getLsbD_byte_topShifted _ _ _ inByte,
        getLsbD_byte]
      simp
      grind
  · rw [BitVec.getLsbD_of_ge _ _ (by omega)]
    simp
    omega

/-- A right shift, from the top byte and the other three. -/
theorem ushiftRight_bytes (x : BitVec 32) (amount : Nat) :
    lowShifted x amount + topShifted (byte x 3) amount = x >>> amount := by
  have apart : lowShifted x amount &&& topShifted (byte x 3) amount = 0#32 := by
    apply BitVec.eq_of_getLsbD_eq
    intro k inWord
    rw [BitVec.getLsbD_and, getLsbD_lowShifted, getLsbD_topShifted,
      BitVec.getLsbD_zero]
    grind
  rw [BitVec.add_eq_or_of_and_eq_zero _ _ apart]
  apply BitVec.eq_of_getLsbD_eq
  intro k inWord
  rw [BitVec.getLsbD_or, getLsbD_lowShifted, getLsbD_topShifted,
    BitVec.getLsbD_ushiftRight, getLsbD_byte, Nat.add_comm amount k]
  by_cases low : k + amount < 24
  · simp [low, show ¬ 24 ≤ k + amount by omega]
  · by_cases inside : k + amount < 32
    · simp only [low, decide_false, Bool.false_and, Bool.false_or,
        show 24 ≤ k + amount by omega, show k + amount - 24 < 8 by omega,
        decide_true, Bool.true_and, show (3 : Fin 4).val = 3 from rfl]
      congr 1
      omega
    · rw [BitVec.getLsbD_of_ge x (k + amount) (by omega)]
      simp [low]
      omega

/-- An arithmetic right shift, from the top byte and the other three. -/
theorem sshiftRight_bytes (x : BitVec 32) (amount : Nat) :
    lowShifted x amount +
      ((byte x 3).setWidth 32 <<< 24).sshiftRight amount =
        x.sshiftRight amount := by
  have top : ∀ k, ((byte x 3).setWidth 32 <<< 24).getLsbD k =
      (decide (24 ≤ k) && x.getLsbD k) := by
    intro k
    rw [BitVec.getLsbD_shiftLeft, BitVec.getLsbD_setWidth, getLsbD_byte]
    by_cases inWord : k < 32
    · by_cases low : k < 24
      · simp [low, show ¬ 24 ≤ k by omega]
      · simp [low, inWord, show 24 ≤ k by omega, show k - 24 < 32 by omega,
          show k - 24 < 8 by omega]
    · rw [BitVec.getLsbD_of_ge x k (by omega)]
      simp [inWord]
  have msb : ((byte x 3).setWidth 32 <<< 24).msb = x.msb := by
    rw [BitVec.msb_eq_getLsbD_last, BitVec.msb_eq_getLsbD_last, top]
    simp
  have apart : lowShifted x amount &&&
      ((byte x 3).setWidth 32 <<< 24).sshiftRight amount = 0#32 := by
    apply BitVec.eq_of_getLsbD_eq
    intro k inWord
    rw [BitVec.getLsbD_and, getLsbD_lowShifted, BitVec.getLsbD_sshiftRight,
      top, BitVec.getLsbD_zero]
    grind
  rw [BitVec.add_eq_or_of_and_eq_zero _ _ apart]
  apply BitVec.eq_of_getLsbD_eq
  intro k inWord
  rw [BitVec.getLsbD_or, getLsbD_lowShifted, BitVec.getLsbD_sshiftRight,
    BitVec.getLsbD_sshiftRight, top, msb, Nat.add_comm amount k]
  grind

/-- A byte moved to the top and back keeps its sign. -/
theorem sshiftRight_setByte_three (value : BitVec 8) :
    (setByte 0#32 3 value).sshiftRight 24 = value.signExtend 32 := by
  have moved : setByte 0#32 3 value = value.setWidth 32 <<< 24 := by
    rw [← setByte_three, byte_zero_eq, setWidth_setWidth_byte]
  rw [moved]
  apply BitVec.eq_of_getLsbD_eq
  intro k inWord
  rw [BitVec.getLsbD_sshiftRight, BitVec.msb_eq_getLsbD_last,
    BitVec.getLsbD_shiftLeft, BitVec.getLsbD_shiftLeft,
    BitVec.getLsbD_setWidth, BitVec.getLsbD_setWidth,
    BitVec.getLsbD_signExtend, BitVec.msb_eq_getLsbD_last]
  grind

theorem half_unsigned (high low : BitVec 8) :
    low.setWidth 32 + setByte 0#32 1 high = (high ++ low).setWidth 32 := by
  apply BitVec.eq_of_toNat_eq
  rw [BitVec.toNat_add, setByte, ofBytes_toNat, BitVec.toNat_setWidth,
    BitVec.toNat_setWidth, BitVec.toNat_append,
    ← Nat.shiftLeft_add_eq_or_of_lt low.isLt, Nat.shiftLeft_eq]
  simp
  omega

theorem half_signed (high low : BitVec 8) :
    low.setWidth 32 + (setByte 0#32 3 high).sshiftRight 16 =
      (high ++ low).signExtend 32 := by
  have moved : setByte 0#32 3 high = high.setWidth 32 <<< 24 := by
    rw [← setByte_three, byte_zero_eq, setWidth_setWidth_byte]
  have upper : ∀ k, ((setByte 0#32 3 high).sshiftRight 16).getLsbD k =
      (decide (k < 32) && decide (8 ≤ k) &&
        if k < 16 then high.getLsbD (k - 8) else high.msb) := by
    intro k
    rw [moved, BitVec.getLsbD_sshiftRight, BitVec.msb_eq_getLsbD_last,
      BitVec.getLsbD_shiftLeft, BitVec.getLsbD_shiftLeft,
      BitVec.getLsbD_setWidth, BitVec.getLsbD_setWidth,
      BitVec.msb_eq_getLsbD_last]
    grind
  have apart : low.setWidth 32 &&&
      (setByte 0#32 3 high).sshiftRight 16 = 0#32 := by
    apply BitVec.eq_of_getLsbD_eq
    intro k inWord
    rw [BitVec.getLsbD_and, upper, BitVec.getLsbD_setWidth, BitVec.getLsbD_zero]
    by_cases inByte : k < 8
    · simp [show ¬ 8 ≤ k by omega]
    · rw [BitVec.getLsbD_of_ge low k (by omega)]
      simp
  rw [BitVec.add_eq_or_of_and_eq_zero _ _ apart]
  apply BitVec.eq_of_getLsbD_eq
  intro k inWord
  rw [BitVec.getLsbD_or, upper, BitVec.getLsbD_setWidth,
    BitVec.getLsbD_signExtend, BitVec.getLsbD_append, BitVec.msb_append]
  grind

end Ysyx.Bytes
