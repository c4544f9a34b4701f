import Mathlib.Data.BitVec
import Mathlib.Logic.Function.Basic

/-!
# The keyboard device

`__am_input_keybrd` and `getScan` on the bytes that the PS/2 controller hands
out, and what the prefixes of a scan code mean.
-/

namespace Ysyx.Am

abbrev Byte := BitVec 8

/-! ## Keys -/

/-- The key codes of `amdev.h`, `AM_KEY_NONE` first. -/
inductive AmKey where
  | none
  | escape | f1 | f2 | f3 | f4 | f5 | f6 | f7 | f8 | f9 | f10 | f11 | f12
  | grave | digit1 | digit2 | digit3 | digit4 | digit5 | digit6 | digit7
  | digit8 | digit9 | digit0 | minus | equals | backspace
  | tab | q | w | e | r | t | y | u | i | o | p
  | leftbracket | rightbracket | backslash
  | capslock | a | s | d | f | g | h | j | k | l | semicolon | apostrophe
  | return
  | lshift | z | x | c | v | b | n | m | comma | period | slash | rshift
  | lctrl | application | lalt | space | ralt | rctrl
  | up | down | left | right | insert | delete | home | end | pageup | pagedown
  deriving DecidableEq, Repr

/-- `SCANCODE_KEYS`. -/
def scancodeKeys : List (AmKey × Nat) :=
  [(.escape, 0x76), (.f1, 0x05), (.f2, 0x06), (.f3, 0x04), (.f4, 0x0C),
   (.f5, 0x03), (.f6, 0x0B), (.f7, 0x83), (.f8, 0x0A), (.f9, 0x01),
   (.f10, 0x09), (.f11, 0x78), (.f12, 0x07),
   (.grave, 0x0E), (.digit1, 0x16), (.digit2, 0x1E), (.digit3, 0x26),
   (.digit4, 0x25), (.digit5, 0x2E), (.digit6, 0x36), (.digit7, 0x3D),
   (.digit8, 0x3E), (.digit9, 0x46), (.digit0, 0x45), (.minus, 0x4E),
   (.equals, 0x55), (.backspace, 0x66),
   (.tab, 0x0D), (.q, 0x15), (.w, 0x1D), (.e, 0x24), (.r, 0x2D), (.t, 0x2C),
   (.y, 0x35), (.u, 0x3C), (.i, 0x43), (.o, 0x44), (.p, 0x4D),
   (.leftbracket, 0x54), (.rightbracket, 0x5B), (.backslash, 0x5D),
   (.capslock, 0x58), (.a, 0x1C), (.s, 0x1B), (.d, 0x23), (.f, 0x2B),
   (.g, 0x34), (.h, 0x33), (.j, 0x3B), (.k, 0x42), (.l, 0x4B),
   (.semicolon, 0x4C), (.apostrophe, 0x52), (.return, 0x5A),
   (.lshift, 0x12), (.z, 0x1A), (.x, 0x22), (.c, 0x21), (.v, 0x2A),
   (.b, 0x32), (.n, 0x31), (.m, 0x3A), (.comma, 0x41), (.period, 0x49),
   (.slash, 0x4A), (.rshift, 0x59),
   (.lctrl, 0x14), (.application, 0x11), (.lalt, 0x11), (.space, 0x29),
   (.ralt, 0x111), (.rctrl, 0x114),
   (.up, 0x175), (.down, 0x172), (.left, 0x16B), (.right, 0x174),
   (.insert, 0x170), (.delete, 0x171), (.home, 0x16C), (.end, 0x169),
   (.pageup, 0x17D), (.pagedown, 0x17A)]

/-- `keymap` after `__am_keymap_init`: the entries are written in their order
over zeros. -/
def keymap : Nat → AmKey :=
  scancodeKeys.foldl (fun map entry => Function.update map entry.2 entry.1)
    fun _ => .none

theorem foldl_update_of_not_mem {index : Nat} {entries : List (AmKey × Nat)}
    (unmapped : ∀ entry ∈ entries, entry.2 ≠ index) (map : Nat → AmKey) :
    entries.foldl (fun map entry => Function.update map entry.2 entry.1) map
      index = map index := by
  induction entries generalizing map with
  | nil => rfl
  | cons entry rest inductionHypothesis =>
      obtain ⟨here, later⟩ := List.forall_mem_cons.mp unmapped
      rw [List.foldl_cons, inductionHypothesis later,
        Function.update_of_ne here.symm]

/-- The code of an empty read belongs to no key. -/
theorem keymap_zero : keymap 0 = .none :=
  foldl_update_of_not_mem (List.forall_iff_forall_mem.mp (by decide)) _

/-! ## The device -/

/-- `AM_INPUT_KEYBRD_T`. -/
structure InputKeybrd where
  keydown : Bool
  keycode : AmKey
  deriving DecidableEq, Repr

/-- `getScan`, and the bytes left; without a byte `inb(PS2)` is 0. -/
def getScan : List Byte → BitVec 16 → BitVec 16 × List Byte
  | [], scanMid => (scanMid &&& 0xFF00, [])
  | code :: rest, scanMid =>
      if code = 0xE0 then getScan rest (scanMid ||| (1 <<< 8))
      else if code = 0xF0 then getScan rest (scanMid ||| (1 <<< 9))
      else (scanMid &&& 0xFF00 ||| code.setWidth 16, rest)

/-- `__am_input_keybrd`. -/
def amInputKeybrd (bytes : List Byte) (kbd : InputKeybrd) :
    InputKeybrd × List Byte :=
  let (scanMid, rest) := getScan bytes 0
  let kbd := if scanMid = 0 then { kbd with keycode := .none } else kbd
  let kbd := if scanMid >>> 9 = 1 then { kbd with keydown := false } else kbd
  ({ kbd with keycode := keymap (scanMid &&& 0x1FF).toNat }, rest)

/-! ## Prefixed codes -/

def isPrefix (byte : Byte) : Bool := byte = 0xE0 ∨ byte = 0xF0

/-- A scan code with the prefixes in front of it. -/
structure PrefixedCode where
  prefixes : List Byte
  code : Byte
  deriving DecidableEq, Repr

/-- The next one of the bytes; it is the code 0 where they end. -/
def nextCode (bytes : List Byte) : PrefixedCode :=
  ⟨bytes.takeWhile isPrefix, (bytes.dropWhile isPrefix).headD 0⟩

def afterCode (bytes : List Byte) : List Byte :=
  (bytes.dropWhile isPrefix).tail

namespace PrefixedCode

def extended (code : PrefixedCode) : Bool := 0xE0 ∈ code.prefixes

def released (code : PrefixedCode) : Bool := 0xF0 ∈ code.prefixes

/-- The key that is mapped to the extended bit and the code. -/
def key (code : PrefixedCode) : AmKey :=
  keymap ((if code.extended then 2 ^ 8 else 0) + code.code.toNat)

/-- What the code means. -/
def event (code : PrefixedCode) : InputKeybrd :=
  ⟨!code.released, code.key⟩

end PrefixedCode

/-- The bits that the prefixes leave in `scanMid`. -/
def prefixBits (extended released : Bool) : BitVec 16 :=
  (if extended then 1 <<< 8 else 0) ||| (if released then 1 <<< 9 else 0)

theorem nextCode_prefix (byte : Byte) (isIt : isPrefix byte = true)
    (rest : List Byte) :
    nextCode (byte :: rest) =
        ⟨byte :: (nextCode rest).prefixes, (nextCode rest).code⟩ ∧
      afterCode (byte :: rest) = afterCode rest := by
  simp [nextCode, afterCode, isIt]

/-- The recursion collects the prefixes up to the next code. -/
theorem getScan_eq (bytes : List Byte) (extended released : Bool) :
    getScan bytes (prefixBits extended released) =
      (prefixBits (extended || (nextCode bytes).extended)
          (released || (nextCode bytes).released) |||
        (nextCode bytes).code.setWidth 16, afterCode bytes) := by
  induction bytes generalizing extended released with
  | nil =>
      cases extended <;> cases released <;> rfl
  | cons byte rest inductionHypothesis =>
      rw [getScan]
      split_ifs with isE0 isF0
      · subst isE0
        obtain ⟨next, after⟩ := nextCode_prefix 0xE0 rfl rest
        have bits : prefixBits extended released ||| (1 <<< 8) =
            prefixBits true released := by
          cases extended <;> cases released <;> rfl
        rw [bits, inductionHypothesis, next, after]
        simp [PrefixedCode.extended, PrefixedCode.released]
      · subst isF0
        obtain ⟨next, after⟩ := nextCode_prefix 0xF0 rfl rest
        have bits : prefixBits extended released ||| (1 <<< 9) =
            prefixBits extended true := by
          cases extended <;> cases released <;> rfl
        rw [bits, inductionHypothesis, next, after]
        simp [PrefixedCode.extended, PrefixedCode.released]
      · have notPrefix : isPrefix byte = false := by
          rw [isPrefix, decide_eq_false_iff_not, not_or]
          exact ⟨isE0, isF0⟩
        have bits : prefixBits extended released &&& 0xFF00 =
            prefixBits extended released := by
          cases extended <;> cases released <;> rfl
        rw [bits]
        simp [nextCode, afterCode, notPrefix, PrefixedCode.extended,
          PrefixedCode.released]

theorem scanMid_toNat (extended released : Bool) (code : Byte) :
    (prefixBits extended released ||| code.setWidth 16).toNat =
      2 ^ 8 * (extended.toNat + 2 * released.toNat) + code.toNat := by
  have bits : (prefixBits extended released).toNat =
      2 ^ 8 * (extended.toNat + 2 * released.toNat) := by
    cases extended <;> cases released <;> rfl
  rw [BitVec.toNat_or, bits, BitVec.toNat_setWidth_of_le (by decide),
    Nat.two_pow_add_eq_or_of_lt code.isLt]

/-- The fields of the packed word. -/
theorem scanMid_released (extended released : Bool) (code : Byte) :
    (prefixBits extended released ||| code.setWidth 16) >>> 9 = 1 ↔
      released = true := by
  have codeLt := code.isLt
  rw [← BitVec.toNat_inj, BitVec.toNat_ushiftRight, scanMid_toNat,
    Nat.shiftRight_eq_div_pow]
  cases extended <;> cases released <;> simp <;> omega

theorem scanMid_index (extended released : Bool) (code : Byte) :
    ((prefixBits extended released ||| code.setWidth 16) &&& 0x1FF).toNat =
      (if extended then 2 ^ 8 else 0) + code.toNat := by
  have codeLt := code.isLt
  have mask : (0x1FF : BitVec 16).toNat = 2 ^ 9 - 1 := rfl
  rw [BitVec.toNat_and, mask, Nat.and_two_pow_sub_one_eq_mod, scanMid_toNat]
  cases extended <;> cases released <;> simp <;> omega

/-! ## One call -/

/-- A call takes one prefixed code.  Its key is right, but `keydown` is only
ever cleared. -/
theorem amInputKeybrd_eq (bytes : List Byte) (kbd : InputKeybrd) :
    amInputKeybrd bytes kbd =
      (⟨kbd.keydown && !(nextCode bytes).released, (nextCode bytes).key⟩,
        afterCode bytes) := by
  have scan := getScan_eq bytes false false
  have zero : prefixBits false false = 0 := rfl
  rw [zero, Bool.false_or, Bool.false_or] at scan
  simp only [amInputKeybrd, scan, scanMid_released, scanMid_index,
    PrefixedCode.key]
  cases (nextCode bytes).released with
  | false =>
      simp only [Bool.false_eq_true, if_false]
      split <;> simp
  | true =>
      simp only [if_true]
      split <;> simp

/-- An empty read is no key. -/
theorem key_of_empty : (nextCode []).key = .none := by
  have index : (if (nextCode []).extended then 2 ^ 8 else 0) +
      (nextCode []).code.toNat = 0 := by decide
  rw [PrefixedCode.key, index, keymap_zero]

theorem event_eq_iff (bytes : List Byte) (kbd : InputKeybrd) :
    (amInputKeybrd bytes kbd).1 = (nextCode bytes).event ↔
      (nextCode bytes).released = true ∨ kbd.keydown = true := by
  obtain ⟨keydown, keycode⟩ := kbd
  rw [amInputKeybrd_eq, PrefixedCode.event]
  cases (nextCode bytes).released <;> cases keydown <;> simp

/-! ## Many calls -/

/-- One call after the other, each on a structure with its own contents: what
they report, and the bytes left. -/
def inputRun : List Byte → List InputKeybrd → List InputKeybrd × List Byte
  | bytes, [] => ([], bytes)
  | bytes, kbd :: later =>
      let called := amInputKeybrd bytes kbd
      let others := inputRun called.2 later
      (called.1 :: others.1, others.2)

/-- The first prefixed codes. -/
def nextCodes : Nat → List Byte → List PrefixedCode
  | 0, _ => []
  | count + 1, bytes => nextCode bytes :: nextCodes count (afterCode bytes)

/-- The bytes behind them. -/
def afterCodes : Nat → List Byte → List Byte
  | 0, bytes => bytes
  | count + 1, bytes => afterCodes count (afterCode bytes)

theorem inputRun_left (bytes : List Byte) (before : List InputKeybrd) :
    (inputRun bytes before).2 = afterCodes before.length bytes := by
  induction before generalizing bytes with
  | nil => rfl
  | cons kbd later inductionHypothesis =>
      rw [inputRun, amInputKeybrd_eq, inductionHypothesis]
      rfl

theorem inputRun_keys (bytes : List Byte) (before : List InputKeybrd) :
    (inputRun bytes before).1.map InputKeybrd.keycode =
      (nextCodes before.length bytes).map PrefixedCode.key := by
  induction before generalizing bytes with
  | nil => rfl
  | cons kbd later inductionHypothesis =>
      rw [inputRun, amInputKeybrd_eq, List.map_cons, inductionHypothesis]
      rfl

theorem inputRun_events_iff (bytes : List Byte) (before : List InputKeybrd) :
    (inputRun bytes before).1 =
        (nextCodes before.length bytes).map PrefixedCode.event ↔
      List.Forall₂ (fun code kbd => code.released = true ∨ kbd.keydown = true)
        (nextCodes before.length bytes) before := by
  induction before generalizing bytes with
  | nil => simp [inputRun, nextCodes]
  | cons kbd later inductionHypothesis =>
      have left : (amInputKeybrd bytes kbd).2 = afterCode bytes := by
        rw [amInputKeybrd_eq]
      rw [inputRun, left, List.length_cons, nextCodes, List.map_cons,
        List.forall₂_cons]
      simp only [List.cons.injEq]
      rw [event_eq_iff, inductionHypothesis]

/-- Every call takes one prefixed code and reports its key, for an empty read
`AM_KEY_NONE`; whether it was pressed comes out right exactly if it was
released or the structure said so before. -/
theorem inputRun_iff (bytes : List Byte) (before : List InputKeybrd) :
    (inputRun bytes before).2 = afterCodes before.length bytes ∧
      (inputRun bytes before).1.map InputKeybrd.keycode =
        (nextCodes before.length bytes).map PrefixedCode.key ∧
      (∀ kbd, (amInputKeybrd [] kbd).1.keycode = .none) ∧
      ((inputRun bytes before).1 =
          (nextCodes before.length bytes).map PrefixedCode.event ↔
        List.Forall₂
          (fun code kbd => code.released = true ∨ kbd.keydown = true)
          (nextCodes before.length bytes) before) := by
  refine ⟨inputRun_left bytes before, inputRun_keys bytes before,
    fun kbd => ?_, inputRun_events_iff bytes before⟩
  rw [amInputKeybrd_eq, key_of_empty]

/-- The make code of `A`, read into a structure of zeros, is reported as
released. -/
theorem pressed_not_reported :
    (amInputKeybrd [0x1C] ⟨false, .none⟩).1.keydown = false ∧
      (nextCode [0x1C]).event.keydown = true ∧
      (inputRun [0x1C] [⟨false, .none⟩]).1 ≠
        (nextCodes 1 [0x1C]).map PrefixedCode.event := by
  have released : (nextCode [0x1C]).released = false := by decide
  refine ⟨?_, ?_, fun same => ?_⟩
  · rw [amInputKeybrd_eq]
    exact Bool.false_and (!(nextCode [0x1C]).released)
  · rw [PrefixedCode.event, released]
    rfl
  · have all := (inputRun_events_iff [0x1C] [⟨false, .none⟩]).mp same
    rcases (List.forall₂_cons.mp all).1 with isReleased | keydown
    · rw [released] at isReleased
      cases isReleased
    · cases keydown

end Ysyx.Am
