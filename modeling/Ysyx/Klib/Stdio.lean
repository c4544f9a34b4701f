import Ysyx.Klib.String

/-!
# `vsnprintf` of klib

The loop over the format, with its accesses to the format and to the buffer
logged.  The format, the buffer and the strings behind `%s` are different
objects.
-/

namespace Ysyx.Klib

open Blocks (cell Traced)

/-- The code of an ASCII character. -/
def ascii (char : Char) : Byte := BitVec.ofNat 8 char.toNat

/-! ## Arguments -/

/-- A slot of the `va_list`: its word, and the characters in front of the NUL
where the word points to a string. -/
structure Arg where
  word : BitVec 32
  pointee : List Byte := []
  noNul : 0 ∉ pointee := by decide

/-- The conversions that `vsnprintf` knows. -/
inductive Conversion where
  | d | u | c | s | p
  deriving DecidableEq, Repr

namespace Conversion

/-- The inner `switch(*fmt)`. -/
def ofByte (byte : Byte) : Option Conversion :=
  if byte = ascii 'd' then some .d
  else if byte = ascii 'u' then some .u
  else if byte = ascii 'c' then some .c
  else if byte = ascii 's' then some .s
  else if byte = ascii 'p' then some .p
  else none

def toByte : Conversion → Byte
  | .d => ascii 'd'
  | .u => ascii 'u'
  | .c => ascii 'c'
  | .s => ascii 's'
  | .p => ascii 'p'

@[simp]
theorem ofByte_toByte (kind : Conversion) : ofByte kind.toByte = some kind := by
  cases kind <;> rfl

end Conversion

/-! ## Digits -/

/-- `"0123456789ABCDEF"`. -/
def NUM_CHAR : List Byte :=
  ['0', '1', '2', '3', '4', '5', '6', '7', '8', '9',
    'A', 'B', 'C', 'D', 'E', 'F'].map ascii

/-- `NUM_CHAR[i]`.  The index is negative for a negative remainder; `below`
are the bytes that happen to lie in front of the array. -/
def numChar (below : Nat → Byte) (i : Int) : Byte :=
  if i < 0 then below i.natAbs else NUM_CHAR.getD i.toNat 0

/-- `for (buf_len = 0; val; val /= base, buf_len++) buf[buf_len] =
NUM_CHAR[val % base];`, for at most `rounds` rounds. -/
def fillBuf (below : Nat → Byte) (base : Int) : Nat → Int → List Byte
  | 0, _ => []
  | rounds + 1, val =>
      if val = 0 then []
      else numChar below (val.tmod base) ::
        fillBuf below base rounds (val.tdiv base)

/-- `buf[0..buf_len)`; a 32-bit value has at most 32 digits. -/
def buf (below : Nat → Byte) (base : Int) (val : Int) : List Byte :=
  fillBuf below base 32 val

/-- What one conversion appends to `out`.  The negation of `INT_MIN` is
`INT_MIN`. -/
def Conversion.text (below : Nat → Byte) (kind : Conversion) (arg : Arg) :
    List Byte :=
  match kind with
  | .d =>
      let val := arg.word
      let zero := if val = 0 then [ascii '0'] else []
      if val.slt 0 then
        zero ++ [ascii '-'] ++ (buf below 10 (0 - val).toInt).reverse
      else zero ++ (buf below 10 val.toInt).reverse
  | .u =>
      let uval := arg.word
      (if uval = 0 then [ascii '0'] else []) ++
        (buf below 10 uval.toNat).reverse
  | .c => [arg.word.setWidth 8]
  | .s => arg.pointee
  | .p => [ascii '0', ascii 'x'] ++ (buf below 16 arg.word.toNat).reverse

/-! ## The loop -/

/-- A call of `vsnprintf`: its arguments, what the buffer holds before it, and
what lies in front of `NUM_CHAR`. -/
structure Call where
  out : Memory
  n : Size
  fmt : Nat → Byte
  ap : Nat → Arg
  below : Nat → Byte

/-- The state of the loop: the places in `fmt` and `ap`, `len`, the buffer with
its accesses, the places of `fmt` that have been read, and whether the loop has
ended. -/
@[ext]
structure Printing where
  pos : Nat := 0
  ap : Nat := 0
  len : Size := 0
  out : Traced Size Byte
  reads : List Nat := []
  ended : Bool := false

namespace Printing

/-- `out[len++] = char`. -/
def put (state : Printing) (char : Byte) : Printing :=
  { state with out := state.out.store state.len char, len := state.len + 1 }

def puts (state : Printing) (text : List Byte) : Printing :=
  text.foldl put state

/-- `*fmt`, logged. -/
def readFmt (state : Printing) : Printing :=
  { state with reads := state.pos :: state.reads }

/-- `fmt++`. -/
def advance (state : Printing) : Printing :=
  { state with pos := state.pos + 1 }

end Printing

namespace Call

/-- The outer `switch(*fmt)`; its case for a newline does what its default
does. -/
def body (call : Call) (state : Printing) : Printing :=
  if call.fmt state.pos = ascii '%' then
    let state := state.advance.readFmt
    match Conversion.ofByte (call.fmt state.pos) with
    | some kind =>
        let printed := state.puts (kind.text call.below (call.ap state.ap))
        { printed with ap := state.ap + 1 }.advance
    | none => state.advance
  else (state.put (call.fmt state.pos)).advance

/-- One test of `*fmt != '\0' && len < n`, with the body of the loop or with
`out[len] = '\0'` behind it. -/
def step (call : Call) (state : Printing) : Printing :=
  if state.ended then state
  else if call.fmt state.pos ≠ 0 ∧ state.len < call.n then
    call.body state.readFmt
  else
    { state.readFmt with
      out := state.out.store state.len 0
      ended := true }

/-- The state after `rounds` tests of the loop condition. -/
def run (call : Call) : Nat → Printing
  | 0 => { out := { memory := call.out } }
  | rounds + 1 => call.step (call.run rounds)

/-- The value that `vsnprintf` returns after so many rounds, as an `int`. -/
def returned (call : Call) (rounds : Nat) : Int := (call.run rounds).len.toInt

end Call

/-- `vsprintf`, and `sprintf` with its own `va_list`: `n` is -1. -/
def vsprintf (out : Memory) (fmt : Nat → Byte) (ap : Nat → Arg)
    (below : Nat → Byte) : Call where
  out := out
  n := -1
  fmt := fmt
  ap := ap
  below := below

/-- `char buffer[1024]` of `printf`. -/
def bufferSize : Nat := 1024

/-- `printf` prints into its buffer with `vsprintf`. -/
def printf (buffer : Memory) (fmt : Nat → Byte) (ap : Nat → Arg)
    (below : Nat → Byte) : Call :=
  vsprintf buffer fmt ap below

end Ysyx.Klib
