import Ysyx.Lib.Ring
import Ysyx.Nemu.Machine

/-!
# The instruction history

`itrace_init`, `itrace_record` and `itrace_display_history`: a ring of the last
`ITRACE_BUF_SIZE` instructions, each with the text that was logged for it.
-/

namespace Ysyx.Nemu

/-! ## Strings in buffers -/

/-- The string that a buffer holds. -/
def cString (buffer : List Char) : List Char :=
  buffer.takeWhile (· ≠ '\x00')

/-- The characters that `strncpy` of the C library writes. -/
def strncpy (src : List Char) (n : Nat) : List Char :=
  (cString src).take n ++ List.replicate (n - (cString src).length) '\x00'

theorem cString_append_nul {text : List Char}
    (noNul : ∀ char ∈ text, char ≠ '\x00') (rest : List Char) :
    cString (text ++ '\x00' :: rest) = text := by
  rw [cString, List.takeWhile_append_of_pos (by simpa using noNul)]
  simp

theorem cString_no_nul (buffer : List Char) :
    ∀ char ∈ cString buffer, char ≠ '\x00' := by
  intro char isIn
  have := List.all_eq_true.mp (List.all_takeWhile (l := buffer)) char isIn
  simpa using this

/-- A copy with a zero byte behind it holds what of the string fits. -/
theorem cString_strncpy (src : List Char) (n : Nat) :
    cString (strncpy src n ++ ['\x00']) = (cString src).take n := by
  have noNul : ∀ char ∈ (cString src).take n, char ≠ '\x00' :=
    fun char isIn => cString_no_nul src char (List.mem_of_mem_take isIn)
  rw [strncpy, List.append_assoc]
  cases isPadding : n - (cString src).length with
  | zero => exact cString_append_nul noNul []
  | succ more =>
      rw [List.replicate_succ]
      exact cString_append_nul noNul _

/-! ## The buffer -/

def ITRACE_BUF_SIZE : Nat := 50

structure ITraceEntry where
  log : List Char
  pc : Word

/-- `sizeof(itrace_buf.entries[index].log)`. -/
def logSize : Nat := 128

/-- `itrace_buf`.  The fields that index it are zero at the start and stay in
their range. -/
structure ITraceBuffer where
  entries : List ITraceEntry
  head : Nat
  count : Nat
  size : entries.length = ITRACE_BUF_SIZE
  head_lt : head < ITRACE_BUF_SIZE
  count_le : count ≤ ITRACE_BUF_SIZE

def itraceInit (buf : ITraceBuffer) : ITraceBuffer where
  entries := buf.entries
  head := 0
  count := 0
  size := buf.size
  head_lt := by decide
  count_le := by decide

/-- `itrace_record`, on the buffer that `log` points to. -/
def itraceRecord (buf : ITraceBuffer) (log : List Char) (pc : Word) :
    ITraceBuffer where
  entries := buf.entries.set buf.head
    ⟨strncpy log (logSize - 1) ++ ['\x00'], pc⟩
  head := (buf.head + 1) % ITRACE_BUF_SIZE
  count := if buf.count < ITRACE_BUF_SIZE then buf.count + 1 else buf.count
  size := by rw [List.length_set, buf.size]
  head_lt := Nat.mod_lt _ (by decide)
  count_le := by
    have := buf.count_le
    split <;> omega

/-- What is printed: the number in the first line, and the number and the text
of each line behind it. -/
structure Listing where
  num : Int
  lines : List (Int × List Char)
  deriving DecidableEq, Repr

/-- `index` in the loop. -/
def historyIndex (head : Nat) (i : Nat) : Int :=
  Int.tmod (head - 1 - i + ITRACE_BUF_SIZE) ITRACE_BUF_SIZE

/-- The body of the loop; `none` is a read outside the entries. -/
def historyLine (buf : ITraceBuffer) (num : Int) (i : Nat) :
    Option (Int × List Char) :=
  let index := historyIndex buf.head i
  if index < 0 then none
  else buf.entries[index.toNat]?.map fun entry => (num - i, cString entry.log)

def itraceDisplayHistory (buf : ITraceBuffer) (num : Int) : Option Listing :=
  let num := if num > buf.count then (buf.count : Int) else num
  ((List.range num.toNat).mapM (historyLine buf num)).map fun lines =>
    ⟨num, lines⟩

/-! ## As a ring -/

def ITraceBuffer.ring (buf : ITraceBuffer) : RingBuffer ITraceEntry :=
  ⟨buf.entries, buf.head, buf.count⟩

/-- The entry that `itrace_record` makes. -/
def recorded (record : List Char × Word) : ITraceEntry :=
  ⟨strncpy record.1 (logSize - 1) ++ ['\x00'], record.2⟩

theorem ring_itraceRecord (buf : ITraceBuffer) (record : List Char × Word) :
    (itraceRecord buf record.1 record.2).ring =
      buf.ring.push (recorded record) := by
  simp only [ITraceBuffer.ring, itraceRecord, RingBuffer.push, recorded,
    buf.size]

/-- The calls of `itrace_record` one after the other. -/
def itraceRecordAll (buf : ITraceBuffer) (records : List (List Char × Word)) :
    ITraceBuffer :=
  records.foldl (fun buf record => itraceRecord buf record.1 record.2) buf

theorem ring_itraceRecordAll (buf : ITraceBuffer)
    (records : List (List Char × Word)) :
    (itraceRecordAll buf records).ring =
      (records.map recorded).foldl RingBuffer.push buf.ring := by
  induction records generalizing buf with
  | nil => rfl
  | cons record rest inductionHypothesis =>
      rw [itraceRecordAll, List.foldl_cons, List.map_cons, List.foldl_cons,
        ← ring_itraceRecord]
      exact inductionHypothesis _

theorem keeps_records (buf : ITraceBuffer)
    (records : List (List Char × Word)) :
    RingBuffer.Keeps (itraceRecordAll (itraceInit buf) records).ring
      (records.map recorded).reverse := by
  have empty : RingBuffer.Keeps (itraceInit buf).ring [] :=
    RingBuffer.keeps_nil (buf.size ▸ by decide)
  rw [ring_itraceRecordAll, ← List.append_nil (List.reverse _)]
  exact empty.pushAll _

/-- The index of the loop is the slot of the entry with this age. -/
theorem historyIndex_eq_slot (buf : ITraceBuffer) {i : Nat}
    (kept : i < ITRACE_BUF_SIZE) :
    historyIndex buf.head i = buf.ring.slot i := by
  have inRange := buf.head_lt
  have nonneg : (buf.head : Int) - 1 - i + ITRACE_BUF_SIZE =
      ((buf.head + ITRACE_BUF_SIZE - 1 - i : Nat) : Int) := by
    omega
  rw [historyIndex, nonneg, ← Int.ofNat_tmod]
  simp only [RingBuffer.slot, ITraceBuffer.ring, buf.size]

/-! ## The listing -/

theorem historyLine_eq_recent (buf : ITraceBuffer) (num : Int) {i : Nat}
    (kept : i < ITRACE_BUF_SIZE) :
    historyLine buf num i =
      (buf.ring.recent i).map fun entry =>
        (num - (i : Int), cString entry.log) := by
  have index := historyIndex_eq_slot buf kept
  simp only [historyLine, index, Int.toNat_natCast]
  exact if_neg (by omega)

/-- The text printed for a record. -/
def printed (record : List Char × Word) : List Char :=
  (cString record.1).take (logSize - 1)

theorem cString_recorded (record : List Char × Word) :
    cString (recorded record).log = printed record :=
  cString_strncpy record.1 (logSize - 1)

/-- The lines of the loop up to `shown`. -/
theorem historyLines (buf : ITraceBuffer) (records : List (List Char × Word))
    (num : Int) (shown : Nat)
    (le : shown ≤ (itraceRecordAll (itraceInit buf) records).count) :
    ∃ lines, (List.range shown).mapM
        (historyLine (itraceRecordAll (itraceInit buf) records) num) =
          some lines ∧
      lines.map Prod.fst = (List.range shown).map (num - Int.ofNat ·) ∧
      lines.map Prod.snd = (records.reverse.take shown).map printed := by
  have keeps := keeps_records buf records
  induction shown with
  | zero => exact ⟨[], rfl, rfl, rfl⟩
  | succ shown inductionHypothesis =>
      obtain ⟨lines, areLines, labels, texts⟩ :=
        inductionHypothesis (by omega)
      obtain ⟨inHistory, isRecent⟩ := keeps.recent_eq_getElem le
      have kept := (itraceRecordAll (itraceInit buf) records).count_le
      have inRecords : shown < records.reverse.length := by
        simpa using inHistory
      have isRecorded : (records.map recorded).reverse[shown] =
          recorded records.reverse[shown] := by
        simp
      have line : historyLine (itraceRecordAll (itraceInit buf) records) num
          shown = some (num - shown, printed records.reverse[shown]) := by
        rw [historyLine_eq_recent _ _ (by omega), isRecent, isRecorded,
          Option.map_some, cString_recorded]
      refine ⟨lines ++ [(num - shown, printed records.reverse[shown])],
        ?_, ?_, ?_⟩
      · rw [List.range_succ, List.mapM_append, areLines]
        simp [line]
      · rw [List.map_append, labels, List.range_succ, List.map_append]
        rfl
      · rw [List.map_append, texts, List.take_add_one,
          List.getElem?_eq_getElem inRecords, Option.toList_some,
          List.map_append]
        rfl

theorem count_itraceRecordAll (buf : ITraceBuffer)
    (records : List (List Char × Word)) :
    (itraceRecordAll (itraceInit buf) records).count =
      min records.length ITRACE_BUF_SIZE := by
  have counted := (keeps_records buf records).count_eq
  rw [List.length_reverse, List.length_map] at counted
  exact counted.trans (congrArg _ (ITraceBuffer.size _))

/-- The listing is the end of what was recorded, newest first. -/
theorem itraceDisplayHistory_newest (buf : ITraceBuffer)
    (records : List (List Char × Word)) (num : Nat) :
    ∃ listing,
      itraceDisplayHistory (itraceRecordAll (itraceInit buf) records) num =
        some listing ∧
      listing.num = min num (min records.length ITRACE_BUF_SIZE) ∧
      listing.lines.map Prod.snd =
        (records.reverse.take
          (min num (min records.length ITRACE_BUF_SIZE))).map printed ∧
      listing.lines.map Prod.fst =
        (List.range (min num (min records.length ITRACE_BUF_SIZE))).map
          (listing.num - Int.ofNat ·) := by
  have count := count_itraceRecordAll buf records
  have capped : (if (num : Int) >
        (itraceRecordAll (itraceInit buf) records).count then
        ((itraceRecordAll (itraceInit buf) records).count : Int) else num) =
      ((min num (min records.length ITRACE_BUF_SIZE) : Nat) : Int) := by
    rw [count]
    split <;> omega
  obtain ⟨lines, areLines, labels, texts⟩ := historyLines buf records
    (min num (min records.length ITRACE_BUF_SIZE) : Nat)
    (min num (min records.length ITRACE_BUF_SIZE)) (by omega)
  refine ⟨⟨(min num (min records.length ITRACE_BUF_SIZE) : Nat), lines⟩, ?_,
    by simp, texts, labels⟩
  rw [itraceDisplayHistory, capped, Int.toNat_natCast, areLines]
  rfl

end Ysyx.Nemu
