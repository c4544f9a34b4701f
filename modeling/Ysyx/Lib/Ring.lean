import Mathlib.Data.List.Basic

/-!
# Ring buffers

A ring buffer of fixed size that is only written: it keeps the last entries of
its history, and the slot of an entry is found from its age.
-/

universe u

structure RingBuffer (α : Type u) where
  entries : List α
  /-- The slot that is written next. -/
  head : Nat
  count : Nat

namespace RingBuffer

variable {α : Type u}

def push (ring : RingBuffer α) (entry : α) : RingBuffer α where
  entries := ring.entries.set ring.head entry
  head := (ring.head + 1) % ring.entries.length
  count := if ring.count < ring.entries.length then ring.count + 1 else ring.count

/-- The slot of the entry with `age` newer ones. -/
def slot (ring : RingBuffer α) (age : Nat) : Nat :=
  (ring.head + ring.entries.length - 1 - age) % ring.entries.length

def recent (ring : RingBuffer α) (age : Nat) : Option α :=
  ring.entries[ring.slot age]?

@[simp]
theorem length_push (ring : RingBuffer α) (entry : α) :
    (ring.push entry).entries.length = ring.entries.length := by
  simp [push]

/-! ## Slots -/

section Slots

variable {ring : RingBuffer α} {age : Nat}

theorem slot_of_lt (inRange : ring.head < ring.entries.length)
    (young : age < ring.head) : ring.slot age = ring.head - 1 - age := by
  have split : ring.head + ring.entries.length - 1 - age =
      (ring.head - 1 - age) + ring.entries.length := by omega
  rw [slot, split, Nat.add_mod_right, Nat.mod_eq_of_lt (by omega)]

theorem slot_of_le (old : ring.head ≤ age)
    (kept : age < ring.entries.length) :
    ring.slot age = ring.head + ring.entries.length - 1 - age :=
  Nat.mod_eq_of_lt (by omega)

/-- The newest entry is in the slot just written. -/
theorem slot_push_zero (inRange : ring.head < ring.entries.length) (entry : α) :
    (ring.push entry).slot 0 = ring.head := by
  have length := length_push ring entry
  by_cases wraps : ring.head + 1 = ring.entries.length
  · have head : (ring.push entry).head = 0 := by
      simp [push, wraps]
    rw [slot_of_le (by omega) (by omega)]
    omega
  · have head : (ring.push entry).head = ring.head + 1 :=
      Nat.mod_eq_of_lt (by omega)
    rw [slot_of_lt (by omega) (by omega)]
    omega

/-- The others stay where they are and age by one. -/
theorem slot_push_succ (inRange : ring.head < ring.entries.length) (entry : α)
    (kept : age + 1 < ring.entries.length) :
    (ring.push entry).slot (age + 1) = ring.slot age := by
  have length := length_push ring entry
  by_cases wraps : ring.head + 1 = ring.entries.length
  · have head : (ring.push entry).head = 0 := by
      simp [push, wraps]
    rw [slot_of_le (by omega) (by omega),
      slot_of_lt inRange (by omega)]
    omega
  · have head : (ring.push entry).head = ring.head + 1 :=
      Nat.mod_eq_of_lt (by omega)
    by_cases young : age < ring.head
    · rw [slot_of_lt (by omega) (by omega), slot_of_lt inRange young]
      omega
    · rw [slot_of_le (by omega) (by omega),
        slot_of_le (by omega) (by omega)]
      omega

/-- No two ages share a slot. -/
theorem slot_ne (inRange : ring.head < ring.entries.length) {older : Nat}
    (younger : age < older) (kept : older < ring.entries.length) :
    ring.slot age ≠ ring.slot older := by
  by_cases wrapsOlder : ring.head ≤ older
  · by_cases wrapsAge : ring.head ≤ age
    · rw [slot_of_le wrapsAge (by omega),
        slot_of_le wrapsOlder kept]
      omega
    · rw [slot_of_lt inRange (by omega), slot_of_le wrapsOlder kept]
      omega
  · rw [slot_of_lt inRange (by omega), slot_of_lt inRange (by omega)]
    omega

end Slots

/-! ## The history -/

/-- The ring keeps the newest entries of the history, the last one first. -/
structure Keeps (ring : RingBuffer α) (history : List α) : Prop where
  head_lt : ring.head < ring.entries.length
  count_eq : ring.count = min history.length ring.entries.length
  recent_eq : ∀ age, age < ring.count → ring.recent age = history[age]?

theorem keeps_nil {entries : List α} (nonempty : 0 < entries.length) :
    Keeps ⟨entries, 0, 0⟩ [] where
  head_lt := nonempty
  count_eq := (Nat.zero_min _).symm
  recent_eq _ isOld := absurd isOld (Nat.not_lt_zero _)

variable {ring : RingBuffer α} {history : List α}

theorem Keeps.push (keeps : Keeps ring history) (entry : α) :
    Keeps (ring.push entry) (entry :: history) := by
  have inRange := keeps.head_lt
  have counted := keeps.count_eq
  have length := length_push ring entry
  have count : (ring.push entry).count =
      min (entry :: history).length ring.entries.length := by
    simp only [RingBuffer.push, List.length_cons]
    split <;> omega
  have head_lt : (ring.push entry).head < (ring.push entry).entries.length := by
    rw [length]
    exact Nat.mod_lt _ (Nat.zero_lt_of_lt inRange)
  refine ⟨head_lt, ?_, ?_⟩
  · rw [length, count]
  · intro age isIn
    rw [count, List.length_cons] at isIn
    cases age with
    | zero =>
        rw [recent, slot_push_zero inRange]
        exact List.getElem?_set_self inRange
    | succ age =>
        have stays : ring.slot age ≠ ring.head := by
          rw [← slot_push_succ inRange entry (by omega),
            ← slot_push_zero inRange entry]
          exact (slot_ne head_lt (Nat.succ_pos age) (by omega)).symm
        rw [recent, slot_push_succ inRange entry (by omega),
          List.getElem?_cons_succ, ← keeps.recent_eq age (by omega)]
        exact List.getElem?_set_ne stays.symm

theorem Keeps.recent_eq_getElem (keeps : Keeps ring history) {age : Nat}
    (isIn : age < ring.count) :
    ∃ inHistory : age < history.length, ring.recent age = some history[age] := by
  have counted := keeps.count_eq
  have inHistory : age < history.length := by omega
  exact ⟨inHistory,
    (keeps.recent_eq age isIn).trans (List.getElem?_eq_getElem inHistory)⟩

theorem Keeps.pushAll (keeps : Keeps ring history) (entries : List α) :
    Keeps (entries.foldl RingBuffer.push ring) (entries.reverse ++ history) := by
  induction entries generalizing ring history with
  | nil => exact keeps
  | cons entry rest inductionHypothesis =>
      rw [List.foldl_cons, List.reverse_cons, List.append_assoc]
      exact inductionHypothesis (keeps.push entry)

end RingBuffer
