import Ysyx.Lib.Nesting
import Ysyx.Rtl.System

/-!
# The return address stack

Which returns `ysyx_25040131_ras` predicts, and what becomes of calls and
returns that wait in ID.
-/

namespace Ysyx.Rtl

namespace Ras

open Nesting

variable {ptrW : Nat}

/-! ## Nested calls -/

section Nested

/-- The stack after one call or return, one cycle in ID. -/
def transfer (ras : Ras ptrW) : Transfer Word → Ras ptrW
  | .call pc => ras.next false true true false pc
  | .ret pc => ras.next false true false true pc

def transfers (ras : Ras ptrW) (trace : List (Transfer Word)) : Ras ptrW :=
  trace.foldl transfer ras

/-- `ras_hit` and `ras_target` at every return of a sequence. -/
def predictions (ras : Ras ptrW) : List (Transfer Word) → List (Bool × Word)
  | [] => []
  | .call pc :: rest => (ras.transfer (.call pc)).predictions rest
  | .ret pc :: rest =>
      (ras.hit true true, ras.target) ::
        (ras.transfer (.ret pc)).predictions rest

theorem predictions_append (ras : Ras ptrW) (first second) :
    ras.predictions (first ++ second) =
      ras.predictions first ++ (ras.transfers first).predictions second := by
  induction first generalizing ras with
  | nil =>
      rfl
  | cons head rest inductionHypothesis =>
      cases head with
      | call pc =>
          exact inductionHypothesis _
      | ret pc =>
          exact congrArg (List.cons _) (inductionHypothesis _)

theorem transfer_ret {ras : Ras ptrW} (notEmpty : ras.sp ≠ 0) (pc : Word) :
    ras.transfer (.ret pc) = { ras with sp := ras.sp - 1 } := by
  have pops : true = true ∧ ras.sp ≠ 0 := ⟨rfl, notEmpty⟩
  exact if_pos pops

theorem transfers_call (ras : Ras ptrW) (pc : Word) (body : Calls Word)
    (last : Word) (rest : Calls Word) :
    ras.transfers (Calls.call pc body last rest).trace =
      (((ras.transfer (.call pc)).transfers body.trace).transfer
        (.ret last)).transfers rest.trace := by
  simp only [Calls.trace, transfers, List.foldl_cons, List.foldl_append]

theorem predictions_call (ras : Ras ptrW) (pc : Word) (body : Calls Word)
    (last : Word) (rest : Calls Word) :
    let called := ras.transfer (.call pc)
    let returning := called.transfers body.trace
    ras.predictions (Calls.call pc body last rest).trace =
      called.predictions body.trace ++
        (returning.hit true true, returning.target) ::
          (returning.transfer (.ret last)).predictions rest.trace := by
  simp only [Calls.trace, predictions, predictions_append]

theorem length_predictions (ras : Ras ptrW) (calls : Calls Word) :
    (ras.predictions calls.trace).length = calls.callers.length := by
  induction calls generalizing ras with
  | done =>
      rfl
  | call pc body last rest bodyHypothesis restHypothesis =>
      simp only [predictions_call, Calls.callers, List.length_append,
        List.length_cons, bodyHypothesis, restHypothesis]

theorem append_cons_eq_iff {first first' second second' : List (Bool × Word)}
    {x y : Bool × Word} (sameLength : first.length = first'.length) :
    first ++ x :: second = first' ++ y :: second' ↔
      first = first' ∧ x = y ∧ second = second' := by
  constructor
  · intro same
    obtain ⟨heads, tails⟩ := List.append_inj same sameLength
    exact ⟨heads, List.cons.inj tails⟩
  · rintro ⟨rfl, rfl, rfl⟩
    rfl

theorem sp_push {sp : BitVec ptrW} (room : sp.toNat + 1 < 2 ^ ptrW) :
    (sp + 1).toNat = sp.toNat + 1 := by
  have one : (1 : BitVec ptrW).toNat = 1 % 2 ^ ptrW := BitVec.toNat_ofNat ..
  rw [BitVec.toNat_add, one, Nat.add_mod_mod, Nat.mod_eq_of_lt room]

theorem sp_wrap {sp : BitVec ptrW} (full : sp.toNat + 1 = 2 ^ ptrW) :
    sp + 1 = 0 := by
  apply BitVec.eq_of_toNat_eq
  have one : (1 : BitVec ptrW).toNat = 1 % 2 ^ ptrW := BitVec.toNat_ofNat ..
  rw [BitVec.toNat_add, one, Nat.add_mod_mod, full, Nat.mod_self]
  exact (Nat.zero_mod _).symm

/-- The pointer is where it was, and so is everything below it. -/
structure Kept (before after : Ras ptrW) : Prop where
  sp : after.sp = before.sp
  below : ∀ slot : BitVec ptrW, slot.toNat < before.sp.toNat →
    after.stack slot = before.stack slot

theorem Kept.trans {before middle after : Ras ptrW}
    (first : Kept before middle) (second : Kept middle after) :
    Kept before after where
  sp := second.sp.trans first.sp
  below := by
    intro slot isBelow
    rw [second.below slot (by rwa [first.sp]), first.below slot isBelow]

section Call

variable {ras inside : Ras ptrW} {pc : Word}

theorem sp_ne_zero (room : ras.sp.toNat + 1 < 2 ^ ptrW)
    (kept : Kept (ras.transfer (.call pc)) inside) : inside.sp ≠ 0 := by
  intro empty
  have sp : inside.sp = ras.sp + 1 := kept.sp
  have pushed := sp_push room
  rw [← sp, empty] at pushed
  simp at pushed

/-- A return behind a call whose body has kept the stack is predicted. -/
theorem predicted_of_kept (room : ras.sp.toNat + 1 < 2 ^ ptrW)
    (kept : Kept (ras.transfer (.call pc)) inside) :
    (inside.hit true true, inside.target) = (true, pc + 4) := by
  have sp : inside.sp = ras.sp + 1 := kept.sp
  have below : ras.sp.toNat < (ras.sp + 1).toNat := by
    rw [sp_push room]
    exact Nat.lt_succ_self _
  have top : inside.stack ras.sp = pc + 4 := by
    rw [kept.below ras.sp below]
    exact if_pos rfl
  have slot : inside.sp - 1 = ras.sp := by
    rw [sp]
    exact BitVec.add_sub_cancel _ _
  have hits : inside.hit true true = true := by
    simpa [hit] using sp_ne_zero room kept
  rw [hits, target, slot, top]

theorem kept_of_returned (room : ras.sp.toNat + 1 < 2 ^ ptrW)
    (kept : Kept (ras.transfer (.call pc)) inside) (last : Word) :
    Kept ras (inside.transfer (.ret last)) := by
  have sp : inside.sp = ras.sp + 1 := kept.sp
  rw [transfer_ret (sp_ne_zero room kept)]
  refine ⟨?_, ?_⟩
  · change inside.sp - 1 = ras.sp
    rw [sp]
    exact BitVec.add_sub_cancel _ _
  · intro slot isBelow
    have called : (ras.transfer (.call pc)).stack slot = ras.stack slot :=
      if_neg fun here => by simp [here] at isBelow
    rw [← called]
    refine kept.below slot ?_
    change slot.toNat < (ras.sp + 1).toNat
    rw [sp_push room]
    omega

end Call

theorem transfers_kept (ras : Ras ptrW) (calls : Calls Word)
    (room : ras.sp.toNat + calls.depth < 2 ^ ptrW) :
    Kept ras (ras.transfers calls.trace) := by
  induction calls generalizing ras with
  | done =>
      exact ⟨rfl, fun _ _ => rfl⟩
  | call pc body last rest bodyHypothesis restHypothesis =>
      rw [Calls.depth_call] at room
      have pushes : ras.sp.toNat + 1 < 2 ^ ptrW := by omega
      have bodyKept := bodyHypothesis (ras.transfer (.call pc)) (by
        change (ras.sp + 1).toNat + _ < _
        rw [sp_push pushes]
        omega)
      have returned := kept_of_returned pushes bodyKept last
      rw [transfers_call]
      refine returned.trans (restHypothesis _ ?_)
      rw [returned.sp]
      omega

/-- From any state, all returns of a nested sequence are predicted exactly if
the pointer never wraps. -/
theorem predictions_eq_iff (ras : Ras ptrW) (calls : Calls Word) :
    ras.predictions calls.trace =
        calls.callers.map (fun pc => (true, pc + 4)) ↔
      ras.sp.toNat + calls.depth < 2 ^ ptrW := by
  induction calls generalizing ras with
  | done =>
      simp [Calls.trace, predictions, Calls.callers, Calls.depth, ras.sp.isLt]
  | call pc body last rest bodyHypothesis restHypothesis =>
      have sameLength : ((ras.transfer (.call pc)).predictions
          body.trace).length =
          (body.callers.map fun pc => (true, pc + 4)).length := by
        rw [length_predictions, List.length_map]
      rw [predictions_call, Calls.callers, List.map_append, List.map_cons,
        append_cons_eq_iff sameLength, bodyHypothesis, Calls.depth_call]
      by_cases pushes : ras.sp.toNat + 1 < 2 ^ ptrW
      · have called : (ras.transfer (.call pc)).sp.toNat =
            ras.sp.toNat + 1 := sp_push pushes
        rw [called]
        by_cases room : ras.sp.toNat + 1 + body.depth < 2 ^ ptrW
        · have kept := transfers_kept (ras.transfer (.call pc)) body
            (by rwa [called])
          rw [restHypothesis, (kept_of_returned pushes kept last).sp]
          have predicted := predicted_of_kept pushes kept
          simp only [room, predicted, true_and]
          omega
        · simp only [room, false_and, false_iff]
          omega
      · -- The pointer wraps to 0, and a body that keeps it there has its
        -- return missed.
        have full : ras.sp.toNat + 1 = 2 ^ ptrW := by
          have inRange := ras.sp.isLt
          omega
        have empty : (ras.transfer (.call pc)).sp = 0 := sp_wrap full
        refine iff_of_false ?_ (by omega)
        rintro ⟨room, predicted, _⟩
        have kept := transfers_kept (ras.transfer (.call pc)) body room
        have hits := congrArg Prod.fst predicted
        simp [hit, kept.sp, empty] at hits

/-- After reset, all returns of a well-nested sequence are predicted exactly
if fewer calls than the stack has entries are ever open at once. -/
theorem reset_predictions_iff (power : Ras ptrW) (calls : Calls Word) :
    power.reset.predictions calls.trace =
        calls.callers.map (fun pc => (true, pc + 4)) ↔
      calls.depth < 2 ^ ptrW := by
  have empty : power.reset.sp.toNat = 0 := by simp [reset]
  rw [predictions_eq_iff, empty, Nat.zero_add]

/-- Calls inside calls, and then all their returns. -/
def nest : Nat → Calls Word
  | 0 => .done
  | inner + 1 => .call (BitVec.ofNat 32 (4 * inner)) (nest inner) 0 .done

/-- Eight open calls fill the stack of the core, and the return of the
innermost one finds it empty. -/
theorem nest_not_predicted :
    ¬ ∀ (ptrW : Nat) (power : Ras ptrW) (calls : Calls Word),
      calls.depth ≤ 2 ^ ptrW →
        power.reset.predictions calls.trace =
          calls.callers.map fun pc => (true, pc + 4) := by
  intro claimed
  have predicted := claimed 3 { stack := fun _ => 0, sp := 0 } (nest 8)
    (by decide)
  revert predicted
  decide

end Nested

/-! ## Waiting in ID -/

section Waiting

/-- The stack after one cycle without a flush, in which ID shows `ifId`. -/
def step (ras : Ras ptrW) (ifId : Pipcon IfIdData) : Ras ptrW :=
  ras.next false ifId.validOut (idIsCall ifId.dataOut.inst)
    (idIsRet ifId.dataOut.inst) ifId.dataOut.pc

def through (ras : Ras ptrW) (cycles : List (Pipcon IfIdData)) : Ras ptrW :=
  cycles.foldl step ras

/-- An instruction in ID: what IF/ID shows while it is empty before, and how
many cycles the instruction waits. -/
structure Stay where
  bubbles : List IfIdData
  data : IfIdData
  stalls : Nat

namespace Stay

/-- The same without bubbles and stalls. -/
def once (stay : Stay) : Stay := { stay with bubbles := [], stalls := 0 }

/-- The cycles up to the last one. -/
def waits (stay : Stay) : List (Pipcon IfIdData) :=
  stay.bubbles.map (⟨·, false⟩) ++
    List.replicate stay.stalls ⟨stay.data, true⟩

def cycles (stay : Stay) : List (Pipcon IfIdData) :=
  stay.waits ++ [⟨stay.data, true⟩]

def isCall (stay : Stay) : Bool := idIsCall stay.data.inst
def isRet (stay : Stay) : Bool := idIsRet stay.data.inst

end Stay

/-- The prediction with which an instruction leaves ID. -/
def attached (ras : Ras ptrW) (stay : Stay) : Bool × Word :=
  let last := ras.through stay.waits
  (last.hit true stay.isRet, last.target)

/-- Calls and returns leave the same stack and the same prediction as if they
were in ID for one cycle. -/
def Insensitive (ras : Ras ptrW) (stays : List Stay) : Prop :=
  ∀ done stay rest, stays = done ++ stay :: rest →
    let actual := ras.through (done.flatMap Stay.cycles)
    let ideal := ras.through (done.flatMap fun stay => stay.once.cycles)
    (stay.isRet = true → actual.attached stay = ideal.attached stay.once) ∧
      actual.through stay.cycles = ideal.through stay.once.cycles

/-- Waiting does no harm: to an instruction that is no call and no return, to
a return that finds the stack empty, and to a call that pushes its address all
around a stack that holds nothing else. -/
def Harmless (ras : Ras ptrW) (stay : Stay) : Prop :=
  stay.stalls = 0 ∨
    (stay.isCall = true →
      stay.stalls % 2 ^ ptrW = 0 ∧
        ∀ slot, slot ≠ ras.sp → ras.stack slot = stay.data.pc + 4) ∧
    (stay.isRet = true → ras.sp = 0)

theorem through_append (ras : Ras ptrW) (first second) :
    ras.through (first ++ second) = (ras.through first).through second :=
  List.foldl_append

theorem through_bubbles (ras : Ras ptrW) (bubbles : List IfIdData) :
    ras.through (bubbles.map (⟨·, false⟩)) = ras := by
  induction bubbles generalizing ras with
  | nil =>
      rfl
  | cons data rest inductionHypothesis =>
      exact inductionHypothesis ras

/-- The stack after an instruction has shown itself in `cycles` cycles. -/
def shown (ras : Ras ptrW) (data : IfIdData) (cycles : Nat) : Ras ptrW :=
  ras.through (List.replicate cycles ⟨data, true⟩)

theorem shown_succ (ras : Ras ptrW) (data : IfIdData) (cycles : Nat) :
    ras.shown data (cycles + 1) = (ras.shown data cycles).step ⟨data, true⟩ := by
  rw [shown, List.replicate_succ', through_append]
  rfl

theorem through_waits (ras : Ras ptrW) (stay : Stay) :
    ras.through stay.waits = ras.shown stay.data stay.stalls := by
  rw [Stay.waits, through_append, through_bubbles, shown]

theorem through_cycles (ras : Ras ptrW) (stay : Stay) :
    ras.through stay.cycles = ras.shown stay.data (stay.stalls + 1) := by
  rw [Stay.cycles, through_append, through_waits, shown_succ]
  rfl

section Shown

variable {ras : Ras ptrW} {data : IfIdData}

theorem shown_plain (noCall : idIsCall data.inst = false)
    (noRet : idIsRet data.inst = false) (cycles : Nat) :
    ras.shown data cycles = ras := by
  induction cycles with
  | zero =>
      rfl
  | succ cycles inductionHypothesis =>
      rw [shown_succ, inductionHypothesis, step, next, noCall, noRet]
      simp

theorem not_call_of_ret {inst : Word} (isRet : idIsRet inst = true) :
    idIsCall inst = false := by
  simp only [idIsRet, Bool.and_eq_true, beq_iff_eq] at isRet
  simp [idIsCall, isRet.1.2]

theorem noRet_of_call {inst : Word} (isCall : idIsCall inst = true) :
    idIsRet inst = false := by
  by_contra isRet
  rw [Bool.not_eq_false] at isRet
  rw [not_call_of_ret isRet] at isCall
  contradiction

theorem step_call (isCall : idIsCall data.inst = true) :
    ras.step ⟨data, true⟩ =
      { stack := fun slot =>
          if slot = ras.sp then data.pc + 4 else ras.stack slot
        sp := ras.sp + 1 } := by
  rw [step, next, isCall, noRet_of_call isCall]
  simp

theorem step_ret (isRet : idIsRet data.inst = true) :
    ras.step ⟨data, true⟩ =
      if ras.sp ≠ 0 then { ras with sp := ras.sp - 1 } else ras := by
  rw [step, next, not_call_of_ret isRet, isRet]
  by_cases empty : ras.sp = 0 <;> simp [empty]

/-- A return pops in every cycle, until the stack is empty. -/
theorem shown_ret (ras : Ras ptrW) (isRet : idIsRet data.inst = true)
    (cycles : Nat) :
    (ras.shown data cycles).stack = ras.stack ∧
      (ras.shown data cycles).sp.toNat = ras.sp.toNat - cycles := by
  induction cycles with
  | zero =>
      exact ⟨rfl, rfl⟩
  | succ cycles inductionHypothesis =>
      obtain ⟨stack, sp⟩ := inductionHypothesis
      rw [shown_succ, step_ret isRet]
      by_cases empty : (ras.shown data cycles).sp = 0
      · rw [if_neg (not_not.mpr empty), sp]
        rw [empty] at sp
        change 0 % 2 ^ ptrW = _ at sp
        rw [Nat.zero_mod] at sp
        exact ⟨stack, by omega⟩
      · rw [if_pos empty]
        refine ⟨stack, ?_⟩
        have notZero : (ras.shown data cycles).sp.toNat ≠ 0 := by
          intro zero
          exact empty (BitVec.eq_of_toNat_eq zero)
        have inRange := (ras.shown data cycles).sp.isLt
        change ((ras.shown data cycles).sp - BitVec.ofNat ptrW 1).toNat = _
        rw [BitVec.toNat_sub_of_le (by
          rw [BitVec.le_def, BitVec.toNat_ofNat, Nat.mod_eq_of_lt] <;> omega),
          BitVec.toNat_ofNat, Nat.mod_eq_of_lt (by omega), sp]
        omega

/-- A call pushes in every cycle, around the stack. -/
theorem shown_call (ras : Ras ptrW) (isCall : idIsCall data.inst = true)
    (cycles : Nat) :
    (ras.shown data cycles).sp = ras.sp + BitVec.ofNat ptrW cycles ∧
      ∀ slot, (ras.shown data cycles).stack slot =
        if (slot - ras.sp).toNat < cycles then data.pc + 4
        else ras.stack slot := by
  induction cycles with
  | zero =>
      exact ⟨(BitVec.add_zero _).symm, fun _ => rfl⟩
  | succ cycles inductionHypothesis =>
      obtain ⟨sp, stack⟩ := inductionHypothesis
      rw [shown_succ, step_call isCall]
      refine ⟨?_, ?_⟩
      · change (ras.shown data cycles).sp + BitVec.ofNat ptrW 1 = _
        rw [sp, BitVec.add_assoc, ← BitVec.ofNat_add]
      · intro slot
        simp only [sp, stack]
        by_cases here : slot = ras.sp + BitVec.ofNat ptrW cycles
        · have distance : (slot - ras.sp).toNat = cycles % 2 ^ ptrW := by
            rw [here, BitVec.add_comm, BitVec.add_sub_cancel,
              BitVec.toNat_ofNat]
          have reduced := Nat.mod_le cycles (2 ^ ptrW)
          rw [if_pos here, if_pos (by omega)]
        · have different : (slot - ras.sp).toNat ≠ cycles := by
            intro distance
            apply here
            rw [← distance, BitVec.ofNat_toNat, BitVec.setWidth_eq,
              BitVec.add_comm, BitVec.sub_add_cancel]
          rw [if_neg here]
          by_cases before : (slot - ras.sp).toNat < cycles
          · rw [if_pos before, if_pos (by omega)]
          · rw [if_neg before, if_neg (by omega)]

end Shown

section Kinds

variable {ras : Ras ptrW} {stay : Stay}

/-- Waiting left the prediction of a return and the stack alone. -/
def Undisturbed (ras : Ras ptrW) (stay : Stay) : Prop :=
  (stay.isRet = true → ras.attached stay = ras.attached stay.once) ∧
    ras.through stay.cycles = ras.through stay.once.cycles

theorem undisturbed_of_plain (noCall : stay.isCall = false)
    (noRet : stay.isRet = false) : ras.Undisturbed stay := by
  refine ⟨fun isRet => by simp [noRet] at isRet, ?_⟩
  rw [through_cycles, through_cycles, shown_plain noCall noRet]
  exact (shown_plain noCall noRet _).symm

theorem undisturbed_ret_iff (isRet : stay.isRet = true) (waited : stay.stalls ≠ 0) :
    ras.Undisturbed stay ↔ ras.sp = 0 := by
  have waits := shown_ret ras isRet stay.stalls
  have leaves := shown_ret ras isRet (stay.stalls + 1)
  have atOnce := shown_ret ras isRet 1
  constructor
  · rintro ⟨attached, same⟩
    by_contra notEmpty
    rw [through_cycles, through_cycles] at same
    have pointers := congrArg (fun ras => ras.sp.toNat) same
    change (ras.shown stay.data (stay.stalls + 1)).sp.toNat =
      (ras.shown stay.data 1).sp.toNat at pointers
    have notZero : ras.sp.toNat ≠ 0 := by
      intro zero
      exact notEmpty (BitVec.eq_of_toNat_eq zero)
    -- Only the pop of the last entry can be repeated, and then the return
    -- leaves without its prediction.
    have last : (ras.shown stay.data stay.stalls).sp = 0 := by
      apply BitVec.eq_of_toNat_eq
      change _ = 0 % 2 ^ ptrW
      rw [Nat.zero_mod]
      omega
    have hits := congrArg Prod.fst (attached isRet)
    simp only [Ras.attached, through_waits] at hits
    change Ras.hit (ras.shown stay.data stay.stalls) true stay.isRet =
      ras.hit true stay.isRet at hits
    rw [hit, hit, isRet, last] at hits
    apply notEmpty
    simpa using hits
  · intro empty
    have zero : ras.sp.toNat = 0 := by simp [empty]
    have shown_eq : ∀ cycles, ras.shown stay.data cycles = ras := by
      intro cycles
      obtain ⟨stack, sp⟩ := shown_ret ras isRet cycles
      rw [zero, Nat.zero_sub] at sp
      have sameSp : (ras.shown stay.data cycles).sp = ras.sp :=
        BitVec.eq_of_toNat_eq (sp.trans zero.symm)
      exact congrArg₂ Ras.mk stack sameSp
    refine ⟨fun _ => ?_, ?_⟩
    · simp only [Ras.attached, through_waits, shown_eq]
      exact congrArg (fun other => (hit other true stay.isRet, target other))
        (shown_eq 0).symm
    · rw [through_cycles, through_cycles, shown_eq]
      exact (shown_eq 1).symm

theorem ofNat_succ_eq_one_iff {n : Nat} :
    BitVec.ofNat ptrW (n + 1) = BitVec.ofNat ptrW 1 ↔ n % 2 ^ ptrW = 0 := by
  rw [BitVec.ofNat_add]
  constructor
  · intro same
    have zero : BitVec.ofNat ptrW n = BitVec.ofNat ptrW 0 := by
      simpa using congrArg (· - BitVec.ofNat ptrW 1) same
    simpa using congrArg BitVec.toNat zero
  · intro zero
    have noChange : BitVec.ofNat ptrW n = BitVec.ofNat ptrW 0 := by
      apply BitVec.eq_of_toNat_eq
      simpa using zero
    rw [noChange, BitVec.zero_add]

theorem undisturbed_call_iff (isCall : stay.isCall = true)
    (waited : stay.stalls ≠ 0) :
    ras.Undisturbed stay ↔ stay.stalls % 2 ^ ptrW = 0 ∧
      ∀ slot, slot ≠ ras.sp → ras.stack slot = stay.data.pc + 4 := by
  have noRet : stay.isRet = false := noRet_of_call isCall
  obtain ⟨sp, stack⟩ := shown_call ras isCall (stay.stalls + 1)
  obtain ⟨spOnce, stackOnce⟩ := shown_call ras isCall 1
  have size : 0 < 2 ^ ptrW := Nat.two_pow_pos ptrW
  have alone : ∀ slot, slot ≠ ras.sp → (slot - ras.sp).toNat ≠ 0 := by
    intro slot other zero
    apply other
    rw [← BitVec.sub_add_cancel slot ras.sp,
      (BitVec.eq_of_toNat_eq (by simpa) : slot - ras.sp = BitVec.ofNat ptrW 0),
      BitVec.zero_add]
  constructor
  · rintro ⟨-, same⟩
    rw [through_cycles, through_cycles] at same
    change ras.shown stay.data (stay.stalls + 1) = ras.shown stay.data 1
      at same
    rw [same] at sp stack
    rw [sp, BitVec.add_right_inj] at spOnce
    have round := ofNat_succ_eq_one_iff.mp spOnce
    refine ⟨round, ?_⟩
    intro slot other
    have around : (slot - ras.sp).toNat < stay.stalls + 1 := by
      have inRange := (slot - ras.sp).isLt
      have atLeast := Nat.le_of_dvd (by omega) (Nat.dvd_of_mod_eq_zero round)
      omega
    have pushed := stack slot
    have kept := stackOnce slot
    rw [if_pos around] at pushed
    have far : ¬ (slot - ras.sp).toNat < 1 := by
      have := alone slot other
      omega
    rw [if_neg far] at kept
    exact kept.symm.trans pushed
  · rintro ⟨round, full⟩
    refine ⟨fun isRet => by simp [noRet] at isRet, ?_⟩
    rw [through_cycles, through_cycles]
    change ras.shown stay.data (stay.stalls + 1) = ras.shown stay.data 1
    have sameSp : (ras.shown stay.data (stay.stalls + 1)).sp =
        (ras.shown stay.data 1).sp := by
      rw [sp, spOnce, ofNat_succ_eq_one_iff.mpr round]
    have sameStack : (ras.shown stay.data (stay.stalls + 1)).stack =
        (ras.shown stay.data 1).stack := by
      funext slot
      rw [stack, stackOnce]
      by_cases here : slot = ras.sp
      · simp [here]
      · have far := alone slot here
        rw [if_neg (by omega : ¬ (slot - ras.sp).toNat < 1), full slot here,
          ite_self]
    exact congrArg₂ Ras.mk sameStack sameSp

/-- Where waiting does no harm, and only there, an instruction leaves the
stack and the prediction of one cycle in ID. -/
theorem undisturbed_iff : ras.Undisturbed stay ↔ ras.Harmless stay := by
  by_cases waited : stay.stalls = 0
  · have same : ras.Undisturbed stay := by
      refine ⟨fun _ => ?_, ?_⟩
      · simp only [Ras.attached, through_waits, waited]
        rfl
      · rw [through_cycles, through_cycles, waited]
        rfl
    exact iff_of_true same (Or.inl waited)
  · simp only [Harmless, waited, false_or]
    cases isCall : stay.isCall with
    | true =>
        have noRet : stay.isRet = false := noRet_of_call isCall
        simp [undisturbed_call_iff isCall waited, noRet]
    | false =>
        cases isRet : stay.isRet with
        | true =>
            simp [undisturbed_ret_iff isRet waited]
        | false =>
            simp [undisturbed_of_plain isCall isRet]

end Kinds

theorem flatMap_append_singleton {α : Type} (done : List Stay) (last : Stay)
    (cycles : Stay → List α) :
    (done ++ [last]).flatMap cycles = done.flatMap cycles ++ cycles last := by
  rw [List.flatMap_append, List.flatMap_singleton]

/-- In every run without a flush, calls and returns leave the same stack and
the same predictions as if each were in ID for one cycle, exactly if none of
them waits there but where this does no harm. -/
theorem insensitive_iff (ras : Ras ptrW) (stays : List Stay) :
    ras.Insensitive stays ↔
      ∀ done stay rest, stays = done ++ stay :: rest →
        (ras.through (done.flatMap fun stay => stay.once.cycles)).Harmless
          stay := by
  have regroup : ∀ (done : List Stay) last rest,
      (done ++ [last]) ++ rest = done ++ last :: rest := by
    intro done last rest
    rw [List.append_assoc, List.singleton_append]
  constructor
  · intro insensitive
    -- Both runs agree behind every instruction, so each one is compared from
    -- the same stack.
    have agree : ∀ done rest, stays = done ++ rest →
        ras.through (done.flatMap Stay.cycles) =
          ras.through (done.flatMap fun stay => stay.once.cycles) := by
      intro done
      induction done using List.reverseRecOn with
      | nil =>
          intro _ _
          rfl
      | append_singleton done last inductionHypothesis =>
          intro rest split
          rw [flatMap_append_singleton, flatMap_append_singleton,
            through_append, through_append]
          exact (insensitive done last rest (split.trans (regroup ..))).2
    intro done stay rest split
    have local' := insensitive done stay rest split
    rw [agree done (stay :: rest) split] at local'
    exact undisturbed_iff.mp local'
  · intro harmless
    have agree : ∀ done rest, stays = done ++ rest →
        ras.through (done.flatMap Stay.cycles) =
          ras.through (done.flatMap fun stay => stay.once.cycles) := by
      intro done
      induction done using List.reverseRecOn with
      | nil =>
          intro _ _
          rfl
      | append_singleton done last inductionHypothesis =>
          intro rest split
          rw [flatMap_append_singleton, flatMap_append_singleton,
            through_append, through_append,
            inductionHypothesis (last :: rest) (split.trans (regroup ..))]
          exact (undisturbed_iff.mpr
            (harmless done last rest (split.trans (regroup ..)))).2
    intro done stay rest split
    rw [agree done (stay :: rest) split]
    exact undisturbed_iff.mpr (harmless done stay rest split)

/-- A `jal x1` that waits for one cycle. -/
def waitingCall : Stay where
  bubbles := []
  data := { pc := 0x80000000, inst := 0x008000ef }
  stalls := 1

/-- It pushes its return address twice. -/
theorem waitingCall_notInsensitive :
    ¬ ∀ (ptrW : Nat) (ras : Ras ptrW) (stays : List Stay),
      ras.Insensitive stays := by
  intro claimed
  let empty : Ras 3 := { stack := fun _ => 0, sp := 0 }
  obtain ⟨_, same⟩ := claimed 3 empty [waitingCall] [] waitingCall [] rfl
  have pointers := congrArg Ras.sp same
  revert pointers
  decide

end Waiting

end Ras

/-- What IF/ID shows from cycle `start` on. -/
def Core.idCycles {platform : Platform} (inputs : Nat → AxiIn)
    (core : Core platform) (start count : Nat) : List (Pipcon IfIdData) :=
  (List.range count).map fun cycle => (core.run inputs (start + cycle)).ifId

/-- Between two flushes the stack of the core sees what IF/ID shows. -/
theorem Core.run_ras {platform : Platform} (inputs : Nat → AxiIn)
    (core : Core platform) (start count : Nat)
    (noFlush : ∀ cycle, cycle < count →
      (core.run inputs (start + cycle)).jumpReq = false) :
    (core.run inputs (start + count)).ras =
      (core.run inputs start).ras.through
        (core.idCycles inputs start count) := by
  induction count with
  | zero =>
      rfl
  | succ count inductionHypothesis =>
      have earlier := inductionHypothesis fun cycle before =>
        noFlush cycle (Nat.lt_succ_of_lt before)
      rw [idCycles, List.range_succ, List.map_append, Ras.through_append]
      change (Core.step _ (core.run inputs (start + count))).ras =
        Ras.step (Ras.through _ (core.idCycles inputs start count)) _
      rw [← earlier, Ras.step, Core.step, noFlush count (Nat.lt_succ_self _)]
      rfl

end Ysyx.Rtl
