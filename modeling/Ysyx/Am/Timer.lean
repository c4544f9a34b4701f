import Ysyx.Memory.Exclusion

/-!
# The uptime of the timer device

`__am_timer_uptime` on the NPC: two loads from the CLINT, which the bus
answers from the running `mtime`.
-/

namespace Ysyx.Am

open Rtl

/-- The value of `uptime->us`. -/
def timerUptime (highPart lowPart : Word) : BitVec 64 :=
  (highPart.setWidth 64 <<< 32) ||| lowPart.setWidth 64

/-- `RTC_ADDR`. -/
def RTC_ADDR : Word := 0xa0000000 + 0x48

section Call

variable (inputs : Nat → Bus.In × AxiIn) (bus : Bus)

/-- The bus of the NPC, `cycle` cycles after the start of the call. -/
def busAt (cycle : Nat) : Bus :=
  Machine.run (Bus.step .npc) inputs bus cycle

def mtimeAt (cycle : Nat) : BitVec 64 := (busAt inputs bus cycle).clint.mtime

/-- `inl(addr)`: the bus accepts the read in one cycle, and in a later one the
LSU takes the data. -/
structure Inl (addr : Word) where
  accepted : Nat
  taken : Nat
  later : accepted < taken
  idle : (busAt inputs bus accepted).lsuArready = true
  asks : (inputs accepted).1.lsuArvalid = true
  address : (inputs accepted).1.lsuAraddr = addr
  waits : ∀ cycle, accepted < cycle → cycle < taken →
    (inputs cycle).1.lsuRready = false
  takes : (inputs taken).1.lsuRready = true

/-- The data that the LSU takes. -/
def Inl.data {addr : Word} (load : Inl inputs bus addr) : Word :=
  (busAt inputs bus load.taken).read.lsuRdataReg

/-- A call of `__am_timer_uptime`, from cycle 0 to `finish`. -/
structure UptimeCall where
  highPart : Inl inputs bus (RTC_ADDR + 4)
  lowPart : Inl inputs bus RTC_ADDR
  inOrder : highPart.taken < lowPart.accepted
  finish : Nat
  returns : lowPart.taken ≤ finish

variable {inputs bus}

def UptimeCall.us (call : UptimeCall inputs bus) : BitVec 64 :=
  timerUptime call.highPart.data call.lowPart.data

/-! ## The loads -/

theorem mtimeAt_eq (cycle : Nat) :
    mtimeAt inputs bus cycle = bus.clint.mtime + BitVec.ofNat 64 cycle := by
  induction cycle with
  | zero =>
      exact (BitVec.add_zero _).symm
  | succ cycle inductionHypothesis =>
      change mtimeAt inputs bus cycle + 1 = _
      rw [inductionHypothesis, BitVec.add_assoc, BitVec.ofNat_add]
      rfl

/-- The low half of `mtime`, `cycle` cycles after the start of the call. -/
def lowHalf (bus : Bus) (cycle : Nat) : Nat :=
  (bus.clint.mtime.toNat + cycle) % 2 ^ 32

theorem Inl.answered {addr : Word} (load : Inl inputs bus addr)
    (isClint : Bus.clintEn .npc addr = true) (cycle : Nat)
    (after : load.accepted + 1 ≤ cycle) (before : cycle ≤ load.taken) :
    (busAt inputs bus cycle).read =
      { (busAt inputs bus load.accepted).read with
        lsuRdataReg :=
          (busAt inputs bus load.accepted).clint.rdata RTC_ADDR addr
        lsuRrespReg := 0
        lsuRvalidReg := true
        stateLoad := .lsuDone } := by
  induction cycle, after using Nat.le_induction with
  | base =>
      have idle := load.idle
      simp only [Bus.lsuArready, Bus.busReadIdle, Bus.busWriteIdle,
        Bool.and_eq_true, beq_iff_eq] at idle
      change Bus.nextRead _ (busAt inputs bus load.accepted) _ _ = _
      simp only [Bus.nextRead, idle.1, Bus.busWriteIdle, idle.2, load.asks,
        load.address, isClint, beq_self_eq_true, and_self, if_true]
      rfl
  | succ cycle after inductionHypothesis =>
      have done := inductionHypothesis (by omega)
      have notTaken := load.waits cycle after before
      change Bus.nextRead _ (busAt inputs bus cycle) _ _ = _
      simp only [Bus.nextRead, done, notTaken]
      simp

theorem Inl.data_eq {addr : Word} (load : Inl inputs bus addr)
    (isClint : Bus.clintEn .npc addr = true) :
    load.data =
      (busAt inputs bus load.accepted).clint.rdata RTC_ADDR addr := by
  rw [Inl.data, load.answered isClint load.taken load.later (Nat.le_refl _)]

theorem toNat_mtimeAt (cycle : Nat) :
    (mtimeAt inputs bus cycle).toNat =
      (bus.clint.mtime.toNat + cycle) % 2 ^ 64 := by
  rw [mtimeAt_eq, BitVec.toNat_add, BitVec.toNat_ofNat, Nat.add_mod_mod]

theorem toNat_timerUptime (highPart lowPart : Word) :
    (timerUptime highPart lowPart).toNat =
      highPart.toNat * 2 ^ 32 + lowPart.toNat := by
  have inRange := highPart.isLt
  rw [timerUptime, BitVec.toNat_or, BitVec.toNat_shiftLeft,
    BitVec.toNat_setWidth, BitVec.toNat_setWidth,
    Nat.mod_eq_of_lt (show lowPart.toNat < 2 ^ 64 by omega),
    Nat.mod_eq_of_lt (show highPart.toNat < 2 ^ 64 by omega),
    Nat.mod_eq_of_lt (by rw [Nat.shiftLeft_eq]; omega),
    ← Nat.shiftLeft_add_eq_or_of_lt lowPart.isLt, Nat.shiftLeft_eq]

/-- The assembled value is the counter at the first load, with the low half
that the second load finds. -/
theorem UptimeCall.toNat_us (call : UptimeCall inputs bus) :
    call.us.toNat + lowHalf bus call.highPart.accepted =
      (mtimeAt inputs bus call.highPart.accepted).toNat +
        lowHalf bus call.lowPart.accepted := by
  have highData : call.highPart.data.toNat =
      (mtimeAt inputs bus call.highPart.accepted).toNat / 2 ^ 32 := by
    rw [call.highPart.data_eq (by decide)]
    simp [Clint.rdata, RTC_ADDR, mtimeAt, Nat.shiftRight_eq_div_pow]
    omega
  have lowData : call.lowPart.data.toNat =
      (mtimeAt inputs bus call.lowPart.accepted).toNat % 2 ^ 32 := by
    rw [call.lowPart.data_eq (by decide)]
    simp [Clint.rdata, RTC_ADDR, mtimeAt]
  rw [us, toNat_timerUptime, highData, lowData, toNat_mtimeAt, toNat_mtimeAt,
    lowHalf, lowHalf]
  omega

/-! ## Where the value lies -/

/-- The low half has not fallen, between the two loads, by more than the
cycles before the first one; or the call takes almost `2 ^ 64` cycles. -/
def UptimeCall.NoRollover (call : UptimeCall inputs bus) : Prop :=
  lowHalf bus call.highPart.accepted ≤
      call.highPart.accepted + lowHalf bus call.lowPart.accepted ∨
    2 ^ 64 + call.highPart.accepted + lowHalf bus call.lowPart.accepted ≤
      lowHalf bus call.highPart.accepted + call.finish

/-- The counter has the assembled value at some moment of the call exactly if
its low half does not roll over between the two loads; and where the counter
does not reach its end in the call, this means that the value lies between the
one at the start and the one at the end. -/
theorem uptime_between_iff (call : UptimeCall inputs bus) :
    ((∃ moment, moment ≤ call.finish ∧
        call.us = mtimeAt inputs bus moment) ↔ call.NoRollover) ∧
      (bus.clint.mtime.toNat + call.finish < 2 ^ 64 →
        (mtimeAt inputs bus 0 ≤ call.us ∧
          call.us ≤ mtimeAt inputs bus call.finish ↔ call.NoRollover)) := by
  have value := call.toNat_us
  have order := call.inOrder
  have highLater := call.highPart.later
  have lowLater := call.lowPart.later
  have returns := call.returns
  have inRange := bus.clint.mtime.isLt
  refine ⟨⟨?_, ?_⟩, ?_⟩
  · rintro ⟨moment, within, same⟩
    rw [same] at value
    simp only [toNat_mtimeAt, lowHalf, UptimeCall.NoRollover] at value ⊢
    omega
  · have reached : ∀ moment,
        (mtimeAt inputs bus moment).toNat = call.us.toNat →
        call.us = mtimeAt inputs bus moment :=
      fun _ same => BitVec.eq_of_toNat_eq same.symm
    simp only [toNat_mtimeAt, lowHalf, UptimeCall.NoRollover] at *
    rintro (inStep | round)
    · refine ⟨call.highPart.accepted + lowHalf bus call.lowPart.accepted -
        lowHalf bus call.highPart.accepted, ?_, reached _ ?_⟩ <;>
        simp only [lowHalf] <;> omega
    · refine ⟨2 ^ 64 + call.highPart.accepted +
        lowHalf bus call.lowPart.accepted -
        lowHalf bus call.highPart.accepted, ?_, reached _ ?_⟩ <;>
        simp only [lowHalf] <;> omega
  · intro noOverflow
    rw [BitVec.le_def, BitVec.le_def]
    simp only [toNat_mtimeAt, lowHalf, UptimeCall.NoRollover] at value ⊢
    omega

end Call

/-! ## A rollover between the loads -/

/-- The low half of the counter is about to roll over. -/
def fullBus : Bus :=
  { Bus.zeroed with clint := { mtime := 0xffffffff, rvalid := false } }

/-- Two loads, one right after the other. -/
def twoLoads (cycle : Nat) : Bus.In × AxiIn :=
  ({ ifuArvalid := false, ifuAraddr := 0, ifuArlen := 0
     lsuArvalid := cycle = 0 ∨ cycle = 2
     lsuAraddr := if cycle = 0 then RTC_ADDR + 4 else RTC_ADDR
     lsuRready := cycle = 1 ∨ cycle = 3
     lsuAwvalid := false, lsuAwaddr := 0, lsuWvalid := false, lsuWdata := 0
     lsuWstrb := 0, lsuBready := false }, {})

def rolloverCall : UptimeCall twoLoads fullBus where
  highPart :=
    { accepted := 0, taken := 1, later := by decide, idle := rfl
      asks := rfl, address := rfl, takes := rfl
      waits := fun _ after before => by omega }
  lowPart :=
    { accepted := 2, taken := 3, later := by decide, idle := rfl
      asks := rfl, address := rfl, takes := rfl
      waits := fun _ after before => by omega }
  inOrder := by decide
  finish := 3
  returns := by decide

/-- The high half comes from before the rollover and the low half from after
it. -/
theorem rolloverCall_goesBack :
    ¬ ∀ (inputs : Nat → Bus.In × AxiIn) (bus : Bus)
      (call : UptimeCall inputs bus),
      mtimeAt inputs bus 0 ≤ call.us ∧
        call.us ≤ mtimeAt inputs bus call.finish := by
  intro claimed
  have lower := (claimed twoLoads fullBus rolloverCall).1
  revert lower
  decide +kernel

end Ysyx.Am
