import Mathlib.Data.BitVec

/-!
# A memory behind an AXI port

The five channels of a single-master AXI port and a slave that serves them
from a byte memory.  Every delay of the slave, and the moment at which it
samples each beat of a read burst, is a free choice made anew in every cycle.
-/

namespace Axi

/-- The slave-to-master signals of one cycle. -/
structure MasterIn where
  arready : Bool := false
  rdata : BitVec 32 := 0
  rresp : BitVec 2 := 0
  rvalid : Bool := false
  rlast : Bool := false
  awready : Bool := false
  wready : Bool := false
  bresp : BitVec 2 := 0
  bvalid : Bool := false
  deriving DecidableEq, Repr

/-- The master-to-slave signals of one cycle. -/
structure MasterOut where
  araddr : BitVec 32
  arlen : BitVec 8
  arvalid : Bool
  rready : Bool
  awaddr : BitVec 32
  awvalid : Bool
  wdata : BitVec 32
  wstrb : BitVec 4
  wvalid : Bool
  wlast : Bool
  bready : Bool
  deriving DecidableEq, Repr

/-! ## Byte memory -/

/-- A byte-addressed memory. -/
abbrev Bytes := BitVec 32 → BitVec 8

namespace Bytes

/-- The aligned address of the word that holds `addr`. -/
def align (addr : BitVec 32) : BitVec 32 := addr &&& ~~~3#32

theorem toNat_align (addr : BitVec 32) :
    (align addr).toNat = addr.toNat / 4 * 4 := by
  have shifted : align addr = (addr >>> 2) <<< 2 := by
    apply BitVec.eq_of_getLsbD_eq
    intro k inWord
    have mask : (3#32).getLsbD k = decide (k < 2) :=
      Nat.testBit_two_pow_sub_one 2 k
    rw [align, BitVec.getLsbD_and, BitVec.getLsbD_not, mask,
      BitVec.getLsbD_shiftLeft, BitVec.getLsbD_ushiftRight]
    by_cases low : k < 2
    · simp [low]
    · have position : 2 + (k - 2) = k := by omega
      simp [low, position, inWord]
  rw [shifted, BitVec.toNat_shiftLeft, BitVec.toNat_ushiftRight,
    Nat.shiftLeft_eq, Nat.shiftRight_eq_div_pow]
  omega

/-- The aligned little-endian word that holds `addr`. -/
def word (bytes : Bytes) (addr : BitVec 32) : BitVec 32 :=
  bytes (align addr + 3) ++ bytes (align addr + 2) ++
    bytes (align addr + 1) ++ bytes (align addr)

theorem align_align (addr : BitVec 32) : align (align addr) = align addr := by
  apply BitVec.eq_of_toNat_eq
  rw [toNat_align, toNat_align]
  omega

theorem word_align (bytes : Bytes) (addr : BitVec 32) :
    bytes.word (align addr) = bytes.word addr := by
  rw [word, align_align]
  rfl

/-- Write the strobed byte lanes of the word that holds `addr`. -/
def write (bytes : Bytes) (addr data : BitVec 32) (strb : BitVec 4) :
    Bytes :=
  fun target =>
    let lane := target.toNat % 4
    if align target = align addr ∧ strb.getLsbD lane then
      data.extractLsb' (8 * lane) 8
    else
      bytes target

/-- A memory given by its nonzero aligned words. -/
def ofWords (words : List (BitVec 32 × BitVec 32)) : Bytes :=
  fun target =>
    match words.lookup (align target) with
    | some data => data.extractLsb' (8 * (target.toNat % 4)) 8
    | none => 0

end Bytes

/-! ## The slave -/

/-- An accepted read burst: the beats already delivered and the values
sampled for the beats. -/
structure Burst where
  addr : BitVec 32
  len : BitVec 8
  beat : Nat
  sampled : Nat → Option (BitVec 32)

namespace Burst

/-- The address of one beat of an incrementing burst. -/
def beatAddr (burst : Burst) (index : Nat) : BitVec 32 :=
  burst.addr + BitVec.ofNat 32 (4 * index)

def isLast (burst : Burst) : Bool := burst.beat == burst.len.toNat

/-- Sample the chosen beats from the memory. -/
def sample (burst : Burst) (bytes : Bytes) (chosen : Nat → Bool) : Burst :=
  { burst with
    sampled := fun index =>
      if chosen index then some (bytes.word (burst.beatAddr index))
      else burst.sampled index }

end Burst

/-- The state of the slave: its memory, the read burst and the write in
progress. -/
structure Memory where
  bytes : Bytes
  burst : Option Burst := none
  awaddr : Option (BitVec 32) := none
  wdata : Option (BitVec 32 × BitVec 4) := none
  performed : Bool := false

/-- What the slave is willing to do in one cycle. -/
structure Choice where
  arready : Bool
  sample : Nat → Bool
  rvalid : Bool
  awready : Bool
  wready : Bool
  perform : Bool
  bvalid : Bool

/-- A slave that does everything as early as it can. -/
def Choice.prompt : Choice where
  arready := true
  sample := fun _ => true
  rvalid := true
  awready := true
  wready := true
  perform := true
  bvalid := true

/-- A prompt slave that delivers no read beat from cycle `first` on and
before cycle `last`. -/
def Choice.lateRead (first last cycle : Nat) : Choice :=
  { prompt with rvalid := !(first ≤ cycle && cycle < last) }

namespace Memory

/-- The value the slave can deliver for the current beat. -/
def ready (memory : Memory) : Option (BitVec 32) :=
  memory.burst.bind fun burst => burst.sampled burst.beat

/-- The signals the slave drives. -/
def drive (memory : Memory) (choice : Choice) : MasterIn where
  arready := choice.arready && memory.burst.isNone
  rdata := memory.ready.getD 0
  rresp := 0
  rvalid := choice.rvalid && memory.ready.isSome
  rlast := (memory.burst.map Burst.isLast).getD false
  awready := choice.awready && memory.awaddr.isNone
  wready := choice.wready && memory.wdata.isNone
  bresp := 0
  bvalid := choice.bvalid && memory.performed

/-- The read channels after one cycle. -/
def nextBurst (memory : Memory) (choice : Choice) (out : MasterOut) :
    Option Burst :=
  match memory.burst with
  | none =>
      if out.arvalid ∧ choice.arready then
        some (Burst.sample ⟨out.araddr, out.arlen, 0, fun _ => none⟩
          memory.bytes choice.sample)
      else
        none
  | some burst =>
      let burst := burst.sample memory.bytes choice.sample
      if (memory.drive choice).rvalid ∧ out.rready then
        if burst.isLast then none
        else some { burst with beat := burst.beat + 1 }
      else
        some burst

/-- The write request that is complete and not yet performed. -/
def request (memory : Memory) :
    Option (BitVec 32 × BitVec 32 × BitVec 4) :=
  if memory.performed then none
  else
    match memory.awaddr, memory.wdata with
    | some addr, some (data, strb) => some (addr, data, strb)
    | _, _ => none

/-- The memory after one cycle. -/
def nextBytes (memory : Memory) (choice : Choice) : Bytes :=
  match memory.request with
  | some (addr, data, strb) =>
      if choice.perform then memory.bytes.write addr data strb
      else memory.bytes
  | none => memory.bytes

/-- The slave after one cycle. -/
def step (memory : Memory) (choice : Choice) (out : MasterOut) : Memory :=
  let answered := (memory.drive choice).bvalid ∧ out.bready
  { bytes := memory.nextBytes choice
    burst := memory.nextBurst choice out
    awaddr :=
      if answered then none
      else if out.awvalid ∧ (memory.drive choice).awready then
        some out.awaddr
      else memory.awaddr
    wdata :=
      if answered then none
      else if out.wvalid ∧ (memory.drive choice).wready then
        some (out.wdata, out.wstrb)
      else memory.wdata
    performed :=
      if answered then false
      else memory.performed || (memory.request.isSome && choice.perform) }

/-! ### The read channels -/

section Reads

variable {memory : Memory} {choice : Choice} {out : MasterOut}
  {burst : Burst}

theorem drive_of_none (idle : memory.burst = none) :
    (memory.drive choice).arready = choice.arready ∧
      (memory.drive choice).rvalid = false := by
  simp [drive, ready, idle]

theorem drive_of_some (held : memory.burst = some burst) :
    (memory.drive choice).arready = false ∧
      (memory.drive choice).rlast = burst.isLast := by
  simp [drive, held]

theorem sampled_of_rvalid (held : memory.burst = some burst)
    (valid : (memory.drive choice).rvalid = true) :
    burst.sampled burst.beat = some (memory.drive choice).rdata := by
  simp only [drive, ready, held, Option.bind_some, Bool.and_eq_true,
    Option.isSome_iff_exists] at valid ⊢
  obtain ⟨_, data, sampled⟩ := valid
  simp [sampled]

theorem nextBurst_of_none (idle : memory.burst = none) :
    memory.nextBurst choice out =
      if out.arvalid ∧ (memory.drive choice).arready then
        some (Burst.sample ⟨out.araddr, out.arlen, 0, fun _ => none⟩
          memory.bytes choice.sample)
      else none := by
  rw [(drive_of_none idle).1]
  simp [nextBurst, idle]

theorem nextBurst_of_some (held : memory.burst = some burst) :
    memory.nextBurst choice out =
      if (memory.drive choice).rvalid ∧ out.rready then
        if (memory.drive choice).rlast then none
        else
          some { burst.sample memory.bytes choice.sample with
            beat := burst.beat + 1 }
      else some (burst.sample memory.bytes choice.sample) := by
  rw [(drive_of_some held).2]
  simp only [nextBurst, held]
  rfl

end Reads

end Memory

end Axi
