import Ysyx.Nemu.Mmio

/-!
# Regions of memory

`paddr_read`, `paddr_write`, `map_read` and `map_write` down to the bytes of
the host that they touch, and the region that has accepted the address.
-/

namespace Ysyx.Nemu

/-! ## Accesses of the host -/

def HostPtr.bytes (ptr : HostPtr) (len : Nat) : List HostPtr :=
  (List.range len).map ptr.add

/-- The lengths of `host_read` and `host_write`; other ones do nothing. -/
def knownLen (len : Nat) : Bool := len = 1 ∨ len = 2 ∨ len = 4

/-- `host_read`, and the bytes that it reads. -/
def Host.read (host : Host) (ptr : HostPtr) (len : Nat) :
    Word × List HostPtr :=
  if knownLen len then
    ((ptr.bytes len).foldr
      (fun byte word => word <<< 8 ||| (host byte).setWidth 32) 0,
      ptr.bytes len)
  else (0, [])

/-- `host_write`, and the bytes that it writes. -/
def Host.write (host : Host) (ptr : HostPtr) (len : Nat) (data : Word) :
    Host × List HostPtr :=
  if knownLen len then
    (fun target =>
      if target ∈ ptr.bytes len then
        data.extractLsb' (8 * (target.offset - ptr.offset)) 8
      else host target,
      ptr.bytes len)
  else (host, [])

/-- What is read comes from the touched bytes. -/
theorem read_congr {host other : Host} {ptr : HostPtr} {len : Nat}
    (same : ∀ byte ∈ (host.read ptr len).2, host byte = other byte) :
    host.read ptr len = other.read ptr len := by
  rw [Host.read, Host.read] at *
  split at same
  · rw [if_pos ‹_›, if_pos ‹_›]
    congr 1
    exact List.foldr_ext _ _ _ fun byte isByte word => by rw [same byte isByte]
  · rw [if_neg ‹_›, if_neg ‹_›]

/-- All other bytes stay as they are. -/
theorem write_of_untouched {host : Host} {ptr target : HostPtr} {len : Nat}
    {data : Word} (untouched : target ∉ (host.write ptr len data).2) :
    (host.write ptr len data).1 target = host target := by
  rw [Host.write] at *
  split at untouched
  · rw [if_pos ‹_›]
    exact if_neg untouched
  · rw [if_neg ‹_›]

/-! ## Physical memory -/

def CONFIG_MROM_BASE : Word := 0x20000000
def CONFIG_MROM_SIZE : Word := 0x00001000
def CONFIG_FLASH_BASE : Word := 0x30000000
def CONFIG_FLASH_SIZE : Word := 0x10000000
def CONFIG_SRAM_BASE : Word := 0x0f000000
def CONFIG_SRAM_SIZE : Word := 0x00002000
def CONFIG_PSRAM_BASE : Word := 0x80000000
def CONFIG_PSRAM_SIZE : Word := 0x00400000
def CONFIG_SDRAM_BASE : Word := 0xa0000000
def CONFIG_SDRAM_SIZE : Word := 0x20000000

/-- The test of all the predicates but `in_pmem`. -/
def inRange (base size addr : Word) : Bool :=
  addr ≥ base ∧ addr < base + size

def inMrom : Word → Bool := inRange CONFIG_MROM_BASE CONFIG_MROM_SIZE
def inFlash : Word → Bool := inRange CONFIG_FLASH_BASE CONFIG_FLASH_SIZE
def inSram : Word → Bool := inRange CONFIG_SRAM_BASE CONFIG_SRAM_SIZE
def inPsram : Word → Bool := inRange CONFIG_PSRAM_BASE CONFIG_PSRAM_SIZE
def inSdram : Word → Bool := inRange CONFIG_SDRAM_BASE CONFIG_SDRAM_SIZE

/-- `array + paddr - base`. -/
def hostPtr (array : HostArray) (base paddr : Word) : HostPtr :=
  ⟨array, paddr.toNat - base.toNat⟩

/-- `guest_to_host`; `none` is the assertion at its end. -/
def guestToHost (paddr : Word) : Option HostPtr :=
  if inPmem paddr then some (hostPtr .pmem CONFIG_MBASE paddr)
  else if inMrom paddr then some (hostPtr .mrom CONFIG_MROM_BASE paddr)
  else if inFlash paddr then some (hostPtr .flash CONFIG_FLASH_BASE paddr)
  else if inSram paddr then some (hostPtr .sram CONFIG_SRAM_BASE paddr)
  else if inPsram paddr then some (hostPtr .psram CONFIG_PSRAM_BASE paddr)
  else if inSdram paddr then some (hostPtr .sdram CONFIG_SDRAM_BASE paddr)
  else none

/-- The branches of the preprocessor: `CONFIG_NPC` with `CONFIG_SYS_SOC` or
with `CONFIG_SYS_NPC`, `CONFIG_TARGET_SHARE`, `YSYXSOC_ON_NEMU`, and the rest. -/
inductive Build where
  | npcSoc
  | npcNpc
  | share
  | ysyxsoc
  | plain
  deriving DecidableEq, Repr

/-- The test of `paddr_read`. -/
def readable (build : Build) (addr : Word) : Bool :=
  match build with
  | .npcSoc | .share | .ysyxsoc =>
      inPmem addr || inMrom addr || inSram addr || inFlash addr ||
        inPsram addr || inSdram addr
  | .npcNpc | .plain => inPmem addr

/-- The test of `paddr_write`. -/
def writable (build : Build) (addr : Word) : Bool :=
  match build with
  | .npcSoc | .share | .ysyxsoc =>
      inPmem addr || inSram addr || inPsram addr || inSdram addr
  | .npcNpc | .plain => inPmem addr

/-- What an access that returns gives, and the bytes of the host that it
touches itself; a callback may touch more. -/
structure Done (α : Type) where
  result : α
  host : Host
  touched : List HostPtr

def pmemRead (host : Host) (addr : Word) (len : Nat) : Option (Done Word) :=
  (guestToHost addr).map fun ptr =>
    let (ret, touched) := host.read ptr len
    ⟨ret, host, touched⟩

def pmemWrite (host : Host) (addr : Word) (len : Nat) (data : Word) :
    Option (Done Unit) :=
  (guestToHost addr).map fun ptr =>
    let (host, touched) := host.write ptr len data
    ⟨(), host, touched⟩

/-! ## Devices -/

/-- `check_bound`. -/
def checkBound (map : IOMap) (addr : Word) : Bool :=
  addr ≤ map.high ∧ addr ≥ map.low

/-- `invoke_callback`. -/
def invokeCallback (map : IOMap) (offset : Word) (len : Nat) (isWrite : Bool)
    (host : Host) : Option Host :=
  match map.callback with
  | some callback => callback offset len isWrite host
  | none => some host

/-- `map_read`; `none` is an assertion or a callback that does not return. -/
def mapRead (host : Host) (addr : Word) (len : Nat) (map : Option IOMap) :
    Option (Done Word) :=
  if ¬(1 ≤ len ∧ len ≤ 8) then none
  else
    match map with
    | none => none
    | some map =>
        if ¬checkBound map addr then none
        else
          let offset := addr - map.low
          (invokeCallback map offset len false host).map fun host =>
            let (ret, touched) := host.read (map.space.add offset.toNat) len
            ⟨ret, host, touched⟩

/-- `map_write`. -/
def mapWrite (host : Host) (addr : Word) (len : Nat) (data : Word)
    (map : Option IOMap) : Option (Done Unit) :=
  if ¬(1 ≤ len ∧ len ≤ 8) then none
  else
    match map with
    | none => none
    | some map =>
        if ¬checkBound map addr then none
        else
          let offset := addr - map.low
          let (host, touched) :=
            host.write (map.space.add offset.toNat) len data
          (invokeCallback map offset len true host).map fun host =>
            ⟨(), host, touched⟩

/-- The build, whether it has devices, and their maps. -/
structure Target where
  build : Build
  device : Bool
  maps : List IOMap

/-- `paddr_read`; `none` does not return. -/
def Target.paddrRead (target : Target) (host : Host) (addr : Word)
    (len : Nat) : Option (Done Word) :=
  if readable target.build addr then pmemRead host addr len
  else if target.device then
    mapRead host addr len (fetchMmioMap target.maps addr)
  else none

/-- `paddr_write`. -/
def Target.paddrWrite (target : Target) (host : Host) (addr : Word)
    (len : Nat) (data : Word) : Option (Done Unit) :=
  if writable target.build addr then pmemWrite host addr len data
  else if target.device then
    mapWrite host addr len data (fetchMmioMap target.maps addr)
  else none

/-! ## Regions -/

/-- Guest addresses and the host memory behind them. -/
structure Region where
  base : Nat
  size : Nat
  start : HostPtr
  deriving DecidableEq, Repr

namespace Region

def Has (region : Region) (addr : Word) : Bool :=
  region.base ≤ addr.toNat ∧ addr.toNat < region.base + region.size

/-- The byte belongs to the host memory of the region. -/
def Contains (region : Region) (byte : HostPtr) : Prop :=
  byte.array = region.start.array ∧ region.start.offset ≤ byte.offset ∧
    byte.offset < region.start.offset + region.size

/-- An access that starts at the address ends in the region. -/
def Holds (region : Region) (addr : Word) (len : Nat) : Prop :=
  addr.toNat + len ≤ region.base + region.size

instance (region : Region) (addr : Word) (len : Nat) :
    Decidable (region.Holds addr len) :=
  inferInstanceAs (Decidable (_ ≤ _))

def ptr (region : Region) (addr : Word) : HostPtr :=
  region.start.add (addr.toNat - region.base)

end Region

def IOMap.region (map : IOMap) : Region :=
  ⟨map.low.toNat, map.high.toNat + 1 - map.low.toNat, map.space⟩

/-- The region that accepts the address, if there is one, holds the whole
access. -/
def Fits (accepted : Option Region) (addr : Word) (len : Nat) : Prop :=
  ∀ region, accepted = some region → region.Holds addr len

section Confined

variable {accepted : Option Region} {region : Region} {addr : Word} {len : Nat}

end Confined

/-! ## The regions of the code -/

section Touched

variable {len : Nat} (known : knownLen len = true) (host : Host) (addr : Word)
variable (data : Word)

end Touched

end Ysyx.Nemu
