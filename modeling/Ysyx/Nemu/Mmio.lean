import Ysyx.Nemu.Paddr

/-!
# Memory-mapped devices

The table of maps that `add_mmio_map` fills and `fetch_mmio_map` searches, and
the host memory that the maps point into.
-/

namespace Ysyx.Nemu

/-! ## Host memory -/

/-- The arrays behind the guest memories, and `io_space` with the memories of
the devices.  Of `sram` there is a second one, `nemu_state.sram`, which takes
its place in the NPC build. -/
inductive HostArray where
  | pmem
  | mrom
  | flash
  | sram
  | psram
  | sdram
  | ioSpace
  deriving DecidableEq, Repr

/-- A pointer into an array, or past its end into what lies behind it. -/
structure HostPtr where
  array : HostArray
  offset : Nat
  deriving DecidableEq, Repr

def HostPtr.add (ptr : HostPtr) (offset : Nat) : HostPtr :=
  ⟨ptr.array, ptr.offset + offset⟩

abbrev Host := HostPtr → BitVec 8

/-! ## The maps -/

def NR_MAP : Nat := 16

/-- `IOMap`; a callback gets the offset, the length and whether it is a
write, and `none` is an assertion or a panic in it. -/
structure IOMap where
  name : List Char
  low : Word
  high : Word
  space : HostPtr
  callback : Option (Word → Nat → Bool → Host → Option Host)

/-- `map_inside`. -/
def mapInside (map : IOMap) (addr : Word) : Bool :=
  addr ≥ map.low ∧ addr ≤ map.high

/-- `find_mapid_by_addr` and `fetch_mmio_map`. -/
def fetchMmioMap (maps : List IOMap) (addr : Word) : Option IOMap :=
  maps.find? (mapInside · addr)

/-- The arguments of a call of `add_mmio_map`. -/
structure MapCall where
  name : List Char
  addr : Word
  space : HostPtr
  len : Word
  callback : Option (Word → Nat → Bool → Host → Option Host)

/-- The entry that a call makes. -/
def MapCall.map (call : MapCall) : IOMap :=
  ⟨call.name, call.addr, call.addr + call.len - 1, call.space, call.callback⟩

/-- The test for an overlap with an earlier map. -/
def overlaps (left right : Word) (map : IOMap) : Bool :=
  left ≤ map.high ∧ right ≥ map.low

/-- `add_mmio_map`; `none` is an assertion or `report_mmio_overlap`, neither of
which returns. -/
def addMmioMap (maps : List IOMap) (call : MapCall) : Option (List IOMap) :=
  if ¬maps.length < NR_MAP then none
  else
    let left := call.addr
    let right := call.addr + call.len - 1
    if inPmem left ∨ inPmem right then none
    else if maps.any (overlaps left right) then none
    else some (maps ++ [call.map])

/-- The calls one after the other. -/
def addMmioMaps (maps : List IOMap) : List MapCall → Option (List IOMap)
  | [] => some maps
  | call :: rest => (addMmioMap maps call).bind (addMmioMaps · rest)

/-! ## Disjoint maps -/

/-- No address belongs to two maps, or to a map and pmem, and no map wraps. -/
structure DisjointMaps (maps : List IOMap) : Prop where
  pairwise : maps.Pairwise fun first second =>
    ∀ addr, ¬(mapInside first addr = true ∧ mapInside second addr = true)
  shadowsNone : ∀ map ∈ maps, ∀ addr, mapInside map addr = true →
    inPmem addr = false
  increasing : ∀ map ∈ maps, map.low ≤ map.high

/-- The region of the call ends before the addresses do. -/
def MapCall.Fits (call : MapCall) : Prop :=
  call.addr.toNat + call.len.toNat ≤ 2 ^ 32

/-- The region of the call contains pmem and more on both sides. -/
def MapCall.Encloses (call : MapCall) : Prop :=
  call.addr < CONFIG_MBASE ∧
    CONFIG_MBASE.toNat + CONFIG_MSIZE.toNat <
      call.addr.toNat + call.len.toNat

section Calls

variable {maps after : List IOMap} {call : MapCall}

theorem addMmioMap_eq_some (returns : addMmioMap maps call = some after) :
    inPmem call.map.low = false ∧ inPmem call.map.high = false ∧
      (∀ map ∈ maps,
        overlaps call.map.low call.map.high map = false) ∧
      after = maps ++ [call.map] := by
  rw [addMmioMap] at returns
  split at returns
  · cases returns
  · simp only at returns
    split at returns
    · cases returns
    · rename_i outside
      split at returns
      · cases returns
      · rename_i free
        rw [not_or] at outside
        refine ⟨Bool.eq_false_iff.mpr outside.1,
          Bool.eq_false_iff.mpr outside.2, fun map isMap => ?_,
          (Option.some.inj returns).symm⟩
        rw [Bool.eq_false_iff]
        intro overlap
        exact free (List.any_eq_true.mpr ⟨map, isMap, overlap⟩)

@[simp] theorem MapCall.map_low (call : MapCall) :
    call.map.low = call.addr := rfl

theorem addMmioMaps_cons {rest : List MapCall}
    (returns : addMmioMaps maps (call :: rest) = some after) :
    ∃ between, addMmioMap maps call = some between ∧
      addMmioMaps between rest = some after := by
  rwa [addMmioMaps, Option.bind_eq_some_iff] at returns

/-- Maps with a common address overlap at their ends. -/
theorem overlaps_of_common {map : IOMap} {addr : Word}
    (first : mapInside call.map addr = true)
    (second : mapInside map addr = true) :
    overlaps call.map.low call.map.high map = true := by
  simp only [mapInside, overlaps, decide_eq_true_eq, ge_iff_le] at *
  exact ⟨BitVec.le_trans first.1 second.2, BitVec.le_trans second.1 first.2⟩

/-- `addr + len - 1` in 32 bits. -/
theorem high_toNat_mod (positive : 1 ≤ call.len) :
    call.map.high.toNat = (call.addr.toNat + call.len.toNat - 1) % 2 ^ 32 := by
  have one : (1 : Word).toNat = 1 := rfl
  have atLeast : 1 ≤ call.len.toNat := positive
  have addrLt := call.addr.isLt
  have lenLt := call.len.isLt
  simp only [MapCall.map, BitVec.toNat_sub, BitVec.toNat_add, one]
  omega

theorem high_toNat (positive : 1 ≤ call.len) (fits : call.Fits) :
    call.map.high.toNat = call.addr.toNat + call.len.toNat - 1 := by
  rw [MapCall.Fits] at fits
  have atLeast : 1 ≤ call.len.toNat := positive
  rw [high_toNat_mod positive, Nat.mod_eq_of_lt (by omega)]

/-- A map whose region wraps ends below its start. -/
theorem low_le_high_iff (positive : 1 ≤ call.len) :
    call.map.low ≤ call.map.high ↔ call.Fits := by
  have atLeast : 1 ≤ call.len.toNat := positive
  have addrLt := call.addr.isLt
  have lenLt := call.len.isLt
  rw [BitVec.le_def, high_toNat_mod positive, MapCall.map_low, MapCall.Fits]
  omega

theorem inPmem_iff (addr : Word) :
    inPmem addr = true ↔
      CONFIG_MBASE.toNat ≤ addr.toNat ∧
        addr.toNat < CONFIG_MBASE.toNat + CONFIG_MSIZE.toNat := by
  have base : CONFIG_MBASE.toNat = 0x80000000 := rfl
  have size : CONFIG_MSIZE.toNat = 0x8000000 := rfl
  have inRange := addr.isLt
  simp only [inPmem, decide_eq_true_eq, BitVec.lt_def, BitVec.toNat_sub, base,
    size]
  omega

/-- With both ends outside of pmem a map shadows it exactly if it encloses
it. -/
theorem shadowsNone_iff (positive : 1 ≤ call.len) (fits : call.Fits)
    (left : inPmem call.map.low = false)
    (right : inPmem call.map.high = false) :
    (∀ addr, mapInside call.map addr = true → inPmem addr = false) ↔
      ¬call.Encloses := by
  have high := high_toNat positive fits
  have one : 1 ≤ call.len.toNat := positive
  rw [Bool.eq_false_iff, ne_eq, inPmem_iff] at left right
  rw [MapCall.map_low] at left
  rw [high] at right
  simp only [mapInside, decide_eq_true_eq, ge_iff_le, BitVec.le_def, high,
    MapCall.map_low, Bool.eq_false_iff, ne_eq, inPmem_iff, MapCall.Encloses,
    BitVec.lt_def]
  constructor
  · rintro outside ⟨below, above⟩
    refine outside CONFIG_MBASE ⟨by omega, ?_⟩ ⟨le_refl _, by decide⟩
    have size : CONFIG_MSIZE.toNat = 0x8000000 := rfl
    omega
  · intro notEnclosing addr inside inMemory
    omega

/-- The maps are those of the calls, in their order. -/
theorem addMmioMaps_eq_some {calls : List MapCall}
    (returns : addMmioMaps maps calls = some after) :
    after = maps ++ calls.map MapCall.map := by
  induction calls generalizing maps with
  | nil => simpa [addMmioMaps] using returns.symm
  | cons call rest inductionHypothesis =>
      obtain ⟨between, first, later⟩ := addMmioMaps_cons returns
      obtain ⟨_, _, _, rfl⟩ := addMmioMap_eq_some first
      rw [inductionHypothesis later]
      simp

/-- One more map whose region fits and does not enclose pmem. -/
theorem DisjointMaps.add (disjoint : DisjointMaps maps)
    (returns : addMmioMap maps call = some after) (positive : 1 ≤ call.len)
    (fits : call.Fits) (notEnclosing : ¬call.Encloses) : DisjointMaps after := by
  obtain ⟨left, right, free, rfl⟩ := addMmioMap_eq_some returns
  refine ⟨?_, ?_, ?_⟩
  · rw [List.pairwise_append]
    refine ⟨disjoint.pairwise, List.pairwise_singleton _ _,
      fun map isMap other isNew addr common => ?_⟩
    rw [List.mem_singleton] at isNew
    subst isNew
    have overlap := overlaps_of_common common.2 common.1
    rw [free map isMap] at overlap
    cases overlap
  · intro map isMap
    rcases List.mem_append.mp isMap with isOld | isNew
    · exact disjoint.shadowsNone map isOld
    · rw [List.mem_singleton] at isNew
      subst isNew
      exact (shadowsNone_iff positive fits left right).mpr notEnclosing
  · intro map isMap
    rcases List.mem_append.mp isMap with isOld | isNew
    · exact disjoint.increasing map isOld
    · rw [List.mem_singleton] at isNew
      subst isNew
      exact (low_le_high_iff positive).mpr fits

theorem disjointMaps_run {calls : List MapCall} (disjoint : DisjointMaps maps)
    (returns : addMmioMaps maps calls = some after)
    (positive : ∀ call ∈ calls, 1 ≤ call.len)
    (good : ∀ call ∈ calls, call.Fits ∧ ¬call.Encloses) :
    DisjointMaps after := by
  induction calls generalizing maps with
  | nil =>
      rw [addMmioMaps] at returns
      exact Option.some.inj returns ▸ disjoint
  | cons call rest inductionHypothesis =>
      obtain ⟨between, first, later⟩ := addMmioMaps_cons returns
      obtain ⟨fits, notEnclosing⟩ := good call List.mem_cons_self
      have here := disjoint.add first (positive call List.mem_cons_self) fits
        notEnclosing
      exact inductionHypothesis here later
        (fun other isLater => positive other (List.mem_cons_of_mem _ isLater))
        (fun other isLater => good other (List.mem_cons_of_mem _ isLater))

/-- A call that returns has both its ends outside of pmem. -/
theorem ends_outside {calls : List MapCall}
    (returns : addMmioMaps maps calls = some after) :
    ∀ call ∈ calls, inPmem call.map.low = false ∧
      inPmem call.map.high = false := by
  induction calls generalizing maps with
  | nil => simp
  | cons call rest inductionHypothesis =>
      obtain ⟨between, first, later⟩ := addMmioMaps_cons returns
      obtain ⟨left, right, _⟩ := addMmioMap_eq_some first
      intro other isCall
      rcases List.mem_cons.mp isCall with rfl | isLater
      · exact ⟨left, right⟩
      · exact inductionHypothesis later other isLater

end Calls

/-- Registered one after the other, the maps are disjoint exactly if no region
wraps or encloses pmem. -/
theorem disjointMaps_iff (calls : List MapCall) (maps : List IOMap)
    (returns : addMmioMaps [] calls = some maps)
    (positive : ∀ call ∈ calls, 1 ≤ call.len) :
    DisjointMaps maps ↔ ∀ call ∈ calls, call.Fits ∧ ¬call.Encloses := by
  constructor
  · intro disjoint call isCall
    have isMap : call.map ∈ maps := by
      rw [addMmioMaps_eq_some returns, List.nil_append]
      exact List.mem_map_of_mem isCall
    obtain ⟨left, right⟩ := ends_outside returns call isCall
    have one := positive call isCall
    have fits := (low_le_high_iff one).mp (disjoint.increasing _ isMap)
    exact ⟨fits, (shadowsNone_iff one fits left right).mp
      (disjoint.shadowsNone _ isMap)⟩
  · have empty : DisjointMaps [] :=
      ⟨List.Pairwise.nil, fun _ isMap => absurd isMap List.not_mem_nil,
        fun _ isMap => absurd isMap List.not_mem_nil⟩
    exact disjointMaps_run empty returns positive

/-- A map of `len` bytes from `addr` on, whose memory is a page of its own. -/
def plainCall (page : Nat) (addr len : Word) : MapCall :=
  ⟨['m', 'a', 'p'], addr, ⟨.ioSpace, 4096 * page⟩, len, none⟩

/-- The serial port and the clock. -/
def portCalls : List MapCall :=
  [plainCall 0 0xa00003f8 8, plainCall 1 0xa0000048 8]

theorem disjointMaps_ports :
    DisjointMaps (portCalls.map MapCall.map) ↔
      ∀ call ∈ portCalls, call.Fits ∧ ¬call.Encloses :=
  disjointMaps_iff portCalls (portCalls.map MapCall.map) rfl
    (by simp [portCalls, plainCall])

/-- A region around pmem, and one that wraps. -/
theorem maps_not_disjoint :
    (∃ maps, addMmioMaps [] [plainCall 0 0x70000000 0x20000000] = some maps ∧
      ¬DisjointMaps maps) ∧
    ∃ maps, addMmioMaps [] [plainCall 0 0xfffffff0 0x20] = some maps ∧
      ¬DisjointMaps maps := by
  refine ⟨⟨[(plainCall 0 0x70000000 0x20000000).map], rfl, fun disjoint => ?_⟩,
    ⟨[(plainCall 0 0xfffffff0 0x20).map], rfl, fun disjoint => ?_⟩⟩
  · have shadows := disjoint.shadowsNone _ (List.mem_singleton_self _)
      0x80000000 (by decide)
    exact absurd shadows (by decide)
  · exact absurd (disjoint.increasing _ (List.mem_singleton_self _))
      (by decide)

end Ysyx.Nemu
