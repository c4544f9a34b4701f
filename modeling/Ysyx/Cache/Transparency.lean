import Ysyx.Cache.Flush

/-!
# Transparency

The instruction cache between a client that behaves like the fetch unit and a
constant memory: every word it returns is the word at the requested address.
-/

namespace Ysyx.Rtl

/-! ## The client -/

/-- A client with at most one outstanding request. -/
inductive Client where
  | idle
  /-- `arvalid` is held with a stable address. -/
  | asking (addr : Word)
  /-- The request is accepted; `rready`, once raised, is held. -/
  | waiting (addr : Word) (ready : Bool)
  deriving DecidableEq, Repr

namespace Client

def arvalid : Client → Bool
  | .asking _ => true
  | _ => false

def araddr : Client → Word
  | .asking addr => addr
  | _ => 0

/-- `rready`, raised now or held. -/
def rready (raise : Bool) : Client → Bool
  | .waiting _ ready => ready || raise
  | _ => raise

/-- The client after one cycle; `ask` is its next request, if it starts one. -/
def next (client : Client) (ask : Option Word) (raise arready rvalid : Bool) :
    Client :=
  match client with
  | .idle => (ask.map Client.asking).getD .idle
  | .asking addr => if arready then .waiting addr false else .asking addr
  | .waiting addr ready =>
      if rvalid ∧ (ready ∨ raise) then .idle
      else .waiting addr (ready || raise)

end Client

/-- The client, the cache and the bus. -/
structure Served (params : ICacheParams) where
  client : Client
  cached : Cached params

namespace Served

/-- What the client and the bus choose in one cycle. -/
structure Input where
  ask : Option Word := none
  raise : Bool := true
  arready : Bool := true
  rvalid : Bool := true
  drain : Bool := true
  deriving DecidableEq, Repr

variable {params : ICacheParams}

/-- The cache inputs, without flush and `fence.i`. -/
def input (choice : Input) (served : Served params) : Cached.Input where
  ifuAraddr := served.client.araddr
  ifuArvalid := served.client.arvalid
  ifuRready := served.client.rready choice.raise
  flush := false
  isFenceI := false
  arready := choice.arready
  rvalid := choice.rvalid
  drain := choice.drain

def port (bytes : Axi.Bytes) (choice : Input) (served : Served params) :
    ICache.In :=
  served.cached.port bytes (served.input choice)

/-- `ifu_rvalid`. -/
def rvalid (bytes : Axi.Bytes) (choice : Input) (served : Served params) :
    Bool :=
  served.cached.cache.ifuRvalid (served.port bytes choice).busRvalid

/-- `ifu_rdata`. -/
def rdata (bytes : Axi.Bytes) (choice : Input) (served : Served params) :
    Word :=
  served.cached.cache.ifuRdata (served.port bytes choice).busRdata

/-- One clock edge. -/
def step (bytes : Axi.Bytes) (choice : Input) (served : Served params) :
    Served params where
  client := served.client.next choice.ask choice.raise
    served.cached.cache.ifuArready (served.rvalid bytes choice)
  cached := served.cached.step bytes (served.input choice)

/-- The state after `cycle` cycles out of reset. -/
def run (bytes : Axi.Bytes) (choices : Nat → Input) (cache : ICache params)
    (cycle : Nat) : Served params :=
  Machine.run (step bytes) choices ⟨.idle, ⟨cache.reset, none⟩⟩ cycle

/-! ## Requests and answers -/

/-- The address the client waits for, if it waits. -/
def awaited (served : Served params) : Option Word :=
  match served.client with
  | .waiting addr _ => some addr
  | _ => none

/-- Where a request is in the cache.  The client waits whenever the cache
works for it; the answer of a refill comes from the line just filled. -/
structure Tracks (served : Served params) : Prop where
  busy : served.cached.cache.state ≠ .idle ∨
      served.cached.cache.refillComplete = true →
    served.awaited = some served.cached.cache.reqAddrReg
  missed : served.cached.cache.state = .missAr ∨
      served.cached.cache.state = .missR ∨
      served.cached.cache.refillComplete = true →
    served.cached.cache.missAddrReg = served.cached.cache.reqAddrReg
  complete : served.cached.cache.refillComplete = true →
    served.cached.cache.state = .idle ∧ served.cached.cache.cacheHit = true

section Step

variable {bytes : Axi.Bytes} {choice : Input} {served : Served params}

theorem rvalid_cases (answers : served.rvalid bytes choice = true) :
    served.cached.cache.state = .lookup ∧
        served.cached.cache.cacheHit = true ∨
      served.cached.cache.isCacheable = false ∧
        served.cached.cache.state = .missR ∧
        (served.port bytes choice).busRvalid = true ∨
      served.cached.cache.isCacheable = true ∧
        served.cached.cache.refillComplete = true :=
  Cached.rvalid_iff.1 answers

theorem rdata_of_rvalid
    (sound : served.cached.cache.Sound (Cached.MemoryWord bytes)
      served.cached.fetch)
    (tracks : served.Tracks) (answers : served.rvalid bytes choice = true) :
    ∃ addr, served.awaited = some addr ∧
      served.rdata bytes choice = bytes.word addr := by
  rcases rvalid_cases answers with
    ⟨lookup, hit⟩ | ⟨uncached, missR, valid⟩ | ⟨cacheable, complete⟩
  · refine ⟨_, tracks.busy (.inl (by simp [lookup])), ?_⟩
    exact Cached.hitsRight_of_sound sound lookup hit _
  · refine ⟨_, tracks.busy (.inl (by simp [missR])), ?_⟩
    obtain ⟨burst, inFlight, addr, -, count⟩ := sound.fetching missR
    obtain ⟨-, right⟩ := (served.cached.serves bytes
      (served.input choice)).returns burst inFlight valid
    have first : burst.beatAddr = served.cached.cache.reqAddrReg := by
      rw [Fetch.beatAddr, count, addr, ICache.busAraddr,
        if_neg (by simp [uncached]), if_neg (by simp [uncached]),
        tracks.missed (.inr (.inl missR))]
      simp
    rw [first, Cached.MemoryWord, Axi.Bytes.word_align] at right
    rw [rdata, ICache.ifuRdata, if_neg (by simp [missR, uncached])]
    exact right
  · refine ⟨_, tracks.busy (.inr complete), ?_⟩
    obtain ⟨idle, hit⟩ := tracks.complete complete
    rw [rdata, ICache.ifuRdata, if_pos (by simp [cacheable, complete])]
    exact Cached.cacheData_of_sound sound (by simp [idle]) hit

/-- A waiting client waits on until it takes an answer. -/
theorem awaited_step {addr : Word} (waits : served.awaited = some addr)
    (noAnswer : served.rvalid bytes choice = true →
      served.client.rready choice.raise = false) :
    (served.step bytes choice).awaited = some addr := by
  cases client : served.client with
  | waiting asked ready =>
      simp only [awaited, client] at waits
      simp only [awaited, step, client, Client.next]
      simp only [client, Client.rready] at noAnswer
      have notTaken :
          ¬ (served.rvalid bytes choice = true ∧
            (ready = true ∨ choice.raise = true)) := by
        rintro ⟨answers, taken⟩
        have notReady := noAnswer answers
        simp only [Bool.or_eq_false_iff] at notReady
        simp [notReady] at taken
      rw [if_neg notTaken]
      exact waits
  | idle => simp [awaited, client] at waits
  | asking asked => simp [awaited, client] at waits

theorem last_of_uncached
    (sound : served.cached.cache.Sound (Cached.MemoryWord bytes)
      served.cached.fetch)
    (uncached : served.cached.cache.isCacheable = false)
    (missR : served.cached.cache.state = .missR)
    (valid : (served.port bytes choice).busRvalid = true) :
    (served.port bytes choice).busRlast = true := by
  obtain ⟨burst, inFlight, -, len, count⟩ := sound.fetching missR
  obtain ⟨last, -⟩ := (served.cached.serves bytes
    (served.input choice)).returns burst inFlight valid
  refine last.trans ?_
  simp [Fetch.isLast, count, len, ICache.busArlen, uncached]

theorem awaited_of_accepted (tracks : served.Tracks)
    (idle : served.cached.cache.state = .idle)
    (asks : served.client.arvalid = true) :
    (served.step bytes choice).awaited =
      some (served.step bytes choice).cached.cache.reqAddrReg := by
  cases client : served.client with
  | asking addr =>
      have noAnswer : served.cached.cache.refillComplete = false := by
        cases complete : served.cached.cache.refillComplete with
        | false => rfl
        | true =>
            have waits := tracks.busy (.inr complete)
            simp [awaited, client] at waits
      have accepted : served.cached.cache.ifuArready = true := by
        simp [ICache.ifuArready, idle, noAnswer]
      simp [awaited, step, client, Client.next, accepted, Cached.step,
        ICache.next, idle, Cached.port, input, Client.arvalid, Client.araddr]
  | idle => simp [client, Client.arvalid] at asks
  | waiting addr ready => simp [client, Client.arvalid] at asks

theorem busy_step
    (sound : served.cached.cache.Sound (Cached.MemoryWord bytes)
      served.cached.fetch) (tracks : served.Tracks)
    (busy : (served.step bytes choice).cached.cache.state ≠ .idle ∨
      (served.step bytes choice).cached.cache.refillComplete = true) :
    (served.step bytes choice).awaited =
      some (served.step bytes choice).cached.cache.reqAddrReg := by
  have noFlush : (served.port bytes choice).flush = false := rfl
  have stepBusy :
      (served.cached.cache.next (served.port bytes choice)).state ≠ .idle ∨
        (served.cached.cache.next
          (served.port bytes choice)).refillComplete = true := busy
  by_cases idle : served.cached.cache.state = .idle
  · have asks : (served.port bytes choice).ifuArvalid = true := by
      simpa [ICache.next, ICache.nextState, ICache.refillBeat, idle,
        noFlush] using stepBusy
    exact awaited_of_accepted tracks idle asks
  · have sameAddr : (served.step bytes choice).cached.cache.reqAddrReg =
        served.cached.cache.reqAddrReg := by
      simp [step, Cached.step, ICache.next, idle]
    rw [sameAddr]
    refine awaited_step (tracks.busy (.inl idle)) fun answers => ?_
    rcases rvalid_cases answers with
      ⟨lookup, hit⟩ | ⟨uncached, missR, valid⟩ | ⟨-, complete⟩
    · -- a hit that is taken leaves the cache idle
      by_contra notHeld
      have taken : served.client.rready choice.raise = true := by
        simpa using notHeld
      have ready : (served.port bytes choice).ifuRready = true := taken
      simp [ICache.next, ICache.nextState, ICache.refillBeat, lookup, hit,
        noFlush, ready] at stepBusy
    · have last := last_of_uncached sound uncached missR valid
      simp [ICache.next, ICache.nextState, ICache.refillBeat,
        ICache.busRready, missR, uncached, valid, last, noFlush] at stepBusy
    · exact absurd (tracks.complete complete).1 idle

theorem missed_step (tracks : served.Tracks)
    (missed : (served.step bytes choice).cached.cache.state = .missAr ∨
      (served.step bytes choice).cached.cache.state = .missR ∨
      (served.step bytes choice).cached.cache.refillComplete = true) :
    (served.step bytes choice).cached.cache.missAddrReg =
      (served.step bytes choice).cached.cache.reqAddrReg := by
  have kept (before : served.cached.cache.state = .missAr ∨
      served.cached.cache.state = .missR) :
      (served.step bytes choice).cached.cache.missAddrReg =
        (served.step bytes choice).cached.cache.reqAddrReg := by
    have same := tracks.missed (before.imp_right .inl)
    rcases before with state | state <;>
      simp [step, Cached.step, ICache.next, state, same]
  rcases missed with missAr | missR | complete
  · rcases (ICache.next_state_missAr missAr).2 with ⟨lookup, miss⟩ | before
    · simp [step, Cached.step, ICache.next, lookup, miss]
    · exact kept (.inl before)
  · rcases (ICache.next_state_missR missR).2 with ⟨before, -⟩ | ⟨before, -⟩
    · exact kept (.inl before)
    · exact kept (.inr before)
  · have taken : (served.cached.cache.refillBeat (served.port bytes choice) &&
        (served.port bytes choice).busRlast) = true := complete
    have beat := (Bool.and_eq_true_iff.1 taken).1
    exact kept (.inr (ICache.refillBeat_iff.1 beat).1)

theorem tracks_step
    (sound : served.cached.cache.Sound (Cached.MemoryWord bytes)
      served.cached.fetch)
    (tracks : served.Tracks) : (served.step bytes choice).Tracks where
  busy := busy_step sound tracks
  missed := missed_step tracks
  complete := by
    intro complete
    have taken : (served.cached.cache.refillBeat (served.port bytes choice) &&
        (served.port bytes choice).busRlast) = true := complete
    obtain ⟨beat, last⟩ := Bool.and_eq_true_iff.1 taken
    obtain ⟨missR, valid, -⟩ := ICache.refillBeat_iff.1 beat
    obtain ⟨index, tag⟩ := sound.missRegs (.inr missR)
    have same := tracks.missed (.inr (.inl missR))
    constructor
    · have noFlush : (served.port bytes choice).flush = false := rfl
      change (served.cached.cache.next (served.port bytes choice)).state = _
      simp [ICache.next, ICache.nextState, missR, valid, last,
        ICache.busRready, noFlush]
    · exact ICache.cacheHit_of_last beat last rfl
        (by rw [index, same, ICache.reqIndex])
        (by rw [tag, same, ICache.reqTag])

end Step

/-! ## Runs -/

section Runs

variable {bytes : Axi.Bytes} {choices : Nat → Input} {cache : ICache params}

theorem run_sound (narrow : params.blockWidth ≤ 10) :
    ∀ cycle,
      (run bytes choices cache cycle).cached.cache.Sound
          (Cached.MemoryWord bytes)
          (run bytes choices cache cycle).cached.fetch ∧
        (run bytes choices cache cycle).Tracks := by
  intro cycle
  induction cycle with
  | zero =>
      refine ⟨cache.sound_reset, ?_, ?_, ?_⟩ <;> simp [run, ICache.reset]
  | succ cycle inductionHypothesis =>
      obtain ⟨sound, tracks⟩ := inductionHypothesis
      refine ⟨?_, tracks_step sound tracks⟩
      exact sound.next (Cached.serves bytes _ _) narrow
        (fun skips => Bool.false_ne_true skips.1)
        (fun cuts => Bool.false_ne_true cuts.1)

/-- Every word returned is the word of memory at the awaited address. -/
theorem run_transparent (narrow : params.blockWidth ≤ 10) (cycle : Nat)
    (answers :
      (run bytes choices cache cycle).rvalid bytes (choices cycle) = true) :
    ∃ addr, (run bytes choices cache cycle).awaited = some addr ∧
      (run bytes choices cache cycle).rdata bytes (choices cycle) =
        bytes.word addr := by
  obtain ⟨sound, tracks⟩ := run_sound narrow cycle
  exact rdata_of_rvalid sound tracks answers

end Runs

/-- Ask for one word in the first cycle. -/
def askOnce (addr : Word) : Nat → Input
  | 0 => { ask := some addr }
  | _ => {}

theorem run_transparent_after_refill :
    let served := run Cached.threeBlocks (askOnce 0x80000004)
      (Core.zeroed .npc).icache 6
    ∃ addr, served.awaited = some addr ∧
      served.rdata Cached.threeBlocks (askOnce 0x80000004 6) =
        Cached.threeBlocks.word addr :=
  run_transparent (by decide) 6 (by decide +kernel)

/-! ## Wide lines -/

/-- Two sets of 2048-byte lines: `bus_arlen` is cut to 255. -/
def wideParams : ICacheParams where
  indexWidth := 1
  blockWidth := 11
  burstAddrLo := 0x80000000
  burstAddrHi := 0x87ffffff
  one_le_indexWidth := by decide
  three_le_blockWidth := by decide
  width_lt := by decide

def zeroedCache : ICache wideParams where
  tagArray := fun _ _ => 0
  dataArray := fun _ _ _ => 0
  validArray := fun _ _ => false
  lruBit := fun _ => false
  state := .idle
  reqAddrReg := 0
  missAddrReg := 0
  missIndexReg := 0
  missTagReg := 0
  missWayReg := false
  refillCnt := 0
  refillComplete := false

/-- Word 256 of a line. -/
def wideBytes : Axi.Bytes := .ofWords [(0x80000400, 7)]

def wideRun (cycle : Nat) : Served wideParams :=
  run wideBytes (askOnce 0x80000400) zeroedCache cycle

/-- The burst ends before it reaches the word, which keeps its power-up
value. -/
theorem wideRun_returnsUnfilledWord :
    (wideRun 260).rvalid wideBytes (askOnce 0x80000400 260) = true ∧
      (wideRun 260).awaited = some 0x80000400 ∧
      (wideRun 260).rdata wideBytes (askOnce 0x80000400 260) = 0 ∧
      wideBytes.word 0x80000400 = 7 := by
  refine ⟨by decide +kernel, by decide +kernel, by decide +kernel,
    by decide +kernel⟩

end Served

end Ysyx.Rtl
