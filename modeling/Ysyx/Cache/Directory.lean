import Ysyx.Cache.Integrity

/-!
# The directory of the instruction cache

What an access does to the tags, the valid bits and the LRU bits, as one
function of its address, and that the cache does just that for every access,
however long its refill takes.
-/

namespace Ysyx.Rtl

/-- The tags, valid bits and LRU bits. -/
structure Directory (params : ICacheParams) where
  tag : Bool → BitVec params.indexWidth → BitVec params.tagWidth
  valid : Bool → BitVec params.indexWidth → Bool
  lru : BitVec params.indexWidth → Bool

namespace Directory

variable {params : ICacheParams}

/-- `way` holds the line of `addr`. -/
def holds (directory : Directory params) (addr : Word) (way : Bool) : Bool :=
  directory.valid way (params.indexOf addr) &&
    directory.tag way (params.indexOf addr) == params.tagOf addr

def hits (directory : Directory params) (addr : Word) : Bool :=
  directory.holds addr false || directory.holds addr true

/-- A hit marks the other way as least recently used; a miss replaces the
least recently used way. -/
def access (directory : Directory params) (addr : Word) : Directory params :=
  let index := params.indexOf addr
  if directory.hits addr then
    { directory with
      lru := Function.update directory.lru index
        (!directory.holds addr true) }
  else
    let victim := directory.lru index
    { tag := Function.update directory.tag victim
        (Function.update (directory.tag victim) index (params.tagOf addr))
      valid := Function.update directory.valid victim
        (Function.update (directory.valid victim) index true)
      lru := Function.update directory.lru index (!victim) }

/-- The outcome of each access of a sequence. -/
def outcomes (directory : Directory params) : List Word → List Bool
  | [] => []
  | addr :: rest => directory.hits addr :: (directory.access addr).outcomes rest

theorem outcomes_append (directory : Directory params)
    (earlier : List Word) (addr : Word) :
    directory.outcomes (earlier ++ [addr]) =
      directory.outcomes earlier ++
        [(earlier.foldl access directory).hits addr] := by
  induction earlier generalizing directory with
  | nil =>
      rfl
  | cons first rest inductionHypothesis =>
      simp only [List.cons_append, outcomes, List.foldl_cons]
      rw [inductionHypothesis]

end Directory

namespace ICache

variable {params : ICacheParams} {cache : ICache params} {port : In}

def directory (cache : ICache params) : Directory params where
  tag := cache.tagArray
  valid := cache.validArray
  lru := cache.lruBit

/-- `LOOKUP` is left in this cycle: with a hit that is taken, or with a
miss. -/
def leavesLookup (cache : ICache params) (port : In) : Bool :=
  cache.state == .lookup && (!cache.cacheHit || port.ifuRready)

theorem cacheHit_eq (cache : ICache params) :
    cache.cacheHit = cache.directory.hits cache.reqAddrReg := rfl

/-- The environment of a plain sequence of fetches. -/
structure Plain (params : ICacheParams) (port : In) : Prop where
  noFlush : port.flush = false
  noFenceI : port.isFenceI = false
  cacheable : port.ifuArvalid = true → params.inWindow port.ifuAraddr = true

/-- The last beat of a refill. -/
def refills (cache : ICache params) (port : In) : Bool :=
  cache.refillBeat port && port.busRlast

theorem nextTagArray_eq (noFenceI : port.isFenceI = false) :
    cache.nextTagArray port =
      if cache.refills port then
        Function.update cache.tagArray cache.missWayReg
          (Function.update (cache.tagArray cache.missWayReg)
            cache.missIndexReg cache.missTagReg)
      else cache.tagArray := by
  funext way index
  unfold nextTagArray refills
  cases beat : cache.refillBeat port <;> cases last : port.busRlast <;>
    by_cases victim : way = cache.missWayReg <;>
    by_cases here : index = cache.missIndexReg <;>
    simp [noFenceI, victim, here, Function.update]

theorem nextValidArray_eq (noFenceI : port.isFenceI = false) :
    cache.nextValidArray port =
      if cache.refills port then
        Function.update cache.validArray cache.missWayReg
          (Function.update (cache.validArray cache.missWayReg)
            cache.missIndexReg true)
      else cache.validArray := by
  funext way index
  unfold nextValidArray refills
  cases beat : cache.refillBeat port <;> cases last : port.busRlast <;>
    by_cases victim : way = cache.missWayReg <;>
    by_cases here : index = cache.missIndexReg <;>
    simp [noFenceI, victim, here, Function.update]

theorem nextLruBit_eq (noFenceI : port.isFenceI = false) :
    cache.nextLruBit port =
      if cache.state = .lookup ∧ cache.cacheHit = true ∧
          port.ifuRready = true then
        Function.update cache.lruBit cache.reqIndex (!cache.hitWay true)
      else if cache.refills port then
        Function.update cache.lruBit cache.missIndexReg (!cache.missWayReg)
      else cache.lruBit := by
  have noBeat : cache.state = .lookup → cache.refillBeat port = false := by
    intro lookup
    simp [refillBeat, lookup]
  funext index
  unfold nextLruBit refills
  by_cases taken : cache.state = .lookup ∧ cache.cacheHit = true ∧
      port.ifuRready = true
  · by_cases here : index = cache.reqIndex <;>
      simp [noFenceI, taken, here, noBeat taken.1, Function.update]
  · have notHere : ¬ (cache.state = .lookup ∧ cache.cacheHit = true ∧
        port.ifuRready = true ∧ index = cache.reqIndex) :=
      fun hit => taken ⟨hit.1, hit.2.1, hit.2.2.1⟩
    rw [if_neg (by simp [noFenceI]), if_neg notHere, if_neg taken]
    cases beat : cache.refillBeat port <;> cases last : port.busRlast <;>
      by_cases here : index = cache.missIndexReg <;>
      simp [here, Function.update]

theorem directory_next (noFenceI : port.isFenceI = false) :
    (cache.next port).directory =
      if cache.state = .lookup ∧ cache.cacheHit = true ∧
          port.ifuRready = true then
        { cache.directory with
          lru := Function.update cache.lruBit cache.reqIndex
            (!cache.hitWay true) }
      else if cache.refills port then
        { tag := Function.update cache.tagArray cache.missWayReg
            (Function.update (cache.tagArray cache.missWayReg)
              cache.missIndexReg cache.missTagReg)
          valid := Function.update cache.validArray cache.missWayReg
            (Function.update (cache.validArray cache.missWayReg)
              cache.missIndexReg true)
          lru := Function.update cache.lruBit cache.missIndexReg
            (!cache.missWayReg) }
      else cache.directory := by
  have noRefill : cache.state = .lookup → cache.refills port = false := by
    intro lookup
    simp [refills, refillBeat, lookup]
  simp only [directory, next, nextTagArray_eq noFenceI,
    nextValidArray_eq noFenceI, nextLruBit_eq noFenceI]
  by_cases taken : cache.state = .lookup ∧ cache.cacheHit = true ∧
      port.ifuRready = true
  · simp only [if_pos taken, noRefill taken.1, Bool.false_eq_true, if_false]
  · simp only [if_neg taken]
    cases cache.refills port <;> rfl

/-! ## The accesses of a run -/

/-- The cache with the accesses that have left `LOOKUP`, and whether they
hit. -/
structure Logged (params : ICacheParams) where
  cache : ICache params
  log : List (Word × Bool) := []

namespace Logged

/-- One clock edge outside reset. -/
def step (port : In) (logged : Logged params) : Logged params where
  cache := logged.cache.next port
  log :=
    if logged.cache.leavesLookup port then
      logged.log ++ [(logged.cache.reqAddrReg, logged.cache.cacheHit)]
    else logged.log

/-- The cache after reset and the given cycles. -/
def run (cache : ICache params) (ports : List In) : Logged params :=
  ports.foldl (fun logged port => logged.step port) { cache := cache.reset }

/-- The addresses of the accesses, in order. -/
def addrs (logged : Logged params) : List Word := logged.log.map Prod.fst

/-- The directory out of reset after these accesses. -/
def directoryAfter (cache : ICache params) (addrs : List Word) :
    Directory params :=
  addrs.foldl Directory.access cache.reset.directory

/-- What is known of the miss under way, with the accesses before it. -/
structure Missing (power cache : ICache params) (addrs earlier : List Word) :
    Prop where
  addrs : addrs = earlier ++ [cache.missAddrReg]
  directory : cache.directory = directoryAfter power earlier
  miss : cache.directory.hits cache.missAddrReg = false
  cacheable : params.inWindow cache.missAddrReg = true
  index : cache.missIndexReg = params.indexOf cache.missAddrReg
  tag : cache.missTagReg = params.tagOf cache.missAddrReg
  way : cache.missWayReg = cache.lruBit (params.indexOf cache.missAddrReg)

/-- The directory is the one after the accesses of the log; while a miss is
under way, the one before it. -/
structure Followed (power : ICache params) (logged : Logged params) :
    Prop where
  outcomes : logged.log.map Prod.snd =
    power.reset.directory.outcomes logged.addrs
  request : logged.cache.state ≠ .idle →
    params.inWindow logged.cache.reqAddrReg = true
  settled : logged.cache.state = .idle ∨ logged.cache.state = .lookup →
    logged.cache.directory = directoryAfter power logged.addrs
  missing : logged.cache.state = .missAr ∨ logged.cache.state = .missR →
    ∃ earlier, Missing power logged.cache logged.addrs earlier

section Step

variable {power : ICache params} {logged : Logged params} {port : In}

theorem followed_reset (power : ICache params) :
    Followed power { cache := power.reset } where
  outcomes := rfl
  request := fun busy => absurd rfl busy
  settled := fun _ => rfl
  missing := fun impossible => by simp [reset] at impossible

/-- The log after an access has left `LOOKUP`. -/
theorem addrs_step :
    (logged.step port).addrs =
      if logged.cache.leavesLookup port then
        logged.addrs ++ [logged.cache.reqAddrReg]
      else logged.addrs := by
  simp only [addrs, step]
  split_ifs <;> simp

theorem outcomes_step (followed : Followed power logged) :
    (logged.step port).log.map Prod.snd =
      power.reset.directory.outcomes (logged.step port).addrs := by
  rw [addrs_step]
  cases leaves : logged.cache.leavesLookup port with
  | false =>
      simpa [step, leaves] using followed.outcomes
  | true =>
      have lookup : logged.cache.state = .lookup := by
        simp only [leavesLookup, Bool.and_eq_true, beq_iff_eq] at leaves
        exact leaves.1
      rw [if_pos rfl, Directory.outcomes_append, ← followed.outcomes]
      have same := followed.settled (Or.inr lookup)
      rw [directoryAfter] at same
      rw [← same, ← cacheHit_eq]
      simp [step, leaves]

theorem request_step (plain : Plain params port)
    (followed : Followed power logged)
    (busy : (logged.step port).cache.state ≠ .idle) :
    params.inWindow (logged.step port).cache.reqAddrReg = true := by
  have request := followed.request
  have cacheable := plain.cacheable
  change (logged.cache.next port).state ≠ _ at busy
  change params.inWindow (logged.cache.next port).reqAddrReg = true
  simp only [next, nextState, plain.noFlush] at busy ⊢
  cases state : logged.cache.state <;> simp_all

/-- A hit that is taken is the access of the directory. -/
theorem access_of_hit {cache : ICache params} (hit : cache.cacheHit = true) :
    cache.directory.access cache.reqAddrReg =
      { cache.directory with
        lru := Function.update cache.lruBit cache.reqIndex
          (!cache.hitWay true) } :=
  if_pos hit

/-- The last beat of a refill is the access of the directory. -/
theorem access_of_refill {cache : ICache params}
    (miss : cache.directory.hits cache.missAddrReg = false)
    (index : cache.missIndexReg = params.indexOf cache.missAddrReg)
    (tag : cache.missTagReg = params.tagOf cache.missAddrReg)
    (way : cache.missWayReg =
      cache.lruBit (params.indexOf cache.missAddrReg)) :
    cache.directory.access cache.missAddrReg =
      { tag := Function.update cache.tagArray cache.missWayReg
          (Function.update (cache.tagArray cache.missWayReg)
            cache.missIndexReg cache.missTagReg)
        valid := Function.update cache.validArray cache.missWayReg
          (Function.update (cache.validArray cache.missWayReg)
            cache.missIndexReg true)
        lru := Function.update cache.lruBit cache.missIndexReg
          (!cache.missWayReg) } := by
  rw [index, tag, way, Directory.access, if_neg (by simp [miss])]
  rfl

theorem settled_step (plain : Plain params port)
    (followed : Followed power logged)
    (settled : (logged.step port).cache.state = .idle ∨
      (logged.step port).cache.state = .lookup) :
    (logged.step port).cache.directory =
      directoryAfter power (logged.step port).addrs := by
  rw [addrs_step]
  change (logged.cache.next port).state = _ ∨
    (logged.cache.next port).state = _ at settled
  change (logged.cache.next port).directory = _
  rw [directory_next plain.noFenceI]
  simp only [next, nextState, plain.noFlush] at settled
  cases state : logged.cache.state with
  | idle =>
      have same := followed.settled (Or.inl state)
      simp [leavesLookup, refills, refillBeat, state, same]
  | lookup =>
      have same := followed.settled (Or.inr state)
      cases hit : logged.cache.cacheHit with
      | false => simp [state, hit] at settled
      | true =>
          cases ready : port.ifuRready with
          | false =>
              simp [leavesLookup, refills, refillBeat, state, hit, ready, same]
          | true =>
              rw [if_pos ⟨rfl, rfl, rfl⟩, ← access_of_hit hit, same]
              simp [leavesLookup, state, hit, ready, directoryAfter]
  | missAr =>
      cases ready : port.busArready <;> simp [state, ready] at settled
  | missR =>
      obtain ⟨earlier, addrs, same, miss, cacheable, index, tag, way⟩ :=
        followed.missing (Or.inr state)
      have last : port.busRvalid = true ∧ port.busRlast = true := by
        simp only [state, busRready] at settled
        grind
      have refilled : logged.cache.refills port = true := by
        simp [refills, refillBeat, state, busRready, last, isCacheable,
          cacheable]
      rw [if_neg (by simp), if_pos refilled,
        ← access_of_refill miss index tag way, same]
      simp [leavesLookup, state, addrs, directoryAfter]

theorem Missing.next {power cache : ICache params} {addrs earlier : List Word}
    (missing : Missing power cache addrs earlier)
    (noFenceI : port.isFenceI = false)
    (notLookup : cache.state ≠ .lookup)
    (noRefill : cache.refills port = false) :
    Missing power (cache.next port) addrs earlier := by
  obtain ⟨sameAddr, sameIndex, sameTag, sameWay⟩ :=
    next_missRegs port notLookup
  have same : (cache.next port).directory = cache.directory := by
    rw [directory_next noFenceI, if_neg (fun taken => notLookup taken.1),
      if_neg (by simp [noRefill])]
  have sameLru : (cache.next port).lruBit = cache.lruBit :=
    congrArg Directory.lru same
  constructor
  · rw [sameAddr, missing.addrs]
  · rw [same, missing.directory]
  · rw [same, sameAddr, missing.miss]
  · rw [sameAddr, missing.cacheable]
  · rw [sameIndex, sameAddr, missing.index]
  · rw [sameTag, sameAddr, missing.tag]
  · rw [sameWay, sameLru, sameAddr, missing.way]

theorem Missing.start {power cache : ICache params} {addrs : List Word}
    (noFenceI : port.isFenceI = false) (lookup : cache.state = .lookup)
    (miss : cache.cacheHit = false)
    (cacheable : params.inWindow cache.reqAddrReg = true)
    (settled : cache.directory = directoryAfter power addrs) :
    Missing power (cache.next port) (addrs ++ [cache.reqAddrReg]) addrs := by
  have starts : cache.state = .lookup ∧ ¬ cache.cacheHit = true :=
    ⟨lookup, by simp [miss]⟩
  have same : (cache.next port).directory = cache.directory := by
    rw [directory_next noFenceI, if_neg (by simp [miss]),
      if_neg (by simp [refills, refillBeat, lookup])]
  have sameLru : (cache.next port).lruBit = cache.lruBit :=
    congrArg Directory.lru same
  have addr : (cache.next port).missAddrReg = cache.reqAddrReg :=
    if_pos starts
  constructor
  · rw [addr]
  · rw [same, settled]
  · rw [same, addr, ← cacheHit_eq, miss]
  · rw [addr, cacheable]
  · rw [addr]
    exact if_pos starts
  · rw [addr]
    exact if_pos starts
  · rw [addr, sameLru]
    exact if_pos starts

theorem missing_step (plain : Plain params port)
    (followed : Followed power logged)
    (missing : (logged.step port).cache.state = .missAr ∨
      (logged.step port).cache.state = .missR) :
    ∃ earlier, Missing power (logged.step port).cache
      (logged.step port).addrs earlier := by
  rw [addrs_step]
  have goesOn (before : logged.cache.state = .missAr ∨
      logged.cache.state = .missR)
      (noRefill : logged.cache.refills port = false) :
      ∃ earlier, Missing power (logged.step port).cache
        (if logged.cache.leavesLookup port then
          logged.addrs ++ [logged.cache.reqAddrReg] else logged.addrs)
        earlier := by
    obtain ⟨earlier, goes⟩ := followed.missing before
    have notLookup : logged.cache.state ≠ .lookup := by
      rcases before with state | state <;> simp [state]
    rw [if_neg (by simp [leavesLookup, notLookup])]
    exact ⟨earlier, goes.next plain.noFenceI notLookup noRefill⟩
  rcases missing with missAr | missR
  · rcases (next_state_missAr missAr).2 with ⟨lookup, miss⟩ | before
    · rw [if_pos (by simp [leavesLookup, lookup, miss])]
      exact ⟨_, Missing.start plain.noFenceI lookup miss
        (followed.request (by simp [lookup]))
        (followed.settled (Or.inr lookup))⟩
    · exact goesOn (Or.inl before) (by simp [refills, refillBeat, before])
  · rcases (next_state_missR missR).2 with ⟨before, -⟩ | ⟨before, notLast⟩
    · exact goesOn (Or.inl before) (by simp [refills, refillBeat, before])
    · refine goesOn (Or.inr before) ?_
      by_contra refilled
      rw [Bool.not_eq_false, refills, Bool.and_eq_true] at refilled
      obtain ⟨beat, last⟩ := refilled
      rw [notLast (refillBeat_iff.1 beat).2.1] at last
      contradiction

theorem Followed.step (followed : Followed power logged)
    (plain : Plain params port) : Followed power (logged.step port) where
  outcomes := outcomes_step followed
  request := request_step plain followed
  settled := settled_step plain followed
  missing := missing_step plain followed

theorem run_followed (power : ICache params) {ports : List In}
    (plain : ∀ port ∈ ports, Plain params port) :
    Followed power (run power ports) := by
  induction ports using List.reverseRecOn with
  | nil =>
      exact followed_reset power
  | append_singleton ports port inductionHypothesis =>
      rw [run, List.foldl_append]
      refine (inductionHypothesis fun earlier member => ?_).step
        (plain port (by simp))
      exact plain earlier (List.mem_append_left _ member)

end Step

/-! ## Every sequence is one of a run -/

/-- A cycle of a prompt environment. -/
def promptPort (request : Option Word) : In where
  ifuAraddr := request.getD 0
  ifuArvalid := request.isSome
  ifuRready := true
  busArready := true
  busRdata := 0
  busRlast := true
  busRvalid := true
  flush := false
  isFenceI := false

/-- The cycles of one access. -/
def accessPorts (addr : Word) : List In :=
  [promptPort (some addr), promptPort none, promptPort none, promptPort none]

theorem step_of_idle {logged : Logged params}
    (idle : logged.cache.state = .idle) :
    (logged.step (promptPort none)).cache.state = .idle ∧
      (logged.step (promptPort none)).addrs = logged.addrs := by
  rw [addrs_step]
  simp [step, next, nextState, promptPort, leavesLookup, idle]

theorem access_addrs {logged : Logged params}
    (idle : logged.cache.state = .idle) (addr : Word) :
    let after := (accessPorts addr).foldl
      (fun logged port => logged.step port) logged
    after.cache.state = .idle ∧ after.addrs = logged.addrs ++ [addr] := by
  let asked := logged.step (promptPort (some addr))
  have lookup : asked.cache.state = .lookup ∧
      asked.cache.reqAddrReg = addr ∧ asked.addrs = logged.addrs := by
    refine ⟨?_, ?_, ?_⟩
    · simp [asked, step, next, nextState, promptPort, idle]
    · simp [asked, step, next, promptPort, idle]
    · simp [asked, addrs_step, leavesLookup, idle]
  let looked := asked.step (promptPort none)
  have lookedAddrs : looked.addrs = logged.addrs ++ [addr] := by
    simp [looked, addrs_step, leavesLookup, promptPort, lookup]
  change ((looked.step (promptPort none)).step
      (promptPort none)).cache.state = _ ∧
    ((looked.step (promptPort none)).step (promptPort none)).addrs = _
  cases hit : asked.cache.cacheHit with
  | true =>
      have lookedIdle : looked.cache.state = .idle := by
        simp [looked, step, next, nextState, promptPort, lookup, hit]
      obtain ⟨idleAgain, sameAddrs⟩ := step_of_idle lookedIdle
      obtain ⟨idleAtLast, lastAddrs⟩ := step_of_idle idleAgain
      exact ⟨idleAtLast, by rw [lastAddrs, sameAddrs, lookedAddrs]⟩
  | false =>
      have missAr : looked.cache.state = .missAr := by
        simp [looked, step, next, nextState, promptPort, lookup, hit]
      have missR : (looked.step (promptPort none)).cache.state = .missR := by
        simp [step, next, nextState, promptPort, missAr]
      refine ⟨?_, ?_⟩
      · simp [step, next, nextState, promptPort, missAr, busRready]
      · rw [addrs_step, if_neg (by simp [leavesLookup, missR]), addrs_step,
          if_neg (by simp [leavesLookup, missAr]), lookedAddrs]

/-- Every sequence of cacheable fetches is the one of some run. -/
theorem exists_run (power : ICache params) {addrs : List Word}
    (cacheable : ∀ addr ∈ addrs, params.inWindow addr = true) :
    ∃ ports, (∀ port ∈ ports, Plain params port) ∧
      (run power ports).cache.state = .idle ∧
      (run power ports).addrs = addrs := by
  induction addrs using List.reverseRecOn with
  | nil =>
      exact ⟨[], by simp, rfl, rfl⟩
  | append_singleton addrs addr inductionHypothesis =>
      obtain ⟨ports, plain, idle, logged⟩ := inductionHypothesis
        fun earlier member => cacheable earlier (List.mem_append_left _ member)
      obtain ⟨idleAfter, loggedAfter⟩ := access_addrs idle addr
      refine ⟨ports ++ accessPorts addr, ?_, ?_, ?_⟩
      · intro port member
        rcases List.mem_append.1 member with member | member
        · exact plain port member
        · have inWindow := cacheable addr (by simp)
          simp only [accessPorts, List.mem_cons, List.not_mem_nil,
            or_false] at member
          rcases member with rfl | rfl | rfl | rfl
          · exact ⟨rfl, rfl, fun _ => inWindow⟩
          all_goals exact ⟨rfl, rfl, nofun⟩
      · rw [run, List.foldl_append]
        exact idleAfter
      · rw [run, List.foldl_append]
        exact loggedAfter.trans (congrArg (· ++ [addr]) logged)

end Logged

end ICache

end Ysyx.Rtl
