import Ysyx.Cache.Integrity

/-!
# The cache from two power-up states

Reset leaves the tags, the data and the request address of the cache as they
are.  Two caches that differ in these alone answer alike, as long as every
line that becomes valid has been written as a whole.
-/

namespace Ysyx.Rtl.ICache

variable {params : ICacheParams}

/-- A refill leaves a word of its line as it was: `fence.i` keeps a beat out,
or the burst ends before the line is full. -/
def LeavesWord (cache : ICache params) (port : In) : Prop :=
  cache.refillBeat port = true ∧ (port.isFenceI = true ∨
    port.busRlast = true ∧ cache.refillCnt ≠ BitVec.allOnes _)

instance (cache : ICache params) (port : In) :
    Decidable (cache.LeavesWord port) :=
  inferInstanceAs (Decidable (_ ∧ _))

/-- A cache with the registers of another that reset does not clear. -/
def withHidden (cache other : ICache params) : ICache params :=
  { cache with
    tagArray := other.tagArray
    dataArray := other.dataArray
    reqAddrReg := other.reqAddrReg }

/-- The words of valid lines agree, and those already written of a line that
is being refilled. -/
structure SameWords (cache other : ICache params) : Prop where
  lines : ∀ way index, cache.validArray way index = true →
    other.dataArray way index = cache.dataArray way index
  refilled : cache.state = .missR → cache.isCacheable = true →
    ∀ word, word < cache.refillCnt →
      other.dataArray cache.missWayReg cache.missIndexReg word =
        cache.dataArray cache.missWayReg cache.missIndexReg word
  complete : cache.refillComplete = true → cache.cacheHit = true

/-- Two caches that no access can tell apart. -/
structure Same (cache other : ICache params) : Prop where
  visible : other = cache.withHidden other
  tags : ∀ way index, cache.validArray way index = true →
    other.tagArray way index = cache.tagArray way index
  request : cache.state ≠ .idle ∨ cache.refillComplete = true →
    other.reqAddrReg = cache.reqAddrReg
  missRegs : cache.state = .missAr ∨ cache.state = .missR →
    cache.missIndexReg = cache.reqIndex ∧ cache.missTagReg = cache.reqTag
  cleared : cache.state = .missAr → cache.refillCnt = 0
  words : other.dataArray = cache.dataArray ∨ SameWords cache other

namespace Same

variable {cache other : ICache params} {port : In}

theorem reset (power other : ICache params) :
    Same power.reset other.reset where
  visible := rfl
  tags := nofun
  request := by simp [ICache.reset]
  missRegs := by simp [ICache.reset]
  cleared := nofun
  words := Or.inr
    { lines := nofun
      refilled := nofun
      complete := nofun }

/-! ## Wires -/

theorem hitWay_eq (same : Same cache other)
    (request : other.reqAddrReg = cache.reqAddrReg) (way : Bool) :
    other.hitWay way = cache.hitWay way := by
  have valid : other.validArray = cache.validArray := by
    rw [same.visible]
    rfl
  have tags := same.tags way cache.reqIndex
  simp only [hitWay, reqIndex, reqTag, request, valid] at tags ⊢
  cases isValid : cache.validArray way (params.indexOf cache.reqAddrReg) with
  | false => rfl
  | true => rw [tags isValid]

theorem cacheHit_eq (same : Same cache other)
    (request : other.reqAddrReg = cache.reqAddrReg) :
    other.cacheHit = cache.cacheHit := by
  rw [cacheHit, same.hitWay_eq request, same.hitWay_eq request, ← cacheHit]

theorem cacheData_eq (same : Same cache other)
    (read : cache.state = .lookup ∧ cache.cacheHit = true ∨
      cache.refillComplete = true) :
    other.cacheData = cache.cacheData := by
  have request : other.reqAddrReg = cache.reqAddrReg := by
    refine same.request ?_
    rcases read with ⟨state, -⟩ | complete
    · exact Or.inl (by simp [state])
    · exact Or.inr complete
  rw [cacheData, cacheData, same.hitWay_eq request, reqIndex, reqWordIdx,
    request, ← reqIndex, ← reqWordIdx]
  rcases same.words with equal | ⟨lines, -, complete⟩
  · rw [equal]
  · have hit : cache.cacheHit = true := by
      rcases read with ⟨-, hit⟩ | refilled
      · exact hit
      · exact complete refilled
    rw [lines _ _ (line_of_cacheHit hit).1]

theorem ifuRvalid_eq (same : Same cache other) (busRvalid : Bool) :
    other.ifuRvalid busRvalid = cache.ifuRvalid busRvalid := by
  have hit : cache.state = .lookup → other.cacheHit = cache.cacheHit :=
    fun state => same.cacheHit_eq (same.request (Or.inl (by simp [state])))
  have visible : other.ifuRvalid busRvalid =
      ((cache.state == .lookup && other.cacheHit) ||
        (!cache.isCacheable && cache.state == .missR && busRvalid) ||
        (cache.isCacheable && cache.refillComplete)) := by
    rw [same.visible]
    rfl
  rw [visible, ifuRvalid]
  by_cases lookup : cache.state = .lookup
  · rw [hit lookup]
  · rw [beq_eq_false_iff_ne.mpr lookup]
    rfl

theorem ifuRdata_eq (same : Same cache other) (busRdata : Word) :
    other.ifuRdata busRdata = cache.ifuRdata busRdata := by
  have hit : cache.state = .lookup → other.cacheHit = cache.cacheHit :=
    fun state => same.cacheHit_eq (same.request (Or.inl (by simp [state])))
  have visible : other.ifuRdata busRdata =
      if (cache.state == .lookup && other.cacheHit) ||
          (cache.isCacheable && cache.refillComplete) then other.cacheData
      else busRdata := by
    rw [same.visible]
    rfl
  have select : (cache.state == .lookup && other.cacheHit) =
      (cache.state == .lookup && cache.cacheHit) := by
    by_cases lookup : cache.state = .lookup
    · rw [hit lookup]
    · rw [beq_eq_false_iff_ne.mpr lookup]
      rfl
  rw [visible, ifuRdata, select]
  split_ifs with read
  · refine same.cacheData_eq ?_
    simp only [Bool.or_eq_true, Bool.and_eq_true, beq_iff_eq] at read
    exact read.imp_right And.right
  · rfl

/-! ## One clock edge -/

theorem request_of_lookup (same : Same cache other)
    (lookup : cache.state = .lookup) :
    other.reqAddrReg = cache.reqAddrReg :=
  same.request (Or.inl (by simp [lookup]))

theorem shared (same : Same cache other) :
    other.validArray = cache.validArray ∧ other.lruBit = cache.lruBit ∧
      other.state = cache.state ∧ other.missAddrReg = cache.missAddrReg ∧
      other.missIndexReg = cache.missIndexReg ∧
      other.missTagReg = cache.missTagReg ∧
      other.missWayReg = cache.missWayReg ∧
      other.refillCnt = cache.refillCnt ∧
      other.refillComplete = cache.refillComplete := by
  rw [same.visible]
  exact ⟨rfl, rfl, rfl, rfl, rfl, rfl, rfl, rfl, rfl⟩

theorem refillBeat_eq (same : Same cache other) (port : In) :
    other.refillBeat port = cache.refillBeat port := by
  rw [same.visible]
  rfl

theorem nextLruBit_eq (same : Same cache other) (port : In) :
    other.nextLruBit port = cache.nextLruBit port := by
  obtain ⟨-, lru, state, -, missIndex, -, missWay, -, -⟩ := same.shared
  funext index
  simp only [nextLruBit, lru, state, missIndex, missWay,
    same.refillBeat_eq port]
  by_cases lookup : cache.state = .lookup
  · have request := same.request_of_lookup lookup
    rw [same.cacheHit_eq request, same.hitWay_eq request, reqIndex, request,
      ← reqIndex]
  · simp [lookup]

theorem nextState_eq (same : Same cache other) (port : In) :
    other.nextState port = cache.nextState port := by
  obtain ⟨-, -, state, -⟩ := same.shared
  simp only [nextState, state, busRready]
  have hit := fun lookup => same.cacheHit_eq (same.request_of_lookup lookup)
  split <;> simp_all

theorem miss_eq (same : Same cache other) {α : Type} {value value' kept : α}
    (loads : cache.state = .lookup → value' = value) :
    (if other.state = .lookup ∧ ¬ other.cacheHit = true then value'
      else kept) =
      if cache.state = .lookup ∧ ¬ cache.cacheHit = true then value
      else kept := by
  obtain ⟨-, -, state, -⟩ := same.shared
  rw [state]
  by_cases lookup : cache.state = .lookup
  · rw [same.cacheHit_eq (same.request_of_lookup lookup), loads lookup]
  · simp [lookup]

theorem visible_next (same : Same cache other) (port : In) :
    other.next port = (cache.next port).withHidden (other.next port) := by
  obtain ⟨valid, lru, state, missAddr, missIndex, missTag, missWay, count,
    complete⟩ := same.shared
  have beat := same.refillBeat_eq port
  have request := same.request_of_lookup
  simp only [next, withHidden, ICache.mk.injEq, true_and]
  refine ⟨?_, same.nextLruBit_eq port, ?_, ?_, ?_, ?_, ?_, ?_, ?_⟩
  · funext way index
    simp only [nextValidArray, valid, beat, missWay, missIndex]
  · rw [same.nextState_eq port]
  · rw [missAddr]
    exact same.miss_eq request
  · rw [missIndex]
    refine same.miss_eq fun lookup => ?_
    rw [reqIndex, request lookup, ← reqIndex]
  · rw [missTag]
    refine same.miss_eq fun lookup => ?_
    rw [reqTag, request lookup, ← reqTag]
  · rw [missWay, lru]
    refine same.miss_eq fun lookup => ?_
    rw [reqIndex, request lookup, ← reqIndex]
  · rw [beat, count, same.miss_eq fun _ => rfl]
  · rw [beat]

theorem tags_next (same : Same cache other) (port : In) (way : Bool)
    (index : BitVec params.indexWidth)
    (valid : (cache.next port).validArray way index = true) :
    (other.next port).tagArray way index =
      (cache.next port).tagArray way index := by
  obtain ⟨-, -, -, -, missIndex, missTag, missWay, -⟩ := same.shared
  have tags := same.tags way index
  have beat := same.refillBeat_eq port
  change cache.nextValidArray port way index = true at valid
  change other.nextTagArray port way index = cache.nextTagArray port way index
  simp only [nextValidArray, nextTagArray, beat, missWay, missIndex,
    missTag] at valid ⊢
  split_ifs at valid ⊢ <;> simp_all

theorem request_next (same : Same cache other) (port : In)
    (needed : (cache.next port).state ≠ .idle ∨
      (cache.next port).refillComplete = true) :
    (other.next port).reqAddrReg = (cache.next port).reqAddrReg := by
  obtain ⟨-, -, state, -⟩ := same.shared
  have request := same.request
  simp only [next, nextState, refillBeat] at needed ⊢
  rw [state]
  cases isIdle : cache.state with
  | idle =>
      cases asked : port.ifuArvalid <;> simp [isIdle, asked] at needed ⊢
  | _ => simp [request (Or.inl (by simp [isIdle]))]

theorem missRegs_next (same : Same cache other) (port : In)
    (missing : (cache.next port).state = .missAr ∨
      (cache.next port).state = .missR) :
    (cache.next port).missIndexReg = (cache.next port).reqIndex ∧
      (cache.next port).missTagReg = (cache.next port).reqTag := by
  have missRegs := same.missRegs
  have kept (before : cache.state = .missAr ∨ cache.state = .missR) :
      (cache.next port).missIndexReg = (cache.next port).reqIndex ∧
        (cache.next port).missTagReg = (cache.next port).reqTag := by
    obtain ⟨index, tag⟩ := missRegs before
    rcases before with state | state <;>
      simp [next, reqIndex, reqTag, state, index, tag]
  rcases missing with missAr | missR
  · rcases (next_state_missAr missAr).2 with ⟨lookup, miss⟩ | before
    · simp [next, reqIndex, reqTag, lookup, miss]
    · exact kept (Or.inl before)
  · rcases (next_state_missR missR).2 with ⟨before, -⟩ | ⟨before, -⟩
    · exact kept (Or.inl before)
    · exact kept (Or.inr before)

theorem dataArray_next (same : Same cache other) (port : In)
    (equal : other.dataArray = cache.dataArray) :
    (other.next port).dataArray = (cache.next port).dataArray := by
  obtain ⟨-, -, -, -, missIndex, -, missWay, count, -⟩ := same.shared
  change other.nextDataArray port = cache.nextDataArray port
  funext way index word
  simp only [nextDataArray, equal, missIndex, missWay, count,
    same.refillBeat_eq port]

theorem cleared_next (same : Same cache other) (port : In)
    (missAr : (cache.next port).state = .missAr) :
    (cache.next port).refillCnt = 0 := by
  rcases (next_state_missAr missAr).2 with ⟨lookup, miss⟩ | before
  · simp [next, refillBeat, lookup, miss]
  · simp [next, refillBeat, before, same.cleared before]

end Same

namespace SameWords

variable {cache other : ICache params} {port : In}

theorem word_next (same : Same cache other) (way : Bool)
    (index : BitVec params.indexWidth) (word : BitVec params.wordWidth)
    (agree : other.dataArray way index word =
      cache.dataArray way index word) :
    (other.next port).dataArray way index word =
      (cache.next port).dataArray way index word := by
  obtain ⟨-, -, -, -, missIndex, -, missWay, count, -⟩ := same.shared
  change other.nextDataArray port way index word =
    cache.nextDataArray port way index word
  simp only [nextDataArray, agree, missIndex, missWay, count,
    same.refillBeat_eq port]

theorem written_next (same : Same cache other)
    (beat : cache.refillBeat port = true)
    (written : port.isFenceI = false) :
    (other.next port).dataArray cache.missWayReg cache.missIndexReg
        cache.refillCnt =
      (cache.next port).dataArray cache.missWayReg cache.missIndexReg
        cache.refillCnt := by
  obtain ⟨-, -, -, -, missIndex, -, missWay, count, -⟩ := same.shared
  change other.nextDataArray port _ _ _ = cache.nextDataArray port _ _ _
  simp [nextDataArray, missIndex, missWay, count, same.refillBeat_eq port,
    beat, written]

/-- The words up to the counter, with the one that a beat writes. -/
theorem refilled_of_beat (words : SameWords cache other)
    (same : Same cache other) (beat : cache.refillBeat port = true)
    (written : port.isFenceI = false) (word : BitVec params.wordWidth)
    (upTo : word ≤ cache.refillCnt) :
    (other.next port).dataArray cache.missWayReg cache.missIndexReg word =
      (cache.next port).dataArray cache.missWayReg cache.missIndexReg
        word := by
  obtain ⟨missR, -, cacheable⟩ := refillBeat_iff.mp beat
  by_cases now : word = cache.refillCnt
  · rw [now]
    exact written_next same beat written
  · refine word_next same _ _ _ (words.refilled missR cacheable word ?_)
    rw [BitVec.lt_def]
    rw [BitVec.le_def] at upTo
    have different : word.toNat ≠ cache.refillCnt.toNat :=
      fun equal => now (BitVec.eq_of_toNat_eq equal)
    omega

theorem lines_next (words : SameWords cache other) (same : Same cache other)
    (whole : ¬ cache.LeavesWord port) (way : Bool)
    (index : BitVec params.indexWidth)
    (valid : (cache.next port).validArray way index = true) :
    (other.next port).dataArray way index =
      (cache.next port).dataArray way index := by
  funext word
  by_cases fills : cache.refillBeat port = true ∧ port.busRlast = true ∧
      way = cache.missWayReg ∧ index = cache.missIndexReg
  · obtain ⟨beat, last, rfl, rfl⟩ := fills
    have full : port.isFenceI = false ∧
        cache.refillCnt = BitVec.allOnes _ := by
      simpa [LeavesWord, beat, last] using whole
    refine words.refilled_of_beat same beat full.1 word ?_
    rw [full.2, BitVec.le_def, BitVec.toNat_allOnes]
    have bound := word.isLt
    omega
  · have before : cache.validArray way index = true := by
      change cache.nextValidArray port way index = true at valid
      simp only [nextValidArray] at valid
      split_ifs at valid
      exact valid
    exact word_next same way index word
      (congrFun (words.lines way index before) word)

theorem refilled_next (words : SameWords cache other)
    (same : Same cache other) (whole : ¬ cache.LeavesWord port)
    (missR : (cache.next port).state = .missR)
    (cacheable : (cache.next port).isCacheable = true)
    (word : BitVec params.wordWidth)
    (below : word < (cache.next port).refillCnt) :
    (other.next port).dataArray (cache.next port).missWayReg
        (cache.next port).missIndexReg word =
      (cache.next port).dataArray (cache.next port).missWayReg
        (cache.next port).missIndexReg word := by
  rcases (next_state_missR missR).2 with ⟨before, -⟩ | ⟨before, notLast⟩
  · have zero : (cache.next port).refillCnt = 0 := by
      simp [ICache.next, refillBeat, before, same.cleared before]
    rw [zero] at below
    exact absurd below (BitVec.not_lt_zero)
  · obtain ⟨-, sameIndex, -, sameWay⟩ :=
      next_missRegs port (by simp [before] : cache.state ≠ .lookup)
    rw [sameIndex, sameWay]
    have sameCacheable : (cache.next port).isCacheable = cache.isCacheable :=
      (next_request port (by simp [before])).1
    cases beat : cache.refillBeat port with
    | true =>
        have last := notLast (refillBeat_iff.mp beat).2.1
        have written : port.isFenceI = false := by
          simpa [LeavesWord, beat, last] using whole
        have count : (cache.next port).refillCnt = cache.refillCnt + 1 := by
          simp [ICache.next, beat, last]
        refine words.refilled_of_beat same beat written word ?_
        rw [count, BitVec.lt_def, BitVec.toNat_add] at below
        have wraps := Nat.mod_le (cache.refillCnt.toNat +
          (1 : BitVec params.wordWidth).toNat) (2 ^ params.wordWidth)
        have one : (1 : BitVec params.wordWidth).toNat ≤ 1 :=
          Nat.mod_le 1 _
        rw [BitVec.le_def]
        omega
    | false =>
        have count : (cache.next port).refillCnt = cache.refillCnt := by
          simp [ICache.next, beat, before]
        rw [count] at below
        exact word_next same _ _ _
          (words.refilled before (sameCacheable ▸ cacheable) word below)

theorem complete_next (same : Same cache other)
    (whole : ¬ cache.LeavesWord port)
    (complete : (cache.next port).refillComplete = true) :
    (cache.next port).cacheHit = true := by
  have refilled : cache.refillBeat port = true ∧ port.busRlast = true := by
    simpa [ICache.next] using complete
  obtain ⟨beat, last⟩ := refilled
  have written : port.isFenceI = false := by
    simp only [LeavesWord, beat, true_and, not_or] at whole
    simpa using whole.1
  obtain ⟨index, tag⟩ := same.missRegs (Or.inr (refillBeat_iff.mp beat).1)
  exact cacheHit_of_last beat last written index tag

theorem next (words : SameWords cache other) (same : Same cache other)
    (whole : ¬ cache.LeavesWord port) :
    SameWords (cache.next port) (other.next port) where
  lines := words.lines_next same whole
  refilled := words.refilled_next same whole
  complete := complete_next same whole

end SameWords

theorem Same.next {cache other : ICache params} (same : Same cache other)
    (port : In) (whole : other.dataArray = cache.dataArray ∨
      ¬ cache.LeavesWord port) :
    Same (cache.next port) (other.next port) where
  visible := same.visible_next port
  tags := same.tags_next port
  request := same.request_next port
  missRegs := same.missRegs_next port
  cleared := same.cleared_next port
  words := by
    rcases same.words with equal | words
    · exact Or.inl (same.dataArray_next port equal)
    · rcases whole with equal | whole
      · exact Or.inl (same.dataArray_next port equal)
      · exact Or.inr (words.next same whole)

end Ysyx.Rtl.ICache
