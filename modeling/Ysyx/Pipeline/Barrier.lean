import Ysyx.Pipeline.FrontEnd
import Ysyx.Pipeline.Precise

/-!
# A `fence.i` in the pipeline

While a `fence.i` is on its way, it is decoded whenever the fetch unit waits
for the word behind it, and then nothing older is left but what is in MEM.
-/

namespace Ysyx.Rtl.Tracked

variable {platform : Platform}

/-! ## A `fence.i` on its way -/

/-- The fetch unit hands over a `fence.i`, which receives this number. -/
def FenceAt (tracked : Tracked platform) (tag : Nat) : Prop :=
  (∃ ticket, tracked.handed = some ticket ∧ ticket.tag = tag) ∧
    iduIsFenceI tracked.core.ifIdIn.inst = true

theorem handed_eq_some {tracked : Tracked platform} {ticket : Ticket} :
    tracked.handed = some ticket ↔
      tracked.core.jumpReq = false ∧ tracked.core.ifIdReadyOut = true ∧
        tracked.core.ifu.outValid = true ∧
        { tag := tracked.nextTag } = ticket := by
  simp only [handed, advance_eq_some, fetched]
  grind

/-- While the `fence.i` is in ID it is decoded.  While it is in EX it is still
decoded, unless the next instruction is behind it or EX flushes the fetch. -/
structure FenceHeld (tag : Nat) (tracked : Tracked platform) : Prop where
  fresh : tag < tracked.nextTag
  id : ∀ ticket, tracked.id = some ticket → ticket.tag = tag →
    tracked.core.isFenceI = true
  ex : ∀ ticket, tracked.ex = some ticket → ticket.tag = tag →
    tracked.core.isFenceI = true ∧ tracked.core.ifId.validOut = false ∨
      tracked.core.ifId.validOut = true ∨
      tracked.core.exMispredict = true ∧ tracked.core.ifu.state = .idle

section Step

variable {tracked : Tracked platform} {tag : Nat} (axi : AxiIn)

theorem fenceHeld_of_handed (synced : Synced tracked)
    (inOrder : InOrder tracked) (fence : FenceAt tracked tag) :
    FenceHeld tag (tracked.step axi) ∧
      (tracked.step axi).core.ifId.validOut = true ∧
      (tracked.step axi).core.isFenceI = true := by
  obtain ⟨⟨ticket, isHanded, rfl⟩, isFence⟩ := fence
  obtain ⟨noJump, ready, valid, rfl⟩ := handed_eq_some.mp isHanded
  have ifId : (tracked.step axi).core.ifId = ⟨tracked.core.ifIdIn, true⟩ := by
    simp [step, Core.step_ifId, noJump, ready, valid]
  have decoded : (tracked.step axi).core.isFenceI = true := by
    rw [Core.isFenceI, Core.idInst, ifId]
    exact isFence
  have inId : (tracked.step axi).id = some { tag := tracked.nextTag } := by
    simp [step, advance, fetched, noJump, ready, valid]
  refine ⟨⟨?_, fun _ _ _ => decoded, ?_⟩, by rw [ifId], decoded⟩
  · simp [step, noJump, ready, valid]
  · intro ticket inEx sameTag
    have older := (inOrder_step axi _ synced inOrder).ex_lt_id inEx inId
    change ticket.tag < tracked.nextTag at older
    change ticket.tag = tracked.nextTag at sameTag
    omega

/-- The cycle in which the `fence.i` enters EX. -/
theorem FenceHeld.entersEx (synced : Synced tracked)
    (behind : tracked.core.OneBehind) (held : FenceHeld tag tracked)
    {source : Ticket} (inId : tracked.id = some source)
    (sameTag : source.tag = tag)
    (ready : tracked.core.idExReadyOut = true)
    (noFlush : tracked.core.idExFlush = false) :
    (tracked.step axi).core.isFenceI = true ∧
      (tracked.step axi).core.ifId.validOut = false := by
  have valid : tracked.core.ifId.validOut = true := synced.id.valid inId
  obtain ⟨noBubble, noTrap⟩ : tracked.core.idExFlushHazard = false ∧
      tracked.core.globalTrapFlush = false := by
    simpa [Core.idExFlush] using noFlush
  have noStall : tracked.core.hazardStall = false := by
    simpa [Core.idExFlushHazard, ready] using noBubble
  have noWrong := behind.straight valid
  have noJump : tracked.core.jumpReq = false := by
    simp [Core.jumpReq, noTrap, noWrong]
  have leaves : tracked.core.ifIdReadyOut = true := by
    simp [Core.ifIdReadyOut_eq, ready, noStall]
  have nothing := (behind.fetch_idle valid).2
  have ifId : (tracked.step axi).core.ifId =
      ⟨tracked.core.ifId.dataOut, false⟩ := by
    simp [step, Core.step_ifId, noJump, leaves, nothing]
  constructor
  · rw [Core.isFenceI, Core.idInst, ifId]
    exact held.id source inId sameTag
  · rw [ifId]

/-- A cycle in which the `fence.i` stays in EX. -/
theorem FenceHeld.staysEx (synced : Synced tracked)
    (held : FenceHeld tag tracked)
    {ticket : Ticket} (inEx : tracked.ex = some ticket)
    (sameTag : ticket.tag = tag)
    (stall : tracked.core.idExReadyOut = false)
    (noTrap : tracked.core.globalTrapFlush = false) :
    (tracked.step axi).core.isFenceI = true ∧
        (tracked.step axi).core.ifId.validOut = false ∨
      (tracked.step axi).core.ifId.validOut = true ∨
      (tracked.step axi).core.exMispredict = true ∧
        (tracked.step axi).core.ifu.state = .idle := by
  have exValid : tracked.core.idEx.validOut = true := synced.ex.valid inEx
  have exStall := ((Core.idEx_stalled_iff _).mp stall).1
  cases wrong : tracked.core.exMispredict with
  | true =>
      right
      right
      have same := Core.exMispredict_step axi exValid exStall noTrap
      have flush : (tracked.core.ifuPort axi).flushReq = true := by
        simp [Core.ifuPort, Core.ifuFlushReq, Core.jumpReq, wrong]
      refine ⟨same.trans wrong, ?_⟩
      change (tracked.core.ifu.next _).state = _
      simp [Ifu.next, flush]
  | false =>
      have noJump : tracked.core.jumpReq = false := by
        simp [Core.jumpReq, noTrap, wrong]
      rcases held.ex ticket inEx sameTag with
        ⟨fence, empty⟩ | valid | ⟨isWrong, -⟩
      · have ready := Core.ifIdReadyOut_of_invalid empty
        cases handed : tracked.core.ifu.outValid with
        | true =>
            right
            left
            simp [step, Core.step_ifId, noJump, ready, handed]
        | false =>
            left
            have ifId : (tracked.step axi).core.ifId =
                ⟨tracked.core.ifId.dataOut, false⟩ := by
              simp [step, Core.step_ifId, noJump, ready, handed]
            constructor
            · rw [Core.isFenceI, Core.idInst, ifId]
              exact fence
            · rw [ifId]
      · right
        left
        have notReady : tracked.core.ifIdReadyOut = false := by
          simp [Core.ifIdReadyOut_eq, stall, valid]
        simp [step, Core.step_ifId, noJump, notReady, valid]
      · rw [wrong] at isWrong
        contradiction

theorem FenceHeld.step (synced : Synced tracked)
    (behind : tracked.core.OneBehind) (held : FenceHeld tag tracked) :
    FenceHeld tag (tracked.step axi) where
  fresh := held.fresh.trans_le (le_nextTag_step axi tracked)
  id := by
    intro ticket inId sameTag
    obtain ⟨noJump, ⟨-, isFetched⟩ | ⟨stall, stayed⟩⟩ :=
      advance_eq_some.mp inId
    · unfold fetched at isFetched
      split_ifs at isFetched
      cases isFetched
      have fresh := held.fresh
      change tracked.nextTag = tag at sameTag
      omega
    · obtain ⟨source, wasInId, rfl⟩ := Option.map_eq_some_iff.mp stayed
      have same : (tracked.step axi).core.ifId = tracked.core.ifId := by
        simp [Tracked.step, Core.step_ifId, noJump, stall]
      rw [Core.isFenceI, Core.idInst, same]
      exact held.id source wasInId sameTag
  ex := by
    intro ticket inEx sameTag
    obtain ⟨noFlush, ⟨ready, isDecoded⟩ | ⟨stall, stayed⟩⟩ :=
      advance_eq_some.mp inEx
    · obtain ⟨source, inId, rfl⟩ := decoded_eq_some.mp isDecoded
      exact Or.inl
        (held.entersEx axi synced behind inId sameTag ready noFlush)
    · have noTrap : tracked.core.globalTrapFlush = false := by
        simp_all [Core.idExFlush]
      exact held.staysEx axi synced stayed sameTag stall noTrap

/-- A number that is not the next one has been in the pipeline before. -/
theorem mem_pipelineTags_of_step (synced : Synced tracked)
    (fresh : tag < tracked.nextTag)
    (member : tag ∈ (tracked.step axi).pipelineTags) :
    tag ∈ tracked.pipelineTags := by
  have before := (pipelineTags_step axi synced).subset member
  have notHanded : tag ∉ tagsOf tracked.handed := by
    intro isHanded
    obtain ⟨ticket, handed, rfl⟩ := by
      simpa only [tagsOf, Option.mem_toList, Option.map_eq_some_iff]
        using isHanded
    obtain ⟨-, -, -, rfl⟩ := handed_eq_some.mp handed
    exact absurd fresh (lt_irrefl _)
  simp only [pipelineTags, List.mem_append] at before ⊢
  tauto

end Step

/-! ## Older stores -/

/-- No instruction in front of MEM is older than this number, and an older one
in MEM is not a pending store. -/
structure Drained (tag : Nat) (tracked : Tracked platform) : Prop where
  next : tag ≤ tracked.nextTag
  id : ∀ ticket, tracked.id = some ticket → tag ≤ ticket.tag
  ex : ∀ ticket, tracked.ex = some ticket → tag ≤ ticket.tag
  mem : ∀ ticket, tracked.mem = some ticket → ticket.tag < tag →
    ¬ tracked.core.StorePending

theorem Floor.drained {tag : Nat} {tracked : Tracked platform}
    (floor : Floor tag tracked) : Drained tag tracked where
  next := floor.next
  id := floor.id
  ex := floor.ex
  mem := fun ticket inMem older =>
    absurd (floor.mem ticket inMem) (Nat.not_le.mpr older)

/-- Behind a `fence.i` in the pipeline nothing older is left when the fetch
unit waits, if no fetch overtakes a store. -/
theorem FenceHeld.drained {tag : Nat} {tracked : Tracked platform}
    (held : FenceHeld tag tracked) (synced : Synced tracked)
    (inOrder : InOrder tracked) (behind : tracked.core.OneBehind)
    (alive : tag ∈ tracked.pipelineTags)
    (waiting : tracked.core.ifu.state = .waitR)
    (noOvertake : tracked.core.isFenceI = true →
      ¬ tracked.core.StorePending) : Drained tag tracked := by
  have empty := behind.exclusive (by simp [waiting])
  simp only [pipelineTags, List.mem_append, tagsOf, Option.mem_toList,
    Option.map_eq_some_iff] at alive
  rcases alive with ((⟨ticket, inWb, rfl⟩ | ⟨ticket, inMem, rfl⟩) |
    ⟨ticket, inEx, rfl⟩) | ⟨ticket, inId, rfl⟩
  · exact (floor_of_wb inOrder inWb).drained
  · exact (floor_of_mem inOrder inMem).drained
  · have fence : tracked.core.isFenceI = true := by
      rcases held.ex ticket inEx rfl with ⟨fence, -⟩ | valid | ⟨-, idle⟩
      · exact fence
      · rw [empty] at valid
        contradiction
      · rw [waiting] at idle
        contradiction
    exact
      { next := held.fresh.le
        id := fun _ inId => (inOrder.ex_lt_id inEx inId).le
        ex := fun other same => by
          rw [inEx] at same
          exact (congrArg Ticket.tag (Option.some.inj same)).le
        mem := fun _ _ _ => noOvertake fence }
  · exact absurd (synced.id.valid inId) (by simp [empty])

end Ysyx.Rtl.Tracked
