import Ysyx.Memory.Routing
import Ysyx.Pipeline.FetchPairing
import Ysyx.Pipeline.Order

/-!
# Behind a mispredict

A mispredict leaves ID/EX alone.  The fetch runs only in front of an empty
IF/ID, so that behind the instruction in EX there is one younger instruction
at most, and none that the mispredict would have to take back.
-/

namespace Ysyx.Rtl

variable {platform : Platform}

/-! ## The cache behind a fetch unit at rest -/

namespace Routing

variable {routing : Routing platform} {wish : AxiIn}

/-- An uncached fetch gets its word with the last beat of its burst. -/
theorem Routed.last_of_uncached (routed : Routed routing)
    (missR : routing.core.icache.state = .missR)
    (uncached : routing.core.icache.isCacheable = false)
    (valid : routing.core.bus.ifuRvalid (routing.axi wish) = true) :
    (routing.axi wish).rlast = true := by
  obtain ⟨held, outstanding, request, -⟩ := routed.refilling missR
  rw [routed.ifuRvalid_eq wish outstanding (by rw [request])] at valid
  obtain ⟨rvalid, receives⟩ := routed.moves_of_beat valid
  obtain ⟨burst, served⟩ := routed.stands.serving_of_receives receives
  obtain ⟨-, held', outstanding', isBurst⟩ := routed.stands.serving served
  obtain rfl : held' = held :=
    Option.some.inj (outstanding'.symm.trans outstanding)
  have oneBeat : held'.request.len = 0 := by
    rw [request, ICache.busArlen, uncached]
    rfl
  have none : held'.beats.length = 0 := by
    have inBurst := routed.stands.inBurst outstanding receives
    simpa [oneBeat] using inBurst
  rw [rlast_of_serving served rvalid, isBurst, Axi.Serving.isLast, oneBeat,
    none]
  rfl

/-- What the slave drives in every cycle of a run. -/
def inputs (wishes : Nat → AxiIn) (power : Core platform) (cycle : Nat) :
    AxiIn :=
  (run wishes power cycle).axi (wishes cycle)

theorem run_core (wishes : Nat → AxiIn) (power : Core platform)
    (cycle : Nat) :
    (run wishes power cycle).core =
      power.reset.run (inputs wishes power) cycle := by
  induction cycle with
  | zero =>
      rfl
  | succ cycle inductionHypothesis =>
      change (run wishes power cycle).core.step _ = _
      rw [inductionHypothesis]
      rfl

end Routing

/-- The cache is idle unless the fetch unit waits for it. -/
def Core.CacheFollows (core : Core platform) : Prop :=
  core.ifu.state ≠ .waitR → core.icache.state = .idle

theorem cacheFollows_step {routing : Routing platform} {wish : AxiIn}
    {fetching : Fetching platform} (same : fetching.core = routing.core)
    (routed : routing.Routed) (paired : fetching.Paired)
    (follows : routing.core.CacheFollows) :
    (routing.step wish).core.CacheFollows := by
  intro atRest
  have sameStep : (fetching.step (routing.axi wish)).core =
      (routing.step wish).core := by
    change fetching.core.step _ = _
    rw [same]
    rfl
  rw [← sameStep] at atRest ⊢
  rcases ((paired.step _).resting atRest).2 with idle | ⟨missR, uncached⟩
  · exact idle
  · exfalso
    obtain ⟨noJump, before⟩ := ICache.next_state_missR missR
    have waited : fetching.core.ifu.state = .waitR := by
      by_contra rested
      rw [same] at rested before
      rw [follows rested] at before
      simp at before
    have answered := paired.answered_of_leaving _ noJump waited atRest
    rcases (paired.answered_iff _ waited).mp answered with
      ⟨looksUp, -⟩ | ⟨wasMissR, uncached, valid⟩ | refilled
    · rw [looksUp] at before
      simp at before
    · -- The beat that answers an uncached fetch ends its burst.
      obtain ⟨-, notLast⟩ := before.resolve_left (by simp [wasMissR])
      have isLast : (routing.axi wish).rlast = true := by
        rw [same] at wasMissR uncached valid
        exact routed.last_of_uncached wasMissR uncached valid
      exact Bool.false_ne_true ((notLast valid).symm.trans isLast)
    · rw [(paired.refilled refilled).1] at before
      simp at before

theorem run_cacheFollows (wishes : Nat → AxiIn) (power : Core platform)
    (cycle : Nat) : (Routing.run wishes power cycle).core.CacheFollows := by
  induction cycle with
  | zero =>
      exact fun _ => rfl
  | succ cycle inductionHypothesis =>
      refine cacheFollows_step ?_ (Routing.run_routed wishes power cycle)
        (Fetching.run_paired (Routing.inputs wishes power) power cycle)
        inductionHypothesis
      exact (Fetching.run_core _ _ _).trans
        (Routing.run_core wishes power cycle).symm

namespace Tracked

/-! ## What can still enter EX -/

/-- `ticket` is of the instruction in EX, or of one that IFU had not yet
handed over when `nextTag` was the next number. -/
structure NoneBetween (ticket : Ticket) (nextTag : Nat)
    (tracked : Tracked platform) : Prop where
  next : nextTag ≤ tracked.nextTag
  id : ∀ later, tracked.id = some later → nextTag ≤ later.tag
  ex : ∀ later, tracked.ex = some later →
    later = ticket ∨ nextTag ≤ later.tag

theorem noneBetween_of_mispredict {tracked : Tracked platform}
    {ticket : Ticket} (synced : Synced tracked)
    (behind : tracked.core.OneBehind) (inEx : tracked.ex = some ticket)
    (wrong : tracked.core.exMispredict = true) :
    NoneBetween ticket tracked.nextTag tracked where
  next := le_rfl
  id := by
    intro later inId
    have straight := behind.straight (synced.id.valid inId)
    rw [wrong] at straight
    contradiction
  ex := by
    intro later isEx
    exact Or.inl (Option.some.inj (isEx.symm.trans inEx))

theorem noneBetween_step {ticket : Ticket} {nextTag : Nat} (axi : AxiIn)
    (tracked : Tracked platform)
    (between : NoneBetween ticket nextTag tracked) :
    NoneBetween ticket nextTag (tracked.step axi) where
  next := between.next.trans (le_nextTag_step axi tracked)
  id := by
    intro later inId
    rcases id_step_cases inId with isNext | ⟨source, stayed, same⟩
    · rw [isNext]
      exact between.next
    · rw [same]
      exact between.id source stayed
  ex := by
    intro later inEx
    rcases (advance_eq_some.mp inEx).2 with ⟨_, isDecoded⟩ | ⟨_, stayed⟩
    · obtain ⟨source, inId, rfl⟩ := decoded_eq_some.mp isDecoded
      exact Or.inr (between.id source inId)
    · exact between.ex later stayed

end Tracked

/-! ## Main result -/

/-- Whatever is fetched and whenever the bus answers: in front of a valid
IF/ID the fetch unit and the cache are idle, and a mispredict finds IF/ID
empty.  What is in ID/EX from then on is the mispredicted instruction or one
that was fetched after it. -/
theorem mispredict_noneYounger (wishes : Nat → AxiIn)
    (power : Core platform) (cycle : Nat) :
    let tracked := Tracked.run (Routing.inputs wishes power) power
    ((tracked cycle).core.ifId.validOut = true →
        (tracked cycle).core.ifu.state = .idle ∧
          (tracked cycle).core.icache.state = .idle) ∧
      ((tracked cycle).core.exMispredict = true →
        (tracked cycle).core.ifId.validOut = false ∧
          (tracked (cycle + 1)).core.FrontEmpty ∧
          ∃ ticket, (tracked cycle).ex = some ticket ∧
            ∀ later, cycle ≤ later → ∀ other,
              (tracked later).ex = some other →
                other = ticket ∨ (tracked cycle).nextTag ≤ other.tag) := by
  intro tracked
  have behind := (Tracked.run_fetchSteered
    (Routing.inputs wishes power) power cycle).behind
  have synced := Tracked.run_synced (Routing.inputs wishes power) power cycle
  have follows := run_cacheFollows wishes power cycle
  rw [Routing.run_core, ← Tracked.run_core] at follows
  constructor
  · intro valid
    have idle := (behind.fetch_idle valid).1
    exact ⟨idle, follows (by simp [idle])⟩
  · intro wrong
    obtain ⟨ticket, inEx⟩ :=
      synced.ex.exists_ticket (Core.valid_of_exMispredict wrong)
    have jump : (tracked cycle).core.jumpReq = true := by
      rw [Core.jumpReq, wrong, Bool.or_true]
    refine ⟨behind.noWrongPath wrong, Core.frontEmpty_of_jump _ jump,
      ticket, inEx, ?_⟩
    intro later after
    exact (Machine.run_invariant_after
      (Tracked.noneBetween_of_mispredict synced behind inEx wrong)
      Tracked.noneBetween_step later after).ex

end Ysyx.Rtl
