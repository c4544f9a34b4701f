import Ysyx.Memory.Fetches
import Ysyx.Memory.Landing
import Ysyx.Pipeline.Barrier

/-!
# Fetches behind a `fence.i`

What the fetch unit hands over behind a `fence.i` that commits, in a core in
front of a memory: words that the memory held when every older store had been
performed, unless the barrier itself gets in the way of a refill or a fetch
overtakes a store.
-/

namespace Ysyx.Rtl

variable {platform : Platform}

/-! ## Cycles -/

namespace Core

/-- The cache waits for a burst behind a `fence.i` while a store is
pending. -/
def Overtakes (core : Core platform) : Prop :=
  core.icache.state = .missR ∧ core.isFenceI = true ∧ core.StorePending

/-- A cycle that keeps the barrier: no refill beat is suppressed, no refill is
cut, no fetch overtakes a store, and no access escapes from a flush. -/
structure KeepsBarrier (core : Core platform) (axi : AxiIn) : Prop where
  noSkip : ¬ core.icache.Skips (core.icachePort axi)
  noCut : ¬ core.icache.Cuts (core.icachePort axi)
  noOvertake : ¬ core.Overtakes
  contained : core.trapEscape = false

end Core

/-! ## Runs -/

/-- What a run of the core in front of a memory starts from, and what the
memory chooses in every cycle. -/
structure PowerOn (platform : Platform) where
  core : Core platform
  bytes : Axi.Bytes
  choices : Nat → Axi.Choice

namespace PowerOn

def start (power : PowerOn platform) : System platform :=
  ⟨power.core.reset, { bytes := power.bytes }⟩

def system (power : PowerOn platform) (cycle : Nat) : System platform :=
  power.start.run power.choices cycle

/-- What the memory drives. -/
def axi (power : PowerOn platform) (cycle : Nat) : AxiIn :=
  power.start.inputs power.choices cycle

def tracked (power : PowerOn platform) (cycle : Nat) : Tracked platform :=
  Tracked.run power.axi power.core cycle

def fetching (power : PowerOn platform) (cycle : Nat) : Fetching platform :=
  Fetching.run power.axi power.core cycle

/-- The LSU starts the store of this instruction. -/
def StartsStore (power : PowerOn platform) (cycle tag : Nat) : Prop :=
  (∃ ticket, (power.tracked cycle).mem = some ticket ∧ ticket.tag = tag) ∧
    (power.tracked cycle).core.lsu.storeStart
      (power.tracked cycle).core.lsuPort = true

/-- The memory performs this write. -/
def Performs (power : PowerOn platform) (cycle : Nat)
    (write : Word × Word × BitVec 4) : Prop :=
  (power.system cycle).memory.request = some write ∧
    (power.choices cycle).perform = true

/-- All stores older than this instruction have taken effect: none is still in
the pipeline, and the memory has performed those that the LSU has started. -/
structure Settled (power : PowerOn platform) (tag moment : Nat) : Prop where
  drained : (power.tracked moment).Drained tag
  performed : ∀ cycle, cycle < moment → ∀ older, older < tag →
    power.StartsStore cycle older →
    ∃ landing, cycle < landing ∧ landing < moment ∧
      power.Performs landing (power.tracked cycle).core.storeWrite

/-- The instruction commits. -/
def CommitsAt (power : PowerOn platform) (cycle tag : Nat) : Prop :=
  ∃ ticket, (power.tracked cycle).wb = some ticket ∧ ticket.tag = tag

/-- What is handed over in this cycle is, behind every `fence.i` that commits,
a word that the memory held when all stores older than the `fence.i` had taken
effect. -/
def CoherentAt (power : PowerOn platform) (later : Nat) : Prop :=
  ∀ fence commit tag, fence < later →
    (power.tracked fence).FenceAt tag → power.CommitsAt commit tag →
    (power.tracked later).handed ≠ none →
    ∃ moment, fence < moment ∧ moment < later ∧ power.Settled tag moment ∧
      (power.tracked later).core.ifIdIn.inst =
        (power.system moment).memory.bytes.word
          (power.tracked later).core.ifIdIn.pc

variable {power : PowerOn platform}

theorem tracked_core (power : PowerOn platform) (cycle : Nat) :
    (power.tracked cycle).core = (power.system cycle).core := by
  rw [system, System.run_core]
  exact Tracked.run_core _ _ _

theorem fetching_core (power : PowerOn platform) (cycle : Nat) :
    (power.fetching cycle).core = (power.tracked cycle).core := by
  rw [fetching, Fetching.run_core]
  exact (Tracked.run_core _ _ _).symm

theorem writeWired
    (quiet : power.core.bus.write.lsuBvalidReg = false) (cycle : Nat) :
    WriteWired ⟨(power.tracked cycle).core, (power.system cycle).memory⟩ := by
  rw [tracked_core]
  exact Machine.run_invariant (WriteWired.reset quiet power.bytes)
    (fun choice _ wired => wired.step choice) cycle

/-- A store that the LSU has started is under way until it is performed. -/
theorem underWay_or_performed
    (quiet : power.core.bus.write.lsuBvalidReg = false)
    {start moment tag : Nat} (after : start < moment)
    (contained : ∀ cycle, cycle < moment →
      (power.tracked cycle).core.trapEscape = false)
    (starts : power.StartsStore start tag) :
    UnderWay tag (power.tracked start).core.storeWrite
        (∃ landing, start < landing ∧ landing < moment ∧
          power.Performs landing (power.tracked start).core.storeWrite)
        (power.tracked moment) (power.system moment).memory ∨
      ∃ landing, start < landing ∧ landing < moment ∧
        power.Performs landing (power.tracked start).core.storeWrite := by
  induction moment, after using Nat.le_induction with
  | base =>
      left
      have ofStart := Tracked.run_contained power.axi power.core start
        fun earlier before => contained earlier (by omega)
      have memory : (power.system (start + 1)).memory =
          (power.system start).memory.step (power.choices start)
            (power.system start).core.bus.axiOut := rfl
      rw [memory, ← tracked_core]
      exact UnderWay.start (power.writeWired quiet start)
        ofStart.owned (contained start (by omega)) starts.1 starts.2
  | succ moment after inductionHypothesis =>
      have earlier := inductionHypothesis fun cycle before =>
        contained cycle (by omega)
      have ofMoment := Tracked.run_contained power.axi power.core moment
        fun earlier before => contained earlier (by omega)
      rcases earlier with underWay | ⟨landing, behind, before, performs⟩
      · have memory : (power.system (moment + 1)).memory =
            (power.system moment).memory.step (power.choices moment)
              (power.system moment).core.bus.axiOut := rfl
        rw [memory, ← tracked_core]
        refine underWay.step (power.writeWired quiet moment)
          ofMoment.owned (contained moment (by omega)) ?_ ?_
        · rintro ⟨landing, behind, before, performs⟩
          exact ⟨landing, behind, by omega, performs⟩
        · intro request performs
          exact ⟨moment, after, by omega, request, performs⟩
      · exact Or.inr ⟨landing, behind, by omega, performs⟩

theorem settled_of_drained
    (quiet : power.core.bus.write.lsuBvalidReg = false) {moment tag : Nat}
    (contained : ∀ cycle, cycle < moment →
      (power.tracked cycle).core.trapEscape = false)
    (drained : (power.tracked moment).Drained tag) :
    power.Settled tag moment where
  drained := drained
  performed := by
    intro cycle before older isOlder starts
    rcases underWay_or_performed quiet before contained starts with
      underWay | performed
    · have ofMoment := Tracked.run_contained power.axi power.core moment
        contained
      obtain ⟨ticket, inMem, rfl⟩ := underWay.mem
      exact absurd (underWay.storePending ofMoment.owned)
        (drained.mem ticket inMem isOlder)
    · exact performed

/-- What the memory has held since all stores older than the `fence.i` have
taken effect. -/
def Seen (power : PowerOn platform) (fence tag now : Nat)
    (addr data : Word) : Prop :=
  ∃ moment, fence < moment ∧ moment < now ∧ power.Settled tag moment ∧
    data = (power.system moment).memory.bytes.word addr

theorem Seen.later {fence tag now : Nat} (addr data : Word)
    (seen : power.Seen fence tag now addr data) :
    power.Seen fence tag (now + 1) addr data := by
  obtain ⟨moment, after, before, settled, same⟩ := seen
  exact ⟨moment, after, by omega, settled, same⟩

theorem behind (power : PowerOn platform) (cycle : Nat) :
    (power.tracked cycle).core.OneBehind :=
  (Tracked.run_fetchSteered power.axi power.core cycle).behind

theorem fenceHeld {fence tag : Nat}
    (isFence : (power.tracked fence).FenceAt tag) {cycle : Nat}
    (after : fence < cycle) : (power.tracked cycle).FenceHeld tag := by
  induction cycle, after using Nat.le_induction with
  | base =>
      exact (Tracked.fenceHeld_of_handed _
        (Tracked.run_synced power.axi power.core fence)
        (Tracked.run_inOrder power.axi power.core fence) isFence).1
  | succ cycle _ inductionHypothesis =>
      exact inductionHypothesis.step _
        (Tracked.run_synced power.axi power.core cycle) (power.behind cycle)

/-- A `fence.i` that commits is in the pipeline until then. -/
theorem alive {fence commit tag : Nat}
    (isFence : (power.tracked fence).FenceAt tag)
    (commits : power.CommitsAt commit tag) {cycle : Nat}
    (after : fence < cycle) (before : cycle ≤ commit) :
    tag ∈ (power.tracked cycle).pipelineTags := by
  obtain ⟨delay, rfl⟩ := Nat.exists_eq_add_of_le before
  clear before
  induction delay generalizing cycle with
  | zero =>
      obtain ⟨ticket, inWb, rfl⟩ := commits
      have member := Tracked.mem_tagsOf inWb
      simp only [Tracked.pipelineTags, List.mem_append]
      exact Or.inl (Or.inl (Or.inl member))
  | succ delay inductionHypothesis =>
      refine Tracked.mem_pipelineTags_of_step (power.axi cycle)
        (Tracked.run_synced power.axi power.core cycle)
        (fenceHeld isFence after).fresh ?_
      have position : cycle + (delay + 1) = cycle + 1 + delay := by omega
      rw [position] at commits
      have later := inductionHypothesis (show fence < cycle + 1 by omega) commits
      exact later

/-- From the hand-over of a `fence.i` on, nothing older is left when the cache
waits for a burst. -/
theorem drained {fence commit tag : Nat}
    (isFence : (power.tracked fence).FenceAt tag)
    (commits : power.CommitsAt commit tag) {cycle : Nat}
    (after : fence < cycle)
    (waiting : (power.tracked cycle).core.ifu.state = .waitR)
    (missR : (power.tracked cycle).core.icache.state = .missR)
    (noOvertake : ¬ (power.tracked cycle).core.Overtakes) :
    (power.tracked cycle).Drained tag := by
  by_cases before : cycle ≤ commit
  · exact (fenceHeld isFence after).drained
      (Tracked.run_synced power.axi power.core cycle)
      (Tracked.run_inOrder power.axi power.core cycle) (power.behind cycle)
      (alive isFence commits after before) waiting
      fun decoded pending => noOvertake ⟨missR, decoded, pending⟩
  · obtain ⟨ticket, inWb, rfl⟩ := commits
    have floor := Tracked.floor_of_wb
      (Tracked.run_inOrder power.axi power.core commit) inWb
    have later : Tracked.Floor ticket.tag (power.tracked cycle) :=
      Machine.run_invariant_after floor Tracked.floor_step cycle (by omega)
    exact later.drained

/-! ## Coherence -/

/-- The words that the fetch unit presents in this cycle are right. -/
def DeliversAt (power : PowerOn platform) (Right : Word → Word → Prop)
    (cycle : Nat) : Prop :=
  (power.fetching cycle).Delivers Right (power.system cycle).memory

theorem memory_succ (power : PowerOn platform) (cycle : Nat) :
    (power.system (cycle + 1)).memory =
      (power.system cycle).memory.step (power.choices cycle)
        (power.fetching cycle).core.bus.axiOut := by
  rw [fetching_core, tracked_core]
  rfl

theorem DeliversAt.step {Right Wider : Word → Word → Prop} {cycle : Nat}
    (delivers : power.DeliversAt Right cycle)
    (keeps : (power.tracked cycle).core.KeepsBarrier (power.axi cycle))
    (wider : ∀ addr data, Right addr data → Wider addr data)
    (now : (power.tracked cycle).core.icache.state = .missR → ∀ addr,
      Wider (Axi.Bytes.align addr)
        ((power.system cycle).memory.bytes.word addr)) :
    power.DeliversAt Wider (cycle + 1) := by
  rw [← fetching_core] at keeps now
  rw [DeliversAt, memory_succ]
  exact Fetching.Delivers.step delivers
    (Fetching.run_paired power.axi power.core cycle) _ wider now keeps.noSkip
    keeps.noCut

theorem deliversAt_of_kept {cycle : Nat}
    (kept : ∀ earlier, earlier < cycle →
      (power.tracked earlier).core.KeepsBarrier (power.axi earlier)) :
    power.DeliversAt (fun _ _ => True) cycle := by
  induction cycle with
  | zero =>
      exact Fetching.delivers_reset _ power.core power.bytes
  | succ cycle inductionHypothesis =>
      have before := inductionHypothesis fun earlier isEarlier =>
        kept earlier (by omega)
      exact before.step (kept cycle (by omega)) (fun _ _ _ => trivial)
        fun _ _ => trivial

theorem deliversAt_seen
    (quiet : power.core.bus.write.lsuBvalidReg = false)
    {fence commit tag : Nat} (isFence : (power.tracked fence).FenceAt tag)
    (commits : power.CommitsAt commit tag) {later : Nat}
    (after : fence + 2 ≤ later)
    (kept : ∀ cycle, cycle < later →
      (power.tracked cycle).core.KeepsBarrier (power.axi cycle)) :
    power.DeliversAt (power.Seen fence tag later) later := by
  induction later, after using Nat.le_induction with
  | base =>
      have before : power.DeliversAt (fun _ _ => True) (fence + 1) :=
        deliversAt_of_kept fun earlier isEarlier =>
          kept earlier (by omega)
      obtain ⟨-, valid, decoded⟩ := Tracked.fenceHeld_of_handed
        (power.axi fence) (Tracked.run_synced power.axi power.core fence)
        (Tracked.run_inOrder power.axi power.core fence) isFence
      have idle := ((power.behind (fence + 1)).fetch_idle valid).1
      change (power.tracked (fence + 1)).core.isFenceI = true at decoded
      rw [← fetching_core] at idle decoded
      rw [DeliversAt, memory_succ]
      exact Fetching.Delivers.cleared before
        (Fetching.run_paired power.axi power.core (fence + 1)) _ idle decoded
  | succ later after inductionHypothesis =>
      have delivers := inductionHypothesis fun cycle before =>
        kept cycle (by omega)
      refine delivers.step (kept later (by omega)) Seen.later ?_
      intro missR addr
      have waiting : (power.tracked later).core.ifu.state = .waitR := by
        rw [← fetching_core] at missR ⊢
        exact delivers.waiting_of_missR (by rw [missR]; nofun)
      refine ⟨later, by omega, by omega, ?_,
        (Axi.Bytes.word_align _ addr).symm⟩
      exact settled_of_drained quiet
        (fun cycle before => (kept cycle (by omega)).contained)
        (drained isFence commits (by omega) waiting missR
          (kept later (by omega)).noOvertake)

/-- In every run from reset in which the write response is clear at power-up,
whatever the memory chooses, every word handed over behind a `fence.i` that
commits is one that the memory held when all older stores had taken effect, if
every cycle up to then keeps the barrier. -/
theorem coherentAt_of_kept
    (quiet : power.core.bus.write.lsuBvalidReg = false) {later : Nat}
    (kept : ∀ cycle, cycle < later →
      (power.tracked cycle).core.KeepsBarrier (power.axi cycle)) :
    power.CoherentAt later := by
  intro fence commit tag after isFence commits isHanded
  obtain ⟨ticket, handed⟩ := Option.ne_none_iff_exists'.mp isHanded
  obtain ⟨-, -, outValid, -⟩ := Tracked.handed_eq_some.mp handed
  -- IF/ID holds the `fence.i` in the first cycle, and nothing is fetched
  have notFirst : later ≠ fence + 1 := by
    rintro rfl
    obtain ⟨-, valid, -⟩ := Tracked.fenceHeld_of_handed
      (power.axi fence) (Tracked.run_synced power.axi power.core fence)
      (Tracked.run_inOrder power.axi power.core fence) isFence
    have nothing := ((power.behind (fence + 1)).fetch_idle valid).2
    rw [outValid] at nothing
    contradiction
  have delivers := deliversAt_seen quiet isFence commits (by omega) kept
  have done : (power.fetching later).core.ifu.state = .done := by
    rw [fetching_core]
    simpa [(power.behind later).outValid] using outValid
  obtain ⟨moment, afterFence, before, settled, same⟩ := delivers.done done
  refine ⟨moment, afterFence, before, settled, ?_⟩
  rw [fetching_core, Axi.Bytes.word_align] at same
  exact same

/-- In uncached memory a program writes a `nop` behind its `fence.i`. -/
def patching : PowerOn .soc where
  core := Core.zeroed .soc
  bytes := Axi.Bytes.ofWords
    [(0x30000000, 0x01300113), (0x30000004, 0x00000097),
      (0x30000008, 0x0020a823), (0x3000000c, 0x00000013),
      (0x30000010, 0x0000100f)]
  choices := fun _ => .prompt

theorem patching_fenceAt : (patching.tracked 36).FenceAt 4 :=
  ⟨⟨{ tag := 4 }, by decide +kernel, rfl⟩, by decide +kernel⟩

theorem patching_commitsAt : patching.CommitsAt 40 4 := by
  have filled : ((patching.tracked 40).wb.map Ticket.tag) = some 4 := by
    decide +kernel
  obtain ⟨ticket, inWb, sameTag⟩ := Option.map_eq_some_iff.mp filled
  exact ⟨ticket, inWb, sameTag⟩

theorem coherentAt_of_kept_at_patching :
    ∃ moment, 36 < moment ∧ moment < 43 ∧ patching.Settled 4 moment ∧
      (patching.system moment).memory.bytes.word 0x30000014 =
        0x00000013 := by
  have parts : ∀ cycle, cycle < 43 →
      ¬ (patching.tracked cycle).core.icache.Skips
        ((patching.tracked cycle).core.icachePort (patching.axi cycle)) ∧
      ¬ (patching.tracked cycle).core.icache.Cuts
        ((patching.tracked cycle).core.icachePort (patching.axi cycle)) ∧
      ¬ (patching.tracked cycle).core.Overtakes ∧
      (patching.tracked cycle).core.trapEscape = false := by
    simp only [ICache.Skips, ICache.Cuts, Core.Overtakes,
      Core.StorePending, Core.exMemStores]
    decide +kernel
  have coherent : patching.CoherentAt 43 :=
    coherentAt_of_kept rfl fun cycle before =>
      { noSkip := (parts cycle before).1
        noCut := (parts cycle before).2.1
        noOvertake := (parts cycle before).2.2.1
        contained := (parts cycle before).2.2.2 }
  obtain ⟨moment, after, before, settled, same⟩ :=
    coherent 36 40 4 (by decide) patching_fenceAt patching_commitsAt
      (by decide +kernel)
  have handed : (patching.tracked 43).core.ifIdIn.inst = 0x00000013 ∧
      (patching.tracked 43).core.ifIdIn.pc = 0x30000014 := by
    decide +kernel
  rw [handed.1, handed.2] at same
  exact ⟨moment, after, before, settled, same.symm⟩

/-- In cached memory, an instruction behind a `fence.i`. -/
def fenced : PowerOn .npc where
  core := Core.zeroed .npc
  bytes := Axi.Bytes.ofWords
    [(0x80000000, 0x00000013), (0x80000004, 0x0000100f),
      (0x80000008, 0x00100093)]
  choices := fun _ => .prompt

/-- The refill behind the `fence.i` is suppressed: the word handed over is one
that the memory has never held there. -/
theorem fenced_notCoherent :
    ¬ ∀ (platform : Platform) (power : PowerOn platform) (later : Nat),
      power.core.bus.write.lsuBvalidReg = false →
      power.CoherentAt later := by
  intro claimed
  have commits : fenced.CommitsAt 16 1 := by
    have filled : ((fenced.tracked 16).wb.map Ticket.tag) = some 1 := by
      decide +kernel
    obtain ⟨ticket, inWb, sameTag⟩ := Option.map_eq_some_iff.mp filled
    exact ⟨ticket, inWb, sameTag⟩
  obtain ⟨moment, -, before, -, same⟩ := claimed .npc fenced 21 rfl 12 16 1
    (by decide) ⟨⟨{ tag := 1 }, by decide +kernel, rfl⟩, by decide +kernel⟩
    commits (by decide +kernel)
  have never : ∀ moment, moment < 21 →
      (fenced.tracked 21).core.ifIdIn.inst ≠
        (fenced.system moment).memory.bytes.word
          (fenced.tracked 21).core.ifIdIn.pc := by
    decide +kernel
  exact never moment before same

end PowerOn

end Ysyx.Rtl
