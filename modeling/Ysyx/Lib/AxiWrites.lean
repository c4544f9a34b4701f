import Ysyx.Lib.Machine
import Mathlib.Data.List.Range
import Mathlib.Order.Monotone.Basic

/-!
# Write slaves

The write channels between a conforming master and a slave that takes one
write at a time: a contract for the slave, and what follows from it about the
writes that are performed and answered.
-/

namespace Axi

universe u v w x

/-- What a master drives on the write channels; `wdata` carries the strobe. -/
structure Offer (Addr : Type u) (Data : Type v) where
  awvalid : Bool
  awaddr : Addr
  wvalid : Bool
  wdata : Data
  bready : Bool

/-- What a slave does with its write channels. `performs` is the effect of the
write that it carries out at a clock edge. -/
structure WriteSlave (State : Type w) (Addr : Type u) (Data : Type v)
    (Effect : Type x) where
  step : Offer Addr Data → State → State
  awready : State → Bool
  wready : State → Bool
  bvalid : State → Bool
  performs : Offer Addr Data → State → Option Effect

/-- The handshakes so far on each channel, and the effects in their order. -/
structure Ledger (Effect : Type x) where
  aw : Nat
  w : Nat
  b : Nat
  performed : List Effect
  deriving DecidableEq

def Ledger.empty (Effect : Type x) : Ledger Effect := ⟨0, 0, 0, []⟩

namespace WriteSlave

variable {State : Type w} {Addr : Type u} {Data : Type v} {Effect : Type x}
variable (slave : WriteSlave State Addr Data Effect)

def awFires (out : Offer Addr Data) (state : State) : Bool :=
  out.awvalid && slave.awready state

def wFires (out : Offer Addr Data) (state : State) : Bool :=
  out.wvalid && slave.wready state

def bFires (out : Offer Addr Data) (state : State) : Bool :=
  slave.bvalid state && out.bready

/-- The slave together with the ledger of its channels. -/
def clock (out : Offer Addr Data) (now : State × Ledger Effect) :
    State × Ledger Effect :=
  (slave.step out now.1,
    { aw := now.2.aw + (slave.awFires out now.1).toNat
      w := now.2.w + (slave.wFires out now.1).toNat
      b := now.2.b + (slave.bFires out now.1).toNat
      performed :=
        now.2.performed ++ (slave.performs out now.1).toList })

/-- What a slave must keep to perform each write once. `holdsAddr` and
`holdsData` say what it has accepted and not yet performed, and `Stores` that
it is the address and the data of a given write. -/
structure Contract (effect : Addr → Data → Effect) where
  holdsAddr : State → Bool
  holdsData : State → Bool
  Stores : State → Addr → Data → Prop
  Good : State → Prop
  rank : State → Nat
  good_step : ∀ out {state}, Good state → Good (slave.step out state)
  awready_free : ∀ {state}, Good state → slave.awready state = true →
    holdsAddr state = false ∧ slave.bvalid state = false
  wready_free : ∀ {state}, Good state → slave.wready state = true →
    holdsData state = false ∧ slave.bvalid state = false
  stores_free : ∀ {state}, Good state → holdsAddr state = false →
    holdsData state = false → ∀ addr data, Stores state addr data
  bvalid_free : ∀ {state}, Good state → slave.bvalid state = true →
    holdsAddr state = false ∧ holdsData state = false
  /-- A clock edge without an effect. -/
  quiet : ∀ {out state}, Good state → slave.performs out state = none →
    holdsAddr (slave.step out state) =
        (holdsAddr state || slave.awFires out state) ∧
      holdsData (slave.step out state) =
        (holdsData state || slave.wFires out state) ∧
      slave.bvalid (slave.step out state) =
        (slave.bvalid state && !out.bready)
  /-- A clock edge with an effect. -/
  performing : ∀ {out state done}, Good state →
    slave.performs out state = some done →
    slave.bvalid state = false ∧
      (holdsAddr state || slave.awFires out state) = true ∧
      (holdsData state || slave.wFires out state) = true ∧
      holdsAddr (slave.step out state) = false ∧
      holdsData (slave.step out state) = false ∧
      slave.bvalid (slave.step out state) = true
  /-- What is accepted is stored, and what is performed was stored. -/
  stores_step : ∀ out {state addr data}, Good state →
    Stores state addr data →
    (slave.awFires out state = true → out.awaddr = addr) →
    (slave.wFires out state = true → out.wdata = data) →
    (slave.performs out state = none →
        Stores (slave.step out state) addr data) ∧
      ∀ done, slave.performs out state = some done → done = effect addr data
  /-- The slave waits for nothing but the valid signals of what it does not
  hold. -/
  progress : ∀ out {state}, Good state → slave.bvalid state = false →
    (holdsAddr state = false → out.awvalid = true) →
    (holdsData state = false → out.wvalid = true) →
    rank (slave.step out state) < rank state

/-- A master that has `writes` to make, in this order on both channels, and
keeps a valid signal until it is accepted. Its delays are free. -/
structure Conforms (writes : Nat → Addr × Data)
    (outs : Nat → Offer Addr Data) (states : Nat → State × Ledger Effect) :
    Prop where
  awaddr : ∀ cycle, (outs cycle).awvalid = true →
    (outs cycle).awaddr = (writes (states cycle).2.aw).1
  wdata : ∀ cycle, (outs cycle).wvalid = true →
    (outs cycle).wdata = (writes (states cycle).2.w).2
  awheld : ∀ cycle, (outs cycle).awvalid = true →
    slave.awready (states cycle).1 = false →
    (outs (cycle + 1)).awvalid = true
  wheld : ∀ cycle, (outs cycle).wvalid = true →
    slave.wready (states cycle).1 = false →
    (outs (cycle + 1)).wvalid = true

/-- The first writes, in their order and each with its own effect, are those
that have been performed; at most one has been accepted and not answered. -/
structure ExactlyOnce (effect : Addr → Data → Effect)
    (writes : Nat → Addr × Data) (ledger : Ledger Effect) : Prop where
  performed : ledger.performed =
    (List.range ledger.performed.length).map fun index =>
      effect (writes index).1 (writes index).2
  accepted : ledger.performed.length ≤ min ledger.aw ledger.w
  answered : ledger.b ≤ ledger.performed.length
  pending : max ledger.aw ledger.w ≤ ledger.b + 1

/-! ## What a contract gives -/

section Runs

variable {slave} {effect : Addr → Data → Effect}
variable (contract : slave.Contract effect) (writes : Nat → Addr × Data)

/-- The ledger agrees with what the slave holds. -/
structure Kept (now : State × Ledger Effect) : Prop where
  good : contract.Good now.1
  aw : now.2.aw =
    now.2.performed.length + (contract.holdsAddr now.1).toNat
  w : now.2.w =
    now.2.performed.length + (contract.holdsData now.1).toNat
  b : now.2.performed.length = now.2.b + (slave.bvalid now.1).toNat
  stores : contract.Stores now.1 (writes now.2.performed.length).1
    (writes now.2.performed.length).2
  performed : now.2.performed =
    (List.range now.2.performed.length).map fun index =>
      effect (writes index).1 (writes index).2

variable {contract writes} {outs : Nat → Offer Addr Data} {initial : State}

/-- The run of a slave that starts with an empty ledger. -/
def states (slave : WriteSlave State Addr Data Effect)
    (outs : Nat → Offer Addr Data) (initial : State) :
    Nat → State × Ledger Effect :=
  Machine.run slave.clock outs (initial, Ledger.empty Effect)

theorem states_succ (cycle : Nat) :
    slave.states outs initial (cycle + 1) =
      slave.clock (outs cycle) (slave.states outs initial cycle) := rfl

theorem Kept.exactlyOnce {now : State × Ledger Effect}
    (kept : Kept contract writes now) :
    ExactlyOnce effect writes now.2 := by
  have aw := kept.aw
  have w := kept.w
  have b := kept.b
  refine ⟨kept.performed, by omega, by omega, ?_⟩
  cases responds : slave.bvalid now.1 with
  | true =>
      obtain ⟨noAddr, noData⟩ := contract.bvalid_free kept.good responds
      rw [noAddr] at aw
      rw [noData] at w
      rw [responds] at b
      simp only [Bool.toNat_false, Bool.toNat_true] at aw w b
      omega
  | false =>
      rw [responds] at b
      have addrBit := Bool.toNat_le (contract.holdsAddr now.1)
      have dataBit := Bool.toNat_le (contract.holdsData now.1)
      simp only [Bool.toNat_false] at b
      omega

theorem toNat_or_of_free {held fires : Bool}
    (free : fires = true → held = false) :
    (held || fires).toNat = held.toNat + fires.toNat := by
  cases held with
  | true =>
      cases fires with
      | true =>
          cases free rfl
      | false =>
          rfl
  | false =>
      simp

theorem Kept.step {now : State × Ledger Effect}
    (kept : Kept contract writes now) {out : Offer Addr Data}
    (awaddr : out.awvalid = true → out.awaddr = (writes now.2.aw).1)
    (wdata : out.wvalid = true → out.wdata = (writes now.2.w).2) :
    Kept contract writes (slave.clock out now) := by
  have good := kept.good
  have good' := contract.good_step out good
  have awFree : slave.awFires out now.1 = true →
      contract.holdsAddr now.1 = false ∧ slave.bvalid now.1 = false := by
    intro fires
    exact contract.awready_free good (Bool.and_eq_true_iff.mp fires).2
  have wFree : slave.wFires out now.1 = true →
      contract.holdsData now.1 = false ∧ slave.bvalid now.1 = false := by
    intro fires
    exact contract.wready_free good (Bool.and_eq_true_iff.mp fires).2
  have addrSum := toNat_or_of_free fun fires => (awFree fires).1
  have dataSum := toNat_or_of_free fun fires => (wFree fires).1
  have aw := kept.aw
  have w := kept.w
  have b := kept.b
  -- What is accepted now belongs to the next write to be performed.
  obtain ⟨stores, done⟩ := contract.stores_step out good kept.stores
    (fun fires => by
      have free := (awFree fires).1
      rw [free] at aw
      rw [awaddr (Bool.and_eq_true_iff.mp fires).1, aw]
      rfl)
    (fun fires => by
      have free := (wFree fires).1
      rw [free] at w
      rw [wdata (Bool.and_eq_true_iff.mp fires).1, w]
      rfl)
  cases performs : slave.performs out now.1 with
  | none =>
      obtain ⟨addr', data', bvalid'⟩ := contract.quiet good performs
      have performed' : (slave.clock out now).2.performed =
          now.2.performed := by
        simp [clock, performs]
      refine ⟨good', ?_, ?_, ?_, ?_, ?_⟩
      · rw [performed']
        simp only [clock, addr', addrSum]
        omega
      · rw [performed']
        simp only [clock, data', dataSum]
        omega
      · rw [performed']
        simp only [clock, bvalid', bFires]
        cases responds : slave.bvalid now.1 <;>
          cases ready : out.bready <;>
            simp [responds] at b ⊢ <;>
              omega
      · rw [performed']
        exact stores performs
      · rw [performed']
        exact kept.performed
  | some effect' =>
      obtain ⟨noResponse, hasAddr, hasData, addr', data', bvalid'⟩ :=
        contract.performing good performs
      have isEffect := done effect' performs
      have performed' : (slave.clock out now).2.performed =
          now.2.performed ++ [effect'] := by
        simp [clock, performs]
      have length' : (slave.clock out now).2.performed.length =
          now.2.performed.length + 1 := by
        simp [performed']
      rw [hasAddr, Bool.toNat_true] at addrSum
      rw [hasData, Bool.toNat_true] at dataSum
      rw [noResponse, Bool.toNat_false] at b
      refine ⟨good', ?_, ?_, ?_, ?_, ?_⟩
      · rw [length']
        simp only [clock, addr', Bool.toNat_false]
        omega
      · rw [length']
        simp only [clock, data', Bool.toNat_false]
        omega
      · rw [length']
        simp only [clock, bvalid', bFires, noResponse, Bool.false_and,
          Bool.toNat_false, Bool.toNat_true]
        omega
      · exact contract.stores_free good' addr' data' _ _
      · rw [length', List.range_succ, List.map_append, ← kept.performed,
          performed', isEffect]
        rfl

/-- A slave that starts free, with a conforming master. -/
structure Starts (contract : slave.Contract effect)
    (writes : Nat → Addr × Data) (outs : Nat → Offer Addr Data)
    (initial : State) : Prop where
  good : contract.Good initial
  addr : contract.holdsAddr initial = false
  data : contract.holdsData initial = false
  response : slave.bvalid initial = false
  conforms : slave.Conforms writes outs (slave.states outs initial)

theorem Starts.kept (starts : Starts contract writes outs initial)
    (cycle : Nat) :
    Kept contract writes (slave.states outs initial cycle) := by
  induction cycle with
  | zero =>
      refine ⟨starts.good, ?_, ?_, ?_, ?_, rfl⟩
      · change 0 = 0 + (contract.holdsAddr initial).toNat
        rw [starts.addr]
        rfl
      · change 0 = 0 + (contract.holdsData initial).toNat
        rw [starts.data]
        rfl
      · change 0 = 0 + (slave.bvalid initial).toNat
        rw [starts.response]
        rfl
      · exact contract.stores_free starts.good starts.addr starts.data _ _
  | succ cycle inductionHypothesis =>
      exact inductionHypothesis.step (starts.conforms.awaddr cycle)
        (starts.conforms.wdata cycle)

/-- Safety: whatever the delays, each write is performed once. -/
theorem Starts.exactlyOnce (starts : Starts contract writes outs initial)
    (cycle : Nat) :
    ExactlyOnce effect writes (slave.states outs initial cycle).2 :=
  (starts.kept cycle).exactlyOnce

/-! ### Every write that is offered is answered -/

/-- The master raises both valid signals for write `index`. -/
def Offered (slave : WriteSlave State Addr Data Effect)
    (outs : Nat → Offer Addr Data) (initial : State) (index : Nat) : Prop :=
  (∃ cycle, (outs cycle).awvalid = true ∧
    (slave.states outs initial cycle).2.aw = index) ∧
  ∃ cycle, (outs cycle).wvalid = true ∧
    (slave.states outs initial cycle).2.w = index

/-- The master takes every response at last. -/
def ResponsesTaken (slave : WriteSlave State Addr Data Effect)
    (outs : Nat → Offer Addr Data) (initial : State) : Prop :=
  ∀ cycle, slave.bvalid (slave.states outs initial cycle).1 = true →
    ∃ later, cycle ≤ later ∧ (outs later).bready = true

theorem aw_succ (cycle : Nat) :
    (slave.states outs initial (cycle + 1)).2.aw =
      (slave.states outs initial cycle).2.aw +
        (slave.awFires (outs cycle)
          (slave.states outs initial cycle).1).toNat := rfl

theorem w_succ (cycle : Nat) :
    (slave.states outs initial (cycle + 1)).2.w =
      (slave.states outs initial cycle).2.w +
        (slave.wFires (outs cycle)
          (slave.states outs initial cycle).1).toNat := rfl

theorem b_succ (cycle : Nat) :
    (slave.states outs initial (cycle + 1)).2.b =
      (slave.states outs initial cycle).2.b +
        (slave.bFires (outs cycle)
          (slave.states outs initial cycle).1).toNat := rfl

/-- A count that is passed was once the count at a handshake. -/
theorem exists_fires (count : Nat → Nat) {fires : Nat → Bool}
    (start : count 0 = 0)
    (counts : ∀ cycle, count (cycle + 1) = count cycle + (fires cycle).toNat)
    {index cycle : Nat} (passed : index < count cycle) :
    ∃ earlier, fires earlier = true ∧ count earlier = index := by
  induction cycle with
  | zero =>
      omega
  | succ cycle inductionHypothesis =>
      rw [counts] at passed
      by_cases before : index < count cycle
      · exact inductionHypothesis before
      · cases firing : fires cycle with
        | true =>
            refine ⟨cycle, firing, ?_⟩
            simp only [firing, Bool.toNat_true] at passed
            omega
        | false =>
            simp only [firing, Bool.toNat_false] at passed
            omega

theorem Offered.pred {index : Nat}
    (offered : Offered slave outs initial (index + 1)) :
    Offered slave outs initial index := by
  obtain ⟨⟨awCycle, _, aw⟩, wCycle, _, w⟩ := offered
  obtain ⟨aw', awFiring, awAt⟩ := exists_fires
    (fun cycle => (slave.states outs initial cycle).2.aw) rfl aw_succ
    (by omega : index < (slave.states outs initial awCycle).2.aw)
  obtain ⟨w', wFiring, wAt⟩ := exists_fires
    (fun cycle => (slave.states outs initial cycle).2.w) rfl w_succ
    (by omega : index < (slave.states outs initial wCycle).2.w)
  exact ⟨⟨aw', (Bool.and_eq_true_iff.mp awFiring).1, awAt⟩,
    w', (Bool.and_eq_true_iff.mp wFiring).1, wAt⟩

/-- A valid signal that is held until it is accepted stays up as long as the
count of its channel stays. -/
theorem valid_of_same_count (count : Nat → Nat) (valid ready : Nat → Bool)
    (counts : ∀ cycle,
      count (cycle + 1) = count cycle + (valid cycle && ready cycle).toNat)
    (held : ∀ cycle, valid cycle = true → ready cycle = false →
      valid (cycle + 1) = true)
    {start : Nat} (raised : valid start = true) :
    ∀ cycle, start ≤ cycle → count start ≤ count cycle ∧
      (count cycle = count start → valid cycle = true) := by
  intro cycle later
  induction cycle, later using Nat.le_induction with
  | base =>
      exact ⟨le_refl _, fun _ => raised⟩
  | succ cycle _ inductionHypothesis =>
      obtain ⟨grows, stays⟩ := inductionHypothesis
      have next := counts cycle
      refine ⟨by omega, fun same => ?_⟩
      have isUp : valid cycle = true := stays (by omega)
      refine held cycle isUp ?_
      cases isReady : ready cycle with
      | true =>
          simp only [isUp, isReady, Bool.and_self, Bool.toNat_true] at next
          omega
      | false =>
          rfl

theorem b_mono (slave : WriteSlave State Addr Data Effect)
    (outs : Nat → Offer Addr Data) (initial : State) :
    Monotone fun cycle => (slave.states outs initial cycle).2.b :=
  monotone_nat_of_le_succ fun cycle => by
    simp only [b_succ]
    omega

/-- A response that is up is taken. -/
theorem Starts.taken (starts : Starts contract writes outs initial)
    {cycle delay : Nat}
    (responds : slave.bvalid (slave.states outs initial cycle).1 = true)
    (ready : (outs (cycle + delay)).bready = true) :
    ∃ later, (slave.states outs initial later).2.b =
      (slave.states outs initial cycle).2.b + 1 := by
  induction delay generalizing cycle with
  | zero =>
      refine ⟨cycle + 1, ?_⟩
      rw [Nat.add_zero] at ready
      rw [b_succ, bFires, responds, ready]
      rfl
  | succ delay inductionHypothesis =>
      by_cases now : (outs cycle).bready = true
      · refine ⟨cycle + 1, ?_⟩
        rw [b_succ, bFires, responds, now]
        rfl
      · have notReady : (outs cycle).bready = false :=
          Bool.eq_false_iff.mpr now
        have good := (starts.kept cycle).good
        cases performs : slave.performs (outs cycle)
            (slave.states outs initial cycle).1 with
        | none =>
            obtain ⟨-, -, bvalid'⟩ := contract.quiet good performs
            have stillUp : slave.bvalid
                (slave.states outs initial (cycle + 1)).1 = true := by
              rw [responds, notReady] at bvalid'
              exact bvalid'
            obtain ⟨later, same⟩ := inductionHypothesis stillUp
              (by rwa [Nat.add_assoc, Nat.add_comm 1])
            refine ⟨later, ?_⟩
            rw [same, b_succ, bFires, notReady, Bool.and_false]
            rfl
        | some done =>
            have noResponse := (contract.performing good performs).1
            rw [responds] at noResponse
            cases noResponse

/-- The write that is next to be answered is performed. -/
theorem Starts.responds (starts : Starts contract writes outs initial)
    (index start : Nat)
    (awvalid : ∀ cycle, start ≤ cycle →
      (slave.states outs initial cycle).2.aw = index →
      (outs cycle).awvalid = true)
    (wvalid : ∀ cycle, start ≤ cycle →
      (slave.states outs initial cycle).2.w = index →
      (outs cycle).wvalid = true)
    {cycle : Nat} (notBefore : start ≤ cycle)
    (next : (slave.states outs initial cycle).2.b = index) :
    ∃ later, slave.bvalid (slave.states outs initial later).1 = true ∧
      (slave.states outs initial later).2.b = index := by
  induction height : contract.rank (slave.states outs initial cycle).1
    using Nat.strong_induction_on generalizing cycle with
  | _ height inductionHypothesis =>
      have kept := starts.kept cycle
      have aw := kept.aw
      have w := kept.w
      have b := kept.b
      cases responds : slave.bvalid (slave.states outs initial cycle).1 with
      | true =>
          exact ⟨cycle, responds, next⟩
      | false =>
          rw [responds, Bool.toNat_false] at b
          have lower := contract.progress (outs cycle) kept.good
            responds
            (fun free => by
              rw [free, Bool.toNat_false] at aw
              exact awvalid cycle notBefore (by omega))
            (fun free => by
              rw [free, Bool.toNat_false] at w
              exact wvalid cycle notBefore (by omega))
          refine inductionHypothesis _ (height ▸ lower)
            (by omega : start ≤ cycle + 1) ?_ rfl
          rw [b_succ, bFires, responds, Bool.false_and]
          exact next

theorem Starts.answered_next (starts : Starts contract writes outs initial)
    (fair : ResponsesTaken slave outs initial)
    {index : Nat} (offered : Offered slave outs initial index)
    (earlier : ∃ cycle, (slave.states outs initial cycle).2.b = index) :
    ∃ cycle, (slave.states outs initial cycle).2.b = index + 1 := by
  obtain ⟨⟨awCycle, awUp, awAt⟩, wCycle, wUp, wAt⟩ := offered
  obtain ⟨cycle, count⟩ := earlier
  have awStays := valid_of_same_count
    (fun cycle => (slave.states outs initial cycle).2.aw)
    (fun cycle => (outs cycle).awvalid)
    (fun cycle => slave.awready (slave.states outs initial cycle).1)
    aw_succ starts.conforms.awheld awUp
  have wStays := valid_of_same_count
    (fun cycle => (slave.states outs initial cycle).2.w)
    (fun cycle => (outs cycle).wvalid)
    (fun cycle => slave.wready (slave.states outs initial cycle).1)
    w_succ starts.conforms.wheld wUp
  have grows : index ≤ (slave.states outs initial
      (max cycle (max awCycle wCycle))).2.b :=
    count.symm.trans_le (b_mono slave outs initial (le_max_left ..))
  rcases Nat.eq_or_lt_of_le grows with same | passed
  · obtain ⟨response, isUp, sameCount⟩ := starts.responds
      index (max awCycle wCycle)
      (fun later after same =>
        (awStays later (by omega)).2 (same.trans awAt.symm))
      (fun later after same =>
        (wStays later (by omega)).2 (same.trans wAt.symm))
      (le_max_right ..) same.symm
    obtain ⟨ready, after, isReady⟩ := fair response isUp
    obtain ⟨delay, rfl⟩ := Nat.exists_eq_add_of_le after
    obtain ⟨later, isNext⟩ := starts.taken isUp isReady
    exact ⟨later, by rw [isNext, sameCount]⟩
  · obtain ⟨firing, fires, isCount⟩ := exists_fires
      (fun cycle => (slave.states outs initial cycle).2.b) rfl
      b_succ passed
    exact ⟨firing + 1, by simp only [b_succ, fires, isCount]; rfl⟩

/-- Liveness: a write that is offered on both channels is answered, if the
master takes responses. -/
theorem Starts.answered (starts : Starts contract writes outs initial)
    (fair : ResponsesTaken slave outs initial)
    {index : Nat} (offered : Offered slave outs initial index) :
    ∃ cycle, (slave.states outs initial cycle).2.b = index + 1 := by
  induction index with
  | zero =>
      exact starts.answered_next fair offered ⟨0, rfl⟩
  | succ index inductionHypothesis =>
      exact starts.answered_next fair offered
        (inductionHypothesis offered.pred)

end Runs

/-- Every conforming master has its writes performed and answered once, from
`initial` on. -/
def ServesOnce (effect : Addr → Data → Effect) (initial : State) : Prop :=
  ∀ (writes : Nat → Addr × Data) (outs : Nat → Offer Addr Data),
    slave.Conforms writes outs (slave.states outs initial) →
    (∀ cycle,
      ExactlyOnce effect writes (slave.states outs initial cycle).2) ∧
    (ResponsesTaken slave outs initial → ∀ index,
      Offered slave outs initial index →
      ∃ cycle, (slave.states outs initial cycle).2.b = index + 1)

theorem Contract.servesOnce {slave : WriteSlave State Addr Data Effect}
    {effect : Addr → Data → Effect} (contract : slave.Contract effect)
    {initial : State} (good : contract.Good initial)
    (addr : contract.holdsAddr initial = false)
    (data : contract.holdsData initial = false)
    (response : slave.bvalid initial = false) :
    slave.ServesOnce effect initial := by
  intro writes outs conforms
  have starts : Starts contract writes outs initial :=
    ⟨good, addr, data, response, conforms⟩
  exact ⟨starts.exactlyOnce, fun fair _ => starts.answered fair⟩

end WriteSlave

end Axi
