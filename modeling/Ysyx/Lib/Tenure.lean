import Mathlib.Data.List.Induction

/-!
# Tenures

A slot that events may claim for an owner. The holder is the owner of the
last claim; a tenure begins with the claim that made its owner the holder and
lasts until another owner claims the slot.
-/

namespace Tenure

universe u v

variable {α : Type u} {ω : Type v}

section Claims

variable (claims : α → Bool)

/-- The last claim of a history, which lists the oldest event first. -/
def lastClaim (history : List α) : Option α :=
  history.reverse.find? claims

@[simp]
theorem lastClaim_nil : lastClaim claims [] = none := rfl

@[simp]
theorem lastClaim_append_singleton (history : List α) (event : α) :
    lastClaim claims (history ++ [event]) =
      if claims event then some event else lastClaim claims history := by
  simp only [lastClaim, List.reverse_append, List.reverse_singleton,
    List.singleton_append, List.find?_cons]
  cases claims event with
  | true =>
      rfl
  | false =>
      rfl

end Claims

section Holders

variable (claims : α → Bool) (owner : α → ω)

/-- Who holds the slot after a history. -/
def holder (history : List α) : Option ω :=
  (lastClaim claims history).map owner

@[simp]
theorem holder_nil : holder claims owner [] = none := rfl

theorem holder_append_of_claims {event : α} (claimed : claims event = true)
    (history : List α) :
    holder claims owner (history ++ [event]) = some (owner event) := by
  simp [holder, claimed]

theorem holder_append_of_not_claims {event : α}
    (unclaimed : claims event = false) (history : List α) :
    holder claims owner (history ++ [event]) =
      holder claims owner history := by
  simp [holder, unclaimed]

theorem holder_append_cons {start : α} {since : List α}
    (claimed : claims start = true)
    (held : ∀ later ∈ since, claims later = true → owner later = owner start)
    (before : List α) :
    holder claims owner (before ++ start :: since) = some (owner start) := by
  induction since using List.reverseRecOn with
  | nil =>
      exact holder_append_of_claims claims owner claimed before
  | append_singleton since event inductionHypothesis =>
      rw [← List.cons_append, ← List.append_assoc]
      cases isClaim : claims event with
      | true =>
          rw [holder_append_of_claims claims owner isClaim,
            held event (by simp) isClaim]
      | false =>
          rw [holder_append_of_not_claims claims owner isClaim]
          exact inductionHypothesis fun later isSince =>
            held later (List.mem_append_left _ isSince)

/-- `start` made its owner the holder and no other owner claimed the slot in
`since`. -/
structure Since (history before : List α) (start : α) (since : List α) :
    Prop where
  split : history = before ++ start :: since
  claimed : claims start = true
  vacant : holder claims owner before ≠ some (owner start)
  held : ∀ later ∈ since, claims later = true → owner later = owner start

namespace Since

variable {claims : α → Bool} {owner : α → ω}
variable {history before since : List α} {start event : α}

theorem begin (claimed : claims event = true)
    (vacant : holder claims owner history ≠ some (owner event)) :
    Since claims owner (history ++ [event]) history event [] where
  split := rfl
  claimed := claimed
  vacant := vacant
  held := by simp

theorem extend (tenure : Since claims owner history before start since)
    (keeps : claims event = true → owner event = owner start) :
    Since claims owner (history ++ [event]) before start
      (since ++ [event]) where
  split := by rw [tenure.split]; simp
  claimed := tenure.claimed
  vacant := tenure.vacant
  held := by
    intro later isLater isClaim
    rcases List.mem_append.mp isLater with isSince | isEvent
    · exact tenure.held later isSince isClaim
    · rw [List.mem_singleton.mp isEvent] at isClaim ⊢
      exact keeps isClaim

/-- The owner of a tenure holds the slot. -/
theorem holder_eq (tenure : Since claims owner history before start since) :
    holder claims owner history = some (owner start) := by
  rw [tenure.split]
  exact holder_append_cons claims owner tenure.claimed tenure.held before

theorem vacant_of_split (tenure : Since claims owner history before start since)
    {between after : List α} (same : since = between ++ event :: after)
    (claimed : claims event = true) :
    holder claims owner (before ++ start :: between) = some (owner event) := by
  have isHeld : owner event = owner start :=
    tenure.held event (by simp [same]) claimed
  rw [isHeld]
  refine holder_append_cons claims owner tenure.claimed ?_ before
  intro later isLater
  exact tenure.held later (by simp [same, isLater])

/-- A history has one tenure at its end. -/
theorem unique (tenure : Since claims owner history before start since)
    {before' since' : List α} {start' : α}
    (tenure' : Since claims owner history before' start' since') :
    before = before' ∧ start = start' ∧ since = since' := by
  have sameHistory : before ++ start :: since = before' ++ start' :: since' :=
    tenure.split.symm.trans tenure'.split
  rcases List.append_eq_append_iff.mp sameHistory with
    ⟨between, beforeEq, tailEq⟩ | ⟨between, beforeEq, tailEq⟩
  · cases between with
    | nil =>
        obtain ⟨rfl, rfl⟩ := List.cons.inj tailEq
        exact ⟨by simpa using beforeEq.symm, rfl, rfl⟩
    | cons first between =>
        obtain ⟨rfl, sinceEq⟩ := List.cons.inj tailEq
        refine absurd ?_ tenure'.vacant
        rw [beforeEq]
        exact tenure.vacant_of_split sinceEq tenure'.claimed
  · cases between with
    | nil =>
        obtain ⟨rfl, rfl⟩ := List.cons.inj tailEq
        exact ⟨by simpa using beforeEq, rfl, rfl⟩
    | cons first between =>
        obtain ⟨rfl, sinceEq⟩ := List.cons.inj tailEq
        refine absurd ?_ tenure.vacant
        rw [beforeEq]
        exact tenure'.vacant_of_split sinceEq tenure.claimed

end Since

end Holders

end Tenure
