import Mathlib.Data.List.Nodup
import Mathlib.Logic.Function.Basic

/-!
# Singly linked lists

Lists that share one `next` field over a set of nodes, and what one assignment
to that field does to them.
-/

namespace Ysyx

universe u

variable {α : Type u}

/-- The nodes from `start` on, along `next` up to the end. -/
def Linked (next : α → Option α) : Option α → List α → Prop
  | start, [] => start = none
  | start, node :: rest => start = some node ∧ Linked next (next node) rest

instance Linked.instDecidable [DecidableEq α] (next : α → Option α) :
    ∀ start nodes, Decidable (Linked next start nodes)
  | _, [] => inferInstanceAs (Decidable (_ = _))
  | _, node :: rest =>
      have := Linked.instDecidable next (next node) rest
      inferInstanceAs (Decidable (_ ∧ _))

namespace Linked

variable {next : α → Option α} {start : Option α} {nodes : List α}

/-- The nodes are determined by the start. -/
theorem unique {others : List α} (linked : Linked next start nodes)
    (linkedOthers : Linked next start others) : nodes = others := by
  induction nodes generalizing start others with
  | nil =>
      cases others with
      | nil => rfl
      | cons other rest => cases linked.symm.trans linkedOthers.1
  | cons node rest inductionHypothesis =>
      cases others with
      | nil => cases linkedOthers.symm.trans linked.1
      | cons other others =>
          obtain rfl : node = other :=
            Option.some.inj (linked.1.symm.trans linkedOthers.1)
          rw [inductionHypothesis linked.2 linkedOthers.2]

theorem start_eq (linked : Linked next start nodes) : start = nodes.head? := by
  cases nodes with
  | nil => exact linked
  | cons node rest => exact linked.1

/-- A list depends on the fields of its own nodes only. -/
theorem congr {next' : α → Option α}
    (same : ∀ node ∈ nodes, next' node = next node)
    (linked : Linked next start nodes) : Linked next' start nodes := by
  induction nodes generalizing start with
  | nil => exact linked
  | cons node rest inductionHypothesis =>
      rw [List.forall_mem_cons] at same
      refine ⟨linked.1, ?_⟩
      rw [same.1]
      exact inductionHypothesis same.2 linked.2

variable [DecidableEq α]

theorem update {node : α} (outside : node ∉ nodes) (link : Option α)
    (linked : Linked next start nodes) :
    Linked (Function.update next node link) start nodes := by
  refine linked.congr fun other member => ?_
  apply Function.update_of_ne
  rintro rfl
  exact outside member

/-- A node is put in front. -/
theorem push {node : α} (outside : node ∉ nodes)
    (linked : Linked next start nodes) :
    Linked (Function.update next node start) (some node) (node :: nodes) := by
  refine ⟨rfl, ?_⟩
  rw [Function.update_self]
  exact linked.update outside start

/-- The node behind `prev` is taken out. -/
theorem unlink {prev node : α} {before after : List α}
    (nodup : (before ++ prev :: node :: after).Nodup)
    (linked : Linked next start (before ++ prev :: node :: after)) :
    Linked (Function.update next prev (next node)) start
      (before ++ prev :: after) := by
  induction before generalizing start with
  | nil =>
      obtain ⟨isPrev, -, rest⟩ := linked
      refine ⟨isPrev, ?_⟩
      rw [Function.update_self]
      apply rest.update
      simp only [List.nil_append, List.nodup_cons, List.mem_cons] at nodup
      exact fun member => nodup.1 (.inr member)
  | cons first before inductionHypothesis =>
      rw [List.cons_append, List.nodup_cons] at nodup
      refine ⟨linked.1, ?_⟩
      have different : first ≠ prev := by
        rintro rfl
        exact nodup.1 (by simp)
      rw [Function.update_of_ne different]
      exact inductionHypothesis nodup.2 linked.2

/-! ## The search for the node in front of another -/

/-- `while (pos && pos->next != node) pos = pos->next;`, for at most `rounds`
tests. -/
def findPrev (next : α → Option α) (node : α) :
    Nat → Option α → Option α
  | 0, _ => none
  | _ + 1, none => none
  | rounds + 1, some pos =>
      if next pos = some node then some pos
      else findPrev next node rounds (next pos)

theorem findPrev_eq {prev node : α} {before after : List α} {rounds : Nat}
    (nodup : (before ++ prev :: node :: after).Nodup)
    (linked : Linked next start (before ++ prev :: node :: after))
    (enough : before.length < rounds) :
    findPrev next node rounds start = some prev := by
  induction before generalizing start rounds with
  | nil =>
      obtain ⟨rounds, rfl⟩ : ∃ rest, rounds = rest + 1 := ⟨rounds - 1, by omega⟩
      obtain ⟨rfl, isNode, -⟩ := linked
      exact if_pos isNode
  | cons first before inductionHypothesis =>
      obtain ⟨rounds, rfl⟩ : ∃ rest, rounds = rest + 1 := ⟨rounds - 1, by omega⟩
      obtain ⟨rfl, rest⟩ := linked
      rw [List.cons_append, List.nodup_cons] at nodup
      have notHere : next first ≠ some node := by
        rw [rest.start_eq]
        intro isNode
        cases before with
        | nil =>
            obtain rfl : prev = node := Option.some.inj isNode
            simp at nodup
        | cons second before =>
            obtain rfl : second = node := Option.some.inj isNode
            simp at nodup
      rw [findPrev, if_neg notHere]
      exact inductionHypothesis nodup.2 rest (Nat.lt_of_succ_lt_succ enough)

end Linked

end Ysyx
