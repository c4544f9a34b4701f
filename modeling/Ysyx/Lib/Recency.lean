import Mathlib.Data.List.Nodup

/-!
# Recency lists

The lists of the last distinct items, most recent first, and the
set-associative cache that keeps one for each set.
-/

namespace Recency

universe u v w

section Lists

variable {α : Type u} [DecidableEq α]

/-- `item` becomes the most recent one. -/
def touch (item : α) (recent : List α) : List α :=
  item :: recent.erase item

/-- The last `ways` distinct items after `item`. -/
def keep (ways : Nat) (item : α) (recent : List α) : List α :=
  (touch item recent).take ways

theorem keep_of_mem {item : α} {recent : List α} (isIn : item ∈ recent)
    {ways : Nat} (fits : recent.length ≤ ways) :
    keep ways item recent = item :: recent.erase item := by
  refine List.take_of_length_le ?_
  have positive := List.length_pos_of_mem isIn
  rw [touch, List.length_cons, List.length_erase_of_mem isIn]
  omega

theorem keep_of_not_mem {item : α} {recent : List α}
    (notIn : item ∉ recent) {ways : Nat} (positive : 1 ≤ ways) :
    keep ways item recent = item :: recent.take (ways - 1) := by
  obtain ⟨others, rfl⟩ := Nat.exists_eq_add_of_le' positive
  rw [keep, touch, List.erase_of_not_mem notIn, List.take_succ_cons]
  rfl

/-- `erase` under a map that separates the items of a list. -/
theorem map_erase_of_nodup {β : Type v} [DecidableEq β] (f : α → β)
    {items : List α} (nodup : (items.map f).Nodup) {item : α}
    (isIn : item ∈ items) :
    (items.erase item).map f = (items.map f).erase (f item) := by
  induction items with
  | nil =>
      cases isIn
  | cons head rest inductionHypothesis =>
      rw [List.map_cons, List.nodup_cons] at nodup
      by_cases isHead : head = item
      · simp [isHead]
      · have inRest : item ∈ rest := by
          rcases List.mem_cons.mp isIn with rfl | inRest
          · exact absurd rfl isHead
          · exact inRest
        have different : f head ≠ f item := by
          intro same
          exact nodup.1 (same ▸ List.mem_map_of_mem inRest)
        rw [List.erase_cons_tail (by simpa using isHead), List.map_cons,
          List.map_cons, List.erase_cons_tail (by simpa using different),
          inductionHypothesis nodup.2 inRest]

end Lists

/-! ## The cache -/

/-- How an address is looked up: its block, and the set of the block. -/
structure Shape (Addr : Type u) (Set : Type v) (Block : Type w) where
  block : Addr → Block
  set : Addr → Set

namespace Shape

variable {Addr : Type u} {Set : Type v} {Block : Type w}
variable [DecidableEq Set] [DecidableEq Block] (shape : Shape Addr Set Block)

def hits (recent : Set → List Block) (addr : Addr) : Bool :=
  decide (shape.block addr ∈ recent (shape.set addr))

def access (ways : Nat) (recent : Set → List Block) (addr : Addr) :
    Set → List Block :=
  Function.update recent (shape.set addr)
    (keep ways (shape.block addr) (recent (shape.set addr)))

/-- Which accesses of a trace hit. -/
def outcomes (ways : Nat) (recent : Set → List Block) :
    List Addr → List Bool
  | [] => []
  | addr :: rest =>
      shape.hits recent addr ::
        outcomes ways (shape.access ways recent addr) rest

/-- The number of hits of a trace, starting with empty sets. -/
def hitCount (ways : Nat) (trace : List Addr) : Nat :=
  (shape.outcomes ways (fun _ => []) trace).count true

end Shape

end Recency
