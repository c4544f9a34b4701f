import Ysyx.Lib.Linked
import Ysyx.Nemu.Inst
import Mathlib.Data.List.FinRange

/-!
# The pool of watchpoints

`init_wp_pool`, `new_wp` and `free_wp` of the simple debugger: two lists that
share the `next` field of the 32 nodes of the pool.
-/

namespace Ysyx.Sdb

open Nemu (Word)

def NR_WP : Nat := 32

instance : NeZero NR_WP := ⟨by decide⟩

/-- A pointer to a node of `wp_pool`. -/
abbrev Wp := Fin NR_WP

/-- `wp_pool`, `head` and `free_`; a null pointer is `none`. -/
structure WpPool where
  next : Wp → Option Wp
  expression : Wp → List Char
  value : Wp → Word
  head : Option Wp
  free_ : Option Wp

/-- `init_wp_pool`, on what `malloc` gives for the expressions. -/
def initWpPool (expression : Wp → List Char) : WpPool where
  next wp := if h : wp.val + 1 < NR_WP then some ⟨wp.val + 1, h⟩ else none
  expression := expression
  value := fun _ => 0
  head := none
  free_ := some 0

/-- `new_wp`; `none` is the failed assertion. -/
def newWp (pool : WpPool) : Option (Wp × WpPool) :=
  pool.free_.map fun pos =>
    (pos, { pool with
      free_ := pool.next pos
      next := Function.update pool.next pos pool.head
      head := some pos })

/-- `wp->next = free_; free_ = wp;`. -/
def WpPool.giveBack (pool : WpPool) (wp : Wp) : WpPool :=
  { pool with
    next := Function.update pool.next wp pool.free_
    free_ := some wp }

/-- `free_wp`; `none` is the failed assertion. -/
def freeWp (pool : WpPool) (wp : Wp) : Option WpPool :=
  if pool.head = some wp then
    some ({ pool with head := pool.next wp }.giveBack wp)
  else
    (Linked.findPrev pool.next wp NR_WP pool.head).map fun pos =>
      { pool with
        next := Function.update pool.next pos (pool.next wp) }.giveBack wp

/-! ## The two lists -/

/-- `active` is the list from `head` and `free` the one from `free_`; no node is
lost or in both. -/
structure WpPool.Lists (pool : WpPool) (active free : List Wp) : Prop where
  head : Linked pool.next pool.head active
  free_ : Linked pool.next pool.free_ free
  nodup : (active ++ free).Nodup
  all : ∀ wp, wp ∈ active ++ free

namespace WpPool.Lists

variable {pool : WpPool} {active free : List Wp}

theorem disjoint (lists : pool.Lists active free) {wp : Wp}
    (member : wp ∈ active) : wp ∉ free :=
  fun inFree => List.disjoint_of_nodup_append lists.nodup member inFree

theorem length (lists : pool.Lists active free) :
    active.length + free.length = NR_WP := by
  have perm : (active ++ free).Perm (List.finRange NR_WP) := by
    rw [List.perm_ext_iff_of_nodup lists.nodup (List.nodup_finRange _)]
    exact fun wp => iff_of_true (lists.all wp) (List.mem_finRange wp)
  rw [← List.length_append, perm.length_eq, List.length_finRange]

/-- `new_wp` takes the first free node. -/
theorem newWp_eq {wp : Wp} {rest : List Wp}
    (lists : pool.Lists active (wp :: rest)) :
    ∃ after, newWp pool = some (wp, after) ∧
      after.Lists (wp :: active) rest := by
  have isFree : pool.free_ = some wp := lists.free_.1
  have nodup := List.nodup_middle.mp lists.nodup
  have outside : wp ∉ active := fun member =>
    lists.disjoint member List.mem_cons_self
  have outsideRest : wp ∉ rest := by
    have free := (List.nodup_append.mp lists.nodup).2.1
    exact (List.nodup_cons.mp free).1
  refine ⟨_, by rw [newWp, isFree]; rfl, ?_, ?_, nodup, ?_⟩
  · exact lists.head.push outside
  · exact lists.free_.2.update outsideRest _
  · intro other
    have member := lists.all other
    simp only [List.mem_append, List.mem_cons] at member ⊢
    tauto

theorem newWp_none (lists : pool.Lists active []) : newWp pool = none := by
  have isNull : pool.free_ = none := lists.free_
  rw [newWp, isNull]
  rfl

/-- A node that is out of the active list goes in front of the free one. -/
theorem giveBack {wp : Wp} {unlinked : WpPool} {before after : List Wp}
    (lists : pool.Lists (before ++ wp :: after) free)
    (head : Linked unlinked.next unlinked.head (before ++ after))
    (free_ : Linked unlinked.next unlinked.free_ free) :
    (unlinked.giveBack wp).Lists (before ++ after) (wp :: free) := by
  have nodup := lists.nodup
  rw [List.append_assoc, List.cons_append] at nodup
  have once := List.nodup_middle.mp nodup
  rw [← List.append_assoc, List.nodup_cons, List.mem_append, not_or] at once
  refine ⟨head.update once.1.1 _, free_.push once.1.2, ?_, ?_⟩
  · rw [List.nodup_middle, List.nodup_cons, List.mem_append, not_or]
    exact once
  · intro other
    have member := lists.all other
    simp only [List.mem_append, List.mem_cons] at member ⊢
    tauto

/-- `free_wp` takes an active node out, wherever it is. -/
theorem freeWp_eq {wp : Wp} {before after : List Wp}
    (lists : pool.Lists (before ++ wp :: after) free) :
    ∃ freed, freeWp pool wp = some freed ∧
      freed.Lists (before ++ after) (wp :: free) := by
  have nodup := (List.nodup_append.mp lists.nodup).1
  rcases List.eq_nil_or_concat' before with rfl | ⟨before, prev, rfl⟩
  · -- the first node
    have isHead : pool.head = some wp := lists.head.1
    refine ⟨_, by rw [freeWp, if_pos isHead], ?_⟩
    exact lists.giveBack lists.head.2 lists.free_
  · -- a later node
    have spelled : (before ++ [prev]) ++ wp :: after =
        before ++ prev :: wp :: after := by simp
    have head := lists.head
    have length := lists.length
    rw [spelled] at head nodup length
    have notHead : pool.head ≠ some wp := by
      rw [head.start_eq]
      intro isWp
      cases before with
      | nil =>
          obtain rfl : prev = wp := Option.some.inj isWp
          simp at nodup
      | cons first before =>
          obtain rfl : first = wp := Option.some.inj isWp
          simp at nodup
    have found : Linked.findPrev pool.next wp NR_WP pool.head = some prev := by
      apply Linked.findPrev_eq nodup head
      simp only [List.length_append, List.length_cons] at length
      omega
    have outside : prev ∉ free := lists.disjoint (by simp)
    refine ⟨_, by rw [freeWp, if_neg notHead, found]; rfl, ?_⟩
    apply lists.giveBack
    · rw [List.append_assoc]
      exact head.unlink nodup
    · exact lists.free_.update outside _

end WpPool.Lists

theorem initWpPool_lists (expression : Wp → List Char) :
    (initWpPool expression).Lists [] (List.finRange NR_WP) where
  head := rfl
  free_ := by
    change Linked (initWpPool fun _ => []).next (initWpPool fun _ => []).free_ _
    decide +kernel
  nodup := List.nodup_finRange _
  all := List.mem_finRange

/-! ## Sequences of calls -/

/-- The pools after `init_wp_pool`, `new_wp` and `free_wp`, with the watchpoints
that are active then, the newest first. -/
inductive WpPool.Reachable : WpPool → List Wp → Prop
  | init (expression : Wp → List Char) : Reachable (initWpPool expression) []
  | new {pool after : WpPool} {active : List Wp} {wp : Wp}
      (reachable : Reachable pool active)
      (taken : newWp pool = some (wp, after)) : Reachable after (wp :: active)
  | free {pool after : WpPool} {active : List Wp} {wp : Wp}
      (reachable : Reachable pool active) (member : wp ∈ active)
      (given : freeWp pool wp = some after) :
      Reachable after (active.erase wp)

namespace WpPool

variable {pool : WpPool} {active free : List Wp}

/-- `free_wp` leaves the others in their order. -/
theorem Lists.freeWp_erase {wp : Wp} (lists : pool.Lists active free)
    (member : wp ∈ active) :
    ∃ freed, freeWp pool wp = some freed ∧
      freed.Lists (active.erase wp) (wp :: free) := by
  obtain ⟨before, after, rfl⟩ := List.append_of_mem member
  have nodup := (List.nodup_append.mp lists.nodup).1
  have notBefore : wp ∉ before := by
    rw [List.nodup_middle, List.nodup_cons, List.mem_append, not_or] at nodup
    exact nodup.1.1
  rw [List.erase_append_right _ notBefore, List.erase_cons_head]
  exact lists.freeWp_eq

/-- One call keeps the two lists, and so does a sequence of them. -/
theorem Reachable.lists (reachable : Reachable pool active) :
    ∃ free, pool.Lists active free := by
  induction reachable with
  | init expression => exact ⟨_, initWpPool_lists expression⟩
  | new reachable taken inductionHypothesis =>
      obtain ⟨free, lists⟩ := inductionHypothesis
      cases free with
      | nil => cases lists.newWp_none.symm.trans taken
      | cons first rest =>
          obtain ⟨after, isAfter, listsAfter⟩ := lists.newWp_eq
          cases isAfter.symm.trans taken
          exact ⟨rest, listsAfter⟩
  | free reachable member given inductionHypothesis =>
      obtain ⟨free, lists⟩ := inductionHypothesis
      obtain ⟨freed, isFreed, listsFreed⟩ := lists.freeWp_erase member
      cases isFreed.symm.trans given
      exact ⟨_, listsFreed⟩

/-- Every node is in one of the two lists, once; `new_wp` takes a node that was
not active and fails only when all are; `free_wp` takes out the node it is given
and no other. -/
theorem Reachable.pool_sound (reachable : Reachable pool active) :
    ∃ free, pool.Lists active free ∧
      (newWp pool = none ↔ ∀ wp, wp ∈ active) ∧
      (∀ wp after, newWp pool = some (wp, after) →
        wp ∉ active ∧ ∃ rest, after.Lists (wp :: active) rest) ∧
      ∀ wp ∈ active, ∃ after, freeWp pool wp = some after ∧
        after.Lists (active.erase wp) (wp :: free) := by
  obtain ⟨free, lists⟩ := reachable.lists
  refine ⟨free, lists, ?_, ?_, fun wp member => lists.freeWp_erase member⟩
  · cases free with
    | nil =>
        have all := lists.all
        rw [List.append_nil] at all
        exact iff_of_true lists.newWp_none all
    | cons first rest =>
        obtain ⟨after, isAfter, -⟩ := lists.newWp_eq
        apply iff_of_false
        · rw [isAfter]
          exact Option.some_ne_none _
        · exact fun all => lists.disjoint (all first) List.mem_cons_self
  · intro wp after taken
    cases free with
    | nil => cases lists.newWp_none.symm.trans taken
    | cons first rest =>
        obtain ⟨after', isAfter, listsAfter⟩ := lists.newWp_eq
        cases isAfter.symm.trans taken
        have member : wp ∉ active := fun member =>
          lists.disjoint member List.mem_cons_self
        exact ⟨member, rest, listsAfter⟩

/-- Two watchpoints are set, and the older one is deleted before the other. -/
theorem Reachable.pool_sound_two :
    ∃ pool, Reachable pool [1] ∧ ∃ free after, pool.Lists [1] free ∧
      freeWp pool 1 = some after ∧ after.Lists [] (1 :: free) := by
  have first : Reachable _ [0] :=
    .new (.init fun _ => []) (rfl : newWp _ = some (0, _))
  have second : Reachable _ [1, 0] := .new first (rfl : newWp _ = some (1, _))
  have freed : Reachable _ [1] :=
    .free second (by decide) (rfl : freeWp _ 0 = some _)
  obtain ⟨free, lists, -, -, all⟩ := freed.pool_sound
  obtain ⟨after, isAfter, listsAfter⟩ := all 1 (by decide)
  exact ⟨_, freed, free, after, lists, isAfter, listsAfter⟩

end WpPool

end Ysyx.Sdb
