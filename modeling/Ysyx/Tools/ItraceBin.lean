import Ysyx.Tools.Cachesim
import Mathlib.Tactic.Ring
import Mathlib.Data.List.Induction

/-!
# The instruction trace

`itrace_bin_record` and `finalize_itrace_bin` of NEMU, read back by the cache
simulator.  Both programs use the same node layout, and `bzip2` stands
between them unless the trace is read raw.
-/

namespace Ysyx.Nemu

open Cachesim (Node addresses)

/-- The static variables of `log.c`, and the nodes written to the file. -/
structure ItraceBin where
  curNode : Node := ⟨0, 0⟩
  lastPc : BitVec 32 := 0
  /-- `itrace_bin_fp` is not `NULL`. -/
  isOpen : Bool
  file : List Node := []
  deriving DecidableEq, Repr

namespace ItraceBin

/-- `if (cur_node.count > 0) fwrite(&cur_node, …)`. -/
def flushNode (bin : ItraceBin) : List Node :=
  if bin.curNode.count > 0 then bin.file ++ [bin.curNode] else bin.file

/-- `itrace_bin_record`. -/
def record (bin : ItraceBin) (pc : BitVec 32) : ItraceBin :=
  if ¬ bin.isOpen then
    bin
  else if bin.curNode.count = 0 ∨ pc ≠ bin.lastPc + 4 then
    { bin with file := bin.flushNode, curNode := ⟨pc, 1⟩, lastPc := pc }
  else
    { bin with
      curNode := { bin.curNode with count := bin.curNode.count + 1 }
      lastPc := pc }

/-- `finalize_itrace_bin`. -/
def finalize (bin : ItraceBin) : ItraceBin :=
  if bin.isOpen then { bin with file := bin.flushNode, isOpen := false }
  else bin

/-- The file written for a sequence of pcs. -/
def written (pcs : List (BitVec 32)) : List Node :=
  (pcs.foldl record { isOpen := true }).finalize.file

/-! ## Round trip -/

theorem addresses_append (file : List Node) (node : Node) :
    addresses (file ++ [node]) = addresses file ++ node.addresses := by
  simp [addresses]

theorem addresses_first (pc : BitVec 32) :
    Node.addresses ⟨pc, 1⟩ = [pc] := by
  simp [Node.addresses]

theorem toNat_add_one {count : BitVec 32}
    (room : count.toNat + 1 < 2 ^ 32) :
    (count + 1).toNat = count.toNat + 1 := by
  rw [BitVec.toNat_add]
  exact Nat.mod_eq_of_lt room

theorem addresses_grown (node : Node) (room : node.count.toNat + 1 < 2 ^ 32) :
    Node.addresses { node with count := node.count + 1 } =
      node.addresses ++ [node.startPc + node.count * 4] := by
  unfold Node.addresses
  rw [toNat_add_one room, List.range_succ]
  simp

/-- The nodes in the file and the current one hold what was recorded. -/
structure Holds (bin : ItraceBin) (pcs : List (BitVec 32)) : Prop where
  isOpen : bin.isOpen = true
  nodes : addresses bin.flushNode = pcs
  short : bin.curNode.count.toNat ≤ pcs.length
  last : bin.curNode.count ≠ 0 →
    bin.lastPc + 4 = bin.curNode.startPc + bin.curNode.count * 4

theorem flushNode_of_running {bin : ItraceBin}
    (running : bin.curNode.count ≠ 0) :
    bin.flushNode = bin.file ++ [bin.curNode] := by
  have positive : bin.curNode.count > 0 := by bv_omega
  rw [flushNode, if_pos positive]

theorem holds_record {bin : ItraceBin} {pcs : List (BitVec 32)}
    (holds : Holds bin pcs) (room : pcs.length + 1 < 2 ^ 32)
    (pc : BitVec 32) : Holds (bin.record pc) (pcs ++ [pc]) := by
  have isOpen := holds.isOpen
  have nodes := holds.nodes
  have short := holds.short
  unfold record
  rw [if_neg (by simp [isOpen])]
  by_cases starts : bin.curNode.count = 0 ∨ pc ≠ bin.lastPc + 4
  · rw [if_pos starts]
    refine ⟨isOpen, ?_, by simp, fun _ => by simp⟩
    rw [flushNode_of_running (by simp), addresses_append, addresses_first,
      nodes]
  · rw [if_neg starts]
    simp only [not_or, not_not] at starts
    obtain ⟨running, consecutive⟩ := starts
    have fits : bin.curNode.count.toNat + 1 < 2 ^ 32 := by omega
    have grown := toNat_add_one fits
    have stillRunning : bin.curNode.count + 1 ≠ 0 := by
      intro zero
      rw [zero] at grown
      simp at grown
    rw [flushNode_of_running running, addresses_append] at nodes
    refine ⟨isOpen, ?_, ?_, fun _ => ?_⟩
    · rw [flushNode_of_running stillRunning, addresses_append,
        addresses_grown _ fits, ← List.append_assoc, nodes, consecutive,
        holds.last running]
    · simp only [grown, List.length_append, List.length_singleton]
      omega
    · rw [consecutive, holds.last running]
      ring

/-- The nodes hold every sequence that fits a run counter. -/
theorem holds_foldl (pcs : List (BitVec 32)) (few : pcs.length < 2 ^ 32) :
    Holds (pcs.foldl record { isOpen := true }) pcs := by
  induction pcs using List.reverseRecOn with
  | nil =>
      exact ⟨rfl, rfl, by simp, by simp⟩
  | append_singleton pcs pc inductionHypothesis =>
      rw [List.length_append, List.length_singleton] at few
      rw [List.foldl_append, List.foldl_cons, List.foldl_nil]
      exact holds_record (inductionHypothesis (by omega)) few pc

/-- The reader expands a trace to the sequence that was recorded. -/
theorem addresses_written (pcs : List (BitVec 32))
    (few : pcs.length < 2 ^ 32) : addresses (written pcs) = pcs := by
  have holds := holds_foldl pcs few
  unfold written finalize
  rw [if_pos holds.isOpen]
  exact holds.nodes

/-- Runs that wrap around and repeat. -/
theorem addresses_written_wrap :
    addresses (written [0xfffffffc, 0, 4, 4, 0xfffffffc]) =
      [0xfffffffc, 0, 4, 4, 0xfffffffc] :=
  addresses_written _ (by decide)

end ItraceBin

end Ysyx.Nemu
