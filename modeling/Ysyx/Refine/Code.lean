import Ysyx.Refine.Data
import Ysyx.Memory.Coherence
import Ysyx.Nemu.Paddr
import Ysyx.Pipeline.Speculation
import Ysyx.Pipeline.TrapPayload

/-!
# The fetched code

No store of the reference run changes a word that it executes, so that a word
fetched early is still the instruction when it is executed.  The front end
goes on at the next pc of the instruction in EX, and nothing redirects it
while the cache waits for a burst.
-/

namespace Ysyx.Nemu

/-- A store beside a word does not change it. -/
theorem hostRead_hostWrite_apart {pmem : Pmem} {addr target : Word} {len : Nat}
    (known : len = 1 ∨ len = 2 ∨ len = 4) (aligned : addr.toNat % len = 0)
    (target_aligned : target.toNat % 4 = 0)
    (apart : Axi.Bytes.align addr ≠ target) (data : Word) :
    hostRead (hostWrite pmem addr len data) target 4 =
      hostRead pmem target 4 := by
  apply hostRead_congr
  intro lane inWord
  apply hostWrite_of_outside
  have inSpace := addr.isLt
  have inSpace' := target.isLt
  have otherWord : addr.toNat / 4 ≠ target.toNat / 4 := by
    intro same
    apply apart
    apply BitVec.eq_of_toNat_eq
    rw [Axi.Bytes.toNat_align]
    omega
  have position : (target + BitVec.ofNat 32 lane - addr).toNat =
      (2 ^ 32 - addr.toNat + (target.toNat + lane)) % 2 ^ 32 := by
    rw [BitVec.toNat_sub, BitVec.toNat_add, BitVec.toNat_ofNat]
    omega
  rw [position]
  rcases known with rfl | rfl | rfl <;> omega

end Ysyx.Nemu

namespace Ysyx.Rtl

open Nemu hiding Word

variable {platform : Platform}

namespace UserProgram

variable {rtcAddr : Word} {start : State}

theorem pc_aligned (program : UserProgram rtcAddr start) (index : Nat) :
    (start.run index).pc.toNat % 4 = 0 := by
  have aligned := program.aligned index
  rw [← BitVec.toNat_inj, BitVec.toNat_and] at aligned
  exact (Nat.and_two_pow_sub_one_eq_mod _ 2).symm.trans aligned

/-- The memory always holds the code. -/
theorem code_eq (program : UserProgram rtcAddr start) (csr : Csr)
    (executed moment : Nat) :
    hostRead (start.run moment).pmem (start.run executed).pc 4 =
      hostRead start.pmem (start.run executed).pc 4 := by
  induction moment with
  | zero => rfl
  | succ moment inductionHypothesis =>
      rw [← inductionHypothesis]
      by_cases noStore :
          (Datapath.bundle csr (start.run moment)).ctrlMem.writeMem = 0
      · rw [program.pmem_of_noStore csr moment noStore]
      · obtain ⟨aligned, apart, pmem⟩ :=
          program.store_aligned csr moment noStore
        rw [pmem]
        exact hostRead_hostWrite_apart (writeLen_cases _) aligned
          (program.pc_aligned executed) (apart executed) _

/-- What the memory holds at an executed pc is its instruction. -/
theorem word_eq_inst (program : UserProgram rtcAddr start) (csr : Csr)
    (executed moment : Nat) :
    Axi.Bytes.word (start.run moment).pmem (start.run executed).pc =
      (start.run executed).inst := by
  have whole := align_of_aligned (program.pc_aligned executed)
  have same := (program.code_eq csr executed moment).trans
    (program.code_eq csr executed executed).symm
  rw [State.inst, ← same]
  simp [Axi.Bytes.word, hostRead, whole]

end UserProgram

/-- The data of a fetch are right if they are the instruction, should the
address be executed. -/
def RightCode (start : State) (addr data : Word) : Prop :=
  ∀ index, (start.run index).pc = addr → data = (start.run index).inst

/-! ## Where the fetch goes on -/

namespace Tracked

/-- The RAS has steered no instruction in the front end. -/
structure Unsteered (tracked : Tracked platform) : Prop where
  id : ∀ ticket, tracked.id = some ticket → ticket.steer = none
  ex : ∀ ticket, tracked.ex = some ticket → ticket.steer = none

theorem unsteered_reset (power : Core platform) :
    Unsteered { core := power.reset } where
  id := fun _ inId => by simp at inId
  ex := fun _ inEx => by simp at inEx

variable {tracked : Tracked platform}

theorem Unsteered.step (unsteered : tracked.Unsteered) (axi : AxiIn)
    (noHit : tracked.core.rasHit = false) :
    (tracked.step axi).Unsteered where
  id := by
    intro ticket inId
    obtain ⟨-, ⟨-, isFetched⟩ | ⟨-, stayed⟩⟩ := advance_eq_some.mp inId
    · unfold fetched at isFetched
      split_ifs at isFetched
      cases isFetched
      rfl
    · obtain ⟨source, wasInId, rfl⟩ := Option.map_eq_some_iff.mp stayed
      simpa [noHit] using unsteered.id source wasInId
  ex := by
    intro ticket inEx
    obtain ⟨-, ⟨-, isDecoded⟩ | ⟨-, stayed⟩⟩ := advance_eq_some.mp inEx
    · obtain ⟨source, inId, rfl⟩ := decoded_eq_some.mp isDecoded
      simpa [noHit] using unsteered.id source inId
    · exact unsteered.ex ticket stayed

/-- The fetch goes on at the next pc of an unflagged instruction. -/
theorem Unsteered.inLine (unsteered : tracked.Unsteered)
    (synced : Synced tracked) (steered : FetchSteered tracked)
    (valid : tracked.core.idEx.validOut = true)
    (unflagged : tracked.core.exMispredict = false) :
    tracked.core.nextInLine = tracked.core.exWnpc := by
  obtain ⟨ticket, inEx⟩ := synced.ex.exists_ticket valid
  have noSteer := unsteered.ex ticket inEx
  rw [steered.inLine ticket inEx unflagged,
    steer_iff_of_unflagged synced steered inEx unflagged]
  rintro ⟨-, -, target, isSteered, -⟩
  rw [noSteer] at isSteered
  contradiction

end Tracked

namespace Core

variable {core : Core platform}

/-- EX finds a wrong prediction in its first cycle, in which the fetch unit is
at most asking. -/
theorem mispredict_step (axi : AxiIn) (behind : core.OneBehind)
    (noFlush : core.globalTrapFlush = false)
    (wrong : (core.step axi).exMispredict = true) :
    (core.step axi).ifu.state ≠ .waitR := by
  have exValid := valid_of_exMispredict wrong
  intro waiting
  change (core.ifu.next (core.ifuPort axi)).state = .waitR at waiting
  have busy : core.ifu.state ≠ .idle := by
    intro idle
    simp only [Ifu.next, idle] at waiting
    split_ifs at waiting
  have stall : core.idExReadyOut = false := by
    by_contra ready
    rw [idEx_empty_step core axi (by simpa using ready)
      (behind.exclusive busy)] at exValid
    contradiction
  rw [idEx_stalled_iff] at stall
  rw [exMispredict_step axi stall.2 stall.1 noFlush] at wrong
  have flush : (core.ifuPort axi).flushReq = true := by
    simp [ifuPort, ifuFlushReq, jumpReq, wrong]
  simp [Ifu.next, flush] at waiting

/-- IF/ID holds no `fence.i` if none is handed over. -/
theorem isFenceI_step (axi : AxiIn) (noFence : core.isFenceI = false)
    (handed : core.handsOver = true →
      iduIsFenceI core.ifIdIn.inst = false) :
    (core.step axi).isFenceI = false := by
  rw [isFenceI, idInst, step_ifId]
  split_ifs with jump ready outValid
  · rfl
  · exact handed (by simp [handsOver, jump, ready, outValid])
  · exact noFence
  · exact noFence

end Core

end Ysyx.Rtl
