import Ysyx.Cache.PowerUp
import Ysyx.Rtl.System

/-!
# The core from two power-up states

The registers that no reset block names, unit by unit, and what has to agree
in them for two cores to show the same bus outputs, commits and traps.
-/

namespace Ysyx.Rtl

/-! ## Branch predictors -/

namespace Btb

def withHidden (btb other : Btb) : Btb :=
  { btb with tagArr := other.tagArr, tgtArr := other.tgtArr }

/-- The valid entries agree. -/
structure Same (btb other : Btb) : Prop where
  visible : other = btb.withHidden other
  entries : ∀ index, btb.validArr index = true →
    other.tagArr index = btb.tagArr index ∧
      other.tgtArr index = btb.tgtArr index

namespace Same

variable {btb other : Btb}

theorem reset (btb other : Btb) : Same btb.reset other.reset where
  visible := rfl
  entries := nofun

theorem tagMatch_eq (same : Same btb other) (pc : Word) :
    other.tagMatch pc = btb.tagMatch pc := by
  have valid : other.validArr = btb.validArr := by
    rw [same.visible]
    rfl
  simp only [tagMatch, valid]
  cases isValid : btb.validArr (idx pc) with
  | false => rfl
  | true => rw [(same.entries _ isValid).1]

theorem hit_eq (same : Same btb other) (ifPc : Word) :
    other.hit ifPc = btb.hit ifPc := by
  have counters : other.cntArr = btb.cntArr := by
    rw [same.visible]
    rfl
  rw [hit, same.tagMatch_eq, counters, ← hit]

theorem target_eq (same : Same btb other) {ifPc : Word}
    (hit : btb.hit ifPc = true) : other.target ifPc = btb.target ifPc := by
  simp only [Btb.hit, tagMatch, Bool.and_eq_true] at hit
  exact (same.entries _ hit.1.1).2

theorem next (same : Same btb other) (enable : Bool) (exPc exTarget : Word)
    (exTaken : Bool) :
    Same (btb.next enable exPc exTarget exTaken)
      (other.next enable exPc exTarget exTaken) := by
  have valid : other.validArr = btb.validArr := by
    rw [same.visible]
    rfl
  have counters : other.cntArr = btb.cntArr := by
    rw [same.visible]
    rfl
  simp only [Btb.next, same.tagMatch_eq]
  split_ifs
  · refine ⟨by simp [withHidden, valid, counters], fun index isValid => ?_⟩
    obtain ⟨tags, targets⟩ := same.entries index isValid
    simp only [tags, targets, and_self]
  · refine ⟨by simp [withHidden, valid, counters], fun index isValid => ?_⟩
    by_cases written : index = idx exPc
    · simp [written]
    · simp only [written, if_false] at isValid ⊢
      exact same.entries index isValid
  · exact same
  · exact same

end Same

end Btb

namespace Ras

variable {ptrW : Nat}

def withHidden (ras other : Ras ptrW) : Ras ptrW :=
  { ras with stack := other.stack }

/-- The slots below the pointer agree. -/
structure Same (ras other : Ras ptrW) : Prop where
  visible : other = ras.withHidden other
  slots : ∀ slot, slot < ras.sp → other.stack slot = ras.stack slot

theorem sub_one_lt {sp : BitVec ptrW} (pushed : sp ≠ 0) : sp - 1 < sp := by
  have positive : sp.toNat ≠ 0 := fun zero =>
    pushed (BitVec.eq_of_toNat_eq (by simpa using zero))
  have bound := sp.isLt
  have one : (1 : BitVec ptrW).toNat = 1 :=
    Nat.mod_eq_of_lt (by omega : 1 < 2 ^ ptrW)
  rw [BitVec.lt_def, BitVec.toNat_sub_of_le]
  · omega
  · rw [BitVec.le_def]
    omega

theorem lt_or_eq_of_lt_add_one {slot sp : BitVec ptrW}
    (below : slot < sp + 1) : slot < sp ∨ slot = sp := by
  have wraps := Nat.mod_le (sp.toNat + (1 : BitVec ptrW).toNat) (2 ^ ptrW)
  have one : (1 : BitVec ptrW).toNat ≤ 1 := Nat.mod_le 1 _
  rw [BitVec.lt_def, BitVec.toNat_add] at below
  rw [BitVec.lt_def, BitVec.toNat_inj.symm]
  omega

namespace Same

variable {ras other : Ras ptrW}

theorem reset (ras other : Ras ptrW) : Same ras.reset other.reset where
  visible := rfl
  slots := fun _ below => absurd below BitVec.not_lt_zero

theorem sp_eq (same : Same ras other) : other.sp = ras.sp := by
  rw [same.visible]
  rfl

theorem target_eq (same : Same ras other) (pushed : ras.sp ≠ 0) :
    other.target = ras.target := by
  rw [target, target, same.sp_eq]
  exact same.slots _ (sub_one_lt pushed)

theorem next (same : Same ras other)
    (flush idValid idIsCall idIsRet : Bool) (idPc : Word) :
    Same (ras.next flush idValid idIsCall idIsRet idPc)
      (other.next flush idValid idIsCall idIsRet idPc) := by
  simp only [Ras.next, same.sp_eq]
  split_ifs with _ _ _ pops
  · exact reset ras other
  · refine ⟨rfl, fun slot below => ?_⟩
    by_cases pushed : slot = ras.sp
    · simp [pushed]
    · simp only [pushed, if_false]
      refine same.slots slot ?_
      exact (lt_or_eq_of_lt_add_one below).resolve_right pushed
  · refine ⟨rfl, fun slot below => same.slots slot ?_⟩
    exact BitVec.lt_trans below (sub_one_lt pops.2)
  · exact same
  · exact same

end Same

end Ras

/-! ## Load-store unit and bus -/

namespace Lsu

def withHidden (lsu other : Lsu) : Lsu :=
  { lsu with
    excValid := other.excValid
    excCause := other.excCause
    excTval := other.excTval }

/-- The exception that the two units would report is the same. -/
def SameFlag (lsu other : Lsu) : Prop :=
  other.excValid = lsu.excValid ∧
    (lsu.excValid = true →
      other.excCause = lsu.excCause ∧ other.excTval = lsu.excTval)

theorem nextLoad_withHidden (lsu other : Lsu) (port : In) :
    (lsu.withHidden other).nextLoad port =
      (lsu.nextLoad port).withHidden
        ((lsu.withHidden other).nextLoad port) := by
  have starts : (lsu.withHidden other).loadStart port =
      lsu.loadStart port := rfl
  rw [nextLoad, nextLoad, starts]
  cases state : lsu.stateLoad <;> simp only [state, withHidden] <;>
    split_ifs <;> simp_all

theorem nextStore_withHidden (lsu other : Lsu) (port : In) :
    (lsu.withHidden other).nextStore port =
      (lsu.nextStore port).withHidden
        ((lsu.withHidden other).nextStore port) := by
  have starts : (lsu.withHidden other).storeStart port =
      lsu.storeStart port := rfl
  rw [nextStore, nextStore, starts]
  cases state : lsu.stateStore <;> simp only [state, withHidden] <;>
    split_ifs <;> simp_all

theorem next_lsuBvalid (lsu : Lsu) (port : In) (lsuBvalid : Bool)
    (silent : lsu.stateStore = .resp → lsuBvalid = port.lsuBvalid) :
    lsu.next { port with lsuBvalid } = lsu.next port := by
  by_cases waits : lsu.stateStore = .resp
  · rw [silent waits]
  · have state := nextLoad_stateStore lsu port
    have sameLoad : lsu.nextLoad { port with lsuBvalid } =
        lsu.nextLoad port := rfl
    rw [Lsu.next, sameLoad, Lsu.next]
    simp only [nextStore, storeStart]
    split <;> simp_all

theorem next_withHidden {lsu other : Lsu} (port : In)
    (visible : other = lsu.withHidden other) :
    other.next port = (lsu.next port).withHidden (other.next port) := by
  rw [visible, Lsu.next, Lsu.next, nextLoad_withHidden, nextStore_withHidden]
  rfl

end Lsu

namespace Bus

def withHidden (bus other : Bus) : Bus :=
  { bus with
    write :=
      { bus.write with lsuBvalidReg := other.write.lsuBvalidReg }
    clint := { bus.clint with rvalid := other.clint.rvalid } }

/-- The response is the same while the LSU is to take it. -/
structure Same (bus other : Bus) : Prop where
  visible : other = bus.withHidden other
  answered : bus.write.stateStore = .busWriteDone →
    other.write.lsuBvalidReg = bus.write.lsuBvalidReg

namespace Same

variable {bus other : Bus}

theorem reset (bus other : Bus) : Same bus.reset other.reset where
  visible := rfl
  answered := nofun

theorem write_next (same : Same bus other) (platform : Platform) (port : In)
    (axi : AxiIn) :
    other.nextWrite platform port axi =
        { bus.nextWrite platform port axi with
          lsuBvalidReg :=
            (other.nextWrite platform port axi).lsuBvalidReg } ∧
      ((bus.nextWrite platform port axi).stateStore = .busWriteDone →
        (other.nextWrite platform port axi).lsuBvalidReg =
          (bus.nextWrite platform port axi).lsuBvalidReg) := by
  obtain ⟨visible, answered⟩ := same
  have ready : other.lsuAwready port.lsuArvalid port.ifuArvalid =
      bus.lsuAwready port.lsuArvalid port.ifuArvalid := by
    rw [visible]
    rfl
  have write : other.write = { bus.write with
      lsuBvalidReg := other.write.lsuBvalidReg } := by
    rw [visible]
    rfl
  generalize other.write.lsuBvalidReg = lsuBvalidReg at write answered
  rw [nextWrite, nextWrite, ready, write]
  clear visible ready write
  cases state : bus.write.stateStore with
  | busWriteDone =>
      rw [answered state]
      exact ⟨rfl, fun _ => rfl⟩
  | busWriteB =>
      simp only [state]
      split_ifs <;> simp_all
  | _ =>
      refine ⟨rfl, ?_⟩
      simp only
      split_ifs <;> simp

theorem next (same : Same bus other) (platform : Platform) (port : In)
    (axi : AxiIn) :
    Same (bus.next platform port axi) (other.next platform port axi) := by
  obtain ⟨write, answered⟩ := same.write_next platform port axi
  refine ⟨?_, answered⟩
  have read : other.nextRead platform port axi =
      bus.nextRead platform port axi := by
    rw [same.visible]
    rfl
  have mtime : other.clint.mtime = bus.clint.mtime := by
    rw [same.visible]
    rfl
  simp only [Bus.next, withHidden, Bus.mk.injEq]
  refine ⟨read, write, ?_⟩
  simp [Clint.next, mtime]

end Same

end Bus

end Ysyx.Rtl
