import Ysyx.Lib.AxiMemory

/-!
# Handshakes of an AXI port

A master waits for a slave in one of five handshakes.  A responsive slave
lets it wait in none of them for ever.
-/

namespace Axi

/-- One handshake for each channel; the one of the R channel is with the last
beat. -/
inductive Handshake where
  | ar
  | r
  | aw
  | w
  | b
  deriving DecidableEq, Repr

namespace Handshake

/-- The master is ready for the handshake. -/
def offered (handshake : Handshake) (out : MasterOut) : Bool :=
  match handshake with
  | ar => out.arvalid
  | r => out.rready
  | aw => out.awvalid
  | w => out.wvalid
  | b => out.bready

/-- The slave is ready for the handshake. -/
def taken (handshake : Handshake) (axi : MasterIn) : Bool :=
  match handshake with
  | ar => axi.arready
  | r => axi.rvalid && axi.rlast
  | aw => axi.awready
  | w => axi.wready
  | b => axi.bvalid

end Handshake

/-- The handshake that is waited for, if there is one, is taken. -/
def Taken (awaited : Option Handshake) (axi : MasterIn) : Prop :=
  ∀ handshake ∈ awaited, handshake.taken axi = true

/-- No handshake that the master offers for ever is refused for ever. -/
def Responsive (driven : Nat → MasterIn) (seen : Nat → MasterOut) : Prop :=
  ∀ (handshake : Handshake) start,
    (∀ cycle, start ≤ cycle → handshake.offered (seen cycle) = true) →
    ∃ cycle, start ≤ cycle ∧ handshake.taken (driven cycle) = true

/-- What a master offers as long as it waits is taken. -/
theorem Responsive.taken {driven : Nat → MasterIn} {seen : Nat → MasterOut}
    (responsive : Responsive driven seen) {awaited : Option Handshake}
    {start : Nat}
    (offers : ∀ cycle, start ≤ cycle →
      ∀ handshake ∈ awaited, handshake.offered (seen cycle) = true) :
    ∃ cycle, start ≤ cycle ∧ Taken awaited (driven cycle) := by
  cases awaited with
  | none => exact ⟨start, le_rfl, nofun⟩
  | some handshake =>
      obtain ⟨cycle, later, taken⟩ :=
        responsive handshake start fun cycle later =>
          offers cycle later handshake rfl
      refine ⟨cycle, later, ?_⟩
      rintro _ ⟨rfl⟩
      exact taken

end Axi
