import Ysyx.Lib.AxiMemory

/-!
# Conforming read slaves

The read channels of a slave that serves one burst at a time, whatever its
delays and its data.
-/

namespace Axi

/-- The read burst a slave serves, with the number of beats it has
delivered. -/
structure Serving where
  addr : BitVec 32
  len : BitVec 8
  beat : Nat
  deriving DecidableEq, Repr

namespace Serving

def isLast (serving : Serving) : Bool := serving.beat == serving.len.toNat

end Serving

/-- What a slave drives that wishes to drive `wish`: it accepts no request
while it serves a burst, delivers no beat otherwise, and marks exactly the
last beat. -/
def conforming (serving : Option Serving) (wish : MasterIn) : MasterIn :=
  match serving with
  | none => { wish with rvalid := false }
  | some burst =>
      { wish with
        arready := false
        rlast := if wish.rvalid then burst.isLast else wish.rlast }

/-- The burst that is served after one cycle. -/
def nextServing (serving : Option Serving) (axi : MasterIn)
    (out : MasterOut) : Option Serving :=
  match serving with
  | none =>
      if out.arvalid && axi.arready then some ⟨out.araddr, out.arlen, 0⟩
      else none
  | some burst =>
      if axi.rvalid && out.rready then
        if axi.rlast then none else some { burst with beat := burst.beat + 1 }
      else some burst

end Axi
