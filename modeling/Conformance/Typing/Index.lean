import Conformance.Numeral.Width
import Conformance.Typing.Core

/-!
# Representation of discrete types

Whether the values of a discrete type are signed, and the size of the machine integer
that holds them.
-/

namespace Conformance

/-- How the values of a discrete type are held. -/
structure Representation where
  signed : Bool
  size : Nat
  deriving DecidableEq

/-- The bits that both bounds of a signed type need. -/
def boundsWidth (low high : Int) : Nat :=
  max (Numeral.signedWidth low) (Numeral.signedWidth high)

/-- How the values of a definition are held, if it is one of a discrete type. -/
def TypeDefinition.representation? : TypeDefinition → Option Representation
  | .signed low high => some ⟨true, Numeral.storageSize (boundsWidth low high)⟩
  | .modular modulus =>
    some ⟨false, Numeral.storageSize (Numeral.bitLength (modulus - 1).natAbs)⟩
  | .enumeration literals =>
    some ⟨false, Numeral.storageSize (max (Numeral.bitLength (literals.length - 1)) 1)⟩
  | _ => none

/-- How the values of a type are held, if it stands for a discrete type. -/
def Setting.representation? (S : Setting) (id : EntityId) :
    Answer (Option Representation) := do
  return (← S.definition id).representation?

end Conformance
