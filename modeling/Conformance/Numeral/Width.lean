/-!
# Widths of integers

How many bits an integer takes: `bitLength` for magnitudes, `signedWidth` for two's
complement.  `storageSize` rounds a width up to the next size that machines offer, as
long as one of them suffices.
-/

namespace Conformance.Numeral

/-- The number of binary digits of a natural number, zero for zero. -/
def bitLength (n : Nat) : Nat := if n = 0 then 0 else n.log2 + 1

/-- The bits needed to hold an integer in two's complement. -/
def signedWidth : Int → Nat
  | .ofNat n => bitLength n + 1
  | .negSucc n => bitLength n + 1

/-- The sizes of the integers that machines offer. -/
def storageSizes : List Nat := [8, 16, 32, 64, 128]

/-- The least storage size of at least `width` bits, or `width` itself beyond all of
them. -/
def storageSize (width : Nat) : Nat :=
  (storageSizes.find? (width ≤ ·)).getD width

end Conformance.Numeral
