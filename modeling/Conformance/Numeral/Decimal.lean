import Conformance.Text.Blank

/-!
# Decimal integers

The decimal integers that program texts are made of.  A magnitude is a run of ASCII
digits in which underscores may separate digits or trail them, but never lead.  An
integer is a magnitude with at most one sign before it.  An exponent is a plain run of
digits, with at most a plus sign before it, that fits 32 bits.
-/

namespace Conformance.Numeral

/-- The value of a decimal digit. -/
def digitValue (c : Char) : Nat := c.toNat - '0'.toNat

/-- The value of the digits `cs` written after a number `n`, skipping underscores. -/
def digitsAfter? (n : Nat) : List Char → Option Nat
  | [] => some n
  | c :: cs =>
    if c = '_' then digitsAfter? n cs
    else if c.isDigit then digitsAfter? (10 * n + digitValue c) cs
    else none

/-- The value of a magnitude. -/
def magnitude? : List Char → Option Nat
  | [] => none
  | c :: cs => if c = '_' then none else digitsAfter? 0 (c :: cs)

/-- The value of a decimal integer: a magnitude with at most one sign. -/
def decimal? : List Char → Option Int
  | '-' :: cs => (magnitude? cs).map fun n => -n
  | '+' :: cs => (magnitude? cs).map fun n => n
  | cs => (magnitude? cs).map fun n => n

/-- The value of a run of digits without separators. -/
def plainDigits? (cs : List Char) : Option Nat :=
  if cs ≠ [] ∧ cs.all Char.isDigit then digitsAfter? 0 cs else none

/-- The value of an exponent, which fits 32 bits. -/
def exponent? (cs : List Char) : Option Nat :=
  let digits := match cs with
    | '+' :: rest => rest
    | _ => cs
  (plainDigits? digits).filter (· < Nat.pow 2 32)

end Conformance.Numeral
