import Conformance.Numeral.Decimal

/-!
# Integer literals

Bounds and moduli are written as integers or with the shorthands `2**N`, `2**N-K` and
`-2**N+K`.  A literal is an optional minus, a head term and at most one offset, where a
term is a decimal integer or a power.  The minus applies to the head alone, and a power
binds tighter than the minus.  Blanks may stand around terms, signs and the `**`.
-/

namespace Conformance.Numeral

/-- The parts of a text before and after its first `**`. -/
def splitPower : List Char → Option (List Char × List Char)
  | [] => none
  | '*' :: '*' :: cs => some ([], cs)
  | c :: cs => (splitPower cs).map fun (b, e) => (c :: b, e)

/-- The value of a term: a power of a decimal integer, or a decimal integer. -/
def term? (cs : List Char) : Option Int :=
  let t := Text.trim cs
  match splitPower t with
  | some (base, exponent) =>
    match decimal? (Text.trim base), exponent? (Text.trim exponent) with
    | some b, some e => some (Int.pow b e)
    | _, _ => none
  | none => decimal? t

/-- A plus or a minus sign. -/
def isSign (c : Char) : Bool := c == '+' || c == '-'

/-- A sum cut at its last sign, not counting a sign that leads it. -/
def splitOffset : List Char → Option (List Char × Char × List Char)
  | [] => none
  | c :: cs => (Text.splitLast isSign cs).map fun (h, s, t) => (c :: h, s, t)

/-- The value of a head term, negated on demand, and of the offset that follows it. -/
def sum? (negated : Bool) (cs : List Char) : Option Int :=
  let signed (v : Int) : Int := if negated then -v else v
  match splitOffset cs with
  | none => (term? cs).map signed
  | some (head, sign, offset) =>
    match term? head, term? offset with
    | some h, some o => some (if sign = '+' then signed h + o else signed h - o)
    | _, _ => none

/-- The value of an integer literal. -/
def literal? (cs : List Char) : Option Int :=
  match Text.trim cs with
  | '-' :: rest => sum? true (Text.trimStart rest)
  | body => sum? false body

end Conformance.Numeral
