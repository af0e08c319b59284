import Conformance.Document.Defect
import Conformance.Numeral.Double

/-!
# Documents

`Document` is the tree of a JSON text.  Objects are lists of members in written order,
repetitions included, because the order and the repetition of keys decide how a program
is read.  Numbers written as integers are kept apart from those written with a point or
an exponent.  A text whose escapes spell no Unicode text is kept as `garbled`, and so is
an object with such a key.

`isReadable` says whether a document may be read at all: arrays and objects nest no
deeper than allowed, its numbers are in the range of double precision and no part is
garbled.  `defect?` is the defect of its first garbled part.
-/

namespace Conformance

/-- The tree of a JSON text. -/
inductive Document where
  | null
  | boolean (value : Bool)
  /-- A number without point and exponent, other than `-0`. -/
  | integer (value : Int)
  /-- Any other number, as a coefficient scaled by a power of ten. -/
  | real (coefficient : Int) (exponent : Int)
  | text (value : String)
  /-- A text with an unpaired surrogate among its escapes, or an object with such a
  key. -/
  | garbled (defect : Document.Defect)
  | array (items : List Document)
  | object (members : List (String × Document))

namespace Document

/-- The deepest nesting of arrays and objects that is read. -/
def nestingLimit : Nat := 127

mutual

/-- Whether a document may be read with `levels` levels of nesting left. -/
def isReadable (levels : Nat) : Document → Bool
  | .null | .boolean _ | .text _ => true
  | .integer value => Numeral.inDoubleRange value.natAbs 0
  | .real coefficient exponent => Numeral.inDoubleRange coefficient.natAbs exponent
  | .garbled _ => false
  | .array items => levels ≠ 0 && areReadable (levels - 1) items
  | .object members => levels ≠ 0 && membersReadable (levels - 1) members

/-- Whether all items of an array may be read. -/
def areReadable (levels : Nat) : List Document → Bool
  | [] => true
  | d :: ds => isReadable levels d && areReadable levels ds

/-- Whether the values of all members of an object may be read. -/
def membersReadable (levels : Nat) : List (String × Document) → Bool
  | [] => true
  | (_, d) :: ds => isReadable levels d && membersReadable levels ds

end

mutual

/-- The defect of the first garbled part of a document. -/
def defect? : Document → Option Defect
  | .garbled defect => some defect
  | .array items => itemsDefect? items
  | .object members => membersDefect? members
  | _ => none

/-- The defect of the first garbled part of the items of an array. -/
def itemsDefect? : List Document → Option Defect
  | [] => none
  | d :: ds => (defect? d).or (itemsDefect? ds)

/-- The defect of the first garbled part of the members of an object. -/
def membersDefect? : List (String × Document) → Option Defect
  | [] => none
  | (_, d) :: ds => (defect? d).or (membersDefect? ds)

end

end Document

end Conformance
