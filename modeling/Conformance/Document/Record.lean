import Conformance.Document.Reader
import Conformance.Fault
import Conformance.Numeral.Fraction

/-!
# Records in documents

How structured data is laid out in a document.  A record is an object whose keys are its
fields, or an array of its fields in order.  A record that has a shape is an object: the
first member whose key names a `Form` gives the shape, and other members that are no
fields are ignored.  A word of a fixed list stands for itself, or as the only key of an
object without content.

Members that no field reads are skipped over without looking into them; `Skim` says
which parts of a document must be readable.
-/

namespace Conformance

/-- The result of reading a part of a document. -/
abbrev Reading := Except Misreading

namespace Document

/-- The fields of a record. -/
structure Fields where
  /-- Whether the record is written as an array. -/
  positional : Bool
  values : List (String × Document)

/-- The first key of a list that occurred before in it. -/
def firstRepeated? : List String → Option String
  | [] => none
  | keys@(_ :: _) =>
    (keys.zipIdx.find? fun (key, i) => key ∈ keys.take i).map (·.1)

/-- The fields with the given names among the members of an object. -/
def namedFields (names : List String) (members : List (String × Document)) :
    Reading Fields :=
  let known := members.filter (·.1 ∈ names)
  match firstRepeated? (known.map (·.1)) with
  | some name => throw (.duplicateField name)
  | none => return ⟨false, known⟩

/-- The fields of a record with the given names. -/
def fields (names : List String) : Document → Reading Fields
  | .object members => namedFields names members
  | .array items =>
    if names.length < items.length then throw .malformed
    else return ⟨true, names.zip items⟩
  | _ => throw .malformed

namespace Fields

variable {α : Type} (f : Fields) (name : String)

/-- The value of a field that must be there. -/
def required (read : Document → Reading α) : Reading α :=
  match f.values.lookup name with
  | some d => read d
  | none => throw (if f.positional then .malformed else .missingField name)

/-- The value of a field that may be absent. -/
def defaulted (fallback : α) (read : Document → Reading α) : Reading α :=
  match f.values.lookup name with
  | some d => read d
  | none => return fallback

/-- The value of a field that may be absent or null. -/
def optional (read : Document → Reading α) : Reading (Option α) :=
  match f.values.lookup name with
  | none | some .null => return none
  | some d => some <$> read d

end Fields

/-- A text. -/
def asText : Document → Reading String
  | .text value => return value
  | _ => throw .malformed

/-- A truth value. -/
def asBoolean : Document → Reading Bool
  | .boolean value => return value
  | _ => throw .malformed

/-- An integer of at least `low` and below `high`. -/
def asIntegerWithin (low high : Int) : Document → Reading Int
  | .integer value => if low ≤ value ∧ value < high then return value else throw .malformed
  | _ => throw .malformed

/-- A natural number of at most `bits` bits. -/
def asNatural (bits : Nat) (d : Document) : Reading Nat :=
  Int.toNat <$> d.asIntegerWithin 0 (Nat.pow 2 bits)

/-- An integer of 64 bits. -/
def asInteger (d : Document) : Reading Int := d.asIntegerWithin (-(Nat.pow 2 63)) (Nat.pow 2 63)

/-- A list. -/
def asList {α : Type} (read : Document → Reading α) : Document → Reading (List α)
  | .array items => items.mapM read
  | _ => throw .malformed

/-- An integer of any size: an integer of 64 bits or a literal. -/
def asBigInteger : Document → Reading Int
  | .text literal =>
    match Numeral.literal? literal.toList with
    | some value => return value
    | none => throw (.integerLiteral literal)
  | d => d.asInteger

/-- A fraction: an integer of 64 bits or a written fraction. -/
def asFraction : Document → Reading Rat
  | .text literal =>
    match Numeral.readFraction? literal.toList with
    | some value => return value
    | none => throw (.fractionLiteral literal)
  | d => (fun n : Int => (n : Rat)) <$> d.asInteger

/-- What may stand as the content of a word that is written as the only key of an
object.  Where the content may be an object too, the key is looked up only if there is no
other. -/
inductive EmptyContent where
  | null
  | nullOrObject
  deriving DecidableEq

/-- Whether a document is the content of a word. -/
def EmptyContent.allows (content : EmptyContent) : Document → Bool
  | .null => true
  | .object [] => content == .nullOrObject
  | _ => false

/-- The meaning of a word. -/
def wordIn {α : Type} (words : List (String × α)) (word : String) : Reading α :=
  match words.lookup word with
  | some value => return value
  | none => throw (.unknownWord word)

/-- The meaning of a word of the given list. -/
def asWord {α : Type} (content : EmptyContent) (words : List (String × α)) :
    Document → Reading α
  | .text word => wordIn words word
  | .object ((word, d) :: others) => do
    if content = .nullOrObject ∧ !others.isEmpty then throw .malformed
    let value ← wordIn words word
    if content.allows d ∧ others.isEmpty then return value else throw .malformed
  | _ => throw .malformed

/-- A shape of a record: its key and the reader of its content. -/
structure Form (β : Type) where
  key : String
  read : Document → Reading β

/-- The form whose content is a record with the given fields. -/
def Form.ofFields {β : Type} (key : String) (names : List String)
    (build : Fields → Reading β) : Form β :=
  ⟨key, fun d => d.fields names >>= build⟩

/-- The form whose content has one field, read with `part`. -/
def Form.ofPart {α β : Type} (part : Document → Reading α) (key field : String)
    (build : α → β) : Form β :=
  .ofFields key [field] fun f => build <$> f.required field part

/-- The form whose content has one field, which is a text. -/
def Form.ofText {β : Type} (key field : String) (build : String → β) : Form β :=
  .ofPart asText key field build

/-- The form whose content is empty. -/
def Form.bare {β : Type} (key : String) (value : β) : Form β :=
  .ofFields key [] fun _ => return value

/-- The shape that the first fitting member gives. -/
def shapeIn {β : Type} (family : String) (forms : List (Form β)) :
    List (String × Document) → Reading β
  | [] => throw (.shapeless family)
  | (key, content) :: rest =>
    match forms.find? (·.key == key) with
    | some form => form.read content
    | none => shapeIn family forms rest

/-- The fields and the shape of a record that has one. -/
def shaped {β : Type} (names : List String) (family : String) (forms : List (Form β)) :
    Document → Reading (Fields × Reading β)
  | .object members => do
    let fields ← namedFields names members
    return (fields, shapeIn family forms (members.filter (·.1 ∉ names)))
  | _ => throw .malformed

/-- Whether the parts of a document that are read may be read, given the levels of
nesting that are left. -/
abbrev Skim := Nat → Document → Bool

namespace Skim

/-- The skim that looks at everything. -/
def all : Skim := isReadable

/-- The skim of an array whose items are skimmed with `item`. -/
def items (item : Skim) : Skim
  | levels, .array ds => levels ≠ 0 && ds.all (item (levels - 1))
  | levels, d => isReadable levels d

/-- Whether items may be read that are skimmed one after another; those beyond the given
skims are looked at entirely. -/
def inOrder (levels : Nat) : List Skim → List Document → Bool
  | _, [] => true
  | [], d :: ds => all levels d && inOrder levels [] ds
  | part :: parts, d :: ds => part levels d && inOrder levels parts ds

/-- The skim of a record with the given fields, where other members are skipped. -/
def record (parts : List (String × Skim)) : Skim
  | levels, .array items => levels ≠ 0 && inOrder (levels - 1) (parts.map (·.2)) items
  | levels, .object members =>
    levels ≠ 0 && members.all fun (key, d) =>
      match parts.lookup key with
      | some part => part (levels - 1) d
      | none => true
  | levels, d => isReadable levels d

/-- The skim of a record that has a shape, where only the given fields are skimmed in
their own way. -/
def shaped (parts : List (String × Skim)) : Skim
  | levels, .object members =>
    levels ≠ 0 && members.all fun (key, d) =>
      ((parts.lookup key).getD all) (levels - 1) d
  | levels, d => isReadable levels d

end Skim

end Document

end Conformance
