/-!
# Defects of texts

Why a text spells no document, and at which place.  `Defect.message` is the wording.
-/

namespace Conformance.Document

/-- A place in a text: lines and columns count from one, and a column is a byte of
UTF-8. -/
structure Place where
  line : Nat := 1
  column : Nat := 1
  deriving DecidableEq

namespace Place

/-- The place after a character. -/
def after (p : Place) (c : Char) : Place :=
  if c = '\n' then ⟨p.line + 1, 1⟩ else ⟨p.line, p.column + c.utf8Size⟩

/-- The wording of a place. -/
def text (p : Place) : String := s!"line {p.line} column {p.column}"

end Place

/-- The defects of texts. -/
inductive Defect where
  /-- Something else stands where a value must start. -/
  | noValue (place : Place)
  /-- Something else stands where a number must go on. -/
  | noNumber (place : Place)
  /-- The escape that ends here is a low surrogate without a high one before it, or
  follows a high surrogate without being a low one. -/
  | unpaired (place : Place)
  /-- Something else stands where the escape of a low surrogate must start. -/
  | noPartner (place : Place)
  /-- Any other breach of the grammar. -/
  | ungrammatical
  deriving DecidableEq

/-- The wording of a defect. -/
def Defect.message : Defect → String
  | .noValue place => "expected value at " ++ place.text
  | .noNumber place => "invalid number at " ++ place.text
  | .unpaired place => "lone leading surrogate in hex escape at " ++ place.text
  | .noPartner place => "unexpected end of hex escape at " ++ place.text
  | .ungrammatical => "malformed"

end Conformance.Document
