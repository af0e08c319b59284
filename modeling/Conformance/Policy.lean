import Conformance.Program.Reading

/-!
# Policies

The choices that a run is made under: the mode of what has no mode of its own, and the
limits of the subset.  A policy is a record all of whose fields have defaults.
-/

namespace Conformance

open Document (Skim asNatural asBoolean asList asWord)

/-- The choices that a run is made under. -/
structure Policy where
  /-- The mode of entities without an annotation anywhere in their scopes.  Without a
  mode, offenders are excluded but not reported. -/
  defaultMode : Option Mode := none
  maxIntegerBits : Nat := 128
  maxModulusBits : Nat := 128
  floatDigits : List Nat := [6, 15, 18]
  maxArrayDimensions : Nat := 4
  /-- Whether unknown pragmas are violations. -/
  rejectUnknownPragmas : Bool := false

namespace Policy

/-- The fields of a policy. -/
def fieldNames : List String :=
  ["default_mode", "max_integer_bits", "max_modulus_bits", "supported_float_digits",
    "max_array_dimensions", "reject_unknown_pragmas"]

/-- The parts of a policy that are read. -/
def skim : Skim := .record (fieldNames.map fun name => (name, .all))

/-- The policy that a record spells. -/
def readFields (d : Document) : Reading Policy := do
  if skim Document.nestingLimit d then
    let base : Policy := {}
    let f ← d.fields fieldNames
    return {
      defaultMode := ← f.optional "default_mode" (asWord .null Mode.words)
      maxIntegerBits := ← f.defaulted "max_integer_bits" base.maxIntegerBits (asNatural 32)
      maxModulusBits := ← f.defaulted "max_modulus_bits" base.maxModulusBits (asNatural 32)
      floatDigits :=
        ← f.defaulted "supported_float_digits" base.floatDigits (asList (asNatural 32))
      maxArrayDimensions :=
        ← f.defaulted "max_array_dimensions" base.maxArrayDimensions (asNatural 64)
      rejectUnknownPragmas :=
        ← f.defaulted "reject_unknown_pragmas" base.rejectUnknownPragmas asBoolean }
  else throw .malformed

/-- The policy of a document. -/
def ofDocument (d : Document) : Answer Policy :=
  (readFields d).mapError (.unreadable .policy)

/-- The policy of a text. -/
def read (text : String) : Answer Policy :=
  match Document.read text with
  | .ok d => ofDocument d
  | .error _ => throw (.unreadable .policy .malformed)

end Policy

end Conformance
