/-!
# Attributes

How a reference to an attribute is treated, by the name of the attribute.  Names are
compared without regard to the case of ASCII letters.
-/

namespace Conformance

/-- How a reference to an attribute is treated. -/
inductive AttributeClass where
  | always
  /-- The attribute must be one of a type. -/
  | ofTypes
  /-- The attribute is supported, but its value is known to the compiler only. -/
  | imprecise
  | unsupported
  deriving DecidableEq

namespace AttributeClass

/-- The attributes that are always supported. -/
def alwaysNames : List String :=
  ["access", "adjacent", "aft", "callable", "ceiling", "constrained", "copy_sign",
    "enum_rep", "enum_val", "first", "floor", "fore", "image", "img", "initialized",
    "last", "length", "loop_entry", "machine", "max", "min", "mod", "old", "pos", "pred",
    "range", "remainder", "result", "rounding", "succ", "truncation", "update", "val",
    "valid", "value", "wide_image", "wide_value", "width"]

/-- The attributes that only types have. -/
def ofTypesNames : List String :=
  ["base", "class", "delta", "digits", "first_valid", "last_valid", "modulus", "small"]

/-- The attributes whose value only the compiler knows. -/
def impreciseNames : List String :=
  ["address", "alignment", "component_size", "first_bit", "last_bit", "object_size",
    "position", "size", "value_size"]

/-- The treatment of the attribute with a name.  What is in no table is unsupported. -/
def ofName (name : String) : AttributeClass :=
  let lower := name.map Char.toLower
  if lower ∈ alwaysNames then .always
  else if lower ∈ ofTypesNames then .ofTypes
  else if lower ∈ impreciseNames then .imprecise
  else .unsupported

end AttributeClass

end Conformance
