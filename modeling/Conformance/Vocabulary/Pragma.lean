/-!
# Pragmas

What a pragma is for, by its name.  Names are compared without regard to the case of
ASCII letters.
-/

namespace Conformance

/-- What a pragma is for. -/
inductive PragmaClass where
  /-- The arguments are conditions, which are checked like any expression. -/
  | assertion
  /-- The pragma sets the subset mode, which the front end has done. -/
  | mode
  | withoutEffect
  | unsupported
  | unknown
  deriving DecidableEq

namespace PragmaClass

/-- The pragmas that assert conditions. -/
def assertionNames : List String :=
  ["assert", "assert_and_cut", "assume", "check", "loop_invariant", "loop_variant",
    "postcondition", "precondition"]

/-- The pragmas that set the subset mode. -/
def modeNames : List String := ["subset_mode"]

/-- The pragmas that change nothing here. -/
def withoutEffectNames : List String :=
  ["ada_2012", "annotate", "assertion_policy", "check_policy", "convention", "elaborate",
    "elaborate_all", "elaborate_body", "export", "import", "inline", "inline_always",
    "linker_options", "no_return", "pack", "preelaborate", "pure", "restrictions",
    "style_checks", "suppress", "unreferenced", "unsuppress", "unused", "volatile",
    "warnings"]

/-- The pragmas that are known but outside the subset. -/
def unsupportedNames : List String :=
  ["attach_handler", "default_storage_pool", "interrupt_handler", "machine_attribute",
    "overflow_mode"]

/-- The purpose of the pragma with a name. -/
def ofName (name : String) : PragmaClass :=
  let lower := name.map Char.toLower
  if lower ∈ assertionNames then .assertion
  else if lower ∈ modeNames then .mode
  else if lower ∈ withoutEffectNames then .withoutEffect
  else if lower ∈ unsupportedNames then .unsupported
  else .unknown

end PragmaClass

end Conformance
