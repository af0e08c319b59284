import Conformance.Typing.Core
import Std.Data.TreeSet

/-!
# Owning types

A type is owning when its values own memory: access-to-variable types, private types
annotated with ownership, and composite types with an owning part.  Types may be
mutually recursive, so the search keeps the cores it has seen and enters none twice.
-/

namespace Conformance

namespace Setting

variable (S : Setting)

/-- The state of the search: the cores seen so far. -/
abbrev Seen := Std.TreeSet EntityId

/-- Whether some part in a list is owning, given how one type is searched.  Parts
without a declared type count as not owning. -/
def anyPartOwning (search : EntityId → Seen → Answer (Bool × Seen)) :
    List EntityId → Seen → Answer (Bool × Seen)
  | [], seen => return (false, seen)
  | part :: parts, seen => do
    match ← S.program.declaredType? part with
    | none => anyPartOwning search parts seen
    | some type =>
      let (found, seen) ← search type seen
      if found then return (true, seen) else anyPartOwning search parts seen

/-- Whether a record type is owning, given how one type is searched: its parent first,
then its discriminants and components. -/
def recordOwning (search : EntityId → Seen → Answer (Bool × Seen)) (r : RecordDefinition)
    (seen : Seen) : Answer (Bool × Seen) := do
  let parts := r.discriminants ++ r.components
  match r.parent with
  | none => S.anyPartOwning search parts seen
  | some parent =>
    let (found, seen) ← search parent seen
    if found then return (true, seen) else S.anyPartOwning search parts seen

/-- Whether a type is owning, apart from what was seen before.  Each level of the search
sees a new core, so `levels` need not exceed the number of entities. -/
def owningFrom (levels : Nat) (id : EntityId) (seen : Seen) : Answer (Bool × Seen) := do
  let (name, t) ← S.core id
  if seen.contains name then return (false, seen)
  else
    match levels with
    | 0 => throw .unfinished
    | levels + 1 =>
      let seen := seen.insert name
      match t.definition with
      | .access a => return (a.kind == .toVariable, seen)
      | .array _ component => owningFrom levels component seen
      | .record r => S.recordOwning (owningFrom levels) r seen
      | .partialView .. => return (t.ownership, seen)
      | .classWide root _ => owningFrom levels root seen
      | _ => return (false, seen)

/-- Whether the values of a type own memory. -/
def isOwning (id : EntityId) : Answer Bool := do
  return (← S.owningFrom S.program.entityCount id ∅).1

end Setting

end Conformance
