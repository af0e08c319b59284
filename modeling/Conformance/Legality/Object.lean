import Conformance.Legality.Expression

/-!
# Legality of objects, parameters and components

Each rests on its type and goes through its initial value or default.
-/

namespace Conformance

open Inquiry

namespace Inquiry

/-- Notes relaxed initialisation of a type that is in the subset. -/
def relaxIf (relaxed admitted : Bool) (type : EntityId) : Inquiry Unit :=
  if relaxed && admitted then .relax type (.done ()) else return

end Inquiry

namespace Setting

variable (S : Setting)

/-- The inquiry into an object.  Volatile objects are declared at library level. -/
def objectInquiry (e : Entity) (o : ObjectFacet) : Inquiry Unit := do
  let admitted ← ask o.type e.site
  match o.initial with
  | none => pure ()
  | some value =>
    S.expression value
    if admitted then S.checkStored o.type o.constant value
  let volatile : Bool ← do
    if o.volatile then pure true
    else if admitted then S.isVolatileType o.type
    else pure false
  if volatile then
    if ← S.program.isLibraryLevel e.name then pure ()
    else violation e.site .volatileNotLibraryLevel
  relaxIf o.relaxed admitted o.type

/-- The inquiry into a parameter. -/
def parameterInquiry (e : Entity) (p : ParameterFacet) : Inquiry Unit := do
  let admitted ← ask p.type e.site
  match p.default with
  | none => pure ()
  | some value => S.expression value
  relaxIf p.relaxed admitted p.type

/-- Checks that the default of an owning component does not denote an object, which every
record would then own. -/
def checkDefault (type : EntityId) (value : Node) : Inquiry Unit := do
  if ← S.isOwning type then
    if ← S.denotesObject value then violation value.site .duplicatedOwningValue

/-- The inquiry into a component or a discriminant. -/
def componentInquiry (e : Entity) (c : ComponentFacet) : Inquiry Unit := do
  let admitted ← ask c.type e.site
  if admitted then
    if ← S.isAnonymousAccess c.type then violation e.site .anonymousAccessComponent
  match c.default with
  | none => pure ()
  | some value =>
    S.expression value
    if admitted then S.checkDefault c.type value
  relaxIf c.relaxed admitted c.type

end Setting

end Conformance
