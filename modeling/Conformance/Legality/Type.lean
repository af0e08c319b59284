import Conformance.Legality.Expression

/-!
# Legality of types

The inquiry into the declaration of a type: the rule of its definition first, then its
aspects, which are postponed, and relaxed initialisation.
-/

namespace Conformance

open Inquiry

namespace Inquiry

/-- Finds a construct that is not handled unless a condition holds. -/
def unsupportedUnless (handled : Bool) (site : Site) (feature : Unsupported) :
    Inquiry Unit :=
  if handled then return else unsupported site feature

end Inquiry

namespace Setting

variable (S : Setting)

/-- Whether the bounds of a signed type fit the policy. -/
def fitsSigned (low high : Int) : Bool := boundsWidth low high ≤ S.policy.maxIntegerBits

/-- Whether the modulus of a modular type fits the policy: it is at least one and at most
two to the allowed number of bits. -/
def fitsModular (modulus : Int) : Bool :=
  1 ≤ modulus && Numeral.bitLength (modulus - 1).toNat ≤ S.policy.maxModulusBits

/-- The rule of array types. -/
def arrayType (site : Site) (indices : List EntityId) (component : EntityId) :
    Inquiry Unit := do
  unsupportedUnless (indices.length ≤ S.policy.maxArrayDimensions) site
    (.arrayDimensions indices.length)
  restOnAll indices site
  if ← ask component site then
    if ← S.isAnonymousAccess component then violation site .anonymousAccessComponent

/-- Checks that the components which an extension adds are not owning. -/
def checkExtension (site : Site) : List EntityId → Inquiry Unit
  | [] => return
  | component :: rest => do
    match ← S.program.declaredType? component with
    | none => pure ()
    | some type =>
      if ← S.isOwning type then violation site (.owningComponentInExtension component)
    checkExtension site rest

/-- The rule of record types.  An extension of a type that is not owning may not add
owning components. -/
def recordType (site : Site) (r : RecordDefinition) : Inquiry Unit := do
  restOnAll r.parent.toList site
  restOnAll r.interfaces site
  restOnAll (r.discriminants ++ r.components) site
  match r.parent with
  | none => return
  | some parent =>
    if ← S.isOwning parent then return
    else S.checkExtension site r.components

/-- The rule of access types.  A designated type that is incomplete and not examined yet
is completed later. -/
def accessType (id : EntityId) (site : Site) (a : AccessDefinition) : Inquiry Unit := do
  if a.storagePool || a.storageSize then violation site .accessStorageClause
  let incomplete : Bool ← if a.toObject then S.isIncomplete a.designated else pure false
  let examined : Bool ←
    if incomplete then .isExamined a.designated .done else pure true
  if examined then restOn a.designated site
  else .postponeCompletion id (.done ())

/-- The rule of private types.  A full view that is excluded from analysis is decided,
but not rested on. -/
def privateType (id : EntityId) (site : Site) (full : Option EntityId)
    (discriminants : List EntityId) : Inquiry Unit := do
  restOnAll discriminants site
  match full with
  | none => return
  | some view =>
    if ← S.isOff view then .hideView id (.decide view (.done ()))
    else restOn view site

/-- The rule of a type definition. -/
def typeDefinition (id : EntityId) (site : Site) : TypeDefinition → Inquiry Unit
  | .signed low high => unsupportedUnless (S.fitsSigned low high) site .integerRange
  | .modular modulus => unsupportedUnless (S.fitsModular modulus) site .modulusTooLarge
  | .floating digits =>
    unsupportedUnless (S.policy.floatDigits.contains digits) site (.floatDigits digits)
  | .ordinaryFixed small => unsupportedUnless (Numeral.isScale small) site .fixedPointSmall
  | .decimalFixed .. => unsupported site .decimalFixedPoint
  | .enumeration _ => return
  | .array indices component => S.arrayType site indices component
  | .record r => S.recordType site r
  | .interface parents => restOnAll parents site
  | .access a => S.accessType id site a
  | .partialView full discriminants _ => S.privateType id site full discriminants
  | .incomplete full =>
    match full with
    | some view => restOn view site
    | none => unsupported site .missingCompletion
  | .subtype parent constraint => do
    restOn parent site
    S.expressions constraint
  | .derived parent constraint => do
    restOn parent site
    S.expressions constraint
  | .classWide root constrained => do
    restOn root site
    unsupportedUnless (!constrained) site .constrainedClassWide
  | .task discriminants _ => restOnAll discriminants site
  | .protectedUnit discriminants components _ =>
    restOnAll (discriminants ++ components) site

/-- The inquiry into a type. -/
def typeInquiry (e : Entity) (t : TypeFacet) : Inquiry Unit := do
  S.typeDefinition e.name e.site t.definition
  if t.invariant.isSome || t.initialCondition.isSome then
    .postponeAspects e.name (.done ())
  if t.relaxed then
    if t.invariant.isSome then unsupported e.site .relaxedWithInvariant
    else .relax e.name (.done ())

end Setting

end Conformance
