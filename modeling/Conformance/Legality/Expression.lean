import Conformance.Legality.Ownership
import Conformance.Typing.Index
import Conformance.Vocabulary.Attribute

/-!
# Legality of expressions

An expression first rests on its static type.  When that type is excluded, the checks of
the expression itself are left out, and only the parts of the expression are gone
through: `operands` does so.  Otherwise `expression` goes through the parts in the same
order and applies the rules of the shape.
-/

namespace Conformance

open Inquiry

/-- The factor between the operands and the result of a multiplication or division of
fixed point values with the given smalls, unless a small is zero. -/
def BinaryOperator.scalingFactor? (operator : BinaryOperator)
    (left right result : Rat) : Option Rat :=
  match operator with
  | .multiply => Numeral.quotient? (Numeral.product left right) result
  | .divide => Numeral.quotient? left (Numeral.product right result)
  | _ => none

namespace Inquiry

/-- Whether the static type of an expression is in the subset, if it has one. -/
def restOnType (site : Site) : Option EntityId → Inquiry Bool
  | none => return true
  | some type => ask type site

/-- Applies the rule of an attribute by its name. -/
def checkAttribute (site : Site) (name : String) (ofType : Bool) : Inquiry Unit :=
  match AttributeClass.ofName name with
  | .always => return
  | .ofTypes => if ofType then return else violation site (.attributeOfObject name)
  | .imprecise => warning site (.impreciseAttribute name)
  | .unsupported => unsupported site (.attribute name)

end Inquiry

namespace Setting

variable (S : Setting)

/-! ## Rules of single shapes -/

/-- Comes to a node that may name a type, and rests on the type if it does. -/
def restOnNamedType (role : Role) (n : Node) : Inquiry Bool := do
  come role n
  match n.shape with
  | .identifier entity =>
    match (← S.program.entity entity).kind with
    | .type _ =>
      restOn entity n.site
      return true
    | _ => return false
  | _ => return false

/-- Rests on a selected component.  Selected names of other kinds are not consulted. -/
def restOnComponent (site : Site) (component : EntityId) : Inquiry Unit := do
  match (← S.program.entity component).kind with
  | .component _ | .discriminant _ => restOn component site
  | _ => return

/-- Checks the value of an association: an owning value may not go to several
components, and has to be movable otherwise. -/
def checkAssociation (a : Association Node) : Inquiry Unit := do
  match a.value.type with
  | none => return
  | some type =>
    if ← stands type then
      if ← S.isOwning type then
        let duplicated : Bool ←
          if a.isShared Node.isRange then S.denotesObject a.value else pure false
        if duplicated then violation a.value.site .duplicatedOwningValue
        else let _ ← S.checkMove false a.value

/-- The formal parameter with a name that is listed as one of `callee`. -/
def formal (callee id : EntityId) : Answer ParameterFacet := do
  match (← S.program.entity id).kind with
  | .parameter facet => return facet
  | _ => throw (.contract (.notAParameter id callee))

/-- Checks an actual parameter of an owning type by the direction of the formal. -/
def checkOwningActual (direction : Direction) (actual : Node) : Inquiry Unit := do
  match direction with
  | .input =>
    if ← S.denotesObject actual then
      let _ ← S.checkLoan true actual
  | .output | .both =>
    if ← S.isPath actual then return
    else violation actual.site .actualNotPath

/-- Checks an actual parameter against the formal parameter with a name. -/
def checkActual (callee id : EntityId) (actual : Node) : Inquiry Unit := do
  let facet ← S.formal callee id
  if ← stands facet.type then
    match ← S.loanType? facet.type with
    | some a => S.checkLent facet.type a actual
    | none =>
      if ← S.isOwning facet.type then S.checkOwningActual facet.direction actual

/-- Checks the actual parameters of a call whose callee is in the subset. -/
def checkActuals (callee : EntityId) (formals : List EntityId) (actuals : List Node) :
    Inquiry Unit :=
  (formals.zip actuals).forM fun (id, actual) => S.checkActual callee id actual

/-- Whether two lists of index types are represented alike, as far as both go. -/
def sameRepresentation : List (EntityId × EntityId) → Answer Bool
  | [] => return true
  | (a, b) :: rest => do
    let ra ← S.representation? a
    let rb ← S.representation? b
    if ra = rb then sameRepresentation rest else return false

/-- Checks that a conversion between array types keeps the representation of indices. -/
def checkConversion (site : Site) (target : EntityId) (operand : Node) : Inquiry Unit := do
  match operand.type with
  | none => return
  | some source =>
    if ← S.isArray target then
      if ← S.isArray source then
        let targets ← S.arrayIndices target
        let sources ← S.arrayIndices source
        if ← S.sameRepresentation (targets.zip sources) then return
        else violation site .arrayConversionIndex

/-- Checks that the scaling factor of a multiplication or division of two fixed point
values is an integer or the reciprocal of one.  Results of other types count as fixed
point with small one. -/
def checkScaling (n : Node) (operator : BinaryOperator) (left right : Node) :
    Inquiry Unit := do
  match left.type, right.type, n.type with
  | some leftType, some rightType, some resultType =>
    match ← S.fixedSmall? leftType, ← S.fixedSmall? rightType with
    | some leftSmall, some rightSmall =>
      if ← S.isFloating resultType then unsupported n.site .fixedPointFloatResult
      else
        let resultSmall := (← S.fixedSmall? resultType).getD 1
        if (operator.scalingFactor? leftSmall rightSmall resultSmall).any Numeral.isScale
        then return
        else violation n.site .fixedPointScaling
    | _, _ => return
  | _, _, _ => return

/-- Checks that access values are only compared with null. -/
def checkEquality (site : Site) (left right : Node) : Inquiry Unit := do
  if left.isNull || right.isNull then return
  else
    match left.type.or right.type with
    | none => return
    | some type => if ← S.isObjectAccess type then violation site .accessEquality

/-- Applies the rule of a binary operator to an expression with the given operands. -/
def checkBinary (n : Node) (operator : BinaryOperator) (left right : Node) :
    Inquiry Unit :=
  match operator with
  | .multiply | .divide => S.checkScaling n operator left right
  | .equal | .unequal => S.checkEquality n.site left right
  | _ => return

/-- Checks that the initial value of an allocator of an owning type may be moved. -/
def checkAllocated (target : EntityId) (initial : Node) : Inquiry Unit := do
  if ← S.isOwning target then
    let _ ← S.checkMove false initial

/-! ## Trees -/

mutual

/-- The inquiry into an expression. -/
def expression : Node → Inquiry Unit
  | ⟨id, location, type, shape⟩ => do
    let n : Node := ⟨id, location, type, shape⟩
    come .expression n
    if ← restOnType n.site type then
      match shape with
      | .identifier entity => restOn entity n.site
      | .word text => throw (.contract (.unresolvedWord text id))
      | .literal _ => return
      | .aggregate as => associations as
      | .selected whole component => do
        expression whole
        S.restOnComponent n.site component
      | .indexed whole indices => do
        expression whole
        expressions indices
      | .slice whole bounds => do
        expression whole
        expression bounds
      | .dereference pointer => expression pointer
      | .call callee arguments => do
        let admitted ← ask callee n.site
        let facet ← S.program.subprogramFacet callee
        expressions arguments
        if admitted then S.checkActuals callee facet.parameters arguments
      | .attribute whole name arguments => do
        let ofType ← S.restOnNamedType .whole whole
        if !ofType then expression whole
        checkAttribute n.site name ofType
        expressions arguments
      | .conversion target operand => do
        let admitted ← ask target n.site
        expression operand
        if admitted then S.checkConversion n.site target operand
      | .qualified target operand => do
        restOn target n.site
        expression operand
      | .binary operator left right => do
        expression left
        expression right
        S.checkBinary n operator left right
      | .unary _ operand => expression operand
      | .allocator target initial => do
        let admitted ← ask target n.site
        match initial with
        | none => return
        | some value => do
          expression value
          if admitted then S.checkAllocated target value
      | .conditional condition thenValue elseValue => do
        expression condition
        expression thenValue
        expression elseValue
      | .quantified element domain predicate _ => do
        restOn element n.site
        expression domain
        expression predicate
      | .range low high => do
        expression low
        expression high
      | .membership operand cs => do
        expression operand
        choices cs
      | _ => throw (.contract (.notAnExpression id))
    else operands shape

/-- The inquiry into the parts of an expression whose own rules are left out. -/
def operands : Shape Node → Inquiry Unit
  | .aggregate as => associationOperands as
  | .selected whole _ => expression whole
  | .indexed whole indices => do
    expression whole
    expressions indices
  | .slice whole bounds => do
    expression whole
    expression bounds
  | .dereference pointer => expression pointer
  | .call _ arguments => expressions arguments
  | .attribute whole _ arguments => do
    let ofType ← S.restOnNamedType .whole whole
    if !ofType then expression whole
    expressions arguments
  | .conversion _ operand => expression operand
  | .qualified _ operand => expression operand
  | .binary _ left right => do
    expression left
    expression right
  | .unary _ operand => expression operand
  | .allocator _ initial =>
    match initial with
    | none => return
    | some value => expression value
  | .conditional condition thenValue elseValue => do
    expression condition
    expression thenValue
    expression elseValue
  | .quantified _ domain predicate _ => do
    expression domain
    expression predicate
  | .range low high => do
    expression low
    expression high
  | .membership operand cs => do
    expression operand
    choices cs
  | _ => return

/-- The inquiries into expressions, one after another. -/
def expressions : List Node → Inquiry Unit
  | [] => return
  | n :: ns => do
    expression n
    expressions ns

/-- The inquiries into choices, which may name types. -/
def choices : List Node → Inquiry Unit
  | [] => return
  | n :: ns => do
    let ofType ← S.restOnNamedType .choice n
    if !ofType then expression n
    choices ns

/-- The inquiries into the associations of an aggregate. -/
def associations : List (Association Node) → Inquiry Unit
  | [] => return
  | ⟨cs, others, value⟩ :: as => do
    choices cs
    expression value
    S.checkAssociation ⟨cs, others, value⟩
    associations as

/-- The inquiries into the parts of associations whose own rules are left out. -/
def associationOperands : List (Association Node) → Inquiry Unit
  | [] => return
  | ⟨cs, _, value⟩ :: as => do
    choices cs
    expression value
    associationOperands as

end

end Setting

end Conformance
