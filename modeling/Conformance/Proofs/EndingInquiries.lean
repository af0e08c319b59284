import Conformance.Proofs.Ending
import Conformance.Run.Program

/-!
# Inquiries that end

An inquiry goes along a tree, and asks only questions that end.  So whatever answers it gets,
it does not come to a point where the walk is cut off: `ends_entityInquiry` for declarations,
`ends_item` for what units hold.  Only what units hold leads to declarations, bodies and
statements: the inquiries into expressions, and into entities other than packages, are confined.
-/

namespace Conformance

open Inquiry

/-- On no path the inquiry is cut off. -/
def Inquiry.Ends {α : Type} : Inquiry α → Prop
  | .done _ => True
  | .fail fault => fault ≠ .unfinished
  | .consult _ _ next | .isAdmitted _ next | .isExamined _ next => ∀ b, (next b).Ends
  | .visit _ _ next | .declare _ _ next | .decide _ next | .find _ _ next | .hideView _ next
  | .postponeCompletion _ next | .postponeAspects _ next | .relax _ next
  | .placeInLoop _ _ next => next.Ends
  | .body _ _ inner next => inner.Ends ∧ next.Ends

/-- On no path the inquiry is cut off, comes to a declaration, a body or a statement, decides a
body or places an entity in a loop. -/
def Inquiry.Confined {α : Type} : Inquiry α → Prop
  | .done _ => True
  | .fail fault => fault ≠ .unfinished
  | .visit role _ next => role ≠ .item ∧ next.Confined
  | .consult _ _ next | .isAdmitted _ next | .isExamined _ next => ∀ b, (next b).Confined
  | .declare _ _ next | .decide _ next | .find _ _ next | .hideView _ next
  | .postponeCompletion _ next | .postponeAspects _ next | .relax _ next => next.Confined
  | .placeInLoop .. | .body .. => False

namespace Inquiry

variable {α β : Type}

@[grind ←]
theorem ends_bind {i : Inquiry α} {f : α → Inquiry β} (h : i.Ends) (hf : ∀ a, (f a).Ends) :
  (i >>= f).Ends
  := by
  change (i.bind f).Ends
  induction i with
  | done a => exact hf a
  | fail => exact h
  | consult _ _ _ ih | isAdmitted _ _ ih | isExamined _ _ ih => exact fun b => ih b (h b) hf
  | body _ _ _ _ _ ih => exact ⟨h.1, ih h.2 hf⟩
  | visit _ _ _ ih | declare _ _ _ ih | decide _ _ ih | find _ _ _ ih | hideView _ _ ih
  | postponeCompletion _ _ ih | postponeAspects _ _ ih | relax _ _ ih
  | placeInLoop _ _ _ ih => exact ih h hf

@[grind ←]
theorem ends_pure (a : α) :
  (pure a : Inquiry α).Ends
  := trivial

@[grind ←]
theorem ends_throw (breach : Breach) :
  (throw (.contract breach) : Inquiry α).Ends
  := by
  change Fault.contract breach ≠ .unfinished
  simp

/-- A part that is gone through if a condition holds, and what comes after it. -/
theorem ends_after {c : Prop} [Decidable c] {i : Inquiry Unit} {j : Inquiry α} (hi : i.Ends)
    (hj : j.Ends) :
  (if c then do i; j else j).Ends
  := by
  split
  · exact ends_bind hi fun _ => hj
  · exact hj

@[grind ←]
theorem ends_ask (id : EntityId) (site : Site) :
  (ask id site).Ends
  := fun _ => trivial

@[grind ←]
theorem ends_come (role : Role) (n : Node) :
  (come role n).Ends
  := trivial

/-! ### Confined inquiries -/

@[grind ←]
theorem Confined.ends {i : Inquiry α} (h : i.Confined) :
  i.Ends
  := by
  induction i with
  | done => trivial
  | fail => exact h
  | consult _ _ _ ih | isAdmitted _ _ ih | isExamined _ _ ih => exact fun b => ih b (h b)
  | visit _ _ _ ih => exact ih h.2
  | placeInLoop | body => cases h
  | declare _ _ _ ih | decide _ _ ih | find _ _ _ ih | hideView _ _ ih
  | postponeCompletion _ _ ih | postponeAspects _ _ ih | relax _ _ ih => exact ih h

@[grind ←]
theorem confined_bind {i : Inquiry α} {f : α → Inquiry β} (h : i.Confined)
    (hf : ∀ a, (f a).Confined) :
  (i >>= f).Confined
  := by
  change (i.bind f).Confined
  induction i with
  | done a => exact hf a
  | fail => exact h
  | consult _ _ _ ih | isAdmitted _ _ ih | isExamined _ _ ih => exact fun b => ih b (h b) hf
  | visit _ _ _ ih => exact ⟨h.1, ih h.2 hf⟩
  | placeInLoop | body => cases h
  | declare _ _ _ ih | decide _ _ ih | find _ _ _ ih | hideView _ _ ih
  | postponeCompletion _ _ ih | postponeAspects _ _ ih | relax _ _ ih => exact ih h hf

@[grind ←]
theorem confined_pure (a : α) :
  (pure a : Inquiry α).Confined
  := trivial

@[grind ←]
theorem confined_throw (breach : Breach) :
  (throw (.contract breach) : Inquiry α).Confined
  := ends_throw breach (α := α)

@[grind ←]
theorem confined_lift {x : Answer α} (h : Answer.Ends x) :
  (liftM x : Inquiry α).Confined
  := by
  cases x with
  | ok a => trivial
  | error fault => exact fun he => h (he ▸ rfl)

@[grind ←]
theorem confined_ask (id : EntityId) (site : Site) :
  (ask id site).Confined
  := fun _ => trivial

@[grind ←]
theorem confined_restOn (id : EntityId) (site : Site) :
  (restOn id site).Confined
  := fun _ => trivial

@[grind ←]
theorem confined_stands (id : EntityId) :
  (stands id).Confined
  := fun _ => trivial

@[grind ←]
theorem confined_come {role : Role} (h : role ≠ .item) (n : Node) :
  (come role n).Confined
  := ⟨h, trivial⟩

@[grind ←]
theorem confined_violation (site : Site) (v : Violation) :
  (violation site v).Confined
  := trivial

@[grind ←]
theorem confined_unsupported (site : Site) (feature : Unsupported) :
  (unsupported site feature).Confined
  := trivial

@[grind ←]
theorem confined_warning (site : Site) (w : Warning) :
  (warning site w).Confined
  := trivial

@[grind ←]
theorem confined_forM {as : List β} {f : β → Inquiry Unit} (h : ∀ a, (f a).Confined) :
  (as.forM f).Confined
  := by
  induction as with
  | nil => trivial
  | cons a as ih => exact confined_bind (h a) fun _ => ih

@[grind ←]
theorem confined_restOnAll (ids : List EntityId) (site : Site) :
  (restOnAll ids site).Confined
  := confined_forM fun id => confined_restOn id site

/-- A part that is gone through if a condition holds, and what comes after it. -/
theorem confined_after {c : Prop} [Decidable c] {i : Inquiry Unit} {j : Inquiry α}
    (hi : i.Confined) (hj : j.Confined) :
  (if c then do i; j else j).Confined
  := by
  split
  · exact confined_bind hi fun _ => hj
  · exact hj

@[grind ←]
theorem confined_restOnType (site : Site) (type : Option EntityId) :
  (restOnType site type).Confined
  := by
  unfold restOnType
  grind

@[grind ←]
theorem confined_checkAttribute (site : Site) (name : String) (ofType : Bool) :
  (checkAttribute site name ofType).Confined
  := by
  unfold checkAttribute
  grind

@[grind ←]
theorem confined_unsupportedUnless (handled : Bool) (site : Site) (feature : Unsupported) :
  (unsupportedUnless handled site feature).Confined
  := by
  unfold unsupportedUnless
  grind

@[grind ←]
theorem confined_relaxIf (relaxed admitted : Bool) (type : EntityId) :
  (relaxIf relaxed admitted type).Confined
  := by
  unfold relaxIf
  split <;> trivial

@[grind ←]
theorem ends_declareHere (around : Surroundings) (site : Site) (kind : Declared)
    (id : EntityId) :
  (declareHere around site kind id).Ends
  := by
  unfold declareHere
  split <;> trivial

end Inquiry

namespace Setting

variable (S : Setting)

/-! ### Rules of single shapes -/

@[grind ←]
theorem confined_checkMove (toConstant : Bool) (n : Node) :
  (S.checkMove toConstant n).Confined
  := by
  unfold checkMove
  grind

@[grind ←]
theorem confined_checkLoan (observe : Bool) (n : Node) :
  (S.checkLoan observe n).Confined
  := by
  unfold checkLoan
  grind

@[grind ←]
theorem confined_checkCompatible (expected : EntityId) (n : Node) :
  (S.checkCompatible expected n).Confined
  := by
  unfold checkCompatible
  grind

@[grind ←]
theorem confined_checkLent (type : EntityId) (a : AccessDefinition) (n : Node) :
  (S.checkLent type a n).Confined
  := by
  unfold checkLent
  grind

@[grind ←]
theorem confined_checkStored (type : EntityId) (toConstant : Bool) (n : Node) :
  (S.checkStored type toConstant n).Confined
  := by
  unfold checkStored
  grind

@[grind ←]
theorem confined_restOnNamedType {role : Role} (h : role ≠ .item) (n : Node) :
  (S.restOnNamedType role n).Confined
  := by
  unfold restOnNamedType
  grind

@[grind ←]
theorem confined_restOnComponent (site : Site) (component : EntityId) :
  (S.restOnComponent site component).Confined
  := by
  unfold restOnComponent
  grind

@[grind ←]
theorem confined_checkAssociation (a : Association Node) :
  (S.checkAssociation a).Confined
  := by
  unfold checkAssociation
  grind

@[grind ←]
theorem confined_checkOwningActual (direction : Direction) (actual : Node) :
  (S.checkOwningActual direction actual).Confined
  := by
  unfold checkOwningActual
  grind

@[grind ←]
theorem confined_checkActual (callee id : EntityId) (actual : Node) :
  (S.checkActual callee id actual).Confined
  := by
  unfold checkActual
  grind

@[grind ←]
theorem confined_checkActuals (callee : EntityId) (formals : List EntityId) (actuals : List Node) :
  (S.checkActuals callee formals actuals).Confined
  := by
  unfold checkActuals
  grind

@[grind ←]
theorem confined_checkConversion (site : Site) (target : EntityId) (operand : Node) :
  (S.checkConversion site target operand).Confined
  := by
  unfold checkConversion
  split
  · grind
  · refine confined_bind (confined_lift (S.ends_isArray _)) fun b => ?_
    cases b <;> grind

@[grind ←]
theorem confined_checkScaling (n : Node) (operator : BinaryOperator) (left right : Node) :
  (S.checkScaling n operator left right).Confined
  := by
  unfold checkScaling
  split
  · refine confined_bind (confined_lift (S.ends_fixedSmall? _)) fun leftSmall => ?_
    refine confined_bind (confined_lift (S.ends_fixedSmall? _)) fun rightSmall => ?_
    cases leftSmall <;> cases rightSmall <;> grind
  · grind

@[grind ←]
theorem confined_checkEquality (site : Site) (left right : Node) :
  (S.checkEquality site left right).Confined
  := by
  unfold checkEquality
  grind

@[grind ←]
theorem confined_checkBinary (n : Node) (operator : BinaryOperator) (left right : Node) :
  (S.checkBinary n operator left right).Confined
  := by
  unfold checkBinary
  grind

@[grind ←]
theorem confined_checkAllocated (target : EntityId) (initial : Node) :
  (S.checkAllocated target initial).Confined
  := by
  unfold checkAllocated
  grind

/-! ### Trees -/

mutual

theorem confined_expression : (n : Node) → (S.expression n).Confined
  | ⟨id, location, type, shape⟩ => by
    have ho := confined_operands shape
    match shape with
    | .aggregate as =>
      have h := confined_associations as
      unfold expression
      grind
    | .selected whole _ =>
      have h := confined_expression whole
      unfold expression
      grind
    | .dereference operand | .conversion _ operand | .qualified _ operand | .unary _ operand =>
      have h := confined_expression operand
      unfold expression
      grind
    | .indexed whole indices =>
      have h := confined_expression whole
      have hs := confined_expressions indices
      unfold expression
      grind
    | .slice left right | .binary _ left right | .range left right
    | .quantified _ left right _ =>
      have hl := confined_expression left
      have hr := confined_expression right
      unfold expression
      grind
    | .call _ arguments =>
      have h := confined_expressions arguments
      unfold expression
      grind
    | .attribute whole _ arguments =>
      have h := confined_expression whole
      have hs := confined_expressions arguments
      unfold expression
      grind
    | .allocator _ none =>
      unfold expression
      grind
    | .allocator _ (some value) =>
      have h := confined_expression value
      unfold expression
      grind
    | .conditional condition thenValue elseValue =>
      have hc := confined_expression condition
      have ht := confined_expression thenValue
      have he := confined_expression elseValue
      unfold expression
      grind
    | .membership operand cs =>
      have h := confined_expression operand
      have hs := confined_choices cs
      unfold expression
      grind
    | .identifier _ | .word _ | .literal _ | .assignment .. | .procedureCall .. | .return _
    | .ifElse .. | .case .. | .loop .. | .block .. | .exit _ | .goto _ | .raise _ | .delay _
    | .abort | .machineCode | .nothing | .pragma .. | .declaration .. | .package ..
    | .body .. | .protectedBody .. | .compilationUnit .. | .withClause _ | .useClause =>
      unfold expression
      grind

theorem confined_operands : (shape : Shape Node) → (S.operands shape).Confined
  | .aggregate as => by
    have h := confined_associationOperands as
    unfold operands
    exact h
  | .selected operand _ | .dereference operand | .conversion _ operand
  | .qualified _ operand | .unary _ operand => by
    have h := confined_expression operand
    unfold operands
    exact h
  | .indexed whole indices => by
    have h := confined_expression whole
    have hs := confined_expressions indices
    unfold operands
    grind
  | .slice left right | .binary _ left right | .range left right
  | .quantified _ left right _ => by
    have hl := confined_expression left
    have hr := confined_expression right
    unfold operands
    grind
  | .call _ arguments => by
    have h := confined_expressions arguments
    unfold operands
    exact h
  | .attribute whole _ arguments => by
    have h := confined_expression whole
    have hs := confined_expressions arguments
    unfold operands
    grind
  | .allocator _ none => by
    unfold operands
    trivial
  | .allocator _ (some value) => by
    have h := confined_expression value
    unfold operands
    exact h
  | .conditional condition thenValue elseValue => by
    have hc := confined_expression condition
    have ht := confined_expression thenValue
    have he := confined_expression elseValue
    unfold operands
    grind
  | .membership operand cs => by
    have h := confined_expression operand
    have hs := confined_choices cs
    unfold operands
    grind
  | .identifier _ | .word _ | .literal _ | .assignment .. | .procedureCall .. | .return _
  | .ifElse .. | .case .. | .loop .. | .block .. | .exit _ | .goto _ | .raise _ | .delay _
  | .abort | .machineCode | .nothing | .pragma .. | .declaration .. | .package ..
  | .body .. | .protectedBody .. | .compilationUnit .. | .withClause _ | .useClause => by
    unfold operands
    trivial

theorem confined_expressions : (ns : List Node) → (S.expressions ns).Confined
  | [] => trivial
  | n :: ns => confined_bind (confined_expression n) fun _ => confined_expressions ns

theorem confined_choices : (ns : List Node) → (S.choices ns).Confined
  | [] => trivial
  | n :: ns => by
    have h := confined_expression n
    have hs := confined_choices ns
    unfold choices
    grind

theorem confined_associations : (as : List (Association Node)) → (S.associations as).Confined
  | [] => trivial
  | ⟨cs, others, value⟩ :: as => by
    have hc := confined_choices cs
    have hv := confined_expression value
    have hs := confined_associations as
    unfold associations
    grind

theorem confined_associationOperands :
    (as : List (Association Node)) → (S.associationOperands as).Confined
  | [] => trivial
  | ⟨cs, others, value⟩ :: as => by
    have hc := confined_choices cs
    have hv := confined_expression value
    have hs := confined_associationOperands as
    unfold associationOperands
    grind

end

attribute [grind ←] confined_expression confined_expressions

@[grind ←]
theorem confined_optionalExpression (n : Option Node) :
  (S.optionalExpression n).Confined
  := by
  unfold optionalExpression
  grind

@[grind ←]
theorem confined_callStatement (site : Site) (callee : EntityId) (arguments : List Node) :
  (S.callStatement site callee arguments).Confined
  := by
  unfold callStatement
  grind

@[grind ←]
theorem confined_checkAssigned (target value : Node) :
  (S.checkAssigned target value).Confined
  := by
  unfold checkAssigned
  grind

@[grind ←]
theorem confined_checkResult (facet : SubprogramFacet) (result : EntityId) (value : Node) :
  (S.checkResult facet result value).Confined
  := by
  unfold checkResult
  grind

@[grind ←]
theorem confined_checkReturned (around : Surroundings) (value : Node) :
  (S.checkReturned around value).Confined
  := by
  unfold checkReturned
  grind

@[grind ←]
theorem confined_assertions (arguments : List (PragmaArgument Node)) :
  (S.assertions arguments).Confined
  := by
  unfold assertions
  grind

@[grind ←]
theorem confined_pragma (site : Site) (name : String) (arguments : List (PragmaArgument Node)) :
  (S.pragma site name arguments).Confined
  := by
  unfold pragma
  grind

@[grind ←]
theorem ends_loopScheme (site : Site) (loop : NodeId) (scheme : LoopScheme Node) :
  (S.loopScheme site loop scheme).Ends
  := by
  cases scheme with
  | forever => trivial
  | whileTrue condition => exact (S.confined_expression condition).ends
  | overDomain parameter domain _ =>
    exact ends_bind trivial fun _ => ends_bind (S.confined_expression domain).ends fun _ => trivial

mutual

theorem ends_item : (n : Node) → (around : Surroundings) → (S.item around n).Ends
  | ⟨id, location, type, shape⟩, around => by
    match shape with
    | .body _ entity mode declarations statements =>
      have hd := ends_items declarations
      have hs := ends_items statements
      have hb (e : Entity) (inner : Inquiry Unit) (h : inner.Ends) :
          (Inquiry.body e mode inner (.done ())).Ends := ⟨h, trivial⟩
      unfold item
      grind
    | .protectedBody entity mode bodies =>
      have hs := ends_items bodies
      have hb (e : Entity) (inner : Inquiry Unit) (h : inner.Ends) :
          (Inquiry.body e mode inner (.done ())).Ends := ⟨h, trivial⟩
      unfold item
      grind
    | .ifElse bs otherwise =>
      have hb := ends_branches bs around
      have hs := ends_items otherwise around
      unfold item
      grind
    | .case selector bs =>
      have hb := ends_caseBranches bs around
      unfold item
      grind
    | .loop scheme statements =>
      have hs := ends_items statements
      unfold item
      grind
    | .block declarations statements =>
      have hd := ends_items declarations around
      have hs := ends_items statements around
      unfold item
      grind
    | .package entity _ _ =>
      unfold item
      exact ends_bind trivial fun _ => trivial
    | .raise _ | .declaration .. | .assignment .. | .procedureCall .. | .return none
    | .return (some _) | .exit _ | .delay _ | .pragma .. | .goto _ | .abort | .machineCode | .nothing
    | .useClause | .compilationUnit .. | .withClause _ | .identifier _ | .word _
    | .literal _ | .aggregate _ | .selected .. | .indexed .. | .slice .. | .dereference _
    | .call .. | .attribute .. | .conversion .. | .qualified .. | .binary .. | .unary ..
    | .allocator .. | .conditional .. | .quantified .. | .range .. | .membership .. =>
      unfold item
      grind

theorem ends_items : (ns : List Node) → (around : Surroundings) → (S.items around ns).Ends
  | [], _ => trivial
  | n :: ns, around => ends_bind (ends_item n around) fun _ => ends_items ns around

theorem ends_branches :
    (bs : List (Branch Node)) → (around : Surroundings) → (S.branches around bs).Ends
  | [], _ => trivial
  | ⟨condition, statements⟩ :: bs, around => by
    have hs := ends_items statements around
    have hb := ends_branches bs around
    unfold branches
    grind

theorem ends_caseBranches :
    (bs : List (CaseBranch Node)) → (around : Surroundings) → (S.caseBranches around bs).Ends
  | [], _ => trivial
  | ⟨cs, statements⟩ :: bs, around => by
    have hs := ends_items statements around
    have hb := ends_caseBranches bs around
    unfold caseBranches
    grind

end

/-! ### Entities -/

@[grind ←]
theorem confined_checkExtension (site : Site) (components : List EntityId) :
  (S.checkExtension site components).Confined
  := by induction components <;> unfold checkExtension <;> grind

@[grind ←]
theorem confined_arrayType (site : Site) (indices : List EntityId) (component : EntityId) :
  (S.arrayType site indices component).Confined
  := by
  unfold arrayType
  grind

@[grind ←]
theorem confined_recordType (site : Site) (r : RecordDefinition) :
  (S.recordType site r).Confined
  := by
  unfold recordType
  grind

@[grind ←]
theorem confined_accessType (id : EntityId) (site : Site) (a : AccessDefinition) :
  (S.accessType id site a).Confined
  := by
  have hp : (Inquiry.postponeCompletion id (.done ())).Confined := trivial
  have hx : (Inquiry.isExamined a.designated .done).Confined := fun _ => trivial
  unfold accessType
  grind

@[grind ←]
theorem confined_privateType (id : EntityId) (site : Site) (full : Option EntityId)
    (discriminants : List EntityId) :
  (S.privateType id site full discriminants).Confined
  := by
  have hh (view : EntityId) : (Inquiry.hideView id (.decide view (.done ()))).Confined := trivial
  unfold privateType
  grind

@[grind ←]
theorem confined_typeDefinition (id : EntityId) (site : Site) (definition : TypeDefinition) :
  (S.typeDefinition id site definition).Confined
  := by cases definition <;> unfold typeDefinition <;> grind

theorem confined_typeInquiry (e : Entity) (t : TypeFacet) :
  (S.typeInquiry e t).Confined
  := by
  have hp : (Inquiry.postponeAspects e.name (.done ())).Confined := trivial
  have hr : (Inquiry.relax e.name (.done ())).Confined := trivial
  unfold typeInquiry
  grind

@[grind ←]
theorem confined_checkReads (site : Site) (ids : List EntityId) :
  (S.checkReads site ids).Confined
  := by induction ids <;> unfold checkReads <;> grind

@[grind ←]
theorem confined_checkEffects (e : Entity) (s : SubprogramFacet) :
  (S.checkEffects e s).Confined
  := by
  unfold checkEffects
  grind

@[grind ←]
theorem confined_checkNotVolatile (site : Site) (type blamed : EntityId) :
  (S.checkNotVolatile site type blamed).Confined
  := by
  unfold checkNotVolatile
  grind

@[grind ←]
theorem confined_checkParameters (ids : List EntityId) :
  (S.checkParameters ids).Confined
  := by induction ids <;> unfold checkParameters <;> grind

@[grind ←]
theorem confined_checkProfile (e : Entity) (s : SubprogramFacet) :
  (S.checkProfile e s).Confined
  := by
  unfold checkProfile
  grind

@[grind ←]
theorem confined_checkAccessResult (e : Entity) (s : SubprogramFacet) (result : EntityId) :
  (S.checkAccessResult e s result).Confined
  := by
  unfold checkAccessResult
  grind

@[grind ←]
theorem confined_restOnConcurrentScope (e : Entity) :
  (S.restOnConcurrentScope e).Confined
  := by
  unfold restOnConcurrentScope
  grind

@[grind ←]
theorem confined_subprogramInquiry (e : Entity) (s : SubprogramFacet) :
  (S.subprogramInquiry e s).Confined
  := by
  have hd : (checkDispatching e s).Confined := by
    unfold checkDispatching
    grind
  have tail : (do
      if s.dispatching then checkDispatching e s
      restOnAll s.overridden e.site
      S.expressions s.contracts
      S.expressions (s.contractCases.flatMap ContractCase.facets) : Inquiry Unit).Confined := by
    apply confined_after hd
    grind
  unfold subprogramInquiry
  apply confined_after (S.confined_checkEffects e s)
  refine confined_bind (S.confined_restOnConcurrentScope e) fun _ => ?_
  refine confined_bind (confined_restOnAll _ _) fun _ => ?_
  cases s.result with
  | none => exact confined_after (S.confined_checkProfile e s) tail
  | some result =>
    refine confined_bind (confined_ask result e.site) fun admitted => ?_
    exact confined_after (S.confined_checkProfile e s)
      (confined_after (S.confined_checkAccessResult e s result) tail)

@[grind ←]
theorem confined_parameterInquiry (e : Entity) (p : ParameterFacet) :
  (S.parameterInquiry e p).Confined
  := by
  unfold parameterInquiry
  grind

@[grind ←]
theorem confined_checkDefault (type : EntityId) (value : Node) :
  (S.checkDefault type value).Confined
  := by
  unfold checkDefault
  grind

@[grind ←]
theorem confined_componentInquiry (e : Entity) (c : ComponentFacet) :
  (S.componentInquiry e c).Confined
  := by
  unfold componentInquiry
  grind

@[grind ←]
theorem ends_packageInquiry (e : Entity) (initialCondition : Option Node) :
  (S.packageInquiry e initialCondition).Ends
  := by
  have h (ns : List Node) := S.ends_items ns {}
  unfold packageInquiry
  grind

@[grind ←]
theorem ends_contextItem (n : Node) :
  (S.contextItem n).Ends
  := by
  have h (id : EntityId) : (Inquiry.decide id (.done ())).Ends := trivial
  unfold contextItem
  grind

variable {S}

/-- How the inquiry into an object goes on after its type and its initial value. -/
def objectEnd (S : Setting) (e : Entity) (o : ObjectFacet) (admitted : Bool) : Inquiry Unit := do
  let volatile : Bool ← do
    if o.volatile then pure true
    else if admitted then S.isVolatileType o.type
    else pure false
  if volatile then
    if ← S.program.isLibraryLevel e.name then pure ()
    else violation e.site .volatileNotLibraryLevel
  relaxIf o.relaxed admitted o.type

theorem objectInquiry_eq (e : Entity) (o : ObjectFacet) :
  S.objectInquiry e o = (do
    let admitted ← ask o.type e.site
    match o.initial with
    | none => pure ()
    | some value =>
      S.expression value
      if admitted then S.checkStored o.type o.constant value
    S.objectEnd e o admitted)
  := rfl

theorem ends_objectInquiry {e : Entity} (h : ¬ S.program.InRing e.name) (o : ObjectFacet) :
  (S.objectInquiry e o).Ends
  := by
  have hl := Program.ends_isLibraryLevel h
  have rest (admitted : Bool) : (S.objectEnd e o admitted).Ends := by
    unfold objectEnd
    grind
  rw [objectInquiry_eq]
  refine ends_bind (ends_ask o.type e.site) fun admitted => ?_
  cases o.initial with
  | none => exact rest admitted
  | some value =>
    refine ends_bind (S.confined_expression value).ends fun _ => ?_
    exact ends_after (S.confined_checkStored _ _ _).ends (rest admitted)

theorem ends_entityInquiry (hS : S.program.ScopesAcyclic) (e : Entity) :
  (S.entityInquiry e).Ends
  := by
  unfold entityInquiry
  cases e.kind with
  | type t => exact (S.confined_typeInquiry e t).ends
  | object o => exact ends_objectInquiry (Program.not_inRing hS e.name) o
  | parameter p => exact (S.confined_parameterInquiry e p).ends
  | component c | discriminant c => exact (S.confined_componentInquiry e c).ends
  | subprogram s => exact (S.confined_subprogramInquiry e s).ends
  | package initialCondition => exact S.ends_packageInquiry e initialCondition
  | number value => exact (S.confined_optionalExpression value).ends
  | abstractState | exception => trivial

end Setting

end Conformance
