import Conformance.Legality.Entity
import Conformance.Proofs.Lookup
import Mathlib.Tactic.Common

/-!
# Compilation units in another order, and another default mode

What the legality rules ask depends on the entities of a program and on the policy.  The
compilation units matter only for the declarations of packages.  So the inquiries stay the
same when the units are put in another order, as long as no package is declared twice.  Of
the default mode it matters only whether it excludes: `Setting.recast` is a setting with
other units and another such mode.
-/

namespace Conformance

open Inquiry

/-- A program with other compilation units. -/
def Program.withUnits (p : Program) (units : List Node) : Program := { p with units }

/-- A setting with other compilation units. -/
def Setting.withUnits (S : Setting) (units : List Node) : Setting :=
  { S with program := S.program.withUnits units }

/-- A default mode that excludes from analysis if and only if that of a setting does. -/
structure Setting.Alternative (S : Setting) where
  mode : Option Mode
  agrees : (mode == some .off) = (S.policy.defaultMode == some .off)

/-- A setting with other compilation units and another default mode. -/
def Setting.recast (S : Setting) (units : List Node) (mode : S.Alternative) : Setting :=
  ⟨S.program.withUnits units, { S.policy with defaultMode := mode.mode }⟩

/-- A setting with other compilation units keeps its default mode. -/
theorem Setting.withUnits_eq_recast (S : Setting) (units : List Node) :
  S.withUnits units = S.recast units ⟨S.policy.defaultMode, rfl⟩
  := rfl

namespace Program

variable (p : Program) (units : List Node)

@[simp]
theorem entity_withUnits :
  (p.withUnits units).entity = p.entity
  := rfl

@[simp]
theorem entityCount_withUnits :
  (p.withUnits units).entityCount = p.entityCount
  := rfl

@[simp]
theorem typeFacet_withUnits :
  (p.withUnits units).typeFacet = p.typeFacet
  := rfl

@[simp]
theorem subprogramFacet_withUnits :
  (p.withUnits units).subprogramFacet = p.subprogramFacet
  := rfl

@[simp]
theorem declaredType?_withUnits :
  (p.withUnits units).declaredType? = p.declaredType?
  := rfl

theorem libraryLevelFrom_withUnits (steps : Nat) (scope : Option EntityId) :
  (p.withUnits units).libraryLevelFrom steps scope = p.libraryLevelFrom steps scope
  := by
  induction steps generalizing scope with
  | zero => cases scope <;> rfl
  | succ steps ih =>
    cases scope with
    | none => rfl
    | some scope => simp only [libraryLevelFrom, entity_withUnits, ih]

@[simp]
theorem isLibraryLevel_withUnits (id : EntityId) :
  (p.withUnits units).isLibraryLevel id = p.isLibraryLevel id
  := by simp [isLibraryLevel, libraryLevelFrom_withUnits]

/-! ### Declarations of packages -/

/-- No package is declared twice. -/
def PackagesUnique : Prop :=
  ∀ id, ((Node.packagesOf p.units).filter (Node.declaresPackage id)).length ≤ 1

variable {p} {units}

theorem packagesOf_eq_flatMap (ns : List Node) :
  Node.packagesOf ns = ns.flatMap Node.packages
  := by
  induction ns with
  | nil => rfl
  | cons n ns ih => rw [Node.packagesOf, ih, List.flatMap_cons]

/-- In another order, the declarations of packages are the same. -/
theorem packageDeclaration?_withUnits (hu : units.Perm p.units) (hp : p.PackagesUnique)
    (id : EntityId) :
  (p.withUnits units).packageDeclaration? id = p.packageDeclaration? id
  := by
  have h : ((Node.packagesOf units).filter (Node.declaresPackage id)).Perm
      ((Node.packagesOf p.units).filter (Node.declaresPackage id)) := by
    rw [packagesOf_eq_flatMap, packagesOf_eq_flatMap]
    exact (hu.flatMap_right _).filter _
  have hl := hp id
  change List.getLast? (List.filter _ (Node.packagesOf units)) = _
  unfold packageDeclaration?
  generalize (Node.packagesOf p.units).filter (Node.declaresPackage id) = ns at h hl ⊢
  cases ns with
  | nil => rw [h.eq_nil]
  | cons n ns =>
    obtain rfl : ns = [] := List.length_eq_zero_iff.1 (Nat.le_zero.1 (Nat.le_of_succ_le_succ hl))
    rw [List.perm_singleton.1 h]

end Program

namespace Setting

variable (S : Setting) (units : List Node) (mode : S.Alternative)

@[simp]
theorem recast_program :
  (S.recast units mode).program = S.program.withUnits units
  := rfl

/-! ### Modes -/

variable {S} in
/-- What a mode and its carrier become under another default mode. -/
def Alternative.replace : S.Alternative → Option Mode × Option EntityId →
    Option Mode × Option EntityId
  | _, (explicit, some anchor) => (explicit, some anchor)
  | new, (_, none) => (new.mode, none)

theorem modeFrom_recast (origin : EntityId) (steps : Nat) (id : EntityId) :
  (S.recast units mode).modeFrom origin steps id = mode.replace <$> S.modeFrom origin steps id
  := by
  induction steps generalizing id with
  | zero =>
    unfold modeFrom
    rw [map_bind]
    apply bind_congr
    intro e
    cases e.mode <;> rfl
  | succ steps ih =>
    unfold modeFrom
    rw [map_bind]
    apply bind_congr
    intro e
    cases e.mode with
    | some => rfl
    | none =>
      cases e.scope with
      | some scope => exact ih scope
      | none => rfl

theorem modeOf_recast (id : EntityId) :
  (S.recast units mode).modeOf id = mode.replace <$> S.modeOf id
  := S.modeFrom_recast units mode id _ id

/-- Where no entity carries the mode, it is the default mode. -/
theorem modeFrom_eq_none {S : Setting} {origin : EntityId} {steps : Nat} {id : EntityId}
    {m : Option Mode} (h : S.modeFrom origin steps id = .ok (m, none)) :
  m = S.policy.defaultMode
  := by
  induction steps generalizing id with
  | zero =>
    unfold modeFrom at h
    obtain ⟨e, -, h⟩ := Answer.bind_eq_ok.1 h
    cases hm : e.mode <;> simp [hm] at h
  | succ steps ih =>
    unfold modeFrom at h
    obtain ⟨e, -, h⟩ := Answer.bind_eq_ok.1 h
    cases hm : e.mode with
    | some => simp [hm] at h
    | none =>
      cases hs : e.scope with
      | some scope => exact ih (by simpa [hm, hs] using h)
      | none =>
        rw [hm, hs] at h
        exact (Prod.mk.inj (Except.ok.inj h)).1.symm

@[simp]
theorem isOff_recast (id : EntityId) :
  (S.recast units mode).isOff id = S.isOff id
  := by
  unfold isOff
  rw [modeOf_recast]
  cases h : S.modeOf id with
  | error => rfl
  | ok result =>
    obtain ⟨m, anchor⟩ := result
    cases anchor with
    | some => rfl
    | none =>
      obtain rfl := modeFrom_eq_none h
      exact congrArg Except.ok mode.agrees

theorem coreFrom_recast (origin : EntityId) (steps : Nat) (e : Entity) :
  (S.recast units mode).coreFrom origin steps e = S.coreFrom origin steps e
  := by
  induction steps generalizing e with
  | zero => rfl
  | succ steps ih =>
    simp only [coreFrom, next?, hidesFullView, isOff_recast, ih]
    rfl

@[simp]
theorem core_recast (id : EntityId) :
  (S.recast units mode).core id = S.core id
  := by simp [core, coreFrom_recast]

@[simp]
theorem access?_recast (id : EntityId) :
  (S.recast units mode).access? id = S.access? id
  := by simp [access?, definition]

@[simp]
theorem isAnonymousAccess_recast (id : EntityId) :
  (S.recast units mode).isAnonymousAccess id = S.isAnonymousAccess id
  := by simp [isAnonymousAccess]

@[simp]
theorem isConcurrentType_recast (id : EntityId) :
  (S.recast units mode).isConcurrentType id = S.isConcurrentType id
  := by simp [isConcurrentType, definition]

@[simp]
theorem isVolatileType_recast (id : EntityId) :
  (S.recast units mode).isVolatileType id = S.isVolatileType id
  := by simp [isVolatileType]

theorem anyPartOwning_recast (search : EntityId → Seen → Answer (Bool × Seen))
    (parts : List EntityId) (seen : Seen) :
  (S.recast units mode).anyPartOwning search parts seen = S.anyPartOwning search parts seen
  := by
  induction parts generalizing seen with
  | nil => rfl
  | cons part parts ih =>
    simp only [anyPartOwning, ih]
    rfl

theorem owningFrom_recast (levels : Nat) :
  (S.recast units mode).owningFrom levels = S.owningFrom levels
  := by
  induction levels with
  | zero =>
    funext id seen
    unfold owningFrom
    simp only [core_recast]
  | succ levels ih =>
    funext id seen
    unfold owningFrom
    simp only [core_recast, ih, recordOwning, anyPartOwning_recast]

@[simp]
theorem isOwning_recast (id : EntityId) :
  (S.recast units mode).isOwning id = S.isOwning id
  := by simp [isOwning, owningFrom_recast]

@[simp]
theorem isTraversal_recast (s : SubprogramFacet) :
  (S.recast units mode).isTraversal s = S.isTraversal s
  := by simp [isTraversal, firstParameterType?, isObjectAccess]

@[simp]
theorem callsTraversal_recast (id : EntityId) :
  (S.recast units mode).callsTraversal id = S.callsTraversal id
  := by simp [callsTraversal]

/-! ### Paths -/

@[simp]
theorem denotesObject_recast (n : Node) :
  (S.recast units mode).denotesObject n = S.denotesObject n
  := by fun_induction S.denotesObject n <;> simp_all [denotesObject, isObject]

@[simp]
theorem isPath_recast (n : Node) :
  (S.recast units mode).isPath n = S.isPath n
  := by
  fun_induction S.isPath n with
  | case8 id location type callee arguments ih =>
    cases arguments <;> simp_all [isPath]
  | _ => simp_all [isPath, isObject]

theorem summarizeFrom_recast (s : PathSummary) (n : Node) :
  (S.recast units mode).summarizeFrom s n = S.summarizeFrom s n
  := by
  have root (s : PathSummary) (id : EntityId) :
      (S.recast units mode).summarizeRoot s id = S.summarizeRoot s id := by
    simp [summarizeRoot, isVolatileOrConcurrent, isConstant]
  have traversal (s : PathSummary) (callee : EntityId) :
      (S.recast units mode).summarizeTraversal s callee = S.summarizeTraversal s callee := by
    simp [summarizeTraversal, accessKind?]
  fun_induction S.summarizeFrom s n with
  | case8 s id location type callee arguments ih =>
    cases arguments <;> simp_all [summarizeFrom]
  | _ => simp_all [summarizeFrom, accessKind?]

@[simp]
theorem isMoveSource_recast (toConstant : Bool) (n : Node) :
  (S.recast units mode).isMoveSource toConstant n = S.isMoveSource toConstant n
  := by
  have h : (S.recast units mode).isMovable toConstant = S.isMovable toConstant := by
    funext n
    simp [isMovable, summarize, summarizeFrom_recast]
  simp [isMoveSource, h]

@[simp]
theorem isLoanSource_recast (observe : Bool) (n : Node) :
  (S.recast units mode).isLoanSource observe n = S.isLoanSource observe n
  := by
  have h : (S.recast units mode).isLendable observe = S.isLendable observe := by
    funext n
    simp [isLendable, summarize, summarizeFrom_recast]
  simp [isLoanSource, h]

@[simp]
theorem isRootedAt_recast (object : Option EntityId) (n : Node) :
  (S.recast units mode).isRootedAt object n = S.isRootedAt object n
  := by
  have h : (S.recast units mode).startsAt object = S.startsAt object := by
    funext n
    simp [startsAt, summarize, summarizeFrom_recast]
  simp [isRootedAt, h]

/-! ### Rules of single shapes -/

@[simp]
theorem checkMove_recast (toConstant : Bool) (n : Node) :
  (S.recast units mode).checkMove toConstant n = S.checkMove toConstant n
  := by simp [checkMove]

@[simp]
theorem checkLoan_recast (observe : Bool) (n : Node) :
  (S.recast units mode).checkLoan observe n = S.checkLoan observe n
  := by simp [checkLoan]

@[simp]
theorem checkLent_recast (type : EntityId) (a : AccessDefinition) (n : Node) :
  (S.recast units mode).checkLent type a n = S.checkLent type a n
  := by simp [checkLent, checkCompatible, isCompatible]

@[simp]
theorem loanType?_recast (type : EntityId) :
  (S.recast units mode).loanType? type = S.loanType? type
  := by simp [loanType?]

@[simp]
theorem checkStored_recast (type : EntityId) (toConstant : Bool) (n : Node) :
  (S.recast units mode).checkStored type toConstant n = S.checkStored type toConstant n
  := by simp [checkStored]

@[simp]
theorem restOnNamedType_recast (role : Role) (n : Node) :
  (S.recast units mode).restOnNamedType role n = S.restOnNamedType role n
  := rfl

@[simp]
theorem checkActuals_recast (callee : EntityId) (formals : List EntityId)
    (actuals : List Node) :
  (S.recast units mode).checkActuals callee formals actuals
    = S.checkActuals callee formals actuals
  := by simp [checkActuals, checkActual, formal, checkOwningActual]

@[simp]
theorem checkAssociation_recast (a : Association Node) :
  (S.recast units mode).checkAssociation a = S.checkAssociation a
  := by simp [checkAssociation]

theorem sameRepresentation_recast (types : List (EntityId × EntityId)) :
  (S.recast units mode).sameRepresentation types = S.sameRepresentation types
  := by
  induction types with
  | nil => rfl
  | cons pair types ih => simp [sameRepresentation, representation?, definition, ih]

@[simp]
theorem checkConversion_recast (site : Site) (target : EntityId) (operand : Node) :
  (S.recast units mode).checkConversion site target operand
    = S.checkConversion site target operand
  := by
  simp [checkConversion, isArray, arrayIndices, definition, sameRepresentation_recast]

@[simp]
theorem checkBinary_recast (n : Node) (operator : BinaryOperator) (left right : Node) :
  (S.recast units mode).checkBinary n operator left right = S.checkBinary n operator left right
  := by
  simp [checkBinary, checkScaling, fixedSmall?, isFloating, definition, checkEquality,
    isObjectAccess]

@[simp]
theorem checkAllocated_recast (target : EntityId) (initial : Node) :
  (S.recast units mode).checkAllocated target initial = S.checkAllocated target initial
  := by simp [checkAllocated]

/-! ### Trees -/

mutual

theorem expression_recast : (n : Node) →
  (S.recast units mode).expression n = S.expression n
  | ⟨id, location, type, shape⟩ => by
    have ho := operands_recast shape
    match shape with
    | .aggregate as => simp only [expression, ho, associations_recast as]
    | .selected whole _ =>
      simp only [expression, ho, expression_recast whole]
      rfl
    | .dereference operand | .conversion _ operand | .qualified _ operand | .unary _ operand =>
      simp only [expression, ho, expression_recast operand, checkConversion_recast]
    | .indexed whole indices =>
      simp only [expression, ho, expression_recast whole, expressions_recast indices]
    | .slice left right | .binary _ left right | .range left right
    | .quantified _ left right _ =>
      simp only [expression, ho, expression_recast left, expression_recast right,
        checkBinary_recast]
    | .call _ arguments =>
      simp only [expression, ho, expressions_recast arguments, checkActuals_recast]
      rfl
    | .attribute whole _ arguments =>
      simp only [expression, ho, expression_recast whole, expressions_recast arguments,
        restOnNamedType_recast]
    | .allocator _ none => simp only [expression, ho]
    | .allocator _ (some value) =>
      simp only [expression, ho, expression_recast value, checkAllocated_recast]
    | .conditional condition thenValue elseValue =>
      simp only [expression, ho, expression_recast condition, expression_recast thenValue,
        expression_recast elseValue]
    | .membership operand cs =>
      simp only [expression, ho, expression_recast operand, choices_recast cs]
    | .identifier _ | .word _ | .literal _ | .assignment .. | .procedureCall .. | .return _
    | .ifElse .. | .case .. | .loop .. | .block .. | .exit _ | .goto _ | .raise _ | .delay _
    | .abort | .machineCode | .nothing | .pragma .. | .declaration .. | .package ..
    | .body .. | .protectedBody .. | .compilationUnit .. | .withClause _ | .useClause =>
      simp only [expression, ho]

theorem operands_recast :
    (shape : Shape Node) → (S.recast units mode).operands shape = S.operands shape
  | .aggregate as => by simp only [operands, associationOperands_recast as]
  | .selected operand _ | .dereference operand | .conversion _ operand
  | .qualified _ operand | .unary _ operand => by
    simp only [operands, expression_recast operand]
  | .indexed whole indices => by
    simp only [operands, expression_recast whole, expressions_recast indices]
  | .slice left right | .binary _ left right | .range left right
  | .quantified _ left right _ => by
    simp only [operands, expression_recast left, expression_recast right]
  | .call _ arguments => by simp only [operands, expressions_recast arguments]
  | .attribute whole _ arguments => by
    simp only [operands, expression_recast whole, expressions_recast arguments,
      restOnNamedType_recast]
  | .allocator _ none => by simp only [operands]
  | .allocator _ (some value) => by simp only [operands, expression_recast value]
  | .conditional condition thenValue elseValue => by
    simp only [operands, expression_recast condition, expression_recast thenValue,
      expression_recast elseValue]
  | .membership operand cs => by
    simp only [operands, expression_recast operand, choices_recast cs]
  | .identifier _ | .word _ | .literal _ | .assignment .. | .procedureCall .. | .return _
  | .ifElse .. | .case .. | .loop .. | .block .. | .exit _ | .goto _ | .raise _ | .delay _
  | .abort | .machineCode | .nothing | .pragma .. | .declaration .. | .package ..
  | .body .. | .protectedBody .. | .compilationUnit .. | .withClause _ | .useClause => by
    simp only [operands]

theorem expressions_recast :
    (ns : List Node) → (S.recast units mode).expressions ns = S.expressions ns
  | [] => rfl
  | n :: ns => by simp [expressions, expression_recast n, expressions_recast ns]

theorem choices_recast : (ns : List Node) → (S.recast units mode).choices ns = S.choices ns
  | [] => rfl
  | n :: ns => by simp [choices, expression_recast n, choices_recast ns]

theorem associations_recast :
    (as : List (Association Node)) → (S.recast units mode).associations as = S.associations as
  | [] => rfl
  | ⟨cs, others, value⟩ :: as => by
    simp [associations, choices_recast cs, expression_recast value,
      associations_recast as]

theorem associationOperands_recast :
    (as : List (Association Node)) →
      (S.recast units mode).associationOperands as = S.associationOperands as
  | [] => rfl
  | ⟨cs, others, value⟩ :: as => by
    simp [associationOperands, choices_recast cs, expression_recast value,
      associationOperands_recast as]

end

@[simp]
theorem optionalExpression_recast (n : Option Node) :
  (S.recast units mode).optionalExpression n = S.optionalExpression n
  := by cases n <;> simp [optionalExpression, expression_recast]

@[simp]
theorem pragma_recast (site : Site) (name : String) (arguments : List (PragmaArgument Node)) :
  (S.recast units mode).pragma site name arguments = S.pragma site name arguments
  := by
  simp only [pragma, assertions, expression_recast]
  rfl

@[simp]
theorem checkReturned_recast (around : Surroundings) (value : Node) :
  (S.recast units mode).checkReturned around value = S.checkReturned around value
  := by simp [checkReturned, checkResult]

mutual

theorem item_recast : (n : Node) → (around : Surroundings) →
  (S.recast units mode).item around n = S.item around n
  | ⟨id, location, type, shape⟩, around => by
    match shape with
    | .body _ entity mode declarations statements =>
      simp only [item, items_recast declarations, items_recast statements]
      rfl
    | .protectedBody entity mode bodies =>
      simp only [item, items_recast bodies]
      rfl
    | .ifElse bs otherwise =>
      simp only [item, branches_recast bs, items_recast otherwise]
    | .case selector bs =>
      simp only [item, expression_recast, caseBranches_recast bs]
    | .loop scheme statements =>
      cases scheme <;>
        simp only [item, loopScheme, expression_recast, items_recast statements]
    | .block declarations statements =>
      simp only [item, items_recast declarations, items_recast statements]
    | .assignment target value =>
      simp only [item, expression_recast, checkAssigned, checkStored_recast]
    | .procedureCall callee arguments =>
      simp only [item, callStatement, expressions_recast, checkActuals_recast]
      rfl
    | .return none => simp only [item]
    | .return (some value) =>
      simp only [item, expression_recast, checkReturned_recast]
    | .exit condition => simp only [item, optionalExpression_recast]
    | .delay value => simp only [item, expression_recast]
    | .pragma name arguments => simp only [item, pragma_recast]
    | .declaration .. | .package .. | .goto _ | .raise _ | .abort | .machineCode | .nothing
    | .useClause | .compilationUnit .. | .withClause _ | .identifier _ | .word _
    | .literal _ | .aggregate _ | .selected .. | .indexed .. | .slice .. | .dereference _
    | .call .. | .attribute .. | .conversion .. | .qualified .. | .binary .. | .unary ..
    | .allocator .. | .conditional .. | .quantified .. | .range .. | .membership .. =>
      simp only [item]

theorem items_recast :
    (ns : List Node) → (around : Surroundings) →
      (S.recast units mode).items around ns = S.items around ns
  | [], around => rfl
  | n :: ns, around => by simp only [items, item_recast n, items_recast ns]

theorem branches_recast :
    (bs : List (Branch Node)) → (around : Surroundings) →
      (S.recast units mode).branches around bs = S.branches around bs
  | [], around => rfl
  | ⟨condition, statements⟩ :: bs, around => by
    simp only [branches, expression_recast, items_recast statements, branches_recast bs]

theorem caseBranches_recast :
    (bs : List (CaseBranch Node)) → (around : Surroundings) →
      (S.recast units mode).caseBranches around bs = S.caseBranches around bs
  | [], around => rfl
  | ⟨cs, statements⟩ :: bs, around => by
    simp only [caseBranches, expressions_recast, items_recast statements,
      caseBranches_recast bs]

end

/-! ### Entities -/

theorem checkExtension_recast (site : Site) (components : List EntityId) :
  (S.recast units mode).checkExtension site components = S.checkExtension site components
  := by
  induction components with
  | nil => rfl
  | cons component components ih => simp [checkExtension, ih]

theorem typeInquiry_recast (e : Entity) (t : TypeFacet) :
  (S.recast units mode).typeInquiry e t = S.typeInquiry e t
  := by
  have h : (S.recast units mode).typeDefinition e.name e.site t.definition
      = S.typeDefinition e.name e.site t.definition := by
    cases t.definition with
    | array =>
      simp only [typeDefinition, arrayType, isAnonymousAccess_recast]
      rfl
    | record => simp [typeDefinition, recordType, checkExtension_recast]
    | partialView => simp [typeDefinition, privateType]
    | subtype | derived => simp [typeDefinition, expressions_recast]
    | _ => rfl
  simp only [typeInquiry, h]

theorem checkReads_recast (site : Site) (ids : List EntityId) :
  (S.recast units mode).checkReads site ids = S.checkReads site ids
  := by
  induction ids with
  | nil => rfl
  | cons id ids ih => simp [checkReads, isVolatileObject, ih]

theorem checkParameters_recast (ids : List EntityId) :
  (S.recast units mode).checkParameters ids = S.checkParameters ids
  := by
  induction ids with
  | nil => rfl
  | cons id ids ih => simp [checkParameters, checkNotVolatile, ih]

theorem subprogramInquiry_recast (e : Entity) (s : SubprogramFacet) :
  (S.recast units mode).subprogramInquiry e s = S.subprogramInquiry e s
  := by
  simp [subprogramInquiry, checkEffects, checkReads_recast, restOnConcurrentScope,
    checkProfile, checkParameters_recast, checkNotVolatile, checkAccessResult,
    firstParameterAccess?, firstParameterType?, expressions_recast]

/-- Where packages have the same declarations, the inquiries are the same. -/
theorem entityInquiry_recast {e : Entity}
    (h : (S.program.withUnits units).packageDeclaration? e.name
      = S.program.packageDeclaration? e.name) :
  (S.recast units mode).entityInquiry e = S.entityInquiry e
  := by
  unfold entityInquiry
  cases e.kind with
  | type => exact typeInquiry_recast S units mode e _
  | object => simp [objectInquiry, expression_recast]
  | parameter => simp [parameterInquiry, expression_recast]
  | component | discriminant => simp [componentInquiry, expression_recast, checkDefault]
  | subprogram => exact subprogramInquiry_recast S units mode e _
  | package => simp [packageInquiry, h, items_recast]
  | number => simp
  | _ => rfl

@[simp]
theorem designated_recast (access : EntityId) :
  (S.recast units mode).designated access = S.designated access
  := rfl

/-! ### Acts of a run -/

theorem partCores_recast (parts : List EntityId) :
  (S.recast units mode).partCores parts = S.partCores parts
  := by
  induction parts with
  | nil => rfl
  | cons part parts ih => simp [partCores, coreName, ih]

theorem relaxedParts_recast (type : EntityId) :
  (S.recast units mode).relaxedParts type = S.relaxedParts type
  := by
  have h : (S.recast units mode).coreName = S.coreName := by
    funext id
    simp [coreName]
  simp [relaxedParts, definition, partCores_recast, h]

theorem prerequisite?_recast (e : Entity) :
  (S.recast units mode).prerequisite? e = S.prerequisite? e
  := by
  have h : (S.recast units mode).program.partialView? = S.program.partialView? := rfl
  simp only [prerequisite?, isConcurrentType_recast, h]

/-! ### The default mode of the setting -/

@[simp]
theorem withUnits_program :
  (S.withUnits units).program = S.program.withUnits units
  := rfl

@[simp]
theorem isOff_withUnits (id : EntityId) :
  (S.withUnits units).isOff id = S.isOff id
  := by rw [withUnits_eq_recast, isOff_recast]

@[simp]
theorem designated_withUnits (access : EntityId) :
  (S.withUnits units).designated access = S.designated access
  := rfl

/-- In another order of the compilation units, the inquiries are the same. -/
theorem entityInquiry_withUnits (hu : units.Perm S.program.units)
    (hp : S.program.PackagesUnique) (e : Entity) :
  (S.withUnits units).entityInquiry e = S.entityInquiry e
  := by
  rw [withUnits_eq_recast, entityInquiry_recast]
  exact Program.packageDeclaration?_withUnits hu hp e.name

end Setting

end Conformance
