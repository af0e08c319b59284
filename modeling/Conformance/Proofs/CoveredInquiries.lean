import Conformance.Proofs.Coverage
import Conformance.Proofs.Support

/-!
# Coverage of declarations and statements

The inquiry into a declaration or a statement covers it, and the inquiry into an entity
covers all that the declaration of the entity holds, apart from aspects of types.  Bodies
belong to other matters.
-/

namespace Conformance

namespace Setting

open Inquiry

variable {S : Setting}

/-! ### Statements -/

theorem covers_declareHere (around : Surroundings) (site : Site) (kind : Declared)
    (id : EntityId) :
  S.Covers [] (declareHere around site kind id)
  := by
  unfold declareHere
  split
  · exact covers_quiet ⟨rfl, fun _ => rfl, trivial⟩
  · exact covers_quiet ⟨fun _ => rfl, trivial⟩

theorem covers_optional (n : Option Node) :
  S.Covers (Role.expression.each n.toList) (S.optionalExpression n)
  := by
  cases n with
  | none => exact covers_pure ()
  | some n => exact covers_expression n

theorem covers_assertions (arguments : List (PragmaArgument Node)) :
  S.Covers (Role.expression.each (arguments.filterMap PragmaArgument.condition?))
    (S.assertions arguments)
  := by
  refine (covers_forM (fun a => Role.expression.each a.condition?.toList) ?_ arguments).mono ?_
  · rintro ⟨_, id, location, type, shape⟩
    cases shape with
    | word _ => exact covers_pure ()
    | literal value =>
      cases value with
      | string _ => exact covers_pure ()
      | _ => exact covers_expression _
    | _ => exact covers_expression _
  · intro part hp
    obtain ⟨n, hn, rfl⟩ := List.mem_map.1 hp
    obtain ⟨a, ha, hc⟩ := List.mem_filterMap.1 hn
    exact List.mem_flatMap.2 ⟨a, ha, List.mem_map.2 ⟨n, by simp [hc], rfl⟩⟩

theorem covers_pragma (site : Site) (name : String) (arguments : List (PragmaArgument Node)) :
  S.Covers (pragmaParts name arguments) (S.pragma site name arguments)
  := by
  unfold pragma pragmaParts
  cases PragmaClass.ofName name with
  | assertion => exact covers_assertions arguments
  | mode => exact covers_pure ()
  | withoutEffect => exact covers_pure ()
  | unsupported => exact covers_plain ⟨rfl, trivial⟩
  | unknown =>
    simp only
    split
    · exact covers_plain ⟨rfl, trivial⟩
    · exact covers_plain ⟨rfl, trivial⟩

theorem covers_loopScheme (site : Site) (loop : NodeId) (scheme : LoopScheme Node) :
  S.Covers (Role.expression.each scheme.children) (S.loopScheme site loop scheme)
  := by
  cases scheme with
  | forever => exact covers_pure ()
  | whileTrue condition => exact covers_expression condition
  | overDomain parameter domain _ =>
    have hp : S.Covers [] (.placeInLoop parameter loop (.done ())) := covers_quiet ⟨rfl, trivial⟩
    have hd : S.Covers [] (.declare parameter site (.done ())) :=
      covers_quiet ⟨fun _ => rfl, trivial⟩
    exact hp.append ((covers_expression domain).followed hd)

theorem covers_assigned (target value : Node) :
  S.Covers [] (S.checkAssigned target value)
  := by
  unfold checkAssigned
  split
  · exact covers_pure ()
  · exact covers_given (S.plain_stored _ false value)

theorem covers_returned (around : Surroundings) (value : Node) :
  S.Covers [] (S.checkReturned around value)
  := by
  unfold checkReturned
  split
  · exact covers_pure ()
  · apply covers_lift
    intro facet
    split
    · exact covers_pure ()
    · next result _ => exact covers_given (plain_result facet result value)

/-- What a body holds belongs to another matter. -/
theorem covers_body {entity : EntityId} {mode : Option Mode} {inner : Entity → Inquiry Unit} :
  S.Covers [] (do
    let e ← S.program.entity entity
    .body e mode (inner e) (.done ()))
  := covers_lift fun _ => covers_quiet ⟨rfl, trivial⟩

mutual

theorem covers_item :
    (n : Node) → (around : Surroundings) → S.Covers [(.item, n)] (S.item around n)
  | ⟨id, location, type, shape⟩, around => by
    match shape with
    | .declaration kind entity =>
      rw [item]
      exact covers_come rfl (covers_declareHere _ _ kind entity)
    | .package entity _ _ =>
      rw [item]
      exact covers_come rfl (covers_quiet ⟨fun _ => rfl, trivial⟩)
    | .body _ entity mode declarations statements =>
      rw [item]
      exact covers_come rfl covers_body
    | .protectedBody entity mode bs =>
      rw [item]
      exact covers_come rfl covers_body
    | .assignment target value =>
      rw [item]
      refine covers_visit ?_ fun _ hp hc => storesFit_assignment fun _ => fits_of_assignment hp hc
      apply (covers_expression target).append
      exact (covers_expression value).followed (covers_assigned target value)
    | .procedureCall callee arguments =>
      rw [item]
      exact covers_come rfl (covers_call (covers_expressions arguments))
    | .return none =>
      rw [item]
      exact covers_come rfl (covers_pure ())
    | .return (some value) =>
      rw [item]
      apply covers_come rfl
      exact (covers_expression value).followed (covers_returned around value)
    | .ifElse bs otherwise =>
      rw [item]
      apply covers_come rfl
      exact (covers_branches bs around).append (covers_items otherwise around)
    | .case selector bs =>
      rw [item]
      apply covers_come rfl
      exact (covers_expression selector).append (covers_caseBranches bs around)
    | .loop scheme statements =>
      rw [item]
      apply covers_come rfl
      exact (covers_loopScheme _ _ scheme).append (covers_items statements _)
    | .block declarations statements =>
      rw [item]
      apply covers_come rfl
      exact (covers_items declarations around).append (covers_items statements around)
    | .exit condition =>
      rw [item]
      exact covers_come rfl (covers_optional condition)
    | .raise none =>
      rw [item]
      exact covers_come rfl (covers_pure ())
    | .raise (some entity) =>
      rw [item]
      exact covers_come rfl (covers_restOn entity _)
    | .delay value =>
      rw [item]
      exact covers_come rfl (covers_expression value)
    | .pragma name arguments =>
      rw [item]
      exact covers_come rfl (covers_pragma _ name arguments)
    | .goto _ | .abort | .machineCode =>
      rw [item]
      exact covers_come rfl (covers_plain (by simp))
    | .nothing | .useClause =>
      rw [item]
      exact covers_come rfl (covers_pure ())
    | .compilationUnit .. | .withClause _ | .identifier _ | .word _
    | .literal _ | .aggregate _ | .selected .. | .indexed .. | .slice .. | .dereference _
    | .call .. | .attribute .. | .conversion .. | .qualified .. | .binary .. | .unary ..
    | .allocator .. | .conditional .. | .quantified .. | .range .. | .membership .. =>
      simp only [item]
      exact covers_come rfl (covers_fail _)

theorem covers_items :
    (ns : List Node) → (around : Surroundings) →
      S.Covers (Role.item.each ns) (S.items around ns)
  | [], around => by
    rw [items]
    exact covers_pure ()
  | n :: ns, around => by
    rw [items]
    exact (covers_item n around).append (covers_items ns around)

theorem covers_branches :
    (bs : List (Branch Node)) → (around : Surroundings) →
      S.Covers (bs.flatMap fun b => (.expression, b.condition) :: Role.item.each b.body)
        (S.branches around bs)
  | [], around => by
    rw [branches]
    exact covers_pure ()
  | ⟨condition, statements⟩ :: bs, around => by
    rw [branches]
    exact (covers_expression condition).append
      ((covers_items statements around).append (covers_branches bs around))

theorem covers_caseBranches :
    (bs : List (CaseBranch Node)) → (around : Surroundings) →
      S.Covers (bs.flatMap fun b => Role.expression.each b.choices ++ Role.item.each b.body)
        (S.caseBranches around bs)
  | [], around => by
    rw [caseBranches]
    exact covers_pure ()
  | ⟨cs, statements⟩ :: bs, around => by
    rw [caseBranches]
    have h := (covers_items statements around).append (covers_caseBranches bs around)
    apply ((covers_expressions cs).append h).mono
    simp

end

/-! ### Types -/

theorem covers_unsupportedUnless (handled : Bool) (site : Site) (feature : Unsupported) :
  S.Covers [] (unsupportedUnless handled site feature)
  := covers_plain (plain_unsupportedUnless handled site feature)

theorem covers_accessType (id : EntityId) (site : Site) (a : AccessDefinition) :
  S.Covers [] (S.accessType id site a)
  := by
  have look (examined : Bool) : S.Covers [] (if examined then restOn a.designated site
      else .postponeCompletion id (.done ()) : Inquiry Unit) := by
    cases examined
    · exact covers_quiet ⟨rfl, trivial⟩
    · exact covers_restOn a.designated site
  have tail (incomplete : Bool) : S.Covers [] (do
      let examined : Bool ←
        if incomplete then .isExamined a.designated .done else pure true
      if examined then restOn a.designated site
      else .postponeCompletion id (.done ())) := by
    cases incomplete
    · exact look true
    · have hl : S.Covers [] (.isExamined a.designated .done) :=
        covers_quiet fun _ => ⟨rfl, trivial⟩
      exact hl.bind look
  have whole : S.Covers [] (do
      let incomplete : Bool ← if a.toObject then S.isIncomplete a.designated else pure false
      let examined : Bool ←
        if incomplete then .isExamined a.designated .done else pure true
      if examined then restOn a.designated site
      else .postponeCompletion id (.done ())) := by
    split
    · exact covers_lift tail
    · exact tail false
  unfold accessType
  exact covers_after (covers_plain ⟨rfl, trivial⟩) whole

theorem covers_typeDefinition (id : EntityId) (site : Site) (d : TypeDefinition) :
  S.Covers (Role.expression.each d.constraint) (S.typeDefinition id site d)
  := by
  cases d with
  | signed | modular | floating | ordinaryFixed => exact covers_unsupportedUnless _ _ _
  | decimalFixed => exact covers_plain ⟨rfl, trivial⟩
  | enumeration => exact covers_pure ()
  | array indices component =>
    apply (covers_unsupportedUnless _ _ _).append
    apply (covers_restOnAll indices site).append
    apply covers_ask
    exact covers_plain (by simp)
  | record r =>
    apply (covers_restOnAll _ site).append
    apply (covers_restOnAll _ site).append
    apply (covers_restOnAll _ site).append
    split
    · exact covers_pure ()
    · exact covers_plain (by simp [plain_extension])
  | interface parents => exact covers_restOnAll parents site
  | access a => exact covers_accessType id site a
  | partialView full discriminants _ =>
    apply (covers_restOnAll _ site).append
    cases full with
    | none => exact covers_pure ()
    | some view =>
      apply covers_lift
      intro off
      split
      · exact covers_quiet ⟨rfl, rfl, trivial⟩
      · exact covers_restOn view site
  | incomplete full =>
    cases full with
    | none => exact covers_plain ⟨rfl, trivial⟩
    | some view => exact covers_restOn view site
  | subtype parent constraint | derived parent constraint =>
    exact (covers_restOn parent site).append (covers_expressions constraint)
  | classWide root constrained =>
    exact (covers_restOn root site).append (covers_unsupportedUnless _ _ _)
  | task discriminants _ => exact covers_restOnAll discriminants site
  | protectedUnit discriminants components _ => exact covers_restOnAll _ site

theorem covers_typeInquiry (e : Entity) (f : TypeFacet) :
  S.Covers (Role.expression.each f.definition.constraint) (S.typeInquiry e f)
  := (covers_typeDefinition _ _ f.definition).followed
    (covers_plain (by simp [Every, Step.isPlain]))

/-! ### Objects, parameters and components -/

theorem covers_objectInquiry (e : Entity) (o : ObjectFacet) :
  S.Covers (Role.expression.each o.initial.toList) (S.objectInquiry e o)
  := by
  have hr := plain_relaxIf o.relaxed true o.type
  apply covers_ask
  cases o.initial with
  | none => exact covers_plain (by simp [hr])
  | some value => exact (covers_expression value).followed (covers_plain (by simp [hr]))

theorem covers_parameterInquiry (e : Entity) (p : ParameterFacet) :
  S.Covers (Role.expression.each p.default.toList) (S.parameterInquiry e p)
  := by
  have hr := covers_plain (S := S) (plain_relaxIf p.relaxed true p.type)
  apply covers_ask
  cases p.default with
  | none => exact hr
  | some value => exact (covers_expression value).followed hr

theorem covers_componentInquiry (e : Entity) (c : ComponentFacet) :
  S.Covers (Role.expression.each c.default.toList) (S.componentInquiry e c)
  := by
  have hr := covers_plain (S := S) (plain_relaxIf c.relaxed true c.type)
  have hv : S.Covers [] (violation e.site .anonymousAccessComponent) :=
    covers_plain ⟨rfl, trivial⟩
  unfold componentInquiry
  apply covers_ask
  cases c.default with
  | none => exact covers_lift fun _ => covers_after hv hr
  | some value =>
    have hd : S.Covers [] (S.checkDefault c.type value) :=
      covers_plain (plain_default c.type value)
    exact covers_lift fun _ => covers_after hv ((covers_expression value).followed (hd.append hr))

/-! ### Subprograms and packages -/

theorem covers_restOnConcurrentScope (e : Entity) :
  S.Covers [] (S.restOnConcurrentScope e)
  := by
  unfold restOnConcurrentScope
  split
  · exact covers_pure ()
  · next scope _ =>
    apply covers_lift
    intro concurrent
    split
    · exact covers_restOn scope e.site
    · exact covers_pure ()

theorem covers_notVolatile (site : Site) (type blamed : EntityId) :
  S.Covers [] (S.checkNotVolatile site type blamed)
  := covers_given (by simp)

theorem covers_parameters (ids : List EntityId) :
  S.Covers [] (S.checkParameters ids)
  := by
  induction ids with
  | nil => exact covers_pure ()
  | cons id ids ih =>
    apply covers_lift
    intro e
    split
    · next p _ =>
      have h := (covers_notVolatile e.site p.type id).append ih
      split
      · exact h
      · have hv : S.Covers [] (violation e.site (.functionWithOutput id)) :=
          covers_plain ⟨rfl, trivial⟩
        exact hv.append h
    · exact ih

theorem covers_profile (e : Entity) (s : SubprogramFacet) :
  S.Covers [] (S.checkProfile e s)
  := by
  apply (covers_parameters s.parameters).append
  split
  · exact covers_pure ()
  · next result _ => exact covers_notVolatile e.site result result

theorem covers_subprogramInquiry (e : Entity) (s : SubprogramFacet) :
  S.Covers (Role.expression.each (s.contracts ++ s.contractCases.flatMap ContractCase.facets))
    (S.subprogramInquiry e s)
  := by
  have tail : S.Covers
      (Role.expression.each (s.contracts ++ s.contractCases.flatMap ContractCase.facets)) (do
      if s.dispatching then checkDispatching e s
      restOnAll s.overridden e.site
      S.expressions s.contracts
      S.expressions (s.contractCases.flatMap ContractCase.facets)) := by
    apply covers_after (covers_plain (plain_dispatching e s))
    apply (covers_restOnAll _ _).append
    have h := (covers_expressions s.contracts).append
      (covers_expressions (S := S) (s.contractCases.flatMap ContractCase.facets))
    exact h.mono (by simp [Role.each])
  unfold subprogramInquiry
  apply covers_after (covers_plain (plain_effects e s))
  apply (covers_restOnConcurrentScope e).append
  apply (covers_restOnAll _ _).append
  cases s.result with
  | none =>
    apply (covers_pure false).bind
    exact fun _ => covers_after (covers_profile e s) tail
  | some result =>
    apply covers_ask
    apply covers_after (covers_profile e s)
    exact covers_after (covers_plain (plain_accessResult e s result)) tail

/-- The expressions, declarations and statements that the declaration of an entity holds,
apart from aspects of types, which belong to another matter. -/
def declaredParts (S : Setting) (e : Entity) : List (Role × Node) :=
  match e.kind with
  | .type f => Role.expression.each f.definition.constraint
  | .package initialCondition =>
    Role.item.each ((S.program.packageDeclaration? e.name).toList.flatMap Node.packageItems)
      ++ Role.expression.each initialCondition.toList
  | kind => Role.expression.each kind.facets

theorem covers_packageInquiry (e : Entity) (initialCondition : Option Node) :
  S.Covers
    (Role.item.each ((S.program.packageDeclaration? e.name).toList.flatMap Node.packageItems)
      ++ Role.expression.each initialCondition.toList)
    (S.packageInquiry e initialCondition)
  := by
  unfold packageInquiry
  cases S.program.packageDeclaration? e.name with
  | none => exact covers_optional initialCondition
  | some n =>
    have h := (covers_items n.packageItems {}).append (covers_optional (S := S) initialCondition)
    exact h.mono (by simp)

/-- The inquiry into the declaration of an entity. -/
theorem covers_entityInquiry (e : Entity) :
  S.Covers (S.declaredParts e) (S.entityInquiry e)
  := by
  unfold entityInquiry declaredParts
  cases e.kind with
  | object o => exact covers_objectInquiry e o
  | parameter p => exact covers_parameterInquiry e p
  | component c | discriminant c => exact covers_componentInquiry e c
  | type f => exact covers_typeInquiry e f
  | subprogram s => exact covers_subprogramInquiry e s
  | package initialCondition => exact covers_packageInquiry e initialCondition
  | number value => exact covers_optional value
  | abstractState | exception => exact covers_pure ()

/-! ### Matters -/

theorem Inquires.covers {m : Matter} {i : Inquiry Unit} (h : S.Inquires m i) :
  S.Covers [] i
  := by
  cases h with
  | @declaration e he =>
    have hp : S.Covers [] (predicateInquiry e) := by
      unfold predicateInquiry
      cases e.predicateFunction? with
      | none => exact covers_pure ()
      | some function => exact covers_restOn function e.site
    exact ((covers_entityInquiry e).mono (List.nil_subset _)).append hp
  | @body e he ns => exact (covers_items ns e.inside).mono (List.nil_subset _)

end Setting

end Conformance
