import Conformance.Proofs.Expression

/-!
# Declarations and statements are regular

The bodies that the inquiry into a declaration or a statement decides are those in its
tree, outside of other bodies and of packages.
-/

namespace Conformance

namespace Setting

open Inquiry

variable {S : Setting}
variable {t : Topic} {known : EntityId → Prop}

theorem regular_declareHere (around : Surroundings) (site : Site) (kind : Declared)
    (id : EntityId) :
  S.Regular t known [] (declareHere around site kind id)
  := by
  unfold declareHere
  split
  · next loop _ =>
    have hp : S.Regular t known [] (.placeInLoop id loop (.done ())) := .plain ⟨rfl, trivial⟩
    exact hp.append (.declare id site)
  · exact .declare id site

theorem regular_pragma (site : Site) (name : String) (arguments : List (PragmaArgument Node)) :
  S.Regular t known [] (S.pragma site name arguments)
  := by
  unfold pragma
  split
  · apply regular_forM
    intro a _
    split
    · exact regular_pure ()
    · exact regular_pure ()
    · exact regular_expression a.value known
  · exact regular_pure ()
  · exact regular_pure ()
  · exact .plain (by simp)
  · split <;> exact .plain (by simp)

theorem regular_optional (n : Option Node) :
  S.Regular t known [] (S.optionalExpression n)
  := by
  cases n with
  | none => exact regular_pure ()
  | some n => exact regular_expression n known

theorem regular_loopScheme (site : Site) (loop : NodeId) (scheme : LoopScheme Node) :
  S.Regular t known [] (S.loopScheme site loop scheme)
  := by
  cases scheme with
  | forever => exact regular_pure ()
  | whileTrue condition => exact regular_expression condition known
  | overDomain parameter domain _ =>
    have hp : S.Regular t known [] (.placeInLoop parameter loop (.done ())) :=
      .plain ⟨rfl, trivial⟩
    exact hp.append ((regular_expression domain known).append (.declare parameter site))

theorem regular_assignment (target value : Node) :
  S.Regular t known [] (do
    S.expression target
    S.expression value
    S.checkAssigned target value)
  := by
  apply regular_after_expression (regular_expression target known)
  apply (regular_expression value _).append
  exact regular_assigned fun type ht => .root (Or.inr ht)

/-! ### Items -/

/-- An inquiry that comes to a body decides it. -/
theorem regular_body {n : Node} {entity : EntityId} {mode : Option Mode} {ns : List Node}
    {inner : Entity → Inquiry Unit} (hn : n.bodyOf? .item = some (entity, mode))
    (h : ∀ e, S.program.entity entity = .ok e → S.IsBody (e, inner e) (entity, ns)) :
  S.Regular t known [(entity, ns)] (do
    come .item n
    let e ← S.program.entity entity
    .body e mode (inner e) (.done ()))
  := by
  refine .visit _ _ (regular_lift fun e he => .body (h e he)) ?_ ?_
  · intro path a _
    have hs := Node.eq_none_of_bodyOf? hn
    exact ⟨by simp [hs.1], by simp [hs.2]⟩
  · intro path a l id mode' hb
    obtain ⟨rfl, rfl⟩ : entity = id ∧ mode = mode' := by simpa [hn] using hb
    obtain ⟨p, e, q, rfl, hp, hq⟩ := leads_bind_iff.1 l
    obtain ⟨rfl, he⟩ := leads_lift.1 hp
    cases hq with
    | step ht l' =>
      cases ht
      exact ⟨e, inner e, S.program.name_eq_of_entity he, List.mem_cons_self⟩

/-- On a favourable path, a returned value is checked. -/
theorem vetted_return {around : Surroundings} (ha : around.subprogram = t.subprogram)
    {id : NodeId} {location : Location} {type : Option EntityId} {value : Node}
    {path : List Step}
    (hp : (do S.expression value; S.checkReturned around value : Inquiry Unit).Favours path ()) :
  S.Vetted t .item ⟨id, location, type, .return (some value)⟩ path
  := by
  constructor
  · rintro _ _ ⟨⟩
  · rintro _ ⟨⟩
    obtain ⟨p, _, q, rfl, -, hq⟩ := favours_bind_iff.1 hp
    refine ⟨q, ?_, (List.suffix_append p q).isInfix⟩
    unfold checkReturned at hq ⊢
    rwa [ha] at hq

theorem vetted_procedureCall {id : NodeId} {location : Location} {type : Option EntityId}
    {site : Site} {callee : EntityId} {arguments : List Node} {path : List Step}
    (hp : (S.callStatement site callee arguments).Favours path ()) :
  S.Vetted t .item ⟨id, location, type, .procedureCall callee arguments⟩ path
  := by
  constructor
  · rintro _ _ ⟨⟩
    exact favours_call hp
  · rintro _ ⟨⟩

mutual

theorem regular_item (hk : ∀ id, t.subprogram = some id → S.Rooted known id) :
    (n : Node) → (around : Surroundings) → around.subprogram = t.subprogram →
      S.Regular t known n.bodies (S.item around n)
  | ⟨id, location, type, shape⟩, around, ha => by
    match shape with
    | .declaration kind entity =>
      simp only [item, Node.bodies]
      exact regular_come rfl (regular_declareHere _ _ _ _)
    | .package entity _ _ =>
      simp only [item, Node.bodies]
      exact regular_come rfl (.declare _ _)
    | .body _ entity mode declarations statements =>
      simp only [item, Node.bodies]
      exact regular_body rfl fun e he => ⟨he, (S.items_append _ _ _).symm⟩
    | .protectedBody entity mode bs =>
      simp only [item, Node.bodies]
      exact regular_body rfl fun e he => ⟨he, rfl⟩
    | .assignment target value =>
      simp only [item, Node.bodies]
      exact regular_come rfl (regular_assignment target value)
    | .procedureCall callee arguments =>
      simp only [item, Node.bodies]
      exact .visit _ _ (regular_call (regular_expressions arguments))
        (fun _ _ => vetted_procedureCall) (fun _ _ _ _ _ => nofun)
    | .return none =>
      simp only [item, Node.bodies]
      exact regular_come rfl (regular_pure ())
    | .return (some value) =>
      simp only [item, Node.bodies]
      refine Regular.visit _ _ ?_ (fun _ _ => vetted_return ha) (fun _ _ _ _ _ => nofun)
      apply (regular_expression value known).append
      exact regular_returned fun id hid => hk id (ha ▸ hid)
    | .ifElse bs otherwise =>
      simp only [item, Node.bodies]
      apply regular_come rfl
      exact (regular_branches hk bs _ ha).append (regular_items hk otherwise _ ha)
    | .case selector bs =>
      simp only [item, Node.bodies]
      exact regular_come rfl ((regular_expression selector known).append
        (regular_caseBranches hk bs _ ha))
    | .loop scheme statements =>
      simp only [item, Node.bodies]
      exact regular_come rfl ((regular_loopScheme _ _ scheme).append
        (regular_items hk statements _ ha))
    | .block declarations statements =>
      simp only [item, Node.bodies]
      exact regular_come rfl ((regular_items hk declarations _ ha).append
        (regular_items hk statements _ ha))
    | .exit condition =>
      simp only [item, Node.bodies]
      exact regular_come rfl (regular_optional condition)
    | .raise none =>
      simp only [item, Node.bodies]
      exact regular_come rfl (regular_pure ())
    | .raise (some entity) =>
      simp only [item, Node.bodies]
      exact regular_come rfl (regular_restOn entity _)
    | .delay value =>
      simp only [item, Node.bodies]
      exact regular_come rfl (regular_expression value known)
    | .pragma name arguments =>
      simp only [item, Node.bodies]
      exact regular_come rfl (regular_pragma _ _ _)
    | .goto _ | .abort | .machineCode =>
      simp only [item, Node.bodies]
      exact regular_come rfl (regular_violation _ rfl)
    | .nothing | .useClause =>
      simp only [item, Node.bodies]
      exact regular_come rfl (regular_pure ())
    | .compilationUnit .. | .withClause _ | .identifier _ | .word _
    | .literal _ | .aggregate _ | .selected .. | .indexed .. | .slice .. | .dereference _
    | .call .. | .attribute .. | .conversion .. | .qualified .. | .binary .. | .unary ..
    | .allocator .. | .conditional .. | .quantified .. | .range .. | .membership .. =>
      simp only [item, Node.bodies]
      exact regular_come rfl (regular_fail _)

theorem regular_items (hk : ∀ id, t.subprogram = some id → S.Rooted known id) :
    (ns : List Node) → (around : Surroundings) → around.subprogram = t.subprogram →
      S.Regular t known (Node.bodiesOf ns) (S.items around ns)
  | [], around, ha => by
    rw [items, Node.bodiesOf]
    exact regular_pure ()
  | n :: ns, around, ha => by
    rw [items, Node.bodiesOf]
    exact (regular_item hk n _ ha).append (regular_items hk ns _ ha)

theorem regular_branches (hk : ∀ id, t.subprogram = some id → S.Rooted known id) :
    (bs : List (Branch Node)) → (around : Surroundings) → around.subprogram = t.subprogram →
      S.Regular t known (Node.branchBodies bs) (S.branches around bs)
  | [], around, ha => by
    rw [branches, Node.branchBodies]
    exact regular_pure ()
  | ⟨condition, statements⟩ :: bs, around, ha => by
    rw [branches, Node.branchBodies]
    exact (regular_expression condition known).append
      ((regular_items hk statements _ ha).append (regular_branches hk bs _ ha))

theorem regular_caseBranches (hk : ∀ id, t.subprogram = some id → S.Rooted known id) :
    (bs : List (CaseBranch Node)) → (around : Surroundings) → around.subprogram = t.subprogram →
      S.Regular t known (Node.caseBranchBodies bs) (S.caseBranches around bs)
  | [], around, ha => by
    rw [caseBranches, Node.caseBranchBodies]
    exact regular_pure ()
  | ⟨cs, statements⟩ :: bs, around, ha => by
    rw [caseBranches, Node.caseBranchBodies]
    exact (regular_expressions cs known).append
      ((regular_items hk statements _ ha).append (regular_caseBranches hk bs _ ha))

end

/-! ### Types -/

theorem plain_unsupportedUnless (handled : Bool) (site : Site) (feature : Unsupported) :
  (unsupportedUnless handled site feature).IsPlain
  := by
  unfold unsupportedUnless
  split <;> simp

theorem regular_accessType {id : EntityId} {site : Site} {a : AccessDefinition}
    (ht : t.declared = some id) (ha : S.designated id = .ok a.designated) :
  S.Regular t known [] (S.accessType id site a)
  := by
  have tail (incomplete : Bool) : S.Regular t known [] (do
      let examined : Bool ←
        if incomplete then .isExamined a.designated .done else pure true
      if examined then restOn a.designated site
      else .postponeCompletion id (.done ())) := by
    cases incomplete
    · exact regular_restOn a.designated site
    · exact .designate site ht ha
  have whole : S.Regular t known [] (do
      let incomplete : Bool ← if a.toObject then S.isIncomplete a.designated else pure false
      let examined : Bool ←
        if incomplete then .isExamined a.designated .done else pure true
      if examined then restOn a.designated site
      else .postponeCompletion id (.done ())) := by
    split
    · exact regular_lift fun incomplete _ => tail incomplete
    · exact tail false
  unfold accessType
  apply regular_after (regular_violation _ rfl)
  exact whole

theorem regular_typeDefinition {id : EntityId} {site : Site} {d : TypeDefinition}
    (ht : t.declared = some id) (hd : ∀ a, d = .access a → S.designated id = .ok a.designated) :
  S.Regular t known [] (S.typeDefinition id site d)
  := by
  cases d with
  | signed | modular | floating | ordinaryFixed => exact .plain (plain_unsupportedUnless _ _ _)
  | decimalFixed => exact .plain (by simp [typeDefinition])
  | enumeration => exact regular_pure ()
  | array indices component =>
    apply (Regular.plain (plain_unsupportedUnless _ _ _)).append
    apply (regular_restOnAll indices site).append
    apply regular_ask
    intro admitted
    exact .plain (by simp)
  | record r =>
    apply (regular_restOnAll _ site).append
    apply (regular_restOnAll _ site).append
    apply (regular_restOnAll _ site).append
    split
    · exact regular_pure ()
    · exact .plain (by simp [plain_extension])
  | interface parents => exact regular_restOnAll parents site
  | access a => exact regular_accessType ht (hd a rfl)
  | partialView full discriminants _ =>
    apply (regular_restOnAll _ site).append
    cases full with
    | none => exact regular_pure ()
    | some view =>
      apply regular_lift
      intro off ho
      split
      · next h =>
        have hide : S.Regular t known [] (.hideView id (.done ())) := .plain ⟨rfl, trivial⟩
        exact hide.append (.decide view fun _ _ => h ▸ ho)
      · exact regular_restOn view site
  | incomplete full =>
    cases full with
    | none => exact .plain (by simp [typeDefinition])
    | some view => exact regular_restOn view site
  | subtype parent constraint | derived parent constraint =>
    exact (regular_restOn parent site).append (regular_expressions constraint known)
  | classWide root constrained =>
    exact (regular_restOn root site).append (.plain (plain_unsupportedUnless _ _ _))
  | task discriminants _ => exact regular_restOnAll discriminants site
  | protectedUnit discriminants components _ => exact regular_restOnAll _ site

theorem regular_typeInquiry {e : Entity} {f : TypeFacet} (ht : t.declared = some e.name)
    (hd : ∀ a, f.definition = .access a → S.designated e.name = .ok a.designated) :
  S.Regular t known [] (S.typeInquiry e f)
  := by
  apply (regular_typeDefinition ht hd).append
  exact .plain (by simp [Every, Step.isPlain])

/-! ### Objects, parameters and components -/

theorem plain_relaxIf (relaxed admitted : Bool) (type : EntityId) :
  (relaxIf relaxed admitted type).IsPlain
  := by
  unfold relaxIf
  split
  · exact ⟨rfl, trivial⟩
  · trivial

theorem regular_objectInquiry (e : Entity) (o : ObjectFacet) :
  S.Regular t known [] (S.objectInquiry e o)
  := by
  have hr (admitted : Bool) := plain_relaxIf o.relaxed admitted o.type
  apply regular_ask
  intro admitted
  cases o.initial with
  | none => exact .plain (by simp [hr])
  | some value =>
    apply (regular_expression value _).append
    cases admitted <;> exact .plain (by simp [hr])

theorem regular_parameterInquiry (e : Entity) (p : ParameterFacet) :
  S.Regular t known [] (S.parameterInquiry e p)
  := by
  have hr (admitted : Bool) := plain_relaxIf p.relaxed admitted p.type
  apply regular_ask
  intro admitted
  cases p.default with
  | none => exact .plain (hr admitted)
  | some value => exact (regular_expression value _).append (.plain (hr admitted))

theorem regular_componentInquiry (e : Entity) (c : ComponentFacet) :
  S.Regular t known [] (S.componentInquiry e c)
  := by
  have hr (admitted : Bool) := plain_relaxIf c.relaxed admitted c.type
  unfold componentInquiry
  apply regular_ask
  intro admitted
  cases c.default with
  | none =>
    cases admitted
    · exact .plain (hr false)
    · apply regular_lift
      intro anonymous _
      exact regular_after (regular_violation _ rfl) (.plain (hr true))
  | some value =>
    cases admitted
    · exact (regular_expression value _).append (.plain (hr false))
    · apply regular_lift
      intro anonymous _
      apply regular_after (regular_violation _ rfl)
      apply (regular_expression value _).append
      exact (Regular.plain (plain_default _ _)).append (.plain (hr true))

/-! ### Subprograms and packages -/

theorem regular_restOnConcurrentScope (e : Entity) :
  S.Regular t known [] (S.restOnConcurrentScope e)
  := by
  unfold restOnConcurrentScope
  split
  · exact regular_pure ()
  · next scope _ =>
    apply regular_lift
    intro concurrent _
    split
    · exact regular_restOn scope e.site
    · exact regular_pure ()

theorem regular_subprogramInquiry {e : Entity} {s : SubprogramFacet}
    (he : S.program.entity e.name = .ok e) (hk : e.kind = .subprogram s)
    (h : S.Rooted known e.name) :
  S.Regular t known [] (S.subprogramInquiry e s)
  := by
  have tail (known : EntityId → Prop) : S.Regular t known [] (do
      if s.dispatching then checkDispatching e s
      restOnAll s.overridden e.site
      S.expressions s.contracts
      S.expressions (s.contractCases.flatMap ContractCase.facets)) := by
    apply regular_after (.plain (plain_dispatching e s))
    apply (regular_restOnAll _ _).append
    exact (regular_expressions _ _).append (regular_expressions _ _)
  unfold subprogramInquiry
  apply regular_after (.plain (plain_effects e s))
  apply (regular_restOnConcurrentScope e).append
  apply (regular_restOnAll _ _).append
  cases s.result with
  | none =>
    apply (regular_pure false).bind
    intro admitted _ _
    apply regular_after (regular_profile he hk (h.mono fun _ => Or.inl))
    exact tail _
  | some result =>
    apply regular_ask
    intro admitted
    apply regular_after (regular_profile he hk (h.mono fun _ => Or.inl))
    apply regular_after (.plain (plain_accessResult e s result))
    exact tail _

/-- The declaration of a package goes through what the package declares. -/
theorem regular_packageInquiry {e : Entity} {initialCondition : Option Node}
    (ht : t.subprogram = none) (hk : e.kind = .package initialCondition) :
  S.Regular t known (S.ownBodies e) (S.packageInquiry e initialCondition)
  := by
  unfold packageInquiry ownBodies
  rw [hk]
  cases S.program.packageDeclaration? e.name with
  | none => exact regular_optional initialCondition
  | some n =>
    have hn : S.Regular t known _ (S.items {} n.packageItems) :=
      regular_items (by simp [ht]) n.packageItems {} ht.symm
    exact (hn.append (regular_optional initialCondition)).cast (List.append_nil _)

/-- The inquiry into the declaration of an entity. -/
theorem regular_entityInquiry {e : Entity} (he : S.program.entity e.name = .ok e) :
  S.Regular { declared := e.name } (· = e.name) (S.ownBodies e) (S.entityInquiry e)
  := by
  have own (hk : ∀ c, e.kind ≠ .package c) : [] = S.ownBodies e := by
    unfold ownBodies
    split
    · next c hc => exact absurd hc (hk c)
    · rfl
  unfold entityInquiry
  cases hk : e.kind with
  | object o => exact (regular_objectInquiry e o).cast (own (by simp [hk]))
  | parameter p => exact (regular_parameterInquiry e p).cast (own (by simp [hk]))
  | component c => exact (regular_componentInquiry e c).cast (own (by simp [hk]))
  | discriminant c => exact (regular_componentInquiry e c).cast (own (by simp [hk]))
  | type f =>
    apply (regular_typeInquiry rfl _).cast (own (by simp [hk]))
    intro a ha
    exact designated_eq_ok.2 ⟨e, f, a, he, hk, ha, rfl⟩
  | subprogram s =>
    have h : S.Rooted (· = e.name) e.name := .root rfl
    exact (regular_subprogramInquiry he hk h).cast (own (by simp [hk]))
  | package initialCondition => exact regular_packageInquiry rfl hk
  | abstractState => exact (regular_pure ()).cast (own (by simp [hk]))
  | number value => exact (regular_optional value).cast (own (by simp [hk]))
  | exception => exact (regular_pure ()).cast (own (by simp [hk]))

/-- The inquiry into what the body of an entity holds, whether or not it is within a
declaration. -/
theorem regular_insideItems (e : Entity) (ns : List Node) (declared : Option EntityId) :
  S.Regular { declared, subprogram := e.inside.subprogram } (· = e.name) (Node.bodiesOf ns)
    (S.items e.inside ns)
  := by
  apply regular_items _ ns e.inside rfl
  intro id hid
  change e.inside.subprogram = some id at hid
  unfold Entity.inside at hid
  split at hid
  · exact .root (Option.some.inj hid).symm
  · cases hid

/-- The inquiry into what the body of an entity holds. -/
theorem regular_bodyItems (e : Entity) (ns : List Node) :
  S.Regular { subprogram := e.inside.subprogram } (· = e.name) (Node.bodiesOf ns)
    (S.items e.inside ns)
  := regular_insideItems e ns none

end Setting

end Conformance
