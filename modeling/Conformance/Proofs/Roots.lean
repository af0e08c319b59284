import Conformance.Proofs.Lookup

/-!
# What declarations are founded on

`Setting.Founds` lists what the declaration of an entity rests on in any case, and
`Setting.Rooted` goes on to what these are founded on in turn.  If a set of entities is
admitted along with its foundations, then all that is rooted in it is admitted.
-/

namespace Conformance

/-- What a type definition is made of, apart from full views of private types and from what
access types designate. -/
def TypeDefinition.parts : TypeDefinition → List EntityId
  | .array indices component => indices ++ [component]
  | .record r => r.parent.toList ++ r.interfaces ++ (r.discriminants ++ r.components)
  | .interface parents => parents
  | .partialView _ discriminants _ => discriminants
  | .incomplete full => full.toList
  | .subtype parent _ | .derived parent _ => [parent]
  | .classWide root _ => [root]
  | .task discriminants _ => discriminants
  | .protectedUnit discriminants components _ => discriminants ++ components
  | _ => []

namespace Setting

variable (S : Setting)

/-- What the declaration of an entity rests on in any case. -/
inductive Founds (e : Entity) : EntityId → Prop
  | declaredType {id : EntityId} (h : e.declaredType? = some id) : Founds e id
  | parameter {s : SubprogramFacet} {id : EntityId} (hk : e.kind = .subprogram s)
      (h : id ∈ s.parameters) : Founds e id
  | result {s : SubprogramFacet} {id : EntityId} (hk : e.kind = .subprogram s)
      (h : s.result = some id) : Founds e id
  | overridden {s : SubprogramFacet} {id : EntityId} (hk : e.kind = .subprogram s)
      (h : id ∈ s.overridden) : Founds e id
  | concurrentScope {s : SubprogramFacet} {id : EntityId} (hk : e.kind = .subprogram s)
      (h : e.scope = some id) (hc : S.isConcurrentType id = .ok true) : Founds e id
  | part {t : TypeFacet} {id : EntityId} (hk : e.kind = .type t)
      (h : id ∈ t.definition.parts) : Founds e id
  | fullView {t : TypeFacet} {view : EntityId} {discriminants : List EntityId} {tagged : Bool}
      (hk : e.kind = .type t)
      (h : t.definition = .partialView (some view) discriminants tagged)
      (ho : S.isOff view ≠ .ok true) : Founds e view
  | predicateFunction {id : EntityId} (h : e.predicateFunction? = some id) : Founds e id

/-- What entities are founded on, directly or through others, along with the entities. -/
inductive Rooted (roots : EntityId → Prop) : EntityId → Prop
  | root {id : EntityId} (h : roots id) : Rooted roots id
  | founded {e : Entity} {id : EntityId} (he : S.program.entity e.name = .ok e)
      (h : Rooted roots e.name) (hf : S.Founds e id) : Rooted roots id

variable {S}
variable {roots roots' : EntityId → Prop} {id : EntityId}

theorem Rooted.trans (h : S.Rooted roots id) (hr : ∀ x, roots x → S.Rooted roots' x) :
  S.Rooted roots' id
  := by
  induction h with
  | root h => exact hr _ h
  | founded he _ hf ih => exact .founded he ih hf

theorem Rooted.mono (h : S.Rooted roots id) (hr : ∀ x, roots x → roots' x) :
  S.Rooted roots' id
  := h.trans fun x hx => .root (hr x hx)

/-- The type of a parameter is rooted in the parameter. -/
theorem Rooted.parameterType {e : Entity} {p : ParameterFacet} (h : S.Rooted roots e.name)
    (he : S.program.entity e.name = .ok e) (hk : e.kind = .parameter p) :
  S.Rooted roots p.type
  := by
  apply Rooted.founded he h
  apply Founds.declaredType
  rw [Entity.declaredType?, hk]
  rfl

/-- The type of a formal parameter is rooted in the subprogram. -/
theorem Rooted.formal {callee : EntityId} {s : SubprogramFacet} {p : ParameterFacet}
    (h : S.Rooted roots callee) (hs : S.program.subprogramFacet callee = .ok s)
    (hid : id ∈ s.parameters) (hp : S.formal callee id = .ok p) :
  S.Rooted roots p.type
  := by
  obtain ⟨e, he, hk⟩ := Program.subprogramFacet_eq_ok.1 hs
  obtain ⟨e', he', hk'⟩ := formal_eq_ok.1 hp
  obtain rfl := S.program.name_eq_of_entity he
  obtain rfl := S.program.name_eq_of_entity he'
  exact Rooted.parameterType (.founded he h (.parameter hk hid)) he' hk'

/-- The result type of a function is rooted in the function. -/
theorem Rooted.result {callee : EntityId} {s : SubprogramFacet}
    (h : S.Rooted roots callee) (hs : S.program.subprogramFacet callee = .ok s)
    (hr : s.result = some id) :
  S.Rooted roots id
  := by
  obtain ⟨e, he, hk⟩ := Program.subprogramFacet_eq_ok.1 hs
  obtain rfl := S.program.name_eq_of_entity he
  exact .founded he h (.result hk hr)

end Setting

end Conformance
