import Conformance.Proofs.Regular

/-!
# Checks

The rules of single shapes only find, apart from looking whether a type is in the subset as
far as decided.
-/

namespace Conformance

namespace Inquiry

theorem plain_attribute (site : Site) (name : String) (ofType : Bool) :
  (checkAttribute site name ofType).IsPlain
  := by
  unfold checkAttribute
  split <;> simp

end Inquiry

namespace Setting

open Inquiry

variable (S : Setting)

/-! ### Moves and loans -/

@[simp]
theorem plain_move (toConstant : Bool) (n : Node) :
  (S.checkMove toConstant n).IsPlain
  := by simp [checkMove]

@[simp]
theorem plain_loan (observe : Bool) (n : Node) :
  (S.checkLoan observe n).IsPlain
  := by cases observe <;> simp [checkLoan]

@[simp]
theorem plain_compatible (expected : EntityId) (n : Node) :
  (S.checkCompatible expected n).IsPlain
  := by simp [checkCompatible]

@[simp]
theorem plain_lent (type : EntityId) (a : AccessDefinition) (n : Node) :
  (S.checkLent type a n).IsPlain
  := by simp [checkLent]

@[simp]
theorem plain_stored (type : EntityId) (toConstant : Bool) (n : Node) :
  (S.checkStored type toConstant n).IsPlain
  := by
  simp only [checkStored, every_bind, every_lift, every_ite, every_pure]
  refine fun owning _ => ⟨fun _ => ⟨fun _ o _ => ?_, fun _ => trivial⟩,
    fun _ anonymous _ => ⟨fun _ o _ => ?_, fun _ => trivial⟩⟩
  · cases o <;> simp
  · cases o <;> simp

/-! ### Expressions -/

@[simp]
theorem plain_owningActual (direction : Direction) (actual : Node) :
  (S.checkOwningActual direction actual).IsPlain
  := by
  unfold checkOwningActual
  split <;> simp

theorem plain_conversion (site : Site) (target : EntityId) (operand : Node) :
  (S.checkConversion site target operand).IsPlain
  := by
  unfold checkConversion
  split <;> simp

@[simp]
theorem plain_scaling (n : Node) (operator : BinaryOperator) (left right : Node) :
  (S.checkScaling n operator left right).IsPlain
  := by
  unfold checkScaling
  split
  · simp only [every_bind, every_lift]
    intro l _ r _
    split <;> simp
  · simp

@[simp]
theorem plain_equality (site : Site) (left right : Node) :
  (S.checkEquality site left right).IsPlain
  := by
  unfold checkEquality
  split
  · simp
  · split <;> simp

theorem plain_binary (n : Node) (operator : BinaryOperator) (left right : Node) :
  (S.checkBinary n operator left right).IsPlain
  := by
  unfold checkBinary
  split <;> simp

theorem plain_allocated (target : EntityId) (initial : Node) :
  (S.checkAllocated target initial).IsPlain
  := by simp [checkAllocated]

variable {S}
variable {t : Topic} {known : EntityId → Prop}

theorem regular_association {a : Association Node}
    (h : ∀ type, a.value.type = some type → S.Rooted known type) :
  S.Regular t known [] (S.checkAssociation a)
  := by
  unfold checkAssociation
  split
  · exact regular_pure ()
  · next type ht =>
    apply Regular.given (h type ht)
    simp

theorem regular_actual {callee id : EntityId} {actual : Node} {s : SubprogramFacet}
    (h : S.Rooted known callee) (hs : S.program.subprogramFacet callee = .ok s)
    (hid : id ∈ s.parameters) :
  S.Regular t known [] (S.checkActual callee id actual)
  := by
  apply regular_lift
  intro p hp
  apply Regular.given (h.formal hs hid hp)
  simp only [every_bind, every_lift]
  intro a _
  cases a <;> simp

theorem regular_actuals {callee : EntityId} {actuals : List Node} {s : SubprogramFacet}
    (h : S.Rooted known callee) (hs : S.program.subprogramFacet callee = .ok s) :
  S.Regular t known [] (S.checkActuals callee s.parameters actuals)
  := by
  apply regular_forM
  rintro ⟨id, actual⟩ hm
  exact regular_actual h hs (List.of_mem_zip hm).1

/-! ### Statements -/

theorem regular_assigned {target value : Node}
    (h : ∀ type, target.type = some type → S.Rooted known type) :
  S.Regular t known [] (S.checkAssigned target value)
  := by
  unfold checkAssigned
  split
  · exact regular_pure ()
  · next type ht => exact .given (h type ht) (S.plain_stored type false value)

theorem plain_result (facet : SubprogramFacet) (result : EntityId) (value : Node) :
  (S.checkResult facet result value).IsPlain
  := by simp [checkResult]

theorem regular_returned {around : Surroundings} {value : Node}
    (h : ∀ id, around.subprogram = some id → S.Rooted known id) :
  S.Regular t known [] (S.checkReturned around value)
  := by
  unfold checkReturned
  split
  · exact regular_pure ()
  · next id hid =>
    apply regular_lift
    intro facet hf
    split
    · exact regular_pure ()
    · next result hr => exact .given ((h id hid).result hf hr) (plain_result facet result value)

/-! ### Declarations -/

theorem plain_default (type : EntityId) (value : Node) :
  (S.checkDefault type value).IsPlain
  := by simp [checkDefault]

theorem plain_dispatching (e : Entity) (s : SubprogramFacet) :
  (checkDispatching e s).IsPlain
  := by
  unfold checkDispatching
  split <;> split <;> simp

@[simp]
theorem plain_reads (site : Site) (ids : List EntityId) :
  (S.checkReads site ids).IsPlain
  := by
  induction ids with
  | nil => trivial
  | cons id ids ih => simp [checkReads, ih]

theorem plain_effects (e : Entity) (s : SubprogramFacet) :
  (S.checkEffects e s).IsPlain
  := by simp [checkEffects]

theorem regular_notVolatile {site : Site} {type blamed : EntityId}
    (h : S.Rooted known type) :
  S.Regular t known [] (S.checkNotVolatile site type blamed)
  := by
  apply Regular.given h
  simp

theorem regular_parameters {ids : List EntityId} (h : ∀ id ∈ ids, S.Rooted known id) :
  S.Regular t known [] (S.checkParameters ids)
  := by
  induction ids with
  | nil => exact regular_pure ()
  | cons id ids ih =>
    have hids := ih fun x hx => h x (List.mem_cons_of_mem id hx)
    apply regular_lift
    intro e he
    obtain rfl := S.program.name_eq_of_entity he
    split
    · next p hk =>
      have ht := (h e.name List.mem_cons_self).parameterType he hk
      have hr (site : Site) : S.Regular t known [] (do
          S.checkNotVolatile site p.type e.name
          S.checkParameters ids) := (regular_notVolatile ht).append hids
      split
      · exact hr e.site
      · exact (regular_violation _ rfl).append (hr e.site)
    · exact hids

theorem regular_profile {e : Entity} {s : SubprogramFacet}
    (he : S.program.entity e.name = .ok e) (hk : e.kind = .subprogram s)
    (h : S.Rooted known e.name) :
  S.Regular t known [] (S.checkProfile e s)
  := by
  apply (regular_parameters fun id hid => .founded he h (.parameter hk hid)).append
  split
  · exact regular_pure ()
  · next result hr => exact regular_notVolatile (.founded he h (.result hk hr))

theorem plain_accessResult (e : Entity) (s : SubprogramFacet) (result : EntityId) :
  (S.checkAccessResult e s result).IsPlain
  := by
  simp only [checkAccessResult, every_bind, every_lift]
  intro o _
  cases o <;> simp

theorem plain_extension (site : Site) (ids : List EntityId) :
  (S.checkExtension site ids).IsPlain
  := by
  induction ids with
  | nil => trivial
  | cons id ids ih =>
    simp only [checkExtension, every_bind, every_lift]
    intro o _
    cases o <;> simp [ih]

end Setting

end Conformance
