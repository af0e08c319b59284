import Conformance.Proofs.Consistency
import Conformance.Proofs.Expression
import Conformance.Proofs.Fit

/-!
# Stored values that fit

The ownership rules of values that are stored: in objects, by assignments, by initialised
allocators, by the associations of aggregates, and as defaults of components.  A favourable
path of the check of a stored value goes through the rule.  Assignments and associations are
checked where a static type is found in the subset, which it is on a consistent path, since
the expression that has the type rested on it.
-/

namespace Conformance

namespace Node

/-- The target and the value, if an inquiry comes to a node as an assignment. -/
def assignment? (n : Node) : Role → Option (Node × Node)
  | .item =>
    match n.shape with
    | .assignment target value => some (target, value)
    | _ => none
  | _ => none

/-- The allocated type and the initial value, if an inquiry comes to a node as an initialised
allocator. -/
def allocation? (n : Node) : Role → Option (EntityId × Node)
  | .expression =>
    match n.shape with
    | .allocator target initial => initial.map fun value => (target, value)
    | _ => none
  | _ => none

/-- The associations of a node that an inquiry comes to as an aggregate. -/
def associations (n : Node) : Role → List (Association Node)
  | .expression =>
    match n.shape with
    | .aggregate as => as
    | _ => []
  | _ => []

/-- Whether values are stored by a node where an inquiry comes to it. -/
def isStore (n : Node) (role : Role) : Bool :=
  (n.assignment? role).isSome || (n.allocation? role).isSome || !(n.associations role).isEmpty

end Node

namespace Setting

open Inquiry

variable (S : Setting)

/-- A value satisfies the ownership rule of the type of the object that it is stored in. -/
inductive StoredFits (type : EntityId) (toConstant : Bool) (value : Node) : Prop
  /-- A type whose values own no memory, other than an anonymous access type. -/
  | unowned (ho : S.isOwning type = .ok false) (ha : S.isAnonymousAccess type = .ok false)
  /-- A loan to an anonymous access type. -/
  | lent {a : AccessDefinition} (ha : S.isAnonymousAccess type = .ok true)
      (ht : S.access? type = .ok (some a)) (hl : S.Lendable (a.kind == .toConstant) value)
      (hc : S.isCompatible type value = .ok true)
  | moved (ho : S.isOwning type = .ok true) (ha : S.isAnonymousAccess type = .ok false)
      (hm : S.MovableInto toConstant value)

/-- The initial value of an allocator may be moved if the allocated type is owning. -/
def AllocatedFits (target : EntityId) (initial : Node) : Prop :=
  ∃ owning, S.isOwning target = .ok owning ∧ (owning = true → S.Movable initial)

/-- The value of an association may be moved if its static type is owning, and then it
denotes no object if it goes to several components. -/
def AssociationFits (a : Association Node) : Prop :=
  ∀ type, a.value.type = some type → ∃ owning, S.isOwning type = .ok owning
    ∧ (owning = true → S.Movable a.value
      ∧ (a.isShared Node.isRange = true → S.denotesObject a.value = .ok false))

/-- The default of a component denotes no object if the type of the component is owning. -/
def DefaultFits (type : EntityId) (value : Node) : Prop :=
  ∃ owning, S.isOwning type = .ok owning ∧ (owning = true → S.denotesObject value = .ok false)

/-- The values that are stored by a node, where an inquiry comes to it, satisfy the ownership
rules. -/
structure StoresFit (role : Role) (n : Node) : Prop where
  assigned : ∀ target value type, n.assignment? role = some (target, value) →
    target.type = some type → S.StoredFits type false value
  allocated : ∀ target initial, n.allocation? role = some (target, initial) →
    S.AllocatedFits target initial
  associated : ∀ a ∈ n.associations role, S.AssociationFits a

variable {S}
variable {path : List Step}

theorem storesFit_of_isStore {role : Role} {n : Node} (h : n.isStore role = false) :
  S.StoresFit role n
  := by
  simp only [Node.isStore, Bool.or_eq_false_iff, Option.isSome_eq_false_iff,
    Option.isNone_iff_eq_none, Bool.not_eq_false', List.isEmpty_iff] at h
  obtain ⟨⟨hassignment, hallocation⟩, hassociations⟩ := h
  constructor
  · simp [hassignment]
  · simp [hallocation]
  · simp [hassociations]

section

variable {id : NodeId} {location : Location} {type : Option EntityId}

theorem storesFit_assignment {target value : Node}
    (h : ∀ type, target.type = some type → S.StoredFits type false value) :
  S.StoresFit .item ⟨id, location, type, .assignment target value⟩
  where
    assigned := by
      rintro _ _ type ⟨⟩ ht
      exact h type ht
    allocated := nofun
    associated := nofun

theorem storesFit_allocator {target : EntityId} {initial : Node}
    (h : S.AllocatedFits target initial) :
  S.StoresFit .expression ⟨id, location, type, .allocator target (some initial)⟩
  where
    assigned := nofun
    allocated := by
      rintro _ _ ⟨⟩
      exact h
    associated := nofun

theorem storesFit_aggregate {as : List (Association Node)} (h : ∀ a ∈ as, S.AssociationFits a) :
  S.StoresFit .expression ⟨id, location, type, .aggregate as⟩
  where
    assigned := nofun
    allocated := nofun
    associated := h

end

/-! ### Objects and assignments -/

/-- A type stands for an anonymous access type to objects if values are lent to it. -/
theorem anonymous_of_loanType {type : EntityId} {a : Option AccessDefinition}
    (h : S.loanType? type = .ok a) :
  S.isAnonymousAccess type = .ok a.isSome ∧ ∀ d ∈ a, S.access? type = .ok (some d)
  := by
  unfold loanType? at h
  unfold isAnonymousAccess
  cases hx : S.access? type with
  | error fault =>
    rw [hx] at h
    cases h
  | ok x =>
    rw [hx] at h
    obtain rfl : x.filter _ = a := Except.ok.inj h
    cases x with
    | none => exact ⟨rfl, by simp⟩
    | some d =>
      constructor
      · change Except.ok (d.toObject && d.anonymous) = _
        rw [Bool.and_comm, Option.isSome_filter]
        rfl
      · intro d' hd
        rw [(Option.mem_filter_iff.1 hd).1]

/-- A stored value that is lent or moved, where a type is owning unless it is an anonymous
access type. -/
theorem fits_of_lentOrMoved {type : EntityId} {toConstant : Bool} {value : Node}
    (ho : S.isAnonymousAccess type = .ok false → S.isOwning type = .ok true)
    (h : (do
      match ← S.loanType? type with
      | some a => S.checkLent type a value
      | none => let _ ← S.checkMove toConstant value : Inquiry Unit).Favours path ()) :
  S.StoredFits type toConstant value
  := by
  obtain ⟨p, a, q, rfl, hp, h₁⟩ := favours_bind_iff.1 h
  obtain ⟨-, hl⟩ := favours_lift.1 hp
  obtain ⟨ha, hd⟩ := anonymous_of_loanType hl
  cases a with
  | some a =>
    obtain ⟨hlend, hc⟩ := favours_lent h₁
    exact .lent ha (hd a rfl) hlend hc
  | none =>
    obtain ⟨q, b, q', rfl, hq, -⟩ := favours_bind_iff.1 h₁
    exact .moved (ho ha) ha (favours_moveInto.1 hq).2.2

theorem fits_of_stored {type : EntityId} {toConstant : Bool} {value : Node}
    (h : (S.checkStored type toConstant value).Favours path ()) :
  S.StoredFits type toConstant value
  := by
  obtain ⟨p, owning, q, rfl, hp, h₁⟩ := favours_bind_iff.1 h
  obtain ⟨-, ho⟩ := favours_lift.1 hp
  cases owning with
  | true =>
    obtain ⟨q, applies, q', rfl, hq, h₂⟩ := favours_bind_iff.1 h₁
    obtain rfl := (favours_pure.1 hq).2
    exact fits_of_lentOrMoved (fun _ => ho) h₂
  | false =>
    obtain ⟨q, anonymous, q', rfl, hq, h₂⟩ := favours_bind_iff.1 h₁
    obtain ⟨-, ha⟩ := favours_lift.1 hq
    cases anonymous with
    | true => exact fits_of_lentOrMoved (fun hf => by cases ha.symm.trans hf) h₂
    | false => exact .unowned ho ha

/-- A type that was consulted with success is found in the subset on the rest of a consistent
path. -/
theorem stands_of_consistent {p q : List Step} {type : EntityId} {b : Bool}
    (hc : Consistent (p ++ .ask type b :: q)) (h : Consulted p type) :
  b = true
  := hc p type b q rfl h

/-- On a favourable path, an assigned value fits the static type of the target. -/
theorem fits_of_assignment {target value : Node} {type : EntityId}
    (h : (do
      S.expression target
      S.expression value
      S.checkAssigned target value : Inquiry Unit).Favours path ())
    (hc : Consistent path) (ht : target.type = some type) :
  S.StoredFits type false value
  := by
  obtain ⟨p, ⟨⟩, q, rfl, hp, h₁⟩ := favours_bind_iff.1 h
  obtain ⟨p', ⟨⟩, q', rfl, -, h₂⟩ := favours_bind_iff.1 h₁
  unfold checkAssigned at h₂
  rw [ht] at h₂
  obtain ⟨q₁, b, q₂, rfl, hq, h₃⟩ := favours_bind_iff.1 h₂
  obtain rfl := favours_stands.1 hq
  have hcons := (consulted_expression ht hp).mono (List.subset_append_left p p')
  rw [← List.append_assoc] at hc
  obtain rfl := stands_of_consistent hc hcons
  exact fits_of_stored h₃

/-! ### Allocators, aggregates and components -/

theorem fits_of_allocated {target : EntityId} {initial : Node}
    (h : (S.checkAllocated target initial).Favours path ()) :
  S.AllocatedFits target initial
  := by
  obtain ⟨p, owning, q, rfl, hp, hq⟩ := favours_bind_iff.1 h
  obtain ⟨-, ho⟩ := favours_lift.1 hp
  use owning, ho
  rintro rfl
  obtain ⟨q, b, q', rfl, hq, -⟩ := favours_bind_iff.1 hq
  exact (favours_move.1 hq).2.2

/-- The inquiry into an allocator whose initial value fits. -/
theorem fits_of_allocator {target : EntityId} {initial : Node} {site : Site}
    (h : (do
      let admitted ← ask target site
      S.expression initial
      if admitted then S.checkAllocated target initial : Inquiry Unit).Favours path ()) :
  S.AllocatedFits target initial
  := by
  obtain ⟨p, admitted, q, rfl, hp, h₁⟩ := favours_bind_iff.1 h
  obtain ⟨rfl, -⟩ := favours_ask.1 hp
  obtain ⟨q, ⟨⟩, q', rfl, -, h₂⟩ := favours_bind_iff.1 h₁
  exact fits_of_allocated h₂

/-- On a favourable path, the check of an association asks for the static type of the value,
and the value fits if the answer is yes. -/
theorem fits_of_association {a : Association Node} {type : EntityId}
    (ht : a.value.type = some type) (h : (S.checkAssociation a).Favours path ()) :
  ∃ b q, path = .ask type b :: q ∧ (b = true → S.AssociationFits a)
  := by
  unfold checkAssociation at h
  rw [ht] at h
  obtain ⟨p, b, q, rfl, hp, h₁⟩ := favours_bind_iff.1 h
  obtain rfl := favours_stands.1 hp
  refine ⟨b, q, rfl, ?_⟩
  rintro rfl type' ht'
  obtain rfl := Option.some.inj (ht.symm.trans ht')
  obtain ⟨p, owning, q, rfl, hp, h₂⟩ := favours_bind_iff.1 h₁
  obtain ⟨-, ho⟩ := favours_lift.1 hp
  use owning, ho
  rintro rfl
  cases hs : a.isShared Node.isRange with
  | false =>
    rw [hs] at h₂
    obtain ⟨p, duplicated, q, rfl, hp, h₃⟩ := favours_bind_iff.1 h₂
    obtain rfl := (favours_pure.1 hp).2
    obtain ⟨q, b, q', rfl, hq, -⟩ := favours_bind_iff.1 h₃
    exact ⟨(favours_move.1 hq).2.2, nofun⟩
  | true =>
    rw [hs] at h₂
    obtain ⟨p, duplicated, q, rfl, hp, h₃⟩ := favours_bind_iff.1 h₂
    obtain ⟨-, hd⟩ := favours_lift.1 hp
    cases duplicated with
    | true => exact (favours_violation.1 h₃).elim
    | false =>
      obtain ⟨q, b, q', rfl, hq, -⟩ := favours_bind_iff.1 h₃
      exact ⟨(favours_move.1 hq).2.2, fun _ => hd⟩

/-- On a favourable path, the values of the associations of an aggregate fit. -/
theorem fits_of_associations {as : List (Association Node)}
    (h : (S.associations as).Favours path ()) (hc : Consistent path) :
  ∀ a ∈ as, S.AssociationFits a
  := by
  induction as generalizing path with
  | nil => simp
  | cons a as ih =>
    obtain ⟨cs, others, value⟩ := a
    rw [associations] at h
    obtain ⟨p, ⟨⟩, q, rfl, -, h₁⟩ := favours_bind_iff.1 h
    obtain ⟨p₁, ⟨⟩, q, rfl, hp₁, h₂⟩ := favours_bind_iff.1 h₁
    obtain ⟨p₂, ⟨⟩, q, rfl, hp₂, h₃⟩ := favours_bind_iff.1 h₂
    rw [List.forall_mem_cons]
    refine ⟨fun type ht => ?_, ih h₃ hc.right.right.right⟩
    obtain ⟨b, rest, rfl, hfits⟩ := fits_of_association ht hp₂
    obtain rfl : b = true :=
      stands_of_consistent (q := rest ++ q) hc.right (consulted_expression ht hp₁)
    exact hfits rfl type ht

theorem fits_of_default {type : EntityId} {value : Node}
    (h : (S.checkDefault type value).Favours path ()) :
  S.DefaultFits type value
  := by
  obtain ⟨p, owning, q, rfl, hp, hq⟩ := favours_bind_iff.1 h
  obtain ⟨-, ho⟩ := favours_lift.1 hp
  use owning, ho
  rintro rfl
  obtain ⟨q, denotes, q', rfl, hq, h₁⟩ := favours_bind_iff.1 hq
  obtain ⟨-, hd⟩ := favours_lift.1 hq
  cases denotes with
  | true => exact (favours_violation.1 h₁).elim
  | false => exact hd

end Setting

end Conformance
