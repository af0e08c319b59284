import Conformance.Proofs.Path
import Conformance.Proofs.Lookup

/-!
# Actual parameters and returned values that fit

`ActualFits` and `ReturnFits` are the ownership rules of calls and returns: what is lent to
an anonymous access type is a valid source of loans, and what goes to another owning type
may be observed, assigned to or moved.  A favourable path of a check either goes through the
rule or found the type outside of the subset.
-/

namespace Conformance

theorem Node.allHold_eq_ok {holds : Node → Answer Bool} {ns : List Node} :
  allHold holds ns = .ok true ↔ ∀ n ∈ ns, holds n = .ok true
  := by
  induction ns with
  | nil => simp [allHold]
  | cons n ns ih =>
    rw [allHold, Answer.bind_eq_ok, List.forall_mem_cons, ← ih]
    constructor
    · rintro ⟨b, hb, h⟩
      cases b with
      | true => exact ⟨hb, h⟩
      | false => simp at h
    · rintro ⟨hb, h⟩
      exact ⟨true, hb, h⟩

namespace Inquiry

/-- On a favourable path, what has to hold does. -/
theorem favours_require {x : Answer Bool} {site : Site} {v : Violation} {b : Bool}
    {path : List Step} :
  (do
      if ← x then return true
      else
        violation site v
        return false : Inquiry Bool).Favours path b
    ↔ path = [] ∧ b = true ∧ x = .ok true
  := by
  rw [favours_bind_iff]
  constructor
  · rintro ⟨p, c, q, rfl, hp, hq⟩
    obtain ⟨rfl, hx⟩ := favours_lift.1 hp
    cases c with
    | true =>
      obtain ⟨rfl, rfl⟩ := favours_pure.1 hq
      exact ⟨rfl, rfl, hx⟩
    | false =>
      obtain ⟨p, ⟨⟩, q, rfl, hp, -⟩ := favours_bind_iff.1 hq
      exact (favours_violation.1 hp).elim
  · rintro ⟨rfl, rfl, hx⟩
    exact ⟨[], true, [], rfl, favours_lift.2 ⟨rfl, hx⟩, favours_pure.2 ⟨rfl, rfl⟩⟩

/-- A favourable path of several inquiries contains one of each. -/
theorem favours_forM {γ : Type} {f : γ → Inquiry Unit} {as : List γ} {path : List Step}
    (hp : (as.forM f).Favours path ()) {a : γ} (ha : a ∈ as) :
  ∃ q, (f a).Favours q () ∧ q <:+: path
  := by
  induction as generalizing path with
  | nil => cases ha
  | cons a' as ih =>
    obtain ⟨p, ⟨⟩, q, rfl, hp, hq⟩ := favours_bind_iff.1 hp
    obtain rfl | ha := List.mem_cons.1 ha
    · exact ⟨p, hp, (List.prefix_append p q).isInfix⟩
    · obtain ⟨q', hq', hs⟩ := ih hq ha
      exact ⟨q', hq', hs.trans (List.suffix_append p q).isInfix⟩

end Inquiry

namespace Setting

open Inquiry

variable (S : Setting)

/-- Each outcome of an expression may be borrowed, or observed. -/
def Lendable (observe : Bool) (n : Node) : Prop :=
  ∀ outcome ∈ n.outcomes, S.isLendable observe outcome = .ok true

/-- Each outcome of an expression may be moved into a variable. -/
def Movable (n : Node) : Prop :=
  ∀ outcome ∈ n.outcomes, S.isMovable false outcome = .ok true

/-- Each outcome of an expression may be moved, into a constant or into a variable. -/
def MovableInto (toConstant : Bool) (n : Node) : Prop :=
  ∀ outcome ∈ n.outcomes, S.isMovable toConstant outcome = .ok true

/-- An actual parameter satisfies the ownership rule of the formal parameter. -/
inductive ActualFits (f : ParameterFacet) (actual : Node) : Prop
  /-- A loan to an anonymous access type. -/
  | lent {a : AccessDefinition} (ht : S.loanType? f.type = .ok (some a))
      (hl : S.Lendable (a.kind == .toConstant) actual)
      (hc : S.isCompatible f.type actual = .ok true)
  /-- A type whose values own no memory. -/
  | unowned (ht : S.loanType? f.type = .ok none) (ho : S.isOwning f.type = .ok false)
  | observed (ht : S.loanType? f.type = .ok none) (ho : S.isOwning f.type = .ok true)
      (hd : f.direction = .input) (hn : S.denotesObject actual = .ok true)
      (hl : S.Lendable true actual)
  /-- An actual of mode `in` that denotes no existing object. -/
  | fresh (ht : S.loanType? f.type = .ok none) (ho : S.isOwning f.type = .ok true)
      (hd : f.direction = .input) (hn : S.denotesObject actual = .ok false)
  | path (ht : S.loanType? f.type = .ok none) (ho : S.isOwning f.type = .ok true)
      (hd : f.direction ≠ .input) (hp : S.isPath actual = .ok true)

/-- A returned value satisfies the ownership rule of the function. -/
inductive ReturnFits (facet : SubprogramFacet) (result : EntityId) (value : Node) : Prop
  | null (ht : S.isTraversal facet = .ok true) (hv : value.isNull = true)
  /-- What a traversal function returns starts at its first parameter. -/
  | lent {a : Option AccessDefinition} (ht : S.isTraversal facet = .ok true)
      (hr : ∀ outcome ∈ value.outcomes, S.startsAt facet.parameters.head? outcome = .ok true)
      (ha : S.access? result = .ok a)
      (hl : S.Lendable (a.any (·.kind == .toConstant)) value)
  | unowned (ht : S.isTraversal facet = .ok false) (ho : S.isOwning result = .ok false)
  | moved (ht : S.isTraversal facet = .ok false) (ho : S.isOwning result = .ok true)
      (hm : S.Movable value)

variable {S}
variable {path : List Step}

/-! ### Moves and loans -/

theorem favours_moveInto {toConstant b : Bool} {n : Node} :
  (S.checkMove toConstant n).Favours path b ↔ path = [] ∧ b = true ∧ S.MovableInto toConstant n
  := by
  rw [checkMove, favours_require, isMoveSource, Node.allHold_eq_ok]
  rfl

theorem favours_move {b : Bool} {n : Node} :
  (S.checkMove false n).Favours path b ↔ path = [] ∧ b = true ∧ S.Movable n
  := favours_moveInto

theorem favours_loan {observe b : Bool} {n : Node} :
  (S.checkLoan observe n).Favours path b ↔ path = [] ∧ b = true ∧ S.Lendable observe n
  := by
  rw [checkLoan, favours_require, isLoanSource, Node.allHold_eq_ok]
  rfl

theorem favours_compatible {expected : EntityId} {b : Bool} {n : Node} :
  (S.checkCompatible expected n).Favours path b
    ↔ path = [] ∧ b = true ∧ S.isCompatible expected n = .ok true
  := favours_require

theorem favours_lent {type : EntityId} {a : AccessDefinition} {n : Node}
    (h : (S.checkLent type a n).Favours path ()) :
  S.Lendable (a.kind == .toConstant) n ∧ S.isCompatible type n = .ok true
  := by
  obtain ⟨p, b, q, rfl, hp, h₁⟩ := favours_bind_iff.1 h
  obtain ⟨q, c, q', rfl, hq, -⟩ := favours_bind_iff.1 h₁
  exact ⟨(favours_loan.1 hp).2.2, (favours_compatible.1 hq).2.2⟩

/-! ### Actual parameters -/

theorem fits_of_owningActual {f : ParameterFacet} {actual : Node}
    (ht : S.loanType? f.type = .ok none) (ho : S.isOwning f.type = .ok true)
    (h : (S.checkOwningActual f.direction actual).Favours path ()) :
  S.ActualFits f actual
  := by
  have assigned (hd : f.direction ≠ .input) {path : List Step}
      (h : (do if ← S.isPath actual then return else violation actual.site .actualNotPath :
        Inquiry Unit).Favours path ()) : S.ActualFits f actual := by
    obtain ⟨p, b, q, rfl, hp, hq⟩ := favours_bind_iff.1 h
    obtain ⟨-, hb⟩ := favours_lift.1 hp
    cases b with
    | true => exact .path ht ho hd hb
    | false => exact (favours_violation.1 hq).elim
  unfold checkOwningActual at h
  split at h
  · next hd =>
    obtain ⟨p, b, q, rfl, hp, h₁⟩ := favours_bind_iff.1 h
    obtain ⟨-, hb⟩ := favours_lift.1 hp
    cases b with
    | true =>
      obtain ⟨q, c, q', rfl, hq, -⟩ := favours_bind_iff.1 h₁
      exact .observed ht ho hd hb (favours_loan.1 hq).2.2
    | false => exact .fresh ht ho hd hb
  · next hd => exact assigned (by simp [hd]) h
  · next hd => exact assigned (by simp [hd]) h

/-- On a favourable path, the check of an actual parameter asks for the type of the formal
parameter, and the actual fits if the answer is yes. -/
theorem fits_of_actual {callee id : EntityId} {actual : Node}
    (h : (S.checkActual callee id actual).Favours path ()) :
  ∃ f b q, S.formal callee id = .ok f ∧ path = .ask f.type b :: q
    ∧ (b = true → S.ActualFits f actual)
  := by
  obtain ⟨p, f, q, rfl, hp, h₁⟩ := favours_bind_iff.1 h
  obtain ⟨rfl, hf⟩ := favours_lift.1 hp
  obtain ⟨p, b, q, rfl, hp, h₂⟩ := favours_bind_iff.1 h₁
  obtain rfl := favours_stands.1 hp
  refine ⟨f, b, q, hf, rfl, ?_⟩
  rintro rfl
  obtain ⟨p, a, q, rfl, hp, h₃⟩ := favours_bind_iff.1 h₂
  obtain ⟨rfl, ha⟩ := favours_lift.1 hp
  cases a with
  | some a =>
    obtain ⟨hl, hc⟩ := favours_lent h₃
    exact .lent ha hl hc
  | none =>
    obtain ⟨p, o, q, rfl, hp, h₄⟩ := favours_bind_iff.1 h₃
    obtain ⟨rfl, ho⟩ := favours_lift.1 hp
    cases o with
    | true => exact fits_of_owningActual ha ho h₄
    | false => exact .unowned ha ho

/-! ### Returned values -/

theorem fits_of_result {facet : SubprogramFacet} {result : EntityId} {value : Node}
    (h : (S.checkResult facet result value).Favours path ()) :
  S.ReturnFits facet result value
  := by
  obtain ⟨p, t, q, rfl, hp, h₁⟩ := favours_bind_iff.1 h
  obtain ⟨rfl, ht⟩ := favours_lift.1 hp
  cases t with
  | true =>
    cases hv : value.isNull with
    | true => exact .null ht hv
    | false =>
      rw [hv] at h₁
      obtain ⟨p, b, q, rfl, hp, h₂⟩ := favours_bind_iff.1 h₁
      obtain ⟨rfl, hb⟩ := favours_lift.1 hp
      cases b with
      | true =>
        obtain ⟨p, a, q, rfl, hp, h₃⟩ := favours_bind_iff.1 h₂
        obtain ⟨rfl, ha⟩ := favours_lift.1 hp
        obtain ⟨q, c, q', rfl, hq, -⟩ := favours_bind_iff.1 h₃
        exact .lent ht (Node.allHold_eq_ok.1 hb) ha (favours_loan.1 hq).2.2
      | false => exact (favours_violation.1 h₂).elim
  | false =>
    obtain ⟨p, o, q, rfl, hp, h₂⟩ := favours_bind_iff.1 h₁
    obtain ⟨rfl, ho⟩ := favours_lift.1 hp
    cases o with
    | true =>
      obtain ⟨q, c, q', rfl, hq, -⟩ := favours_bind_iff.1 h₂
      exact .moved ht ho (favours_move.1 hq).2.2
    | false => exact .unowned ht ho

/-- On a favourable path, the check of a returned value asks for the result type, and the
value fits if the answer is yes. -/
theorem fits_of_returned {id result : EntityId} {facet : SubprogramFacet} {value : Node}
    (hf : S.program.subprogramFacet id = .ok facet) (hr : facet.result = some result)
    (h : (S.checkReturned { subprogram := some id } value).Favours path ()) :
  ∃ b q, path = .ask result b :: q ∧ (b = true → S.ReturnFits facet result value)
  := by
  obtain ⟨p, facet', q, rfl, hp, h₁⟩ := favours_bind_iff.1 h
  obtain ⟨rfl, hf'⟩ := favours_lift.1 hp
  obtain rfl := Except.ok.inj (hf.symm.trans hf')
  rw [hr] at h₁
  obtain ⟨p, b, q, rfl, hp, h₂⟩ := favours_bind_iff.1 h₁
  obtain rfl := favours_stands.1 hp
  refine ⟨b, q, rfl, ?_⟩
  rintro rfl
  exact fits_of_result h₂

end Setting

end Conformance
