import Conformance.Program.Site
import Std.Data.TreeSet

/-!
# Matters

A `Matter` is what a verdict is about: the declaration of an entity, the body of an
entity, or the aspects of a type.  Matters are ordered by their kind first and by their
entity second; `Matters` are sets of matters in this order.
-/

namespace Conformance

/-- What a verdict is about. -/
inductive Matter where
  | declaration (id : EntityId)
  | body (id : EntityId)
  | aspects (type : EntityId)
  deriving DecidableEq

namespace Matter

/-- The entity that a matter belongs to. -/
def entity : Matter → EntityId
  | .declaration id | .body id | .aspects id => id

/-- The place of the kind of a matter in the order of matters. -/
def rank : Matter → Nat
  | .declaration _ => 0
  | .body _ => 1
  | .aspects _ => 2

/-- Whether the verdict on a matter can be withdrawn when something it rests on is
excluded later. -/
def isRevocable : Matter → Bool
  | .declaration _ | .body _ => true
  | .aspects _ => false

/-- The order of matters: by kind, then by entity. -/
def order : Matter → Matter → Ordering :=
  compareLex (compareOn rank) (compareOn entity)

instance : Std.TransCmp order :=
  inferInstanceAs (Std.TransCmp (compareLex (compareOn rank) (compareOn entity)))

instance : Std.LawfulEqCmp order where
  eq_of_compare {a b} h := by
    simp only [order, compareLex_eq_eq, compareOn, Std.LawfulEqOrd.compare_eq_iff_eq] at h
    cases a <;> cases b <;> simp_all [rank, entity]
  compare_self {a} := Std.ReflCmp.compare_self

end Matter

/-- Sets of matters. -/
abbrev Matters := Std.TreeSet Matter Matter.order

end Conformance
