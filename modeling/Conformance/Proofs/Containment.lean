import Conformance.Proofs.Mirror

/-!
# Contexts of nested matters

What is decided, walked or served within a matter leaves the context of the matter as it was.
The matter itself only ever adds to the violation in its context, and what it adds is the first
reason for a violation that its own inquiry meets: a finding, or an entity that it wants to rest
on and that is excluded.
-/

namespace Conformance

/-- One context comes of another by violations of the matter under way: nothing else changes, a
matter that is violated stays so, and a cause that is there is not replaced. -/
structure Context.Grows (c c' : Context) : Prop where
  elsewhere : c' = { c with violated := c'.violated, rootCause := c'.rootCause }
  violated : c.violated → c'.violated
  rootCause : ∀ cause, c.rootCause = some cause → c'.rootCause = some cause

theorem Context.grows_charge (c : Context) (cause : Option Site) :
  c.Grows (c.charge cause)
  where
  elsewhere := rfl
  violated h := by
    unfold charge
    simp [h]
  rootCause first h := by
    unfold charge
    simp [h]

namespace Conduct

variable {α : Type}

/-- An act at most adds to the violation in the context, whether it succeeds or fails. -/
def Accrues (conduct : Conduct α) : Prop :=
  ∀ s : Situation, s.context.Grows (conduct.after s).2.context

/-- What an act charges the context with is what its counterpart remembers, if that begins
without a cause. -/
theorem Mirrors.context_eq {conduct : Conduct α} {act : Act α} {s : Situation}
    (h : Mirrors s.context conduct act) :
  (conduct.after s).2.context
    = s.context.charge (act.after { s.run with cause := none }).2.cause
  := by
  have hs := h { s.run with cause := none }
  rw [s.ofRun_run] at hs
  rw [hs]
  rfl

end Conduct

namespace Setting

open Conduct

variable (S : Setting)

/-- The context after an inquiry is the one before, charged with the first reason for a violation
that the inquiry meets by itself. -/
theorem context_eq_charge_ground {α : Type} {conduct : Conduct α} {s : Situation} {i : Inquiry α}
    (h : Mirrors s.context conduct (S.walk S.decide s.context.toScope i)) :
  (conduct.after s).2.context
    = s.context.charge (S.ground s.context.toScope i { s.run with cause := none })
  := by
  rw [h.context_eq, S.cause_walk]
  rfl

/-- In every situation, and whether they succeed or fail, nested matters, items of context
clauses and the service of what was postponed leave the context exactly as they found it, bodies
whatever they hold.  Declarations, statements and expressions at most add to the violation in the
context.  They add the first reason that they meet by themselves: what is found in the matters
nested in them is none unless they rest on it. -/
theorem contexts_contained :
  (∀ id, (S.performDecision id).Restores)
    ∧ (∀ e mode contents, (S.performBody S.performDecision e mode contents).Restores)
    ∧ (∀ item, (S.performContextItem item).Restores)
    ∧ (∀ type anchor, (S.performAspects type anchor).Restores)
    ∧ S.performBacklog.Restores
    ∧ (∀ n, (S.performItem S.performDecision n).Accrues)
    ∧ (∀ n, (S.performExpression n).Accrues)
    ∧ (∀ n s, ((S.performItem S.performDecision n).after s).2.context
        = s.context.charge (S.ground s.context.toScope (S.item s.context.toSurroundings n)
          { s.run with cause := none }))
    ∧ ∀ n s, ((S.performExpression n).after s).2.context
        = s.context.charge (S.ground s.context.toScope (S.expression n)
          { s.run with cause := none })
  := by
  have hi (n : Node) (s : Situation) := S.context_eq_charge_ground (s := s)
    (S.mirrors_performItem S.mirrors_performDecision n s.context)
  have he (n : Node) (s : Situation) := S.context_eq_charge_ground (s := s)
    (S.mirrors_perform (c := s.context) S.mirrors_performDecision (S.expression n))
  refine ⟨S.restores_performDecision, S.restores_performBody, S.restores_performContextItem,
    S.restores_performAspects, S.restores_performBacklog, ?items, ?expressions, hi, he⟩
  case items =>
    intro n s
    rw [hi n s]
    apply s.context.grows_charge
  case expressions =>
    intro n s
    unfold performExpression
    rw [he n s]
    apply s.context.grows_charge

end Setting

end Conformance
