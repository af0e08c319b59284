import Conformance.Verdict.Backlog
import Mathlib.Tactic.Common

/-!
# Postponed tasks over time

Between two services a backlog only grows: `Backlog.Grows` says that what it took it takes
no more, what waits goes on waiting, and what it takes no more either was taken before or
waits.
-/

namespace Conformance

/-- What a queue takes is not changed by a service. -/
theorem Lane.takes_of_pop? {α : Type} {l l' : Lane α} {a : α} (h : l.pop? = some (a, l'))
    (name : EntityId) :
  l'.takes name = l.takes name
  := by rw [Lane.takes, (Lane.of_pop?_eq_some h).2, Lane.takes]

namespace Backlog

/-- Whether a task waits, apart from the mode that it is served in. -/
def Awaits (b : Backlog) : Task → Prop
  | .declaration id => id ∈ b.declarations.waiting
  | .aspects type _ => ∃ anchor, (type, anchor) ∈ b.aspects.waiting
  | .completion access => access ∈ b.completions.waiting

/-- A backlog grows while no task is served. -/
structure Grows (b b' : Backlog) : Prop where
  taken : ∀ t, b.takes t = false → b'.takes t = false
  awaits : ∀ t, b.Awaits t → b'.Awaits t
  arrived : ∀ t, b'.takes t = false → b.takes t = false ∨ b'.Awaits t

@[refl]
theorem Grows.refl (b : Backlog) :
  b.Grows b
  where
    taken _ := id
    awaits _ := id
    arrived _ := Or.inl

theorem Grows.trans {b b₁ b' : Backlog} (h : b.Grows b₁) (h' : b₁.Grows b') :
  b.Grows b'
  where
    taken t ht := h'.taken t (h.taken t ht)
    awaits t ht := h'.awaits t (h.awaits t ht)
    arrived t ht := by
      obtain ht | ht := h'.arrived t ht
      · obtain ht | ht := h.arrived t ht
        · exact Or.inl ht
        · exact Or.inr (h'.awaits t ht)
      · exact Or.inr ht

/-- A task that arrives waits, unless it was taken before. -/
theorem awaits_push (b : Backlog) (t : Task) (h : b.takes t = true) :
  (b.push t).Awaits t
  := by
  cases t with
  | declaration id =>
    have h : b.declarations.takes id = true := h
    simp [Awaits, push, Lane.waiting_push, h]
  | aspects type anchor =>
    have h : b.aspects.takes type = true := h
    use anchor
    simp [push, Lane.waiting_push, h]
  | completion access =>
    have h : b.completions.takes access = true := h
    simp [Awaits, push, Lane.waiting_push, h]

theorem takes_push (b : Backlog) (t t' : Task) :
  (b.push t).takes t'
    = (b.takes t' && match t, t' with
      | .declaration id, .declaration id' => id' != id
      | .aspects type _, .aspects type' _ => type' != type
      | .completion access, .completion access' => access' != access
      | _, _ => true)
  := by cases t <;> cases t' <;> simp [push, takes, Lane.takes_push]

theorem not_takes_push (b : Backlog) (t : Task) :
  (b.push t).takes t = false
  := by
  rw [takes_push]
  cases t <;> simp

theorem awaits_push_of_awaits {b : Backlog} {t : Task} (t' : Task) (h : b.Awaits t) :
  (b.push t').Awaits t
  := by
  cases t' <;> cases t <;> simp only [push, Awaits, Lane.waiting_push, List.mem_append] at h ⊢
    <;> grind

theorem grows_push (b : Backlog) (t : Task) :
  b.Grows (b.push t)
  where
    taken t' ht' := by rw [takes_push, ht', Bool.false_and]
    awaits t' := awaits_push_of_awaits t
    arrived t' ht' := by
      by_cases h : b.takes t = true
      · rw [takes_push, Bool.and_eq_false_iff] at ht'
        obtain ht' | ht' := ht'
        · exact Or.inl ht'
        · have ha := b.awaits_push t h
          right
          cases t <;> cases t' <;> simp_all [Awaits]
      · left
        have hp : (b.push t).takes t' = b.takes t' := by
          rw [Bool.not_eq_true] at h
          cases t <;> simp_all [push, takes, Lane.push]
        rw [← hp]
        exact ht'

theorem grows_pushAll (b : Backlog) (ts : List Task) :
  b.Grows (ts.foldl push b)
  := by
  induction ts generalizing b with
  | nil => apply Grows.refl
  | cons t ts ih => exact (b.grows_push t).trans (ih _)

/-- What a backlog takes is not changed by a service. -/
theorem takes_of_next? {b b' : Backlog} {t : Task} (h : b.next? = some (t, b')) (t' : Task) :
  b'.takes t' = b.takes t'
  := by
  unfold next? at h
  split at h
  · next hd =>
    obtain ⟨-, rfl⟩ := Prod.mk.inj (Option.some.inj h)
    cases t' <;> simp [takes, Lane.takes_of_pop? hd]
  · split at h
    · next ha =>
      obtain ⟨-, rfl⟩ := Prod.mk.inj (Option.some.inj h)
      cases t' <;> simp [takes, Lane.takes_of_pop? ha]
    · split at h
      · next hc =>
        obtain ⟨-, rfl⟩ := Prod.mk.inj (Option.some.inj h)
        cases t' <;> simp [takes, Lane.takes_of_pop? hc]
      · cases h

/-- What waits is the task that is served next or still waits after it. -/
theorem awaits_of_next? {b b' : Backlog} {t : Task} (h : b.next? = some (t, b'))
    {access : EntityId} (hw : b.Awaits (.completion access)) :
  t = .completion access ∨ b'.Awaits (.completion access)
  := by
  unfold next? at h
  split at h
  · next hd =>
    obtain ⟨-, rfl⟩ := Prod.mk.inj (Option.some.inj h)
    exact Or.inr hw
  · split at h
    · next ha =>
      obtain ⟨-, rfl⟩ := Prod.mk.inj (Option.some.inj h)
      exact Or.inr hw
    · split at h
      · next hc =>
        obtain ⟨rfl, rfl⟩ := Prod.mk.inj (Option.some.inj h)
        simp only [Awaits] at hw ⊢
        rw [(Lane.of_pop?_eq_some hc).1, List.mem_cons] at hw
        exact hw.imp_left fun hw => congrArg Task.completion hw.symm
      · cases h

/-- Where no task is served next, none waits. -/
theorem not_awaits_of_next? {b : Backlog} (h : b.next? = none) (t : Task) :
  ¬ b.Awaits t
  := by
  unfold next? at h
  split at h
  · cases h
  · next hd =>
    split at h
    · cases h
    · next ha =>
      split at h
      · cases h
      · next hc =>
        rw [Lane.pop?_eq_none_iff] at hd ha hc
        cases t <;> simp [Awaits, hd, ha, hc]

end Backlog

end Conformance
