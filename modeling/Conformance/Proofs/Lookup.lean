import Conformance.Run.Service
import Mathlib.Tactic.Common

/-!
# Answers about the program

What a lookup that succeeded found.
-/

namespace Conformance

theorem Answer.bind_eq_ok {α β : Type} {x : Answer α} {f : α → Answer β} {b : β} :
  x >>= f = .ok b ↔ ∃ a, x = .ok a ∧ f a = .ok b
  := by
  cases x with
  | ok a =>
    change f a = .ok b ↔ _
    simp
  | error fault =>
    change Except.error fault = Except.ok b ↔ _
    simp

@[simp]
theorem Answer.pure_eq_ok {α : Type} {a b : α} :
  (pure a : Answer α) = .ok b ↔ a = b
  := by
  change Except.ok a = Except.ok b ↔ _
  simp

@[simp]
theorem Answer.throw_eq_ok {α : Type} {fault : Fault} {a : α} :
  (throw fault : Answer α) = .ok a ↔ False
  := by
  change Except.error fault = Except.ok a ↔ _
  simp

namespace Program

variable {p : Program} {id : EntityId}

/-- An entity is found under its own name. -/
theorem name_eq_of_entity (p : Program) {e : Entity} (h : p.entity id = .ok e) :
  e.name = id
  := by
  unfold entity at h
  split at h
  · next hg =>
    obtain rfl := Except.ok.inj h
    exact p.keyed id _ hg
  · cases h

theorem mem_keys_of_entity {e : Entity} (h : p.entity id = .ok e) :
  id ∈ p.entities.keys
  := by
  unfold entity get? at h
  split at h
  · next hg => exact Std.TreeMap.mem_keys.2 (Std.TreeMap.mem_iff_isSome_getElem?.2 (by rw [hg]; rfl))
  · cases h

theorem typeFacet_eq_ok {t : TypeFacet} :
  p.typeFacet id = .ok t ↔ ∃ e, p.entity id = .ok e ∧ e.kind = .type t
  := by
  rw [typeFacet, Answer.bind_eq_ok]
  apply exists_congr
  intro e
  apply and_congr_right
  intro _
  split <;> simp_all

theorem subprogramFacet_eq_ok {s : SubprogramFacet} :
  p.subprogramFacet id = .ok s ↔ ∃ e, p.entity id = .ok e ∧ e.kind = .subprogram s
  := by
  rw [subprogramFacet, Answer.bind_eq_ok]
  apply exists_congr
  intro e
  apply and_congr_right
  intro _
  split <;> simp_all

end Program

namespace Setting

variable {S : Setting} {id : EntityId}

theorem formal_eq_ok {callee : EntityId} {p : ParameterFacet} :
  S.formal callee id = .ok p ↔ ∃ e, S.program.entity id = .ok e ∧ e.kind = .parameter p
  := by
  rw [formal, Answer.bind_eq_ok]
  apply exists_congr
  intro e
  apply and_congr_right
  intro _
  split <;> simp_all

theorem designated_eq_ok {x : EntityId} :
  S.designated id = .ok x
    ↔ ∃ e t a, S.program.entity id = .ok e ∧ e.kind = .type t ∧ t.definition = .access a
      ∧ a.designated = x
  := by
  rw [designated, Answer.bind_eq_ok]
  constructor
  · rintro ⟨t, ht, h⟩
    obtain ⟨e, he, hk⟩ := Program.typeFacet_eq_ok.1 ht
    split at h
    · next a ha => exact ⟨e, t, a, he, hk, ha, by simpa using h⟩
    · simp at h
  · rintro ⟨e, t, a, he, hk, ha, rfl⟩
    refine ⟨t, Program.typeFacet_eq_ok.2 ⟨e, he, hk⟩, ?_⟩
    rw [ha]
    rfl

end Setting

end Conformance
