import Conformance.Run.Cascade
import Mathlib.Tactic.Common

/-!
# What operations do to verdicts

Membership in the sets of verdicts after an entity is entered or struck out, and the
dependents of an entity after a matter consulted it and after they are forgotten.
-/

namespace Conformance

section

variable {s : Std.TreeSet EntityId} {β : Type} {t : Std.TreeMap EntityId β}

theorem mem_insert_iff {a b : EntityId} :
  b ∈ s.insert a ↔ b = a ∨ b ∈ s
  := by
  rw [Std.TreeSet.mem_insert, Std.LawfulEqCmp.compare_eq_iff_eq, eq_comm]

theorem mem_erase_iff {a b : EntityId} :
  b ∈ s.erase a ↔ b ≠ a ∧ b ∈ s
  := by
  rw [Std.TreeSet.mem_erase, ne_eq, Std.LawfulEqCmp.compare_eq_iff_eq, eq_comm]

theorem getElem?_insert_of_ne {a b : EntityId} {v : β} (h : b ≠ a) :
  (t.insert a v)[b]? = t[b]?
  := by
  rw [Std.TreeMap.getElem?_insert, if_neg]
  rw [Std.LawfulEqCmp.compare_eq_iff_eq]
  exact h.symm

end

theorem Run.admits_iff {r : Run} {id : EntityId} :
  r.admits id = true ↔ id ∈ r.verdicts.admitted
  := Std.TreeSet.contains_iff_mem

namespace Verdicts

variable {v : Verdicts} {id other : EntityId} {m m' : Matter}

@[simp]
theorem examined_depend :
  (v.depend id m).examined = v.examined
  := by unfold depend; split <;> rfl

@[simp]
theorem admitted_depend :
  (v.depend id m).admitted = v.admitted
  := by unfold depend; split <;> rfl

@[simp]
theorem admittedBodies_depend :
  (v.depend id m).admittedBodies = v.admittedBodies
  := by unfold depend; split <;> rfl

@[simp]
theorem backlog_depend :
  (v.depend id m).backlog = v.backlog
  := by unfold depend; split <;> rfl

/-- What depends on an entity after a matter consulted another one. -/
theorem mem_dependentsOf_depend :
  m' ∈ (v.depend id m).dependentsOf other
    ↔ m' ∈ v.dependentsOf other
      ∨ m' = m ∧ other = id ∧ m.isRevocable ∧ m ≠ .declaration id
  := by
  unfold depend
  split
  · next h =>
    simp only [Bool.and_eq_true, bne_iff_ne, ne_eq] at h
    unfold dependentsOf
    by_cases e : other = id
    · subst e
      rw [Std.TreeMap.getD_insert_self, Std.TreeSet.mem_insert,
        Std.LawfulEqCmp.compare_eq_iff_eq]
      simp only [h.1, h.2, and_self, and_true, not_false_eq_true, ne_eq]
      rw [or_comm, eq_comm]
    · rw [Std.TreeMap.getD_insert, if_neg]
      · simp [e]
      · rw [Std.LawfulEqCmp.compare_eq_iff_eq]
        exact Ne.symm e
  · next h =>
    simp only [Bool.and_eq_true, bne_iff_ne, ne_eq] at h
    constructor
    · exact Or.inl
    · rintro (h' | ⟨-, -, hr, hne⟩)
      · exact h'
      · exact absurd ⟨hr, hne⟩ h

/-- What depends on an entity after the dependents of another one are forgotten. -/
theorem mem_dependentsOf_forget :
  m ∈ (v.forget id).dependentsOf other ↔ other ≠ id ∧ m ∈ v.dependentsOf other
  := by
  unfold dependentsOf forget
  by_cases e : other = id
  · subst e
    simp [Std.TreeMap.getD_erase_self]
  · rw [Std.TreeMap.getD_erase, if_neg]
    · simp [e]
    · rw [Std.LawfulEqCmp.compare_eq_iff_eq]
      exact Ne.symm e

end Verdicts

end Conformance
