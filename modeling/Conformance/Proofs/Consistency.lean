import Conformance.Proofs.Locality
import Conformance.Proofs.Regular

/-!
# Consistent paths

A question on a path need not rest on its answer, and the answer may be no where the
decision of an entity has not begun.  What was consulted with success is another case:
whatever is decided later leaves it admitted while the inquiry is under way, so it is found
in the subset from then on.  `Consistent` says so of a path, and `assented_of_passes` of
the steps of every passage.
-/

namespace Conformance

/-- Whatever a path asks for after it was consulted with success is found in the subset. -/
def Consistent (path : List Step) : Prop :=
  ∀ p id b q, path = p ++ .ask id b :: q → Consulted p id → b = true

theorem Consulted.mono {p q : List Step} {id : EntityId} (h : Consulted p id) (hs : p ⊆ q) :
  Consulted q id
  := h.imp fun _ hc => hs hc

theorem Consistent.infix {p path : List Step} (h : Consistent path) (hs : p <:+: path) :
  Consistent p
  := by
  obtain ⟨before, after, rfl⟩ := hs
  rintro p id b q rfl hc
  apply h (before ++ p) id b (q ++ after) (by simp)
  exact hc.mono (List.subset_append_right before p)

theorem Consistent.left {p q : List Step} (h : Consistent (p ++ q)) :
  Consistent p
  := h.infix (List.prefix_append p q).isInfix

theorem Consistent.right {p q : List Step} (h : Consistent (p ++ q)) :
  Consistent q
  := h.infix (List.suffix_append p q).isInfix

/-- Steps that ask for nothing may be added to a consistent path. -/
theorem Consistent.append {p q : List Step} (h : Consistent p) (hq : ∀ id b, .ask id b ∉ q) :
  Consistent (p ++ q)
  := by
  intro p' id b q' he hc
  obtain ⟨u, rfl, rfl⟩ | ⟨u, rfl, hu⟩ := List.append_eq_append_iff.1 he
  · exact absurd (List.mem_append_right u List.mem_cons_self) (hq id b)
  · cases u with
    | nil =>
      rw [List.nil_append] at hu
      exact absurd (hu ▸ List.mem_cons_self) (hq id b)
    | cons s u =>
      obtain ⟨rfl, rfl⟩ := List.cons.inj hu
      exact h p' id b u rfl hc

/-- A run assents to a path from it on: what the path asks for is found in the subset if the run
admits it, or if it was consulted with success before. -/
def Run.Assents (r : Run) (path : List Step) : Prop :=
  ∀ p id b q, path = p ++ .ask id b :: q → id ∈ r.verdicts.admitted ∨ Consulted p id → b = true

namespace Run.Assents

variable {r r₁ : Run} {s : Step} {path : List Step}

theorem consistent (h : r.Assents path) :
  Consistent path
  := fun p id b q he hc => h p id b q he (Or.inr hc)

/-- A step that leaves admitted what is admitted, and that leads to the admission of what it
consults with success. -/
theorem cons (h : r₁.Assents path) (ha : ∀ x ∈ r.verdicts.admitted, x ∈ r₁.verdicts.admitted)
    (hq : ∀ id b, s = .ask id b → id ∈ r.verdicts.admitted → b = true)
    (hc : ∀ id site, s = .consult id site true → id ∈ r₁.verdicts.admitted) :
  r.Assents (s :: path)
  := by
  intro p id b q he hk
  cases p with
  | nil =>
    obtain ⟨rfl, -⟩ := List.cons.inj he
    obtain hk | ⟨_, hk⟩ := hk
    · exact hq id b rfl hk
    · cases hk
  | cons s' p =>
    obtain ⟨rfl, rfl⟩ := List.cons.inj he
    apply h p id b q rfl
    obtain hk | ⟨site, hk⟩ := hk
    · exact Or.inl (ha id hk)
    · obtain hk | hk := List.mem_cons.1 hk
      · exact Or.inl (hc id site hk.symm)
      · exact Or.inr ⟨site, hk⟩

end Run.Assents

namespace Setting

variable {S : Setting}

/-- The run that a passage begins with assents to its path. -/
def Assented : Course → Run → Prop
  | .decision _, _ => True
  | .steps scope path, r => r.Coherent → r.Under scope.matter → r.Assents path

/-- A passage that begins with a step which neither asks nor consults. -/
theorem Assented.cons {scope : Scope} {s : Step} {path : List Step} {r r₁ : Run}
    {new : List Event} (h : Assented (.steps scope path) r₁)
    (ha : r.Advances scope.matter new r₁) (hr₁ : r₁.Coherent) (hu : r.Under scope.matter)
    (hq : ∀ id b, s ≠ .ask id b) (hc : ∀ id site, s ≠ .consult id site true) :
  r.Assents (s :: path)
  := by
  apply (h hr₁ (hu.after ha)).cons ha.admitted
  · exact fun id b he => absurd he (hq id b)
  · exact fun id site he => absurd he (hc id site)

/-- Every run assents to the paths of the passages that begin with it. -/
theorem assented_of_passes {c : Course} {r r' : Run} (h : S.Passes c r r') :
  Assented c r
  := by
  induction h with
  | nil =>
    intro _ _ p id b q he
    simp at he
  | plain h rest ih =>
    intro hr hu
    obtain ⟨new, ha, hr₁⟩ := plain_step h hr hu
    apply (ih hr₁ (hu.after ha)).cons ha.admitted
    · rintro id b rfl hx
      cases h
      exact Run.admits_iff.2 hx
    · rintro id site rfl
      cases h
  | decide d rest _ ih =>
    intro hr hu
    obtain ⟨new, ha, hr₁, -⟩ := orderly_of_passes d hr (under_decision _ _)
    exact ih.cons (ha.within _) hr₁ hu (by simp) (by simp)
  | @consult scope id site path r r₁ r' d rest _ ih =>
    intro hr hu
    obtain ⟨new, ha, hr₁, hx⟩ := orderly_of_passes d hr (under_decision _ _)
    obtain ⟨ha₂, hr₂⟩ := Run.rest_step hr₁ (hu.after ha) (hx _ rfl) site
    have ha₃ := (ha.within scope.matter).append ha₂
    apply (ih hr₂ (hu.after ha₃)).cons ha₃.admitted
    · simp
    · intro x site' he
      obtain ⟨rfl, -, hadm⟩ := Step.consult.inj he
      exact ha₂.admitted _ (Run.admits_iff.1 hadm)
  | declare d _ rest _ ih =>
    intro hr hu
    obtain ⟨new, ha, hr₁, -⟩ := orderly_of_passes d hr (under_decision _ _)
    exact ih.cons (ha.within _) hr₁ hu (by simp) (by simp)
  | @declareResting scope id site b path r r₁ r' d _ _ rest _ ih =>
    intro hr hu
    obtain ⟨new, ha, hr₁, -⟩ := orderly_of_passes d hr (under_decision _ _)
    have h := ih hr₁ (hu.after (ha.within scope.matter))
    -- What is declared is consulted next, which is not on the path.
    intro p x b' q he hk
    cases p with
    | nil => cases he
    | cons s p =>
      obtain ⟨rfl, rfl⟩ := List.cons.inj he
      apply h (.consult id site b :: p) x b' q rfl
      obtain hk | ⟨site', hk⟩ := hk
      · exact Or.inl (ha.admitted x hk)
      · exact Or.inr ⟨site', by simpa using Or.inr hk⟩
  | @bodyExcluded scope e mode inner path r r₁ r' d _ rest _ ih =>
    intro hr hu
    obtain ⟨new, ha, hr₁, -⟩ := orderly_of_passes d hr (under_decision _ _)
    have hs := r₁.same_inheritCause e
    exact ih.cons ((ha.within _).same hs) (hs.coherent hr₁) hu (by simp) (by simp)
  | bodyOff d _ _ rest _ ih =>
    intro hr hu
    obtain ⟨new, ha, hr₁, -⟩ := orderly_of_passes d hr (under_decision _ _)
    exact ih.cons (ha.within _) hr₁ hu (by simp) (by simp)
  | @body scope e mode inner mode' path innerPath r r₁ r₂ r' d _ _ _ _ w rest _ _ ih =>
    intro hr hu
    obtain ⟨new, ha, hr₁, hx⟩ := orderly_of_passes d hr (under_decision _ _)
    obtain ⟨new₂, ha₂, hr₂, -⟩ := body_step (orderly_of_passes w) hr₁ (hx _ rfl) r₁.cause
    exact ih.cons ((ha.append ha₂).within _) hr₂ hu (by simp) (by simp)
  | _ => trivial

end Setting

end Conformance
