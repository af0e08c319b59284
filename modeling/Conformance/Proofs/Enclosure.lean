import Conformance.Proofs.EndingInquiries
import Conformance.Proofs.Foundation
import Conformance.Proofs.Spine

/-!
# Entities in a ring of packages

Whether an entity is at library level is found out on the way outwards through the packages
around it.  The way has no bound of its own, other than the way to the mode of an entity, which
is given up once it is longer than the program has entities.  So the question is answered exactly
where the packages around the entity are not declared in each other: `isLibraryLevel_ends_iff`.
-/

namespace Conformance

namespace Program

variable {p : Program} {id scope : EntityId}

instance : Decidable (p.Within id scope) := inferInstanceAs (Decidable (∃ _, _ ∧ _))

theorem packageIn_iff :
  p.PackageIn id scope ↔ p.isPackage id = .ok true ∧ p.Within id scope
  := by
  constructor
  · rintro ⟨e, i, he, hk, hs⟩
    refine ⟨Answer.bind_eq_ok.2 ⟨e, he, ?_⟩, e, he, hs⟩
    rw [hk]
    rfl
  · rintro ⟨hp, e, he, hs⟩
    obtain ⟨e', he', hp⟩ := Answer.bind_eq_ok.1 hp
    obtain rfl := Except.ok.inj (he.symm.trans he')
    split at hp
    · next i hk => exact ⟨e, i, he, hk, hs⟩
    · simp at hp

/-- The walk outwards from a ring of packages is cut off, after however many steps. -/
theorem libraryLevelFrom_of_cyclic (h : Chain.Cyclic p.PackageIn scope) (steps : Nat) :
  p.libraryLevelFrom steps (some scope) = .error .unfinished
  := by
  induction steps generalizing scope with
  | zero => rfl
  | succ steps ih =>
    obtain ⟨scope', hp, h⟩ := h.exists_link
    rw [libraryLevelFrom_packageIn hp]
    exact ih h

/-- In a ring, no number of steps is enough. -/
theorem InRing.libraryLevelFrom {e : Entity} (h : p.InRing id) (he : p.entity id = .ok e)
    (steps : Nat) :
  p.libraryLevelFrom steps e.scope = .error .unfinished
  := by
  obtain ⟨e', scope, he', hs, hc⟩ := h
  obtain rfl := Except.ok.inj (he'.symm.trans he)
  rw [hs]
  exact libraryLevelFrom_of_cyclic hc steps

theorem InRing.isLibraryLevel (h : p.InRing id) :
  p.isLibraryLevel id = .error .unfinished
  := by
  have ⟨e, _, he, _⟩ := h
  rw [Program.isLibraryLevel, he]
  exact h.libraryLevelFrom he _

end Program

namespace Setting

variable {S : Setting}

/-- In a ring, the inquiry into a volatile object without an initial value is cut off. -/
theorem not_ends_objectInquiry {e : Entity} {o : ObjectFacet} (h : S.program.InRing e.name)
    (hv : o.volatile = true) (hi : o.initial = none) :
  ¬ (S.objectInquiry e o).Ends
  := by
  intro he
  unfold objectInquiry at he
  rw [hv, hi, h.isLibraryLevel] at he
  exact he true rfl

/-- The question whether an entity is at library level is answered, with yes, no or a fault of the
program, unless the way outwards from it goes round in a ring of packages.  In a ring, no number
of steps is enough, and the inquiry into a volatile object does not end.  Elsewhere the answer
is found at the outermost scope that the packages lead to, and the inquiry into every object
ends. -/
theorem isLibraryLevel_ends_iff (S : Setting) (id : EntityId) :
  (Answer.Ends (S.program.isLibraryLevel id) ↔ ¬ S.program.InRing id)
    ∧ ∀ e, S.program.entity id = .ok e →
      (S.program.InRing id →
        (∀ steps, S.program.libraryLevelFrom steps e.scope = .error .unfinished)
          ∧ ∀ o : ObjectFacet, o.volatile = true → o.initial = none →
            ¬ (S.objectInquiry e o).Ends)
      ∧ (¬ S.program.InRing id →
        (e.scope = none ∧ S.program.isLibraryLevel id = .ok true
            ∨ ∃ scope last, e.scope = some scope
              ∧ Chain.EndsAt S.program.PackageIn scope last
              ∧ S.program.isLibraryLevel id = S.program.isPackage last)
          ∧ ∀ o, (S.objectInquiry e o).Ends)
  := by
  refine ⟨⟨fun h hr => h hr.isLibraryLevel, Program.ends_isLibraryLevel⟩, fun e he => ?_⟩
  obtain rfl := S.program.name_eq_of_entity he
  constructor
  · intro h
    exact ⟨h.libraryLevelFrom he, fun o hv hi => not_ends_objectInquiry h hv hi⟩
  · intro h
    exact ⟨Program.isLibraryLevel_of_not_inRing h he, ends_objectInquiry h⟩

/-- A package that is declared in itself, with a volatile object that has a mode of its own, and
a package apart from it, with an object. -/
def ringSample : Setting :=
  (ofParts?
    [{ name := "P", scope := some "P", kind := .package none },
      { name := "T", kind := .type { definition := .signed 0 9 } },
      { name := "V", scope := some "P", mode := some .on,
        kind := .object { type := "T", volatile := true } },
      { name := "Q", kind := .package none },
      { name := "X", scope := some "Q", kind := .object { type := "T", volatile := true } }]
    [.plain (.declaration .object "V")]).get
    (by decide +kernel)

theorem inRing_ringSample :
  ∀ id ∈ ["P", "V"], ringSample.program.InRing id
  := by
  have hP : ringSample.program.PackageIn "P" "P" :=
    Program.packageIn_iff.2 ⟨by decide +kernel, by decide +kernel⟩
  have hw : ∀ id ∈ ["P", "V"], ringSample.program.Within id "P" := by decide +kernel
  intro id hid
  obtain ⟨e, he, hs⟩ := hw id hid
  exact ⟨e, "P", he, hs, "P", .refl, .single hP⟩

/-- No number of steps answers the question for the package or for the object in it.  The way to
the mode of the package is given up, but the object has a mode of its own, and the run over the
program does not end. -/
theorem libraryLevel_unending_ringSample :
  (∀ id ∈ ["P", "V"], ringSample.program.isLibraryLevel id = .error .unfinished
      ∧ ∀ e, ringSample.program.entity id = .ok e →
        ∀ steps, ringSample.program.libraryLevelFrom steps e.scope = .error .unfinished)
    ∧ ringSample.modeOf "P" = .error (.contract (.cyclicScope "P"))
    ∧ ringSample.modeOf "V" = .ok (some .on, some "V")
    ∧ (ringSample.wholeProgram.after {}).1 = .error .unfinished
  := by
  refine ⟨fun id hid => ?_, by decide +kernel, by decide +kernel, by decide +kernel⟩
  have hr := inRing_ringSample id hid
  exact ⟨hr.isLibraryLevel, fun e he => hr.libraryLevelFrom he⟩

theorem isLibraryLevel_ends_iff_ringSample :
  (ringSample.program.InRing "V" ∧ ∃ e, ringSample.program.entity "V" = .ok e
      ∧ (∀ steps, ringSample.program.libraryLevelFrom steps e.scope = .error .unfinished)
      ∧ ∀ o : ObjectFacet, o.volatile = true → o.initial = none →
        ¬ (ringSample.objectInquiry e o).Ends)
    ∧ ¬ ringSample.program.InRing "X" ∧ ∃ e, ringSample.program.entity "X" = .ok e
      ∧ (e.scope = none ∧ ringSample.program.isLibraryLevel "X" = .ok true
          ∨ ∃ scope last, e.scope = some scope
            ∧ Chain.EndsAt ringSample.program.PackageIn scope last
            ∧ ringSample.program.isLibraryLevel "X" = ringSample.program.isPackage last)
      ∧ ∀ o, (ringSample.objectInquiry e o).Ends
  := by
  have hV := inRing_ringSample "V" (by simp)
  have ⟨eV, _, heV, _⟩ := hV
  have hl : ringSample.program.isLibraryLevel "X" = .ok true := by decide +kernel
  have ⟨eX, heX, _⟩ : ringSample.program.Within "X" "Q" := by decide +kernel
  obtain ⟨hends, hX⟩ := isLibraryLevel_ends_iff ringSample "X"
  have hrX : ¬ ringSample.program.InRing "X" := hends.1 (hl ▸ Answer.ends_ok true)
  exact ⟨⟨hV, eV, heV, ((isLibraryLevel_ends_iff ringSample "V").2 eV heV).1 hV⟩,
    hrX, eX, heX, (hX eX heX).2 hrX⟩

end Setting

end Conformance
