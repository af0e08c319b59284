import Conformance.Proofs.Calls
import Conformance.Proofs.Completion
import Conformance.Proofs.Firm
import Conformance.Proofs.Reordering
import Mathlib.Data.List.Infix

/-!
# Verdicts and the order of compilation units

The order of decisions can show in what a run admits in two ways: an access type stays admitted
although what it designates is excluded later, or an entity asks for a type before the decision
of the type has begun.  Apart from these, the admitted entities of a run are a firm set, and a
run admits all examined members of firm sets.  So the verdicts do not depend on the order of
the compilation units.

`verdicts_reordered` is the result.
-/

namespace Conformance

/-- The question that was the last of some events, if it asked for a type before the decision of
the type had begun, with the entity whose declaration asked. -/
def Event.miss? : List Event → Option (EntityId × EntityId)
  | .asked (some (.declaration id)) type :: earlier =>
    if earlier.any (Event.begins (.declaration type)) then none else some (id, type)
  | _ => none

/-- The entities whose declaration asked for a type before the decision of the type had begun,
with the type. -/
def Run.misses (r : Run) : List (EntityId × EntityId) :=
  r.journal.tails.filterMap Event.miss?

theorem Run.mem_misses {r : Run} {id type : EntityId} {later earlier : List Event}
    (h : r.journal = later ++ .asked (some (.declaration id)) type :: earlier)
    (hb : .began (.declaration type) ∉ earlier) :
  (id, type) ∈ r.misses
  := by
  rw [misses, List.mem_filterMap]
  have hn : earlier.any (Event.begins (.declaration type)) = false := by
    simp only [List.any_eq_false, begins_iff]
    exact fun e he heq => hb (heq ▸ he)
  refine ⟨.asked (some (.declaration id)) type :: earlier, ?_, by simp [Event.miss?, hn]⟩
  rw [List.mem_tails, h]
  exact List.suffix_append _ _

namespace Setting

open Inquiry

variable {S : Setting} {A : EntityId → Prop}

/-- The order of decisions does not show in what a run admits: admitted access types designate
admitted types, and no admitted entity asked for a type before the decision of the type had
begun. -/
structure Impartial (S : Setting) (r : Run) : Prop where
  designated : ∀ access ∈ r.verdicts.admitted, ∀ id, S.designated access = .ok id →
    id ∈ r.verdicts.admitted
  asked : ∀ miss ∈ r.misses, miss.1 ∉ r.verdicts.admitted

theorem impartial_iff {r : Run} :
  S.Impartial r ↔ (∀ access ∈ r.verdicts.admitted.toList,
      (S.designated access).toOption.all (· ∈ r.verdicts.admitted))
    ∧ ∀ miss ∈ r.misses, miss.1 ∉ r.verdicts.admitted
  := by
  have designates (access : EntityId) :
      (S.designated access).toOption.all (· ∈ r.verdicts.admitted) = true
        ↔ ∀ id, S.designated access = .ok id → id ∈ r.verdicts.admitted := by
    cases S.designated access <;> simp [Except.toOption]
  simp only [Std.TreeSet.mem_toList, designates]
  exact ⟨fun h => ⟨h.designated, h.asked⟩, fun h => ⟨h.1, h.2⟩⟩

instance (r : Run) : Decidable (S.Impartial r) := decidable_of_iff _ impartial_iff.symm

section

variable {r : Run} (h : S.wholeProgram {} = .ok () r)

include h

/-- A type that an admitted entity asked for is admitted. -/
theorem admitted_of_asked {m : Matter} {i : Inquiry Unit} {path : List Step}
    (hs : S.Supports r m i path) (hm : m.entity ∈ r.verdicts.admitted) {type : EntityId} {b : Bool}
    (ht : .ask type b ∈ path) :
  type ∈ r.verdicts.admitted
  := by
  obtain ⟨t, bs, hr⟩ := hs.inquires.regular
  apply admitted_of_rooted h (hr.rooted hs.favours ht)
  rintro x (rfl | ⟨site, hx⟩)
  · exact hm
  · exact (hs.rests x (hs.records _ hx)).1

/-- The admitted entities of an impartial run are a firm set. -/
theorem Impartial.firm (hi : S.Impartial r) :
  S.Firm (· ∈ r.verdicts.admitted)
  := by
  constructor
  · obtain ⟨r₁, hp, -, rfl⟩ := proceeds_wholeProgram h
    obtain ⟨ht, -⟩ := turns_of_proceeds hp Run.coherent_empty
    exact fun x hx => (sorted_of_turns ht sorted_empty).analysed x (Or.inl hx)
  · exact fun access id ha => hi.designated access ha id
  · intro e he ha
    obtain ⟨i, path, hs⟩ := supported_of_admitted h ha
    have hi' : i = (do S.entityInquiry e; predicateInquiry e : Inquiry Unit) := by
      generalize hm : Matter.declaration e.name = m at hs
      cases hs.inquires with
      | body => cases hm
      | @declaration e' he' =>
        rw [← Matter.declaration.inj hm, he] at he'
        rw [Except.ok.inj he']
    refine ⟨path, hi' ▸ hs.favours, fun s hmem => ?_⟩
    have hrec := hs.records s hmem
    cases s with
    | consult id site b => exact (hs.rests id hrec).1
    | declare id site b =>
      cases b with
      | none => exact hrec
      | some b => exact (hs.rests id hrec).1
    | ask type b =>
      cases b with
      | true => rfl
      | false =>
        have hx := admitted_of_asked h hs ha hmem
        obtain ⟨p, q, rfl⟩ := List.append_of_mem hmem
        obtain ⟨later, earlier, hj, -, -, hb⟩ := hs.asks p type false q rfl
        exact absurd ha (hi.asked (e.name, type) (Run.mem_misses hj (hb rfl hx)))
    | _ => trivial

/-- An impartial run admits exactly the examined entities that are members of firm sets. -/
theorem Impartial.admitted_iff (hi : S.Impartial r) {x : EntityId}
    (hx : x ∈ r.verdicts.examined) :
  x ∈ r.verdicts.admitted ↔ ∃ A, S.Firm A ∧ A x
  := by
  constructor
  · exact fun ha => ⟨_, hi.firm h, ha⟩
  · rintro ⟨A, hA, hxA⟩
    exact admitted_of_firm hA h hx hxA

end

/-- Firm sets do not depend on the order of the compilation units. -/
theorem firm_withUnits {units : List Node} (hu : units.Perm S.program.units)
    (hp : S.program.PackagesUnique) :
  (S.withUnits units).Firm A ↔ S.Firm A
  := by
  have hc (s : Step) : (S.withUnits units).Confirms A s ↔ S.Confirms A s := by
    cases s with
    | declare id site b => cases b <;> simp [Confirms]
    | _ => rfl
  constructor <;> rintro ⟨h₁, h₂, h₃⟩ <;> constructor
  · simpa using h₁
  · simpa using h₂
  · simpa [entityInquiry_withUnits S units hu hp, hc] using h₃
  · simpa using h₁
  · simpa using h₂
  · simpa [entityInquiry_withUnits S units hu hp, hc] using h₃

/-- Verdicts do not depend on the order of the compilation units.  Say that the runs over a
program and over the same program with its units in another order both succeed, and the first is
impartial.  What it admits, the other admits as well if it examines it, and if the other is
impartial too, then an entity that both examine is admitted by both or by none.

The hypotheses cannot be spared: the second part fails for a run that is not impartial, whether
an access type outlives what it designates (`verdict_turned_turnedSample`) or only a question was
asked too early (`verdict_turned_defaultSample`), and where a package is declared twice, both
runs may be impartial and disagree (`verdict_turned_packageSample`). -/
theorem verdicts_reordered {units : List Node} (hu : units.Perm S.program.units)
    (hp : S.program.PackagesUnique) {r r' : Run} (h : S.wholeProgram {} = .ok () r)
    (h' : (S.withUnits units).wholeProgram {} = .ok () r') (hi : S.Impartial r) :
  (∀ id ∈ r.verdicts.admitted, id ∈ r'.verdicts.examined → id ∈ r'.verdicts.admitted)
    ∧ ((S.withUnits units).Impartial r' →
      ∀ id ∈ r.verdicts.examined, id ∈ r'.verdicts.examined →
        (id ∈ r.verdicts.admitted ↔ id ∈ r'.verdicts.admitted))
  := by
  constructor
  · intro id ha hx'
    exact admitted_of_firm ((firm_withUnits hu hp).2 (hi.firm h)) h' hx' ha
  · intro hi' id hx hx'
    calc id ∈ r.verdicts.admitted
      _ ↔ ∃ A, S.Firm A ∧ A id := hi.admitted_iff h hx
      _ ↔ ∃ A, (S.withUnits units).Firm A ∧ A id := by simp only [firm_withUnits hu hp]
      _ ↔ id ∈ r'.verdicts.admitted := (hi'.admitted_iff h' hx').symm

/-- A procedure with a parameter whose default calls a function with a literal, and an access
type to an incomplete type with a full view. -/
def questionSample : Setting :=
  (ofParts?
    [{ name := "T", kind := .type { definition := .signed 0 9 } },
      { name := "I", kind := .type { definition := .incomplete (some "T") } },
      { name := "A", kind := .type { definition := .access { designated := "I" } } },
      { name := "Y", kind := .parameter { type := "T" } },
      { name := "F", kind := .subprogram {
          kind := .function, parameters := ["Y"], result := some "T" } },
      { name := "X", kind := .parameter {
          type := "T"
          default := some (.plain (.call "F" [.plain (.literal (.integer 1))])) } },
      { name := "P", kind := .subprogram { kind := .procedure, parameters := ["X"] } }]
    [.plain (.declaration .type "A"), .plain (.declaration .subprogram "P")]).get
    (by decide +kernel)

theorem verdicts_reordered_questionSample :
  let S := questionSample
  let units := S.program.units.reverse
  let r := (S.wholeProgram.after {}).2
  let r' := ((S.withUnits units).wholeProgram.after {}).2
  units.Perm S.program.units ∧ S.program.PackagesUnique
    ∧ S.wholeProgram {} = .ok () r ∧ (S.withUnits units).wholeProgram {} = .ok () r'
    ∧ S.Impartial r ∧ (S.withUnits units).Impartial r' ∧ "P" ∈ r.verdicts.examined
    ∧ ("A" ∈ r'.verdicts.admitted) ∧ ("P" ∈ r.verdicts.admitted ↔ "P" ∈ r'.verdicts.admitted)
  := by
  have hu := List.reverse_perm questionSample.program.units
  have hp : questionSample.program.PackagesUnique := fun id => by
    have hn : Node.packagesOf questionSample.program.units = [] := by decide +kernel
    simp [hn]
  have h : questionSample.wholeProgram {} = .ok () (questionSample.wholeProgram.after {}).2 :=
    Act.eq_ok_of_after (by decide +kernel)
  have h' : (questionSample.withUnits questionSample.program.units.reverse).wholeProgram {}
      = .ok () ((questionSample.withUnits
        questionSample.program.units.reverse).wholeProgram.after {}).2 :=
    Act.eq_ok_of_after (by decide +kernel)
  have hi : questionSample.Impartial (questionSample.wholeProgram.after {}).2 := by
    decide +kernel
  have hi' : (questionSample.withUnits questionSample.program.units.reverse).Impartial
      ((questionSample.withUnits
        questionSample.program.units.reverse).wholeProgram.after {}).2 := by
    decide +kernel
  obtain ⟨hadmitted, hsame⟩ := verdicts_reordered hu hp h h' hi
  refine ⟨hu, hp, h, h', hi, hi', by decide +kernel, ?_, ?_⟩
  · exact hadmitted "A" (by decide +kernel) (by decide +kernel)
  · exact hsame hi' "P" (by decide +kernel) (by decide +kernel)

/-- An access type to a type whose completion fails later, and a declaration of the type. -/
def turnedSample : Setting :=
  (ofParts? (chainEntities none)
    [.plain (.declaration .type "A1"), .plain (.declaration .type "I1")]).get
    (by decide +kernel)

/-- The access type is admitted in one order, and excluded in the other one. -/
theorem verdict_turned_turnedSample :
  let S := turnedSample
  let units := S.program.units.reverse
  let r := (S.wholeProgram.after {}).2
  let r' := ((S.withUnits units).wholeProgram.after {}).2
  units.Perm S.program.units
    ∧ S.wholeProgram {} = .ok () r ∧ (S.withUnits units).wholeProgram {} = .ok () r'
    ∧ "A1" ∈ r.verdicts.examined ∧ "A1" ∈ r'.verdicts.examined
    ∧ "A1" ∈ r.verdicts.admitted ∧ "A1" ∉ r'.verdicts.admitted
  :=
  ⟨List.reverse_perm _, Act.eq_ok_of_after (by decide +kernel),
    Act.eq_ok_of_after (by decide +kernel), by decide +kernel, by decide +kernel,
    by decide +kernel, by decide +kernel⟩

/-- Questions matter on their own: in this order the default of `defaultSample` is excluded,
in the reverse order it is admitted, and so is all that admitted access types designate. -/
theorem verdict_turned_defaultSample :
  let units := [.plain (.declaration .type "D"), .plain (.declaration .subprogram "P")]
  let S := defaultSample.withUnits units
  let r := (S.wholeProgram.after {}).2
  let r' := ((S.withUnits units.reverse).wholeProgram.after {}).2
  S.wholeProgram {} = .ok () r ∧ (S.withUnits units.reverse).wholeProgram {} = .ok () r'
    ∧ S.Impartial r ∧ "X1" ∈ r.verdicts.examined ∧ "X1" ∉ r.verdicts.admitted
    ∧ "X1" ∈ r'.verdicts.admitted ∧ ∀ access ∈ r'.verdicts.admitted.toList,
      (S.designated access).toOption.all (· ∈ r'.verdicts.admitted)
  :=
  ⟨Act.eq_ok_of_after (by decide +kernel), Act.eq_ok_of_after (by decide +kernel),
    by decide +kernel, by decide +kernel, by decide +kernel, by decide +kernel,
    by decide +kernel⟩

/-- A package that is declared twice, with a type and with a type that is never completed. -/
def packageSample : Setting :=
  (ofParts?
    [{ name := "P", kind := .package none },
      { name := "T", kind := .type { definition := .signed 0 9 } },
      { name := "I", kind := .type { definition := .incomplete none } }]
    [.plain (.package "P" [.plain (.declaration .type "I")] []),
      .plain (.package "P" [.plain (.declaration .type "T")] [])]).get
    (by decide +kernel)

/-- The last declaration of a package counts: two of them make the order of units matter. -/
theorem verdict_turned_packageSample :
  let S := packageSample
  let units := S.program.units.reverse
  let r := (S.wholeProgram.after {}).2
  let r' := ((S.withUnits units).wholeProgram.after {}).2
  S.wholeProgram {} = .ok () r ∧ (S.withUnits units).wholeProgram {} = .ok () r'
    ∧ S.Impartial r ∧ (S.withUnits units).Impartial r'
    ∧ "P" ∈ r.verdicts.admitted ∧ "P" ∈ r'.verdicts.examined ∧ "P" ∉ r'.verdicts.admitted
  :=
  ⟨Act.eq_ok_of_after (by decide +kernel), Act.eq_ok_of_after (by decide +kernel),
    by decide +kernel, by decide +kernel, by decide +kernel, by decide +kernel,
    by decide +kernel⟩

end Setting

end Conformance
