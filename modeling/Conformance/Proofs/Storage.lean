import Conformance.Proofs.Calls
import Conformance.Proofs.CoveredInquiries
import Mathlib.Logic.Relation

/-!
# Values that accepted code stores

Whatever an upheld matter comes to is nested in something that its inquiry covers, so the
inquiry came to all of it, and each value that is stored there was checked.  No check was left
out: an upheld matter has a favourable path, on which no static type is excluded, and what
it asks for was consulted before.
-/

namespace Conformance

namespace Setting

open Inquiry
open Relation (ReflTransGen)

variable {S : Setting}

/-- A favourable path of the inquiry into an object goes through the check of the initial
value. -/
theorem fits_of_objectInquiry {e : Entity} {o : ObjectFacet} {value : Node} {path : List Step}
    (ho : o.initial = some value) (h : (S.objectInquiry e o).Favours path ()) :
  S.StoredFits o.type o.constant value
  := by
  obtain ⟨p, admitted, q, rfl, hp, h₁⟩ := favours_bind_iff.1 h
  obtain ⟨rfl, -⟩ := favours_ask.1 hp
  rw [ho] at h₁
  obtain ⟨p, ⟨⟩, q, rfl, -, h₂⟩ := favours_bind_iff.1 h₁
  obtain ⟨p, ⟨⟩, q, rfl, hp, -⟩ := favours_bind_iff.1 h₂
  exact fits_of_stored hp

theorem fits_of_componentInquiry {e : Entity} {c : ComponentFacet} {value : Node}
    {path : List Step} (hc : c.default = some value)
    (h : (S.componentInquiry e c).Favours path ()) :
  S.DefaultFits c.type value
  := by
  obtain ⟨p, admitted, q, rfl, hp, h₁⟩ := favours_bind_iff.1 h
  obtain ⟨rfl, -⟩ := favours_ask.1 hp
  rw [hc] at h₁
  obtain ⟨p, anonymous, q, rfl, -, h₂⟩ := favours_bind_iff.1 h₁
  cases anonymous with
  | true =>
    obtain ⟨p, ⟨⟩, q, rfl, hp, -⟩ := favours_bind_iff.1 h₂
    exact (favours_violation.1 hp).elim
  | false =>
    obtain ⟨p, ⟨⟩, q, rfl, -, h₃⟩ := favours_bind_iff.1 h₂
    obtain ⟨p, ⟨⟩, q, rfl, hp, -⟩ := favours_bind_iff.1 h₃
    exact fits_of_default hp

/-- What is a part of a node that a matter came to is come to as well, however deeply it is
nested, and what is stored there fits. -/
theorem Supports.stores_fit {r : Run} {m : Matter} {i : Inquiry Unit} {path : List Step}
    (hs : S.Supports r m i path) {whole part : Role × Node} (hv : whole ∈ r.visits m)
    (hp : ReflTransGen Node.IsPart whole part) :
  part ∈ r.visits m ∧ S.StoresFit part.1 part.2
  := by
  have hthorough := hs.inquires.covers.thorough hs.favours hs.consistent
  induction hp with
  | refl => exact ⟨hv, (hthorough _ _ (hs.visits _ _ (Run.mem_visits.1 hv))).1⟩
  | @tail whole part _ hpart ih =>
    have hw := (hthorough _ _ (hs.visits _ _ (Run.mem_visits.1 ih.1))).2 part hpart
    exact ⟨Run.mem_visits.2 (hs.records _ hw), (hthorough _ _ hw).1⟩

/-- The declaration of an admitted entity has a favourable path, and it comes to all that the
declaration holds. -/
theorem declared_of_admitted {r : Run} (h : S.wholeProgram {} = .ok () r) {e : Entity}
    (he : S.program.entity e.name = .ok e) (ha : e.name ∈ r.verdicts.admitted) :
  (∃ path, (S.entityInquiry e).Favours path ())
    ∧ ∀ part ∈ S.declaredParts e, part ∈ r.visits (.declaration e.name)
  := by
  obtain ⟨i, path, hs⟩ := supported_of_admitted h ha
  obtain rfl := hs.inquires.eq_of_declaration he
  have hk := hs.consistent
  have hrecords := hs.records
  obtain ⟨p, ⟨⟩, q, rfl, hp, -⟩ := favours_bind_iff.1 hs.favours
  refine ⟨⟨p, hp⟩, fun part hpart => ?_⟩
  have hv := (covers_entityInquiry e p () hp hk.left).1 part hpart
  exact Run.mem_visits.2 (hrecords _ (List.mem_append_left q hv))

/-- Values that accepted code stores satisfy the ownership rules: the initial values of admitted
objects, the defaults of admitted components, and what is stored by the statements and in the
expressions of upheld matters, however deeply they are nested. -/
theorem stored_values_fit {r : Run} (hn : (Node.bodiedOf S.program.units).Nodup)
    (h : S.wholeProgram {} = .ok () r) :
  (∀ e, S.program.entity e.name = .ok e → e.name ∈ r.verdicts.admitted →
      (∀ part ∈ S.declaredParts e, part ∈ r.visits (.declaration e.name))
      ∧ (∀ o value, e.kind = .object o → o.initial = some value →
        S.StoredFits o.type o.constant value)
      ∧ ∀ c value, e.kind = .component c ∨ e.kind = .discriminant c → c.default = some value →
        S.DefaultFits c.type value)
    ∧ ∀ m, r.verdicts.upholds m → ∀ whole ∈ r.visits m, ∀ part,
      ReflTransGen Node.IsPart whole part →
        part ∈ r.visits m ∧ S.StoresFit part.1 part.2
  := by
  constructor
  · intro e he ha
    obtain ⟨⟨path, hp⟩, hparts⟩ := declared_of_admitted h he ha
    unfold entityInquiry at hp
    refine ⟨hparts, fun o value hk ho => ?_, fun c value hk hc => ?_⟩
    · rw [hk] at hp
      exact fits_of_objectInquiry ho hp
    · have hp : (S.componentInquiry e c).Favours path () := by
        obtain hk | hk := hk <;> rwa [hk] at hp
      exact fits_of_componentInquiry hc hp
  · intro m hm whole hv part hp
    obtain ⟨i, path, hs⟩ := supported_of_upholds h hn hm
    exact hs.stores_fit hv hp

/-! ### Objects, assignments and components -/

/-- Two objects of access types, a component with a default, and a procedure that assigns an
allocated record, which holds another allocated value. -/
def storeSample : Setting :=
  (ofParts?
    [{ name := "T", kind := .type { definition := .signed 0 9 } },
      { name := "A", kind := .type { definition := .access { designated := "T" } } },
      { name := "N", kind := .component {
          type := "A", default := some ⟨0, {}, some "A", .allocator "T" none⟩ } },
      { name := "R", kind := .type { definition := .record { components := ["N"] } } },
      { name := "B", kind := .type { definition := .access { designated := "R" } } },
      { name := "V", kind := .object {
          type := "A", initial := some ⟨0, {}, some "A", .allocator "T" none⟩ } },
      { name := "W", kind := .object { type := "B" } },
      { name := "Q", kind := .subprogram { kind := .procedure } }]
    [.plain (.declaration .object "V"),
      .plain (.body .subprogram "Q" none []
        [.plain (.assignment ⟨0, {}, some "B", .identifier "W"⟩
          ⟨0, {}, some "B", .allocator "R" (some ⟨0, {}, some "R",
            .aggregate [⟨[], false, ⟨0, {}, some "A", .allocator "T" none⟩⟩]⟩)⟩)])]).get
    (by decide +kernel)

theorem stored_values_fit_storeSample :
  let r := (storeSample.wholeProgram.after {}).2
  (Node.bodiedOf storeSample.program.units).Nodup ∧ storeSample.wholeProgram {} = .ok () r
    ∧ storeSample.isOwning "A" = .ok true ∧ storeSample.isOwning "B" = .ok true
    ∧ storeSample.StoredFits "A" false ⟨1, {}, some "A", .allocator "T" none⟩
    ∧ storeSample.DefaultFits "A" ⟨0, {}, some "A", .allocator "T" none⟩
    ∧ ∃ role n target value part, (role, n) ∈ r.visits (.body "Q")
      ∧ n.assignment? role = some (target, value) ∧ target.type = some "B"
      ∧ storeSample.StoredFits "B" false value
      ∧ ReflTransGen Node.IsPart (role, n) part ∧ part ∈ r.visits (.body "Q")
      ∧ (part.2.associations part.1).length = 1
      ∧ ∀ a ∈ part.2.associations part.1, storeSample.AssociationFits a
  := by
  have hn : (Node.bodiedOf storeSample.program.units).Nodup := by decide +kernel
  have h : storeSample.wholeProgram {} = .ok () (storeSample.wholeProgram.after {}).2 :=
    Act.eq_ok_of_after (by decide +kernel)
  obtain ⟨hdeclared, hmatters⟩ := stored_values_fit hn h
  have hq : (storeSample.wholeProgram.after {}).2.verdicts.upholds (.body "Q") := by
    decide +kernel
  have hv : ((storeSample.wholeProgram.after {}).2.visits (.body "Q")).any (fun v =>
      ((v.2.assignment? v.1).any fun a => a.1.type == some "B")
        && (v.2.parts v.1).any fun part => (part.2.parts part.1).any fun inner =>
          (inner.2.associations inner.1).length == 1) := by
    decide +kernel
  obtain ⟨-, hobject, -⟩ := hdeclared
    { name := "V", kind := .object {
        type := "A", initial := some ⟨1, {}, some "A", .allocator "T" none⟩ } }
    rfl (by decide +kernel)
  obtain ⟨-, -, hcomponent⟩ := hdeclared
    { name := "N", kind := .component {
        type := "A", default := some ⟨0, {}, some "A", .allocator "T" none⟩ } }
    rfl (by decide +kernel)
  refine ⟨hn, h, rfl, rfl, hobject _ _ rfl rfl, hcomponent _ _ (Or.inl rfl) rfl, ?_⟩
  obtain ⟨⟨role, n⟩, hv, hp⟩ := List.any_eq_true.1 hv
  obtain ⟨ha, hp⟩ := Bool.and_eq_true_iff.1 hp
  obtain ⟨⟨target, value⟩, ha, ht⟩ := (Option.any_eq_true _ _).1 ha
  have ht : target.type = some "B" := by simpa using ht
  obtain ⟨part, hpart, hp⟩ := List.any_eq_true.1 hp
  obtain ⟨inner, hinner, hl⟩ := List.any_eq_true.1 hp
  have hnested : ReflTransGen Node.IsPart (role, n) inner := .tail (.single hpart) hinner
  obtain ⟨-, hfits⟩ := hmatters _ hq _ hv _ .refl
  obtain ⟨hvisited, hfits'⟩ := hmatters _ hq _ hv _ hnested
  exact ⟨role, n, target, value, inner, hv, ha, ht, hfits.assigned target value "B" ha ht,
    hnested, hvisited, by simpa using hl, hfits'.associated⟩

end Setting

end Conformance
