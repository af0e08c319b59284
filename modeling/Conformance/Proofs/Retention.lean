import Conformance.Proofs.Partition

/-!
# What is retained

Whatever an act does while no completion is served, it spares what was there before: what
was admitted stays admitted, and the causes of entities that were examined stay as they are.
This holds in the middle of other acts and for acts that fail.  So a matter under way never
loses its entity, and an exclusion always has the cause of a violation.

`retraction_local` is the result.
-/

namespace Conformance

open Relation (ReflTransGen)

/-- Nothing admitted before is withdrawn, and no cause recorded before is changed. -/
structure Run.Spares (r r' : Run) : Prop where
  admitted : ∀ x ∈ r.verdicts.admitted, x ∈ r'.verdicts.admitted
  causes : ∀ x ∈ r.verdicts.examined, r'.verdicts.causes[x]? = r.verdicts.causes[x]?

namespace Setting

variable {S : Setting}

theorem lasting_advances (r : Run) :
  S.Lasting fun r' => S.Sound r r' ∧ ∃ new, r.Advances none new r'
  where
    coherent _ h := h.1.coherent
    passage _ _ _ h ha hr ht := by
      obtain ⟨hs, _, h⟩ := h
      exact ⟨hs.turn hr ht, _, h.append ha⟩
    stop _ _ h hs := by
      obtain ⟨h, _, ha⟩ := h
      exact ⟨lasting_sound.stop _ _ h hs, _, ha.append hs.advances⟩

/-- What stays admitted has no cause, before or afterwards, and what is excluded keeps its
cause. -/
theorem spares_of_sound {r r' : Run} {new : List Event} (h : S.Sound r r')
    (ha : r.Advances none new r') (hr : S.Sorted r.register) :
  r.Spares r'
  where
    admitted := ha.admitted
    causes x hx := by
      by_cases hx' : x ∈ r.verdicts.admitted
      · exact ((h.sorted hr).causes_eq_none (ha.admitted x hx')).trans
          (hr.causes_eq_none hx').symm
      · exact (h.barred (x := x) ⟨hx, hx', rfl⟩).2.2

/-- An act that keeps what lasts spares what was there before. -/
theorem spares_of_keeps {α : Type} {act : Act α}
    (h : ∀ P, S.Lasting P → act.Keeps P) {r : Run} (hr : S.Arises {} r) :
  r.Spares (act.after r).2
  := by
  have hs := sound_of_arises hr Run.coherent_empty
  obtain ⟨hs', new, ha⟩ := h _ (lasting_advances r) r
    ⟨⟨hs.coherent, .refl⟩, [], (Run.Same.refl r).advances none⟩
  exact spares_of_sound hs' ha (hs.sorted sorted_empty)

/-- In every run of a session, in the middle of an act as well, the decision of an entity
spares what was there before, whether it succeeds or fails; so does the service of a
declaration or of aspects, and a unit, which leaves completions as the only acts that withdraw
anything.  The entities of the matters under way are admitted, so what is excluded is violated:
there is a cause to record. -/
theorem retraction_local {S : Setting} :
  (∀ r, S.Arises {} r → ∀ levels id, r.Spares ((S.decideWithin levels id).after r).2)
    ∧ (∀ r, S.Rested {} r →
      (∀ id, r.Spares ((S.serve (.declaration id)).after r).2)
        ∧ (∀ type anchor, r.Spares ((S.serve (.aspects type anchor)).after r).2)
        ∧ ∀ n, r.Spares ((S.unit n).after r).2)
    ∧ (∀ M, S.Reached {} M → (∀ m ∈ M.stack, M.run.admits m.entity = true)
        ∧ ∀ m ∈ M.stack, (M.run.violated || !M.run.admits m.entity) = true →
          ∃ cause, M.run.cause = some cause)
    ∧ ∀ decide scope id site r r', Act.consult decide scope id site r = .ok false r' →
      ∃ cause, r'.cause = some cause
  := by
  refine ⟨?_, ?_, ?_, ?_⟩
  · intro r hr levels id
    exact spares_of_keeps (fun _ hP => keeps_decideWithin hP levels id) hr
  · intro r hr
    refine ⟨fun id => ?_, fun type anchor => ?_, fun n => ?_⟩
    · exact spares_of_keeps (fun _ hP => keeps_decideWithin hP _ id) (Or.inl hr)
    · exact spares_of_keeps (fun _ hP => keeps_serveAspects hP type anchor) (Or.inl hr)
    · exact spares_of_keeps (fun _ hP => keeps_unit hP n) (Or.inl hr)
  · intro M hM
    obtain ⟨-, -, hx⟩ := sound_of_reached hM Run.coherent_empty
    have ha (m : Matter) (hm : m ∈ M.stack) : M.run.admits m.entity = true :=
      Run.admits_iff.2 (hx m hm)
    refine ⟨ha, fun m hm hv => ?_⟩
    rw [ha m hm, Bool.not_true, Bool.or_false] at hv
    exact Option.isSome_iff_exists.1 hv
  · intro decide scope id site r r' h
    obtain ⟨r₁, -, hb, rfl⟩ := consult_eq_ok h
    exact Option.ne_none_iff_exists'.1 (cause_rest_of_not_admits hb.symm scope site)

/-- What is spared by a decision that fails, and the stack while a type is inquired into. -/
theorem retraction_local_kindsSample :
  let r := kindsSample.session {} kindsSession
  let r' := ((kindsSample.decideWithin 3 "U").after r).2
  ((kindsSample.decideWithin 3 "U").after r).1.isOk = false
    ∧ "T" ∈ r.verdicts.admitted ∧ "T" ∈ r'.verdicts.admitted
    ∧ "I" ∈ r.verdicts.examined ∧ r'.verdicts.causes["I"]? = r.verdicts.causes["I"]?
    ∧ ∃ M, kindsSample.Reached {} M ∧ M.stack = [.declaration "T"]
      ∧ M.run.admits "T" = true
  := by
  have hr : kindsSample.Arises {} (kindsSample.session {} kindsSession) :=
    Or.inl (Rested.start.session _)
  have hT : "T" ∈ (kindsSample.session {} kindsSession).verdicts.admitted := by decide +kernel
  have hI : "I" ∈ (kindsSample.session {} kindsSession).verdicts.examined := by decide +kernel
  obtain ⟨hspares, -, hmoments, -⟩ := @retraction_local kindsSample
  have h := hspares _ hr 3 "U"
  obtain ⟨e, hn, he⟩ : ∃ e : Entity, e.name = "T" ∧ kindsSample.program.entity e.name = .ok e :=
    ⟨{ name := "T", kind := .type { definition := .signed 0 9 } }, rfl, by rfl⟩
  have hm : kindsSample.modeOf e.name = .ok (none, none) := by
    rw [hn]
    decide +kernel
  have o : kindsSample.Opens e (none, none) {} := ⟨he, by simp, hm, by simp⟩
  have hM : kindsSample.Reached {} ⟨[.declaration e.name], e.declarationScope (none, none),
      kindsSample.entityInquiry e, ({} : Run).open e (none, none)⟩ :=
    .goes (.start (.decision e.name .start)) (.declaration rfl o)
  rw [hn] at hM
  refine ⟨by decide +kernel, hT, h.admitted "T" hT, hI, h.causes "I" hI, _, hM, rfl, ?_⟩
  exact (hmoments _ hM).1 _ List.mem_cons_self

end Setting

end Conformance
