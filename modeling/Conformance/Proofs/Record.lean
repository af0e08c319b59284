import Conformance.Proofs.Steady

/-!
# The journal as a record of exclusions

Whenever an entity is excluded, whether at the end of its decision or after the fact, this is
noted in the journal along with the cause.  `Setting.Recorded` is the invariant of the register:
the recorded causes are those of the exclusions noted, no entity is excluded twice, and bodies
are admitted with their entities and as noted.

`causes_written_once` is the result, for the runs of all sessions.
-/

namespace Conformance

open Relation (ReflTransGen)

/-- The entity that an event excludes. -/
def Event.excluded? : Event → Option EntityId
  | .excluded id _ => some id
  | _ => none

theorem Event.excluded?_eq_some_iff {event : Event} {id : EntityId} :
  event.excluded? = some id ↔ ∃ cause, event = .excluded id cause
  := by cases event <;> simp [Event.excluded?, eq_comm]

namespace Run

/-- The entities that were excluded, the latest first. -/
def exclusions (r : Run) : List EntityId := r.journal.filterMap Event.excluded?

theorem filterMap_log (r : Run) :
  r.register.log.filterMap Event.excluded? = r.exclusions
  := by
  change (r.journal.filter Event.isVerdict).filterMap Event.excluded? = _
  rw [List.filterMap_filter]
  apply List.filterMap_congr
  intro event _
  cases event <;> rfl

theorem mem_log_iff {r : Run} {event : Event} :
  event ∈ r.register.log ↔ event ∈ r.journal ∧ event.isVerdict = true
  := List.mem_filter

/-- What an exclusion adds to the log. -/
theorem Excises.log {r r' : Run} {id : EntityId} {cause : Site} (h : r.Excises id cause r') :
  ∃ ids : List EntityId, r'.register.log = ids.map (.excluded · cause) ++ r.register.log
    ∧ ids.Nodup ∧ ∀ x, x ∈ ids ↔ x = id ∨ r.Loses r' x
  := by
  obtain ⟨ids, hj, hd, hn⟩ := h.notes
  refine ⟨ids, ?_, hd, hn⟩
  change r'.journal.filter Event.isVerdict = _
  rw [hj, List.filter_append, List.filter_eq_self.2]
  · rfl
  · intro e he
    obtain ⟨x, -, rfl⟩ := List.mem_map.1 he
    rfl

end Run

namespace Setting

variable {S : Setting} {r r' r₀ : Run} {id : EntityId} {cause : Site}

/-- The log of a register bears out its verdicts. -/
structure Recorded (g : Register) : Prop where
  excluded : ∀ x cause, .excluded x cause ∈ g.log ↔ g.causes[x]? = some cause
  once : (g.log.filterMap Event.excluded?).Nodup
  bodies : ∀ x ∈ g.admittedBodies, x ∈ g.admitted ∧ .admittedBody x ∈ g.log

theorem recorded_empty :
  Recorded ({} : Run).register
  := by constructor <;> simp [Run.register]

/-- What an exclusion hits was admitted, so that no exclusion of it was noted before. -/
theorem Recorded.excise (h : Recorded r.register) (hs : S.Sorted r.register)
    (ha : id ∈ r.verdicts.admitted) (hx : r.Excises id cause r') :
  Recorded r'.register
  := by
  obtain ⟨ids, hl, hd, hn⟩ := hx.log
  have fresh {x : EntityId} (hx' : x ∈ ids) (cause' : Site) :
      .excluded x cause' ∉ r.register.log := by
    have hadm : x ∈ r.verdicts.admitted := by
      obtain rfl | hx' := (hn x).1 hx'
      · exact ha
      · exact hx'.1
    rw [h.excluded, hs.causes_eq_none hadm]
    exact nofun
  constructor
  case excluded =>
    intro x cause'
    rw [hl, List.mem_append]
    by_cases hx' : x ∈ ids
    · have hc : r'.register.causes[x]? = some cause := hx.causes_of_lost x ((hn x).1 hx')
      rw [hc, or_iff_left (fresh hx' cause')]
      simp [hx', eq_comm]
    · have hc : r'.register.causes[x]? = r.register.causes[x]? := by
        rw [hn, not_or] at hx'
        exact hx.causes_of_kept x hx'.1 hx'.2
      rw [hc, ← h.excluded]
      simp [hx']
  case once =>
    have hids : (ids.map (Event.excluded · cause)).filterMap Event.excluded? = ids := by
      rw [List.filterMap_map]
      exact List.filterMap_some
    rw [hl, List.filterMap_append, hids, List.nodup_append]
    refine ⟨hd, h.once, fun x hx' y hy he => ?_⟩
    obtain ⟨event, hm, hy⟩ := List.mem_filterMap.1 hy
    obtain ⟨cause', rfl⟩ := Event.excluded?_eq_some_iff.1 hy
    exact fresh hx' cause' (he ▸ hm)
  case bodies =>
    intro x hb
    obtain ⟨hadm, hm⟩ := h.bodies x (hx.strikes.admittedBodies hb)
    refine ⟨by_contra fun hn' => hx.strikes.lost_body x ⟨hadm, hn'⟩ hb, ?_⟩
    rw [hl]
    exact List.mem_append_right _ hm

theorem recorded_of_turn (t : S.Turn r r') (hs : S.Sorted r.register)
    (h : Recorded r.register) :
  Recorded r'.register
  := by
  cases t with
  | same he => rwa [he]
  | @«open» e mode r o =>
    rw [r.register_open]
    refine ⟨h.excluded, h.once, fun x hb => ?_⟩
    exact ⟨mem_insert_iff.2 (Or.inr (h.bodies x hb).1), (h.bodies x hb).2⟩
  | publish _ hp =>
    obtain ⟨roster, rfl⟩ := S.publish_eq_ok hp
    exact ⟨h.excluded, h.once, h.bodies⟩
  | @admitBody x r ha =>
    constructor
    case excluded =>
      intro y cause
      exact (List.mem_cons.trans (or_iff_right (by simp))).trans (h.excluded y cause)
    case once => exact h.once
    case bodies =>
      intro y hy
      obtain rfl | hy := mem_insert_iff.1 hy
      · exact ⟨ha, List.mem_cons_self⟩
      · exact ⟨(h.bodies y hy).1, List.mem_cons_of_mem _ (h.bodies y hy).2⟩
  | excise ha hx => exact h.excise hs ha hx
  | off | excludeBody | close => exact ⟨h.excluded, h.once, h.bodies⟩

theorem Stops.recorded (s : S.Stops r r') (h : Recorded r.register) :
  Recorded r'.register
  := by cases s <;> exact ⟨h.excluded, h.once, h.bodies⟩

theorem Sound.recorded (h : S.Sound r₀ r) (hs : S.Sorted r₀.register)
    (h₀ : Recorded r₀.register) :
  Recorded r.register
  := by
  have hall : S.Sorted r.register ∧ Recorded r.register :=
    h.induction (P := fun g => S.Sorted g ∧ Recorded g)
      (fun _ _ t hg => ⟨sorted_of_turn t hg.1, recorded_of_turn t hg.1 hg.2⟩)
      (fun _ _ s hg => ⟨s.sorted hg.1, s.recorded hg.2⟩) ⟨hs, h₀⟩
  exact hall.2

theorem recorded_of_turns (ht : ReflTransGen S.Turn {} r) :
  Recorded r.register
  := by
  induction ht with
  | refl => exact recorded_empty
  | tail ht t ih => exact recorded_of_turn t (sorted_of_turns ht sorted_empty) ih

/-- In the runs of all sessions, also after acts that failed and in the middle of an act, the
recorded causes of entities are those with which their exclusions are noted, and no entity is
excluded twice.  What is recorded for an entity stays, whatever a session does after it, and
wherever the run goes to within an act. -/
theorem causes_written_once :
  (∀ r, S.Arises {} r → r.exclusions.Nodup
      ∧ ∀ id cause, .excluded id cause ∈ r.journal ↔ r.verdicts.causes[id]? = some cause)
    ∧ (∀ r, S.Rested {} r → ∀ r', S.Arises r r' → ∀ (id : EntityId) cause,
      r.verdicts.causes[id]? = some cause → r'.verdicts.causes[id]? = some cause)
    ∧ ∀ M, S.Reached {} M → ∀ M', ReflTransGen S.Goes M M' → ∀ (id : EntityId) cause,
      M.run.verdicts.causes[id]? = some cause → M'.run.verdicts.causes[id]? = some cause
  := by
  have barred {r : Run} (hs : S.Sorted r.register) {id : EntityId} {cause : Site}
      (hc : r.verdicts.causes[id]? = some cause) : Barred id (some cause) r.register := by
    obtain ⟨hx, ha⟩ := hs.caused id (by rw [Register.Caused]; exact hc ▸ rfl)
    exact ⟨hx, ha, hc⟩
  refine ⟨fun r hr => ?_, fun r hr r' hr' id cause hc => ?_, fun M hM M' g id cause hc => ?_⟩
  · have h := (sound_of_arises hr Run.coherent_empty).recorded sorted_empty recorded_empty
    refine ⟨r.filterMap_log ▸ h.once, fun id cause => ?_⟩
    have he := h.excluded id cause
    rw [Run.mem_log_iff] at he
    exact (and_iff_left rfl).symm.trans he
  · have h := sound_of_rested hr Run.coherent_empty
    have hb := barred (h.sorted sorted_empty) hc
    exact ((sound_of_arises hr' h.coherent).barred hb).2.2
  · obtain ⟨h, hu, -⟩ := sound_of_reached hM Run.coherent_empty
    have hb := barred (h.sorted sorted_empty) hc
    exact (barred_of_turns (follows_of_goes_to g h.coherent hu).turns hb).2.2

end Setting

end Conformance
