import Conformance.Proofs.Postponement
import Conformance.Proofs.Withdrawal

/-!
# The ledger of postponed tasks

Each task stands for its kind and an entity, its slot: the mode that aspects are reported in
does not tell tasks apart.  The ledger of a run is balanced if the slots of the tasks that were
served and of those that wait are all different, and are exactly those that the backlog takes
no more.  So no task is served twice, and none that was taken is lost.
-/

namespace Conformance

/-- A task apart from the mode that it is served in. -/
def Task.slot : Task → Task
  | .aspects type _ => .aspects type none
  | t => t

theorem Task.slot_slot (t : Task) :
  t.slot.slot = t.slot
  := by cases t <;> rfl

/-- The entity that a task is about. -/
def Task.entity : Task → EntityId
  | .declaration id | .aspects id _ | .completion id => id

/-- The task that an event serves. -/
def Event.task? : Event → Option Task
  | .served t => some t
  | _ => none

/-- The tasks that were served, the latest first. -/
def Run.services (r : Run) : List Task := r.journal.filterMap Event.task?

namespace Backlog

variable {b b' : Backlog} {t t' : Task}

theorem takes_slot (b : Backlog) (t : Task) :
  b.takes t.slot = b.takes t
  := by cases t <;> rfl

theorem takes_push_slot :
  (b.push t).takes t' = (b.takes t' && t'.slot != t.slot)
  := by
  rw [takes_push]
  cases t <;> cases t' <;> simp [Task.slot, bne, BEq.beq]

theorem push_eq_self (h : b.takes t = false) :
  b.push t = b
  := by
  cases t with
  | declaration id =>
    have h : b.declarations.takes id = false := h
    simp [push, Lane.push, h]
  | aspects type anchor =>
    have h : b.aspects.takes type = false := h
    simp [push, Lane.push, h]
  | completion access =>
    have h : b.completions.takes access = false := h
    simp [push, Lane.push, h]

/-- Where no task is served next, none waits. -/
theorem toList_of_next?_eq_none (h : b.next? = none) :
  b.toList = []
  := by
  have hw := not_awaits_of_next? h
  rw [List.eq_nil_iff_forall_not_mem]
  intro t ht
  apply hw t
  cases t <;> simp [toList, Awaits] at ht ⊢ <;> grind

/-- A task that is taken waits along with the others. -/
theorem toList_push_perm (h : b.takes t = true) :
  (b.push t).toList.Perm (t :: b.toList)
  := by
  cases t with
  | declaration id =>
    have h : b.declarations.takes id = true := h
    simp only [toList, push, Lane.waiting_push, h, if_true, List.map_append, List.append_assoc]
    exact List.perm_middle
  | aspects type anchor =>
    have h : b.aspects.takes type = true := h
    simp only [toList, push, Lane.waiting_push, h, if_true, List.map_append, List.append_assoc]
    exact (List.perm_middle.append_left _).trans List.perm_middle
  | completion access =>
    have h : b.completions.takes access = true := h
    simp only [toList, push, Lane.waiting_push, h, if_true, List.map_append, ← List.append_assoc]
    exact List.perm_append_singleton _ _

end Backlog

namespace Run

/-- The slots of the tasks that were served and of those that wait. -/
def slots (r : Run) : List Task :=
  (r.services ++ r.verdicts.backlog.toList).map Task.slot

/-- Every task that was taken was served once, or waits to be served. -/
structure Balanced (r : Run) : Prop where
  once : r.slots.Nodup
  taken : ∀ t, r.verdicts.backlog.takes t = false ↔ t.slot ∈ r.slots

variable {r r' : Run}

theorem balanced_empty :
  Balanced {}
  := ⟨by decide, fun t => by cases t <;> simp [Backlog.takes, Lane.takes, slots, services, Backlog.toList]⟩

theorem Balanced.same (h : r.Balanced) (hb : r'.verdicts.backlog = r.verdicts.backlog)
    (hs : r'.services = r.services) :
  r'.Balanced
  := by
  have hslots : r'.slots = r.slots := by rw [slots, slots, hb, hs]
  exact ⟨hslots ▸ h.once, by rw [hslots, hb]; exact h.taken⟩

theorem Balanced.nodup_services (h : r.Balanced) :
  (r.services.map Task.slot).Nodup
  := by
  have ho := h.once
  rw [slots, List.map_append] at ho
  exact (List.nodup_append.1 ho).1

/-- A task that is postponed stands once. -/
theorem Balanced.postpone (h : r.Balanced) (t : Task) :
  (r.rule fun v => { v with backlog := v.backlog.push t }).Balanced
  := by
  cases ht : r.verdicts.backlog.takes t with
  | false => exact h.same (Backlog.push_eq_self ht) rfl
  | true =>
    have hp : (slots (r.rule fun v => { v with backlog := v.backlog.push t })).Perm
        (t.slot :: r.slots) := by
      have hb := (Backlog.toList_push_perm ht).append_left r.services
      exact (hb.trans List.perm_middle).map Task.slot
    constructor
    · rw [hp.nodup_iff, List.nodup_cons, ← Task.slot_slot, ← h.taken, Backlog.takes_slot, ht]
      exact ⟨by simp, h.once⟩
    · intro t'
      rw [hp.mem_iff, List.mem_cons, ← h.taken]
      change (r.verdicts.backlog.push t).takes t' = false ↔ _
      rw [Backlog.takes_push_slot, Bool.and_eq_false_iff, bne_eq_false_iff_eq, or_comm]

/-- The task that is served next was never served before. -/
theorem Balanced.serve (h : r.Balanced) {t : Task} {b : Backlog}
    (hn : r.verdicts.backlog.next? = some (t, b)) :
  ((r.rule fun v => { v with backlog := b }).note (.served t)).Balanced
  := by
  have hs : (slots ((r.rule fun v => { v with backlog := b }).note (.served t))).Perm
      r.slots := by
    change ((t :: r.services ++ b.toList).map Task.slot).Perm _
    rw [slots, Backlog.toList_of_next? hn]
    exact (List.perm_middle.map Task.slot).symm
  constructor
  · exact hs.nodup_iff.2 h.once
  · intro t'
    rw [hs.mem_iff, ← h.taken]
    exact iff_of_eq (congrArg (· = false) (Backlog.takes_of_next? hn t'))

/-! ### What changes the ledger -/

/-- What the ledger is about: the entities that were examined, the tasks that wait, and those
that were served. -/
def agenda (r : Run) : Std.TreeSet EntityId × Backlog × List Task :=
  (r.verdicts.examined, r.verdicts.backlog, r.services)

theorem agenda_eq_iff :
  r'.agenda = r.agenda ↔ r'.verdicts.examined = r.verdicts.examined
    ∧ r'.verdicts.backlog = r.verdicts.backlog ∧ r'.services = r.services
  := by simp [agenda]

theorem Balanced.of_agenda (h : r.Balanced) (ha : r'.agenda = r.agenda) :
  r'.Balanced
  := by
  obtain ⟨-, hb, hs⟩ := agenda_eq_iff.1 ha
  exact h.same hb hs

theorem agenda_note {e : Event} (h : e.task? = none) :
  (r.note e).agenda = r.agenda
  := by simp [agenda, services, note, h]

theorem agenda_find (r : Run) (scope : Scope) (site : Site) (finding : Finding) :
  (r.find scope site finding).agenda = r.agenda
  := by cases finding <;> simp only [find, report] <;> split <;> rfl

theorem agenda_findExcluded (r : Run) (scope : Scope) (site : Site) (id : EntityId) :
  (r.findExcluded scope site id).agenda = r.agenda
  := by
  simp only [findExcluded, report]
  split <;> rfl

theorem Strikes.agenda {id : EntityId} (h : r.Strikes id r') :
  r'.agenda = r.agenda
  := by
  obtain ⟨new, hj, hn⟩ := h.journal
  have hnew : new.filterMap Event.task? = [] := by
    rw [List.filterMap_eq_nil_iff]
    intro e he
    obtain ⟨x, cause, rfl⟩ := hn e he
    rfl
  have hs : r'.services = r.services := by
    rw [services, hj, List.filterMap_append, hnew]
    rfl
  rw [Run.agenda, hs, h.frame]
  rfl

end Run

end Conformance
