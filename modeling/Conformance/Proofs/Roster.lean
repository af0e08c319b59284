import Conformance.Verdict.Roster
import Mathlib.Data.List.Nodup
import Mathlib.Data.List.Perm.Basic
import Mathlib.Logic.Relation
import Mathlib.Tactic.Common

/-!
# Positions in the order of publication

The line of a roster are the published entities, followed by those that are held back in
order of arrival; closing the roster publishes the line.  `Roster.Lined` is the invariant of
rosters: an entity that has to wait for another one is held back until the other one is
published.  `Roster.Ahead` says that an entity arrived before another one, and what became
of their order since: it is lost only if the first one waits, and the other one was published
before what the first one waits for, or waits for something that was released along with the
first one.

Between two arrivals entities are on their way from those that are held back to those that are
published, so both are stated with the list of entities that are published next.
-/

namespace Conformance

open Relation (TransGen)

/-- An entity comes before another one in a list. -/
def Precedes (l : List EntityId) (a b : EntityId) : Prop := [a, b].Sublist l

instance (l : List EntityId) (a b : EntityId) : Decidable (Precedes l a b) :=
  inferInstanceAs (Decidable ([a, b].Sublist l))

section

variable {l l' : List EntityId} {a b : EntityId}

theorem Precedes.mono (h : Precedes l a b) (hl : l.Sublist l') :
  Precedes l' a b
  := List.Sublist.trans h hl

theorem Precedes.left (h : Precedes l a b) :
  a ∈ l
  := h.subset List.mem_cons_self

theorem Precedes.right (h : Precedes l a b) :
  b ∈ l
  := h.subset (List.mem_cons_of_mem a List.mem_cons_self)

theorem not_precedes_singleton (a b c : EntityId) :
  ¬ Precedes [c] a b
  := by
  intro h
  have := h.length_le
  simp at this

/-- Where two entities stand in two lists, one after the other. -/
theorem precedes_append :
  Precedes (l ++ l') a b ↔ Precedes l a b ∨ a ∈ l ∧ b ∈ l' ∨ Precedes l' a b
  := by
  constructor
  · intro h
    obtain ⟨p, q, he, hp, hq⟩ := List.sublist_append_iff.1 h
    rcases p with _ | ⟨x, _ | ⟨y, p⟩⟩
    · obtain rfl : q = [a, b] := he.symm
      exact Or.inr (Or.inr hq)
    · obtain ⟨rfl, rfl⟩ : a = x ∧ [b] = q := List.cons.inj he
      exact Or.inr (Or.inl ⟨List.singleton_sublist.1 hp, List.singleton_sublist.1 hq⟩)
    · obtain ⟨rfl, rfl, hpq⟩ : a = x ∧ b = y ∧ [] = p ++ q := by simpa using he
      obtain ⟨rfl, -⟩ := List.append_eq_nil_iff.1 hpq.symm
      exact Or.inl hp
  · rintro (h | ⟨ha, hb⟩ | h)
    · exact h.mono (List.sublist_append_left l l')
    · exact List.Sublist.append (List.singleton_sublist.2 ha) (List.singleton_sublist.2 hb)
    · exact h.mono (List.sublist_append_right l l')

/-- Where nothing stands twice, the order is that of the part where the second one stands. -/
theorem precedes_of_mem_left (h : Precedes (l ++ l') a b) (hn : (l ++ l').Nodup) (hb : b ∈ l) :
  Precedes l a b
  := by
  have hd := List.disjoint_of_nodup_append hn hb
  obtain h | ⟨-, hb'⟩ | h := precedes_append.1 h
  · exact h
  · exact absurd hb' hd
  · exact absurd h.right hd

theorem Precedes.filter (h : Precedes l a b) {keep : EntityId → Bool} (ha : keep a = true)
    (hb : keep b = true) :
  Precedes (l.filter keep) a b
  := by
  have := List.Sublist.filter keep h
  simpa [Precedes, ha, hb] using this

end

namespace Roster

/-- The published entities, followed by those that are held back in order of arrival. -/
def line (r : Roster) : List EntityId := r.entries ++ r.held.map (·.2)

/-- The roster without the entities that are not kept. -/
def restrict (r : Roster) (keep : EntityId → Bool) : Roster :=
  ⟨r.entries.filter keep, r.held.filter fun h => keep h.2⟩

@[simp]
theorem restrict_true (r : Roster) :
  r.restrict (fun _ => true) = r
  := by simp [restrict]

theorem restrict_restrict (r : Roster) (keep keep' : EntityId → Bool) :
  (r.restrict keep).restrict keep' = r.restrict fun x => keep' x && keep x
  := by simp only [restrict, List.filter_filter]

/-! ### Who waits -/

/-- An entity that waits for another one is held back until the other one is published.  Here
`waits` says who has to wait for whom, `gone` who is excluded, and `ready` is published
next. -/
structure Lined (waits : EntityId → EntityId → Prop) (gone : EntityId → Prop) (r : Roster)
    (ready : List EntityId) : Prop where
  nodup : (r.entries ++ ready ++ r.held.map (·.2)).Nodup
  held : ∀ p x, (p, x) ∈ r.held → waits x p ∧ p ∉ r.entries
  cleared : ∀ x ∈ ready, ∀ p, waits x p → p ∈ r.entries
  /-- What comes later among those that are ready has waited for something that what comes
  earlier has waited for as well, by way of others perhaps. -/
  released : ready.Pairwise fun a b => ∃ p, waits b p ∧ TransGen waits a p
  placed : ∀ x ∈ r.entries, ∀ p, waits x p → Precedes r.entries p x ∨ gone p

section

variable {waits : EntityId → EntityId → Prop} {gone gone' : EntityId → Prop} {r : Roster}
  {ready : List EntityId} {id x e : EntityId}

theorem mem_waitingFor :
  x ∈ r.waitingFor id ↔ (id, x) ∈ r.held
  := by
  simp [waitingFor]

theorem lined_empty :
  Lined waits gone {} []
  := by constructor <;> simp

/-- What is held back is what waits for an entity along with what waits for others. -/
theorem perm_waitingFor (r : Roster) (id : EntityId) :
  (r.waitingFor id ++ (r.enter id).held.map (·.2)).Perm (r.held.map (·.2))
  := by
  have h := (List.filter_append_perm (·.1 == id) r.held).map (·.2)
  rwa [List.map_append] at h

theorem perm_enter (r : Roster) (id : EntityId) (ready : List EntityId) :
  ((r.enter id).entries ++ (r.waitingFor id ++ ready) ++ (r.enter id).held.map (·.2)).Perm
    (r.entries ++ (id :: ready) ++ r.held.map (·.2))
  := by
  simp only [enter, List.append_assoc, List.cons_append, List.nil_append]
  apply List.Perm.append_left
  apply List.Perm.cons
  apply (List.perm_append_comm_assoc _ _ _).trans
  exact (r.perm_waitingFor id).append_left ready

/-- The next entity is published. -/
theorem Lined.enter (hw : ∀ x p q, waits x p → waits x q → p = q)
    (h : Lined waits gone r (id :: ready)) :
  Lined waits gone (r.enter id) (r.waitingFor id ++ ready)
  where
    nodup := (r.perm_enter id ready).nodup_iff.2 h.nodup
    held p x hx := by
      obtain ⟨hx, hp⟩ := List.mem_filter.1 hx
      obtain ⟨hwait, hm⟩ := h.held p x hx
      refine ⟨hwait, fun hm' => ?_⟩
      obtain hm' | hm' := List.mem_append.1 hm'
      · exact hm hm'
      · simp [List.mem_singleton.1 hm'] at hp
    cleared x hx p hp := by
      obtain hx | hx := List.mem_append.1 hx
      · rw [hw x p id hp (h.held id x (mem_waitingFor.1 hx)).1]
        exact List.mem_append_right _ (List.mem_singleton_self id)
      · exact List.mem_append_left _ (h.cleared x (List.mem_cons_of_mem id hx) p hp)
    released := by
      have hwait {x : EntityId} (hx : x ∈ r.waitingFor id) : waits x id :=
        (h.held id x (mem_waitingFor.1 hx)).1
      obtain ⟨hfirst, hrest⟩ := List.pairwise_cons.1 h.released
      refine List.pairwise_append.2 ⟨?_, hrest, ?_⟩
      · apply List.pairwise_of_forall_mem_list
        exact fun a ha b hb => ⟨id, hwait hb, .single (hwait ha)⟩
      · intro a ha b hb
        obtain ⟨p, hp, hidp⟩ := hfirst b hb
        exact ⟨p, hp, hidp.head (hwait ha)⟩
    placed x hx p hp := by
      obtain hx | hx := List.mem_append.1 hx
      · exact (h.placed x hx p hp).imp_left (·.mono (List.sublist_append_left _ _))
      · obtain rfl := List.mem_singleton.1 hx
        have hm := h.cleared x List.mem_cons_self p hp
        exact Or.inl (precedes_append.2 (Or.inr (Or.inl ⟨hm, List.mem_singleton_self x⟩)))

/-- What is released was in the line or is ready. -/
theorem perm_release (r : Roster) (ready : List EntityId) :
  (r.release ready).line.Perm (r.entries ++ ready ++ r.held.map (·.2))
  := by
  fun_induction Roster.release r ready with
  | case1 r => simp [line]
  | case2 r id ready ih => exact ih.trans (r.perm_enter id ready)

theorem Lined.release (hw : ∀ x p q, waits x p → waits x q → p = q)
    (h : Lined waits gone r ready) :
  Lined waits gone (r.release ready) []
  := by
  fun_induction Roster.release r ready with
  | case1 r => exact h
  | case2 r id ready ih => exact ih (h.enter hw)

/-- An arrival changes nothing, or the entity has to wait, or it is published along with what
waits for it. -/
theorem publish_cases {prerequisite : Option EntityId}
    (hid : ∀ p, waits id p ↔ prerequisite = some p ∧ p ≠ id) :
  id ∈ r.line ∧ r.publish id prerequisite = r
    ∨ id ∉ r.line ∧ (∃ p, waits id p ∧ p ∉ r.entries
      ∧ r.publish id prerequisite = { r with held := r.held ++ [(p, id)] })
    ∨ id ∉ r.line ∧ (∀ p, waits id p → p ∈ r.entries)
      ∧ r.publish id prerequisite = r.release [id]
  := by
  have hl : (r.contains id || r.holds id) = true ↔ id ∈ r.line := by
    simp [contains, holds, line]
  by_cases hm : id ∈ r.line
  · exact Or.inl ⟨hm, if_pos (hl.2 hm)⟩
  right
  cases prerequisite with
  | none => exact Or.inr ⟨hm, by simp [hid], if_neg fun h => hm (hl.1 h)⟩
  | some p =>
    have hn : r.publish id (some p)
        = if p != id && !r.contains p then { r with held := r.held ++ [(p, id)] }
          else r.release [id] := if_neg fun h => hm (hl.1 h)
    rw [hn]
    have hp : (p != id && !r.contains p) = true ↔ waits id p ∧ p ∉ r.entries := by
      simp [hid, contains]
    by_cases hwait : waits id p ∧ p ∉ r.entries
    · exact Or.inl ⟨hm, p, hwait.1, hwait.2, if_pos (hp.2 hwait)⟩
    · refine Or.inr ⟨hm, fun q hq => ?_, if_neg fun h => hwait (hp.1 h)⟩
      obtain rfl : p = q := Option.some.inj ((hid q).1 hq).1
      by_contra hq'
      exact hwait ⟨hq, hq'⟩

/-- Only the entity that arrives is new in the line. -/
theorem mem_line_publish (r : Roster) (id : EntityId) (prerequisite : Option EntityId) :
  x ∈ (r.publish id prerequisite).line ↔ x ∈ r.line ∨ x = id
  := by
  obtain ⟨hm, hr⟩ | ⟨-, p, -, -, hr⟩ | ⟨-, -, hr⟩ :=
    @publish_cases (fun _ p => prerequisite = some p ∧ p ≠ id) r id prerequisite
      fun _ => Iff.rfl
  · rw [hr, or_iff_left_of_imp]
    rintro rfl
    exact hm
  · rw [hr]
    simp [line, or_assoc]
  · rw [hr, (r.perm_release [id]).mem_iff]
    simp [line, or_left_comm, or_comm]

theorem Lined.nodup_line (h : Lined waits gone r []) :
  r.line.Nodup
  := by simpa [line] using h.nodup

/-- An entity that arrives and need not wait is published next. -/
theorem Lined.arrive (h : Lined waits gone r []) (hm : id ∉ r.line)
    (hp : ∀ p, waits id p → p ∈ r.entries) :
  Lined waits gone r [id]
  where
    nodup := by
      have hn : (id :: r.line).Nodup := List.nodup_cons.2 ⟨hm, h.nodup_line⟩
      apply (List.Perm.nodup_iff _).2 hn
      simp [line]
    held := h.held
    cleared x hx := by
      obtain rfl := List.mem_singleton.1 hx
      exact hp
    released := by simp
    placed := h.placed

/-- An entity that arrives and has to wait is held back. -/
theorem Lined.hold {p : EntityId} (h : Lined waits gone r []) (hm : id ∉ r.line)
    (hp : waits id p) (hpm : p ∉ r.entries) :
  Lined waits gone { r with held := r.held ++ [(p, id)] } []
  where
    nodup := by
      have hn : (id :: r.line).Nodup := List.nodup_cons.2 ⟨hm, h.nodup_line⟩
      apply (List.Perm.nodup_iff _).2 hn
      simpa [line] using List.perm_append_singleton id r.line
    held q x hx := by
      obtain hx | hx := List.mem_append.1 hx
      · exact h.held q x hx
      · obtain ⟨rfl, rfl⟩ := Prod.mk.inj (List.mem_singleton.1 hx)
        exact ⟨hp, hpm⟩
    cleared := by simp
    released := by simp
    placed := h.placed

theorem Lined.publish (hw : ∀ x p q, waits x p → waits x q → p = q) (h : Lined waits gone r [])
    {prerequisite : Option EntityId} (hid : ∀ p, waits id p ↔ prerequisite = some p ∧ p ≠ id) :
  Lined waits gone (r.publish id prerequisite) []
  := by
  obtain ⟨-, hr⟩ | ⟨hm, p, hp, hpm, hr⟩ | ⟨hm, hp, hr⟩ := publish_cases hid
  · rwa [hr]
  · rw [hr]
    exact h.hold hm hp hpm
  · rw [hr]
    exact (h.arrive hm hp).release hw

theorem mem_line_restrict {keep : EntityId → Bool} :
  x ∈ (r.restrict keep).line ↔ x ∈ r.line ∧ keep x = true
  := by
  simp only [line, Roster.restrict, List.mem_append, List.mem_map, List.mem_filter, Prod.exists,
    exists_eq_right, ← exists_and_right, or_and_right]

/-- What is excluded leaves the line, and the others keep their places. -/
theorem Lined.restrict (h : Lined waits gone r []) {keep : EntityId → Bool}
    (hg : ∀ x, gone x → gone' x) (hk : ∀ x ∈ r.line, keep x = false → gone' x) :
  Lined waits gone' (r.restrict keep) []
  where
    nodup := by
      have hs : (r.entries.filter keep ++ (r.held.filter fun h => keep h.2).map (·.2)).Sublist
          (r.entries ++ r.held.map (·.2)) :=
        List.filter_sublist.append (List.filter_sublist.map _)
      have hn := hs.nodup h.nodup_line
      simpa [Roster.restrict] using hn
    held p x hx := by
      obtain ⟨hp, hm⟩ := h.held p x (List.filter_sublist.subset hx)
      exact ⟨hp, fun hm' => hm (List.filter_sublist.subset hm')⟩
    cleared := by simp
    released := by simp
    placed x hx p hp := by
      obtain ⟨hx, hkx⟩ := List.mem_filter.1 hx
      obtain hpx | hp := h.placed x hx p hp
      · cases hkp : keep p with
        | true => exact Or.inl (hpx.filter hkp hkx)
        | false => exact Or.inr (hk p (List.mem_append_left _ hpx.left) hkp)
      · exact Or.inr (hg p hp)

/-- More entities are excluded, none of them in the line. -/
theorem Lined.mono (h : Lined waits gone r []) (hg : ∀ x, gone x → gone' x) :
  Lined waits gone' r []
  := by
  have h' : Lined waits gone' (r.restrict fun _ => true) [] := h.restrict hg (by simp)
  rwa [restrict_true] at h'

/-! ### Who arrived first -/

/-- An entity `x` was in the line when `e` arrived: it is still ahead of `e`, or this is how
it fell behind. -/
inductive Ahead (waits : EntityId → EntityId → Prop) (gone : EntityId → Prop) (r : Roster)
    (ready : List EntityId) (x e : EntityId) : Prop
  | gone (h : gone x ∨ gone e)
  | inOrder (h : Precedes (r.entries ++ ready ++ r.held.map (·.2)) x e)
  /-- What is ready is published before anything that is held back. -/
  | passed (hx : x ∈ r.held.map (·.2)) (he : e ∈ ready)
  /-- What `x` waits for is excluded. -/
  | stranded {p : EntityId} (hp : waits x p) (hg : gone p)
  /-- What `x` waits for was not published when `e` was. -/
  | overtaken {p : EntityId} (hp : waits x p) (he : e ∈ r.entries)
    (hn : ¬ Precedes r.entries p e)
  /-- What `x` waits for was published first, and what `e` waits for was released by it,
  along with `x`. -/
  | released {p q : EntityId} (hp : waits x p) (hq : waits e q) (hqp : TransGen waits q p)
    (hne : q ≠ p) (hm : p ∈ r.entries) (hn : ¬ Precedes r.entries q p)

theorem not_precedes_append_singleton {l : List EntityId} {a b c : EntityId} (hb : b ∈ l)
    (hn : (l ++ [c]).Nodup) (h : ¬ Precedes l a b) :
  ¬ Precedes (l ++ [c]) a b
  := fun h' => h (precedes_of_mem_left h' hn hb)

/-- Who is held back stays so, or is released. -/
theorem held_or_waiting (hx : x ∈ r.held.map (·.2)) (id : EntityId) :
  x ∈ (r.enter id).held.map (·.2) ∨ x ∈ r.waitingFor id
  := (List.mem_append.1 ((r.perm_waitingFor id).mem_iff.2 hx)).symm

theorem Lined.exists_waits (h : Lined waits gone r ready) (hx : x ∈ r.held.map (·.2)) :
  ∃ p, waits x p ∧ p ∉ r.entries
  := by
  obtain ⟨⟨p, _⟩, hm, rfl⟩ := List.mem_map.1 hx
  exact ⟨p, h.held p _ hm⟩

theorem Lined.nodup_entries (h : Lined waits gone r ready) :
  r.entries.Nodup
  := (List.nodup_append.1 (List.nodup_append.1 h.nodup).1).1

/-- The order among those that are held back. -/
theorem Lined.precedes_filter (h : Lined waits gone r ready)
    (hxe : Precedes (r.held.map (·.2)) x e) {keep : EntityId → Bool}
    (hx : ∀ p, waits x p → keep p = true)
    (he : ∀ p, waits e p → keep p = true) :
  Precedes ((r.held.filter fun h => keep h.1).map (·.2)) x e
  := by
  obtain ⟨l, hl, hxe⟩ := List.sublist_map_iff.1 hxe
  have hk : l.filter (fun h => keep h.1) = l := by
    apply List.filter_eq_self.2
    rintro ⟨p, y⟩ hm
    have hwait := (h.held p y (hl.subset hm)).1
    have hy : y ∈ [x, e] := hxe ▸ List.mem_map_of_mem (f := (·.2)) hm
    obtain rfl | hy := List.mem_cons.1 hy
    · exact hx p hwait
    · obtain rfl := List.mem_singleton.1 hy
      exact he p hwait
  rw [Precedes, hxe, ← hk]
  exact (hl.filter _).map _

/-- The order among those that come after the entity that is published. -/
theorem Lined.ahead_enter (hw : ∀ x p q, waits x p → waits x q → p = q)
    (h : Lined waits gone r (id :: ready)) (hxe : Precedes (ready ++ r.held.map (·.2)) x e) :
  Ahead waits gone (r.enter id) (r.waitingFor id ++ ready) x e
  := by
  have late (hxe : Precedes (r.waitingFor id ++ ready ++ (r.enter id).held.map (·.2)) x e) :
      Ahead waits gone (r.enter id) (r.waitingFor id ++ ready) x e := by
    apply Ahead.inOrder
    rw [List.append_assoc]
    exact precedes_append.2 (Or.inr (Or.inr hxe))
  have hid : id ∉ r.entries := by
    have hn := (List.nodup_append.1 (List.nodup_append.1 h.nodup).1)
    exact fun hm => hn.2.2 id hm id List.mem_cons_self rfl
  obtain hxe | ⟨hx, he⟩ | hxe := precedes_append.1 hxe
  · exact late (precedes_append.2 (Or.inl (precedes_append.2 (Or.inr (Or.inr hxe)))))
  · obtain he | he := held_or_waiting he id
    · exact late (precedes_append.2 (Or.inr (Or.inl ⟨List.mem_append_right _ hx, he⟩)))
    · -- What `x` waited for was published before `id` is.
      obtain ⟨p, hp, hidp⟩ := (List.pairwise_cons.1 h.released).1 x hx
      have hm := h.cleared x (List.mem_cons_of_mem id hx) p hp
      have hwait := (h.held id e (mem_waitingFor.1 he)).1
      refine .released hp hwait hidp (fun hq => hid (hq ▸ hm)) (List.mem_append_left _ hm) ?_
      exact fun hqp => hid (precedes_of_mem_left hqp (h.enter hw).nodup_entries hm).left
  · have stays (y : EntityId) (hy : y ∈ (r.enter id).held.map (·.2)) (p : EntityId)
        (hp : waits y p) : (p != id) = true := by
      obtain ⟨⟨q, _⟩, hm, rfl⟩ := List.mem_map.1 hy
      obtain ⟨hm, hq⟩ := List.mem_filter.1 hm
      rwa [hw _ p q hp (h.held q _ hm).1]
    have goes (y : EntityId) (hy : y ∈ r.waitingFor id) (p : EntityId) (hp : waits y p) :
        (p == id) = true := by
      rw [hw y p id hp (h.held id y (mem_waitingFor.1 hy)).1]
      exact beq_self_eq_true id
    obtain hx | hx := held_or_waiting hxe.left id
    · obtain he | he := held_or_waiting hxe.right id
      · have hxe' := h.precedes_filter hxe (stays x hx) (stays e he)
        exact late (precedes_append.2 (Or.inr (Or.inr hxe')))
      · exact .passed hx (List.mem_append_left _ he)
    · obtain he | he := held_or_waiting hxe.right id
      · exact late (precedes_append.2 (Or.inr (Or.inl ⟨List.mem_append_left _ hx, he⟩)))
      · have hxe' := h.precedes_filter hxe (goes x hx) (goes e he)
        exact late (precedes_append.2 (Or.inl (precedes_append.2 (Or.inl hxe'))))

/-- Publishing an entity that is ready releases what waits for it. -/
theorem Ahead.enter (hw : ∀ x p q, waits x p → waits x q → p = q)
    (h : Lined waits gone r (id :: ready)) (ha : Ahead waits gone r (id :: ready) x e) :
  Ahead waits gone (r.enter id) (r.waitingFor id ++ ready) x e
  := by
  have hn : (r.enter id).entries.Nodup := (h.enter hw).nodup_entries
  cases ha with
  | gone hg => exact .gone hg
  | stranded hp hg => exact .stranded hp hg
  | overtaken hp he hnp =>
    apply Ahead.overtaken hp (List.mem_append_left _ he)
    exact not_precedes_append_singleton he hn hnp
  | released hp hq hqp hne hm hnp =>
    apply Ahead.released hp hq hqp hne (List.mem_append_left _ hm)
    exact not_precedes_append_singleton hm hn hnp
  | passed hx he =>
    obtain rfl | he := List.mem_cons.1 he
    · obtain ⟨p, hp, hm⟩ := h.exists_waits hx
      apply Ahead.overtaken hp (List.mem_append_right _ (List.mem_singleton_self e))
      intro hpe
      obtain hpe | ⟨hp, -⟩ | hpe := precedes_append.1 hpe
      · exact hm hpe.left
      · exact hm hp
      · exact not_precedes_singleton _ _ _ hpe
    · obtain hx | hx := held_or_waiting hx id
      · exact .passed hx (List.mem_append_right _ he)
      · apply Ahead.inOrder
        refine precedes_append.2 (Or.inl (precedes_append.2 (Or.inr (Or.inr ?_))))
        exact precedes_append.2 (Or.inr (Or.inl ⟨hx, he⟩))
  | inOrder hxe =>
    have hxe : Precedes ((r.entries ++ [id]) ++ (ready ++ r.held.map (·.2))) x e := by
      simpa using hxe
    obtain hxe | ⟨hx, he⟩ | hxe := precedes_append.1 hxe
    · exact .inOrder (precedes_append.2 (Or.inl (precedes_append.2 (Or.inl hxe))))
    · have he : e ∈ r.waitingFor id ++ ready ++ (r.enter id).held.map (·.2) := by
        obtain he | he := List.mem_append.1 he
        · exact List.mem_append_left _ (List.mem_append_right _ he)
        · obtain he | he := held_or_waiting he id
          · exact List.mem_append_right _ he
          · exact List.mem_append_left _ (List.mem_append_left _ he)
      apply Ahead.inOrder
      rw [List.append_assoc]
      exact precedes_append.2 (Or.inr (Or.inl ⟨hx, he⟩))
    · exact h.ahead_enter hw hxe

theorem Ahead.release (hw : ∀ x p q, waits x p → waits x q → p = q)
    (h : Lined waits gone r ready) (ha : Ahead waits gone r ready x e) :
  Ahead waits gone (r.release ready) [] x e
  := by
  fun_induction Roster.release r ready with
  | case1 r => exact ha
  | case2 r id ready ih => exact ih (h.enter hw) (ha.enter hw h)

/-- Nothing that was ahead falls behind while nothing is published and those who are held back
keep their order. -/
theorem Ahead.widen {r' : Roster} (ha : Ahead waits gone r [] x e)
    (he : r'.entries = r.entries)
    (hs : List.Sublist (r.held.map (·.2)) (ready ++ r'.held.map (·.2))) :
  Ahead waits gone r' ready x e
  := by
  cases ha with
  | gone hg => exact .gone hg
  | stranded hp hg => exact .stranded hp hg
  | overtaken hp hm hn => exact .overtaken hp (he ▸ hm) (he ▸ hn)
  | released hp hq hqp hne hm hn => exact .released hp hq hqp hne (he ▸ hm) (he ▸ hn)
  | passed hx he => exact absurd he List.not_mem_nil
  | inOrder hxe =>
    apply Ahead.inOrder
    rw [List.append_nil] at hxe
    rw [he, List.append_assoc]
    exact hxe.mono (hs.append_left r.entries)

/-- What is ahead is not affected when an entity is held back. -/
theorem Ahead.hold (ha : Ahead waits gone r [] x e) (p : EntityId) :
  Ahead waits gone { r with held := r.held ++ [(p, id)] } [] x e
  := ha.widen rfl ((List.sublist_append_left _ _).map _)

/-- What is ahead is not affected when an entity arrives that is published next. -/
theorem Ahead.arrive (ha : Ahead waits gone r [] x e) :
  Ahead waits gone r [id] x e
  := ha.widen rfl (List.sublist_cons_self id _)

/-- The order of those in the line lasts when an entity arrives, and the entity comes after
them. -/
theorem Ahead.publish (hw : ∀ x p q, waits x p → waits x q → p = q)
    (h : Lined waits gone r []) {prerequisite : Option EntityId}
    (hid : ∀ p, waits id p ↔ prerequisite = some p ∧ p ≠ id)
    (ha : Ahead waits gone r [] x e ∨ x ∈ r.line ∧ id ∉ r.line ∧ e = id) :
  Ahead waits gone (r.publish id prerequisite) [] x e
  := by
  obtain ⟨hm, hr⟩ | ⟨hm, p, hp, hpm, hr⟩ | ⟨hm, hp, hr⟩ := publish_cases hid
  · rw [hr]
    exact ha.resolve_right fun hx => hx.2.1 hm
  · rw [hr]
    obtain ha | ⟨hx, -, rfl⟩ := ha
    · exact ha.hold p
    · apply Ahead.inOrder
      rw [List.map_append, ← List.append_assoc]
      apply precedes_append.2 (Or.inr (Or.inl ⟨?_, List.mem_singleton_self e⟩))
      simpa [line] using hx
  · rw [hr]
    apply Ahead.release hw (h.arrive hm hp)
    obtain ha | ⟨hx, -, rfl⟩ := ha
    · exact ha.arrive
    · obtain hx | hx := List.mem_append.1 hx
      · apply Ahead.inOrder
        apply precedes_append.2 (Or.inl (precedes_append.2 (Or.inr (Or.inl ⟨hx, ?_⟩))))
        exact List.mem_singleton_self e
      · exact .passed hx (List.mem_singleton_self e)

theorem Ahead.restrict (ha : Ahead waits gone r [] x e) {keep : EntityId → Bool}
    (hg : ∀ x, gone x → gone' x) (hk : ∀ x ∈ r.line, keep x = false → gone' x) :
  Ahead waits gone' (r.restrict keep) [] x e
  := by
  cases ha with
  | gone h => exact .gone (h.imp (hg x) (hg e))
  | stranded hp h => exact .stranded hp (hg _ h)
  | passed hx he => exact absurd he List.not_mem_nil
  | overtaken hp he hn =>
    cases hke : keep e with
    | true =>
      apply Ahead.overtaken hp (List.mem_filter.2 ⟨he, hke⟩)
      exact fun hpe => hn (hpe.mono List.filter_sublist)
    | false => exact .gone (Or.inr (hk e (List.mem_append_left _ he) hke))
  | @released p q hp hq hqp hne hm hn =>
    cases hkp : keep p with
    | true =>
      apply Ahead.released hp hq hqp hne (List.mem_filter.2 ⟨hm, hkp⟩)
      exact fun hqp => hn (hqp.mono List.filter_sublist)
    | false => exact .stranded hp (hk p (List.mem_append_left _ hm) hkp)
  | inOrder hxe =>
    have hxe : Precedes r.line x e := by simpa [line] using hxe
    cases hkx : keep x with
    | false => exact .gone (Or.inl (hk x hxe.left hkx))
    | true =>
      cases hke : keep e with
      | false => exact .gone (Or.inr (hk e hxe.right hke))
      | true =>
        apply Ahead.inOrder
        have := hxe.filter hkx hke
        simpa [line, Roster.restrict, List.filter_map, Function.comp_def] using this

theorem Ahead.mono (ha : Ahead waits gone r [] x e) (hg : ∀ x, gone x → gone' x) :
  Ahead waits gone' r [] x e
  := by
  have ha' : Ahead waits gone' (r.restrict fun _ => true) [] x e := ha.restrict hg (by simp)
  rwa [restrict_true] at ha'

/-! ### Closing -/

/-- What is held back is published in order of arrival. -/
theorem entries_close (h : r.line.Nodup) :
  r.close.entries = r.line
  := by
  have all (held : List (EntityId × EntityId)) (entries : List EntityId)
      (h : (entries ++ held.map (·.2)).Nodup) :
      closeWith entries held = entries ++ held.map (·.2) := by
    induction held generalizing entries with
    | nil => simp [closeWith]
    | cons hd held ih =>
      have hm : hd.2 ∉ entries := fun hm =>
        List.disjoint_of_nodup_append h hm (List.mem_map_of_mem List.mem_cons_self)
      rw [closeWith, if_neg (by simpa using hm), ih]
      · simp
      · simpa using h
  exact all r.held r.entries h

/-- An entity that waits for nothing, or for a listed entity that is grounded. -/
inductive Grounded (waits : EntityId → EntityId → Prop) (listed : List EntityId) :
    EntityId → Prop
  | free {x : EntityId} (h : ∀ p, ¬ waits x p) : Grounded waits listed x
  | behind {x p : EntityId} (hp : waits x p) (hm : p ∈ listed)
    (hg : Grounded waits listed p) : Grounded waits listed x

/-- What is grounded is not held back. -/
theorem Lined.mem_entries (hw : ∀ x p q, waits x p → waits x q → p = q)
    (h : Lined waits gone r []) (hx : x ∈ r.line) (hg : Grounded waits r.line x) :
  x ∈ r.entries
  := by
  induction hg with
  | @free x hf =>
    refine (List.mem_append.1 hx).resolve_right fun hx => ?_
    obtain ⟨p, hp, -⟩ := h.exists_waits hx
    exact hf p hp
  | @behind x p hp hm _ ih =>
    refine (List.mem_append.1 hx).resolve_right fun hx => ?_
    obtain ⟨q, hq, hmq⟩ := h.exists_waits hx
    exact hmq (hw x p q hp hq ▸ ih hm)

/-- In the line, an entity comes after what it waits for if that is grounded. -/
theorem Lined.precedes_line (hw : ∀ x p q, waits x p → waits x q → p = q)
    (h : Lined waits gone r []) {p : EntityId} (hp : waits x p) (hx : x ∈ r.line)
    (hm : p ∈ r.line) (hgone : ¬ gone p) (hg : Grounded waits r.line p) :
  Precedes r.line p x
  := by
  have hpe := h.mem_entries hw hm hg
  obtain hx | hx := List.mem_append.1 hx
  · exact ((h.placed x hx p hp).resolve_right hgone).mono (List.sublist_append_left _ _)
  · exact precedes_append.2 (Or.inr (Or.inl ⟨hpe, hx⟩))

/-- In the line, an entity that was ahead of another one comes first, if what it waits for
does, and if what the other one waits for does not wait for that in turn, or comes before it. -/
theorem Ahead.precedes_line (h : Lined waits gone r []) (ha : Ahead waits gone r [] x e)
    (hgone : ∀ y ∈ r.line, ¬ gone y) (hx : x ∈ r.line) (he : e ∈ r.line)
    (hp : ∀ p, waits x p →
      Precedes r.line p e
        ∧ ∀ q, waits e q → TransGen waits q p → q = p ∨ Precedes r.line q p) :
  Precedes r.line x e
  := by
  have hn := h.nodup_line
  cases ha with
  | gone hg => exact absurd hg (not_or.2 ⟨hgone x hx, hgone e he⟩)
  | inOrder hxe => simpa [line] using hxe
  | passed _ he => exact absurd he List.not_mem_nil
  | @stranded p hwait hg => exact absurd hg (hgone p (hp p hwait).1.left)
  | @overtaken p hwait hm hnp =>
    exact absurd (precedes_of_mem_left (hp p hwait).1 hn hm) hnp
  | @released p q hwait hq hqp hne hm hnp =>
    have hfirst := ((hp p hwait).2 q hq hqp).resolve_left hne
    exact absurd (precedes_of_mem_left hfirst hn hm) hnp

end

end Roster

end Conformance
