import Conformance.Proofs.Chain
import Conformance.Proofs.Lookup

/-!
# Nearest modes

The mode of an entity is that of the nearest scope with a mode of its own, the entity itself
included.  The search for it goes outwards through entities without a mode, and it is cut off
after as many scopes as the program has entities.  It passes an entity twice only if the scopes
go round in a ring without a mode, so it is cut off exactly then: `modeOf_nearest`.
-/

namespace Conformance

open Relation (ReflTransGen)

namespace Program

variable (p : Program)

/-- The search for a mode goes on from an entity without one to the scope of the entity, which is
`none` outside of all scopes. -/
inductive LeadsOut : Option EntityId → Option EntityId → Prop where
  | scope {id : EntityId} {e : Entity} (he : p.entity id = .ok e) (hm : e.mode = none) :
    LeadsOut (some id) e.scope

variable {p} {id : EntityId} {a : Option EntityId}

theorem leadsOut_rightUnique :
  Relator.RightUnique p.LeadsOut
  := by
  rintro _ _ _ ⟨he, -⟩ ⟨he', -⟩
  obtain rfl := Except.ok.inj (he.symm.trans he')
  rfl

theorem mem_keys_of_leadsOut {b : Option EntityId} (h : p.LeadsOut a b) :
  a ∈ p.entities.keys.map some
  := by
  cases h with
  | scope he _ => exact List.mem_map_of_mem (mem_keys_of_entity he)

theorem entity_eq_error_iff {fault : Fault} :
  p.entity id = .error fault ↔ p.get? id = none ∧ fault = .unknownEntity id
  := by
  unfold entity
  split
  · next hg => simp [hg]
  · next hg => simp [hg, eq_comm]

/-- The search ends at an entity with a mode, and at a name that no entity has. -/
theorem leadsOut_last_iff :
  (∀ a, ¬ p.LeadsOut (some id) a)
    ↔ (∃ e mode, p.entity id = .ok e ∧ e.mode = some mode) ∨ p.get? id = none
  := by
  constructor
  · intro h
    cases he : p.entity id with
    | error fault => exact Or.inr (entity_eq_error_iff.1 he).1
    | ok e =>
      cases hm : e.mode with
      | none => exact (h _ (.scope he hm)).elim
      | some mode => exact Or.inl ⟨e, mode, rfl, hm⟩
  · rintro h a ⟨he, hm⟩
    obtain ⟨e, mode, he', hm'⟩ | hg := h
    · obtain rfl := Except.ok.inj (he.symm.trans he')
      cases hm.symm.trans hm'
    · cases he.symm.trans (entity_eq_error_iff.2 ⟨hg, rfl⟩)

theorem not_leadsOut_none :
  ¬ p.LeadsOut none a
  := nofun

end Program

namespace Setting

variable (S : Setting)

/-- The answer where the search for a mode ends. -/
def modeAt : Option EntityId → Answer (Option Mode × Option EntityId)
  | some id => do return ((← S.program.entity id).mode, some id)
  | none => .ok (S.policy.defaultMode, none)

variable {S} {origin id : EntityId}

theorem modeAt_eq_error_iff {a : Option EntityId} {fault : Fault} :
  S.modeAt a = .error fault ↔ ∃ x, a = some x ∧ S.program.get? x = none ∧ fault = .unknownEntity x
  := by
  cases a with
  | none => simp [modeAt]
  | some x =>
    have h : S.modeAt (some x) = .error fault ↔ S.program.entity x = .error fault := by
      change (S.program.entity x >>= fun e => pure (e.mode, some x)) = _ ↔ _
      cases S.program.entity x with
      | ok e =>
        change Except.ok (e.mode, some x) = _ ↔ _
        simp
      | error reason =>
        change Except.error reason = _ ↔ _
        simp
    rw [h, Program.entity_eq_error_iff]
    simp

/-- The search ends at once where there is nothing that leads outwards. -/
theorem modeFrom_last (h : ∀ a, ¬ S.program.LeadsOut (some id) a) (steps : Nat) :
  S.modeFrom origin steps id = S.modeAt (some id)
  := by
  obtain ⟨e, mode, he, hm⟩ | hg := Program.leadsOut_last_iff.1 h
  · rw [modeFrom.eq_def, modeAt, he]
    simp only [bind, Except.bind, hm]
  · rw [modeFrom.eq_def, modeAt, Program.entity_eq_error_iff.2 ⟨hg, rfl⟩]
    rfl

/-- The search goes on from an entity without a mode. -/
theorem modeFrom_leadsOut {a : Option EntityId} (h : S.program.LeadsOut (some id) a)
    (steps : Nat) :
  S.modeFrom origin (steps + 1) id
    = a.elim (S.modeAt none) (S.modeFrom origin steps)
  := by
  cases h with
  | @scope _ e he hm =>
    rw [modeFrom, he]
    simp only [bind, Except.bind, hm]
    cases e.scope <;> rfl

/-- The search finds the answer where the way outwards ends.  Outside of all scopes it has passed
one entity less than elsewhere, so the steps are enough for all entities. -/
theorem modeFrom_of_endsWithin (origin : EntityId) {steps : Nat}
    (h : Chain.EndsWithin S.program.LeadsOut (steps + 1) (some id)) :
  ∃ last, Chain.EndsAt S.program.LeadsOut (some id) last
    ∧ S.modeFrom origin steps id = S.modeAt last
  := by
  induction steps generalizing id with
  | zero =>
    cases h with
    | last hlast => exact ⟨some id, ⟨.refl, hlast⟩, modeFrom_last hlast 0⟩
    | link _ h => cases h
  | succ steps ih =>
    cases h with
    | last hlast => exact ⟨some id, ⟨.refl, hlast⟩, modeFrom_last hlast _⟩
    | @link _ _ a hl h =>
      rw [modeFrom_leadsOut hl]
      cases a with
      | none => exact ⟨none, ⟨.single hl, fun _ => Program.not_leadsOut_none⟩, rfl⟩
      | some scope =>
        obtain ⟨last, hlast, hw⟩ := ih h
        exact ⟨last, hlast.head hl, hw⟩

/-- Where the scopes go round in a ring, the search is cut off, after however many steps. -/
theorem modeFrom_of_cyclic (h : Chain.Cyclic S.program.LeadsOut (some id)) (steps : Nat) :
  S.modeFrom origin steps id = .error (.contract (.cyclicScope origin))
  := by
  induction steps generalizing id with
  | zero =>
    obtain ⟨a, hl, -⟩ := h.exists_link
    cases hl with
    | @scope _ e he hm =>
      rw [modeFrom, he]
      simp only [bind, Except.bind, hm]
      rfl
  | succ steps ih =>
    obtain ⟨a, hl, h⟩ := h.exists_link
    rw [modeFrom_leadsOut hl]
    cases a with
    | some scope => exact ih h
    | none =>
      obtain ⟨a, hl, -⟩ := h.exists_link
      exact (Program.not_leadsOut_none hl).elim

/-- The search finds the answer where the way outwards ends, however long it is. -/
theorem modeOf_of_endsAt {last : Option EntityId}
    (h : Chain.EndsAt S.program.LeadsOut (some id) last) :
  S.modeOf id = S.modeAt last
  := by
  have hw := Chain.endsWithin_of_not_cyclic (fun _ _ => Program.mem_keys_of_leadsOut)
    (h.not_cyclic Program.leadsOut_rightUnique)
  rw [List.length_map, Std.TreeMap.length_keys] at hw
  obtain ⟨last', h', hm⟩ := modeFrom_of_endsWithin id hw
  obtain rfl := h.unique Program.leadsOut_rightUnique h'
  exact hm

/-- The way outwards from an entity ends or goes round in a ring. -/
theorem leadsOut_ends_or_cyclic (S : Setting) (id : EntityId) :
  (∃ last, Chain.EndsAt S.program.LeadsOut (some id) last)
    ∨ Chain.Cyclic S.program.LeadsOut (some id)
  := by
  by_cases h : Chain.Cyclic S.program.LeadsOut (some id)
  · exact Or.inr h
  · have hw := Chain.endsWithin_of_not_cyclic (fun _ _ => Program.mem_keys_of_leadsOut) h
    rw [List.length_map, Std.TreeMap.length_keys] at hw
    obtain ⟨last, hlast, -⟩ := modeFrom_of_endsWithin id hw
    exact Or.inl ⟨last, hlast⟩

/-- An answer other than that the search was cut off is the one at the end of the way outwards. -/
theorem modeOf_eq_iff {answer : Answer (Option Mode × Option EntityId)}
    (ha : answer ≠ .error (.contract (.cyclicScope id))) :
  S.modeOf id = answer
    ↔ ∃ last, Chain.EndsAt S.program.LeadsOut (some id) last ∧ S.modeAt last = answer
  := by
  constructor
  · intro h
    obtain ⟨last, hlast⟩ | hc := leadsOut_ends_or_cyclic S id
    · exact ⟨last, hlast, (modeOf_of_endsAt hlast).symm.trans h⟩
    · exact (ha (h.symm.trans (modeFrom_of_cyclic hc _))).elim
  · rintro ⟨last, hlast, rfl⟩
    exact modeOf_of_endsAt hlast

/-- An entity has the mode of a scope with a mode of its own that the way outwards comes to. -/
theorem modeOf_eq_mode_iff {mode : Mode} {carrier : EntityId} :
  S.modeOf id = .ok (some mode, some carrier)
    ↔ ReflTransGen S.program.LeadsOut (some id) (some carrier)
      ∧ ∃ e, S.program.entity carrier = .ok e ∧ e.mode = some mode
  := by
  rw [modeOf_eq_iff (by simp)]
  constructor
  · rintro ⟨_ | x, hlast, h⟩
    · cases (Prod.mk.inj (Except.ok.inj h)).2
    · obtain ⟨e, he, h⟩ := Answer.bind_eq_ok.1 h
      obtain ⟨hm, hx⟩ := Prod.mk.inj (Except.ok.inj h)
      obtain rfl := Option.some.inj hx
      exact ⟨hlast.leads, e, he, hm⟩
  · rintro ⟨hl, e, he, hm⟩
    refine ⟨_, ⟨hl, Program.leadsOut_last_iff.2 (Or.inl ⟨e, mode, he, hm⟩)⟩, ?_⟩
    exact Answer.bind_eq_ok.2 ⟨e, he, by rw [hm]; rfl⟩

/-- An entity has a mode that nothing carries where the way leads out of all scopes. -/
theorem modeOf_eq_default_iff {mode : Option Mode} :
  S.modeOf id = .ok (mode, none)
    ↔ ReflTransGen S.program.LeadsOut (some id) none ∧ mode = S.policy.defaultMode
  := by
  rw [modeOf_eq_iff (by simp)]
  constructor
  · rintro ⟨_ | x, hlast, h⟩
    · exact ⟨hlast.leads, (Prod.mk.inj (Except.ok.inj h)).1.symm⟩
    · obtain ⟨e, -, h⟩ := Answer.bind_eq_ok.1 h
      cases (Prod.mk.inj (Except.ok.inj h)).2
  · rintro ⟨hl, rfl⟩
    exact ⟨none, ⟨hl, fun _ => Program.not_leadsOut_none⟩, rfl⟩

theorem modeOf_eq_unknown_iff {x : EntityId} :
  S.modeOf id = .error (.unknownEntity x)
    ↔ ReflTransGen S.program.LeadsOut (some id) (some x) ∧ S.program.get? x = none
  := by
  rw [modeOf_eq_iff (by simp)]
  constructor
  · rintro ⟨last, hlast, h⟩
    obtain ⟨y, rfl, hg, hx⟩ := modeAt_eq_error_iff.1 h
    cases hx
    exact ⟨hlast.leads, hg⟩
  · rintro ⟨hl, hg⟩
    exact ⟨some x, ⟨hl, Program.leadsOut_last_iff.2 (Or.inr hg)⟩,
      modeAt_eq_error_iff.2 ⟨x, rfl, hg, rfl⟩⟩

theorem modeOf_eq_cyclic_iff :
  S.modeOf id = .error (.contract (.cyclicScope id)) ↔ Chain.Cyclic S.program.LeadsOut (some id)
  := by
  constructor
  · intro h
    obtain ⟨last, hlast⟩ | hc := leadsOut_ends_or_cyclic S id
    · obtain ⟨x, -, -, hx⟩ := modeAt_eq_error_iff.1 ((modeOf_of_endsAt hlast).symm.trans h)
      cases hx
    · exact hc
  · exact fun hc => modeFrom_of_cyclic hc _

/-- The mode of an entity, for every entity of every program.  It is that of the nearest scope
with a mode of its own, which carries it, and outside of all scopes the default mode, which
nothing carries.  An unknown name on the way is a fault, and so is a way that goes round
in a ring of scopes without a mode.  Every way that does not go round ends at one of the other
three, however long it is. -/
theorem modeOf_nearest (S : Setting) (id : EntityId) :
  (∀ mode carrier, S.modeOf id = .ok (some mode, some carrier)
      ↔ ReflTransGen S.program.LeadsOut (some id) (some carrier)
        ∧ ∃ e, S.program.entity carrier = .ok e ∧ e.mode = some mode)
    ∧ (∀ mode, S.modeOf id = .ok (mode, none)
      ↔ ReflTransGen S.program.LeadsOut (some id) none ∧ mode = S.policy.defaultMode)
    ∧ (∀ x, S.modeOf id = .error (.unknownEntity x)
      ↔ ReflTransGen S.program.LeadsOut (some id) (some x) ∧ S.program.get? x = none)
    ∧ (S.modeOf id = .error (.contract (.cyclicScope id))
      ↔ Chain.Cyclic S.program.LeadsOut (some id))
    ∧ (Chain.Cyclic S.program.LeadsOut (some id)
      ∨ ReflTransGen S.program.LeadsOut (some id) none
      ∨ ∃ x, ReflTransGen S.program.LeadsOut (some id) (some x)
        ∧ ((∃ e mode, S.program.entity x = .ok e ∧ e.mode = some mode)
          ∨ S.program.get? x = none))
  := by
  refine ⟨fun _ _ => modeOf_eq_mode_iff, fun _ => modeOf_eq_default_iff,
    fun _ => modeOf_eq_unknown_iff, modeOf_eq_cyclic_iff, ?_⟩
  obtain ⟨_ | x, hlast⟩ | hc := leadsOut_ends_or_cyclic S id
  · exact Or.inr (Or.inl hlast.leads)
  · exact Or.inr (Or.inr ⟨x, hlast.leads, Program.leadsOut_last_iff.1 hlast.last⟩)
  · exact Or.inl hc

end Setting

end Conformance
