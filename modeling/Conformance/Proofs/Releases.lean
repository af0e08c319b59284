import Conformance.Proofs.Roster
import Conformance.Proofs.Verdicts
import Mathlib.Data.List.Induction

/-!
# Sequences of operations on a roster

Entities arrive at a roster and are retired in any sequence, also more than once and each
time with another prerequisite, and the roster may be closed in between.  Here are the
properties that hold after every such sequence: nothing stands twice in the line, nothing
that is published holds anything back, and the line consists of what arrived and was not
retired since.  What an arrival publishes is the entity along with the forest of what waits
for it, each tree before the next one and each entity before what waits for it.

A roster looks among its entries whether an entity is published.  `Roster.Indexed` keeps an
index of its own for that, and both come to the same.
-/

namespace Conformance

namespace Roster

/-- An operation on a roster. -/
inductive Op where
  /-- An entity arrives. -/
  | publish (id : EntityId) (prerequisite : Option EntityId)
  | retire (id : EntityId)
  | close

/-- The roster after an operation. -/
def apply (r : Roster) : Op → Roster
  | .publish id prerequisite => r.publish id prerequisite
  | .retire id => r.retire id
  | .close => r.close

/-- The roster after a sequence of operations on an empty one. -/
def after (ops : List Op) : Roster := ops.foldl apply {}

theorem after_append_singleton (ops : List Op) (op : Op) :
  after (ops ++ [op]) = (after ops).apply op
  := by simp [after]

/-- The entities that arrive in a sequence of operations. -/
def arrivals (ops : List Op) : List EntityId :=
  ops.filterMap fun
    | .publish id _ => some id
    | _ => none

@[simp]
theorem arrivals_append (ops ops' : List Op) :
  arrivals (ops ++ ops') = arrivals ops ++ arrivals ops'
  := List.filterMap_append

theorem mem_arrivals {ops : List Op} {x : EntityId} :
  x ∈ arrivals ops ↔ ∃ prerequisite, .publish x prerequisite ∈ ops
  := by
  simp only [arrivals, List.mem_filterMap]
  constructor
  · rintro ⟨op, hop, he⟩
    cases op with
    | publish id prerequisite =>
      obtain rfl := Option.some.inj he
      exact ⟨prerequisite, hop⟩
    | retire id => simp at he
    | close => simp at he
  · rintro ⟨prerequisite, hop⟩
    exact ⟨_, hop, rfl⟩

/-- An entity arrived and was not retired since. -/
def Stays (ops : List Op) (x : EntityId) : Prop :=
  ∃ before prerequisite later,
    ops = before ++ .publish x prerequisite :: later ∧ .retire x ∉ later

theorem not_stays_nil (x : EntityId) :
  ¬ Stays [] x
  := by
  rintro ⟨before, prerequisite, later, he, -⟩
  simp at he

/-- One more operation retires an entity, or lets one arrive, or neither. -/
theorem stays_append_singleton {ops : List Op} {op : Op} {x : EntityId} :
  Stays (ops ++ [op]) x
    ↔ (∃ prerequisite, op = .publish x prerequisite) ∨ Stays ops x ∧ op ≠ .retire x
  := by
  constructor
  · rintro ⟨before, prerequisite, later, he, hn⟩
    rcases List.eq_nil_or_concat later with rfl | ⟨later, last, rfl⟩
    · obtain ⟨-, h⟩ := List.append_inj' he rfl
      exact Or.inl ⟨prerequisite, by simpa using h⟩
    · right
      rw [List.concat_eq_append] at he hn
      rw [← List.cons_append, ← List.append_assoc] at he
      obtain ⟨rfl, h⟩ := List.append_inj' he rfl
      obtain rfl : op = last := by simpa using h
      rw [List.mem_append, not_or] at hn
      refine ⟨⟨before, prerequisite, later, rfl, hn.1⟩, ?_⟩
      rintro rfl
      exact hn.2 (List.mem_singleton_self _)
  · rintro (⟨prerequisite, rfl⟩ | ⟨⟨before, prerequisite, later, rfl, hn⟩, hop⟩)
    · exact ⟨ops, prerequisite, [], rfl, List.not_mem_nil⟩
    · refine ⟨before, prerequisite, later ++ [op], by simp, ?_⟩
      rw [List.mem_append, not_or, List.mem_singleton]
      exact ⟨hn, fun h => hop h.symm⟩

/-! ### The line -/

/-- Nothing stands twice in the line, and nothing that is published holds anything back. -/
structure Tidy (r : Roster) : Prop where
  nodup : r.line.Nodup
  held : ∀ p x, (p, x) ∈ r.held → p ∉ r.entries

section

variable {r : Roster} {id x : EntityId}

theorem Lined.tidy {waits : EntityId → EntityId → Prop} {gone : EntityId → Prop}
    (h : Lined waits gone r []) :
  r.Tidy
  where
    nodup := h.nodup_line
    held p x hx := (h.held p x hx).2

theorem tidy_empty :
  Tidy {}
  := by constructor <;> simp [line]

/-- Each entity that is held back has one prerequisite. -/
theorem Tidy.prerequisite_unique (h : r.Tidy) {p q : EntityId} (hp : (p, x) ∈ r.held)
    (hq : (q, x) ∈ r.held) :
  p = q
  := by
  have hn : (r.held.map (·.2)).Nodup := (List.nodup_append.1 h.nodup).2.1
  exact congrArg Prod.fst (List.inj_on_of_nodup_map hn hp hq rfl)

/-- What is held back waits, and whatever else is said to wait does not stand in the line. -/
theorem Tidy.lined (h : r.Tidy) {waits : EntityId → EntityId → Prop}
    (hw : ∀ p x, (p, x) ∈ r.held → waits x p) :
  Lined waits (fun _ => True) r []
  where
    nodup := by simpa [line] using h.nodup
    held p x hx := ⟨hw p x hx, h.held p x hx⟩
    cleared := by simp
    released := by simp
    placed _ _ _ _ := Or.inr trivial

theorem Tidy.publish (h : r.Tidy) (id : EntityId) (prerequisite : Option EntityId) :
  (r.publish id prerequisite).Tidy
  := by
  by_cases hm : id ∈ r.line
  · obtain ⟨-, hr⟩ | ⟨hn, -⟩ | ⟨hn, -⟩ :=
      @publish_cases (fun _ p => prerequisite = some p ∧ p ≠ id) r id prerequisite
        fun _ => Iff.rfl
    · rwa [hr]
    · exact absurd hm hn
    · exact absurd hm hn
  -- The entity is not held back yet, so what is held back may be said to wait along with it.
  have hheld (p : EntityId) : (p, id) ∉ r.held := fun hp =>
    hm (List.mem_append_right _ (List.mem_map.2 ⟨(p, id), hp, rfl⟩))
  let waits (x p : EntityId) : Prop :=
    (p, x) ∈ r.held ∨ x = id ∧ prerequisite = some p ∧ p ≠ id
  have unique (x p q : EntityId) (hp : waits x p) (hq : waits x q) : p = q := by
    obtain hp | ⟨rfl, hp, -⟩ := hp
    · obtain hq | ⟨rfl, -⟩ := hq
      · exact h.prerequisite_unique hp hq
      · exact absurd hp (hheld p)
    · obtain hq | ⟨-, hq, -⟩ := hq
      · exact absurd hq (hheld q)
      · exact Option.some.inj (hp.symm.trans hq)
  have hl : Lined waits (fun _ => True) r [] := h.lined fun p x hx => Or.inl hx
  refine (hl.publish unique fun p => ?_).tidy
  simp [waits, hheld]

theorem Tidy.retire (h : r.Tidy) (id : EntityId) :
  (r.retire id).Tidy
  := by
  have hl : Lined (fun x p => (p, x) ∈ r.held) (fun _ => True) r [] := h.lined fun _ _ hx => hx
  have hr : Lined (fun x p => (p, x) ∈ r.held) (fun _ => True) (r.retire id) [] :=
    hl.restrict (fun _ _ => trivial) fun _ _ _ => trivial
  exact hr.tidy

theorem line_close (h : r.line.Nodup) :
  r.close.line = r.line
  := by
  have he : r.close.line = r.close.entries := List.append_nil _
  rw [he, entries_close h]

theorem Tidy.close (h : r.Tidy) :
  r.close.Tidy
  where
    nodup := by
      rw [line_close h.nodup]
      exact h.nodup
    held := by simp [Roster.close]

theorem tidy_after (ops : List Op) :
  (after ops).Tidy
  := by
  induction ops using List.reverseRecOn with
  | nil => exact tidy_empty
  | append_singleton ops op ih =>
    rw [after_append_singleton]
    cases op with
    | publish id prerequisite => exact ih.publish id prerequisite
    | retire id => exact ih.retire id
    | close => exact ih.close

/-- The line is made up of what arrived and was not retired since. -/
theorem mem_line_after (ops : List Op) :
  x ∈ (after ops).line ↔ Stays ops x
  := by
  induction ops using List.reverseRecOn with
  | nil => simpa [after, line] using not_stays_nil x
  | append_singleton ops op ih =>
    rw [after_append_singleton, stays_append_singleton, ← ih]
    cases op with
    | publish id prerequisite =>
      have he : (∃ q, Op.publish id prerequisite = .publish x q) ↔ x = id := by
        simp only [Op.publish.injEq, exists_and_left, exists_eq', and_true, eq_comm]
      simp only [apply, mem_line_publish, he, ne_eq, reduceCtorEq, not_false_eq_true, and_true]
      exact or_comm
    | retire id =>
      have hr : x ∈ ((after ops).retire id).line ↔ x ∈ (after ops).line ∧ (x != id) = true :=
        mem_line_restrict
      have he : Op.retire id ≠ .retire x ↔ (x != id) = true := by
        rw [bne_iff_ne, ne_eq, Op.retire.injEq]
        exact not_congr eq_comm
      simp only [apply, hr, he, reduceCtorEq, exists_false, false_or]
    | close =>
      simp only [apply, line_close (tidy_after ops).nodup, reduceCtorEq, exists_false, false_or,
        ne_eq, not_false_eq_true, and_true]

end

/-! ### What an arrival publishes -/

/-- The entities of a forest, each tree before the next one, and each entity before what is
below it. -/
inductive Traverses (below : EntityId → List EntityId) : List EntityId → List EntityId → Prop
  | nil : Traverses below [] []
  | cons {id : EntityId} {roots lower later : List EntityId}
      (hl : Traverses below (below id) lower) (hr : Traverses below roots later) :
      Traverses below (id :: roots) (id :: (lower ++ later))

section

variable {below below' : EntityId → List EntityId} {roots roots' order order' : List EntityId}

/-- There is one such order at most. -/
theorem Traverses.unique (h : Traverses below roots order) (h' : Traverses below roots order') :
  order = order'
  := by
  induction h generalizing order' with
  | nil =>
    cases h'
    rfl
  | cons _ _ ihl ihr =>
    obtain _ | ⟨hl', hr'⟩ := h'
    rw [ihl hl', ihr hr']

theorem Traverses.split (h : Traverses below (roots ++ roots') order) :
  ∃ first second, order = first ++ second ∧ Traverses below roots first
    ∧ Traverses below roots' second
  := by
  induction roots generalizing order with
  | nil => exact ⟨[], order, rfl, .nil, h⟩
  | cons id roots ih =>
    obtain _ | ⟨hl, hr⟩ := h
    obtain ⟨first, second, rfl, hf, hs⟩ := ih hr
    exact ⟨_, second, by simp, .cons hl hf, hs⟩

/-- Only what is below the entities of the forest matters. -/
theorem Traverses.congr (h : Traverses below roots order)
    (hb : ∀ x ∈ order, below x = below' x) :
  Traverses below' roots order
  := by
  induction h with
  | nil => exact .nil
  | @cons id roots lower later hl hr ihl ihr =>
    have hl' := ihl fun x hx => hb x (List.mem_cons_of_mem _ (List.mem_append_left _ hx))
    rw [hb id List.mem_cons_self] at hl'
    exact .cons hl' (ihr fun x hx => hb x (List.mem_cons_of_mem _ (List.mem_append_right _ hx)))

end

section

variable {r : Roster} {id : EntityId} {ready : List EntityId}

theorem waitingFor_enter {x : EntityId} (h : x ≠ id) :
  (r.enter id).waitingFor x = r.waitingFor x
  := by
  have (y : EntityId × EntityId) : (y.1 == x && y.1 != id) = (y.1 == x) := by
    by_cases hy : y.1 = x
    · simp [hy, h]
    · simp [hy]
  simp only [waitingFor, enter, List.filter_filter, this]

/-- What is ready is published along with the forest of what waits for it. -/
theorem traverses_release (h : (r.entries ++ ready ++ r.held.map (·.2)).Nodup) :
  ∃ order, Traverses r.waitingFor ready order
    ∧ (r.release ready).entries = r.entries ++ order
  := by
  fun_induction Roster.release r ready with
  | case1 r => exact ⟨[], .nil, by simp⟩
  | case2 r id ready ih =>
    have hn := (r.perm_enter id ready).nodup_iff.2 h
    obtain ⟨order, ht, he⟩ := ih hn
    have hline := ((r.enter id).perm_release (r.waitingFor id ++ ready)).nodup_iff.2 hn
    rw [line, he] at hline
    -- The entity is not reached again, so the others have below them what they had before.
    have hid : id ∉ order := by
      have hd := List.disjoint_of_nodup_append (List.nodup_append.1 hline).1
      exact hd (List.mem_append_right _ (List.mem_singleton_self id))
    have ht' : Traverses r.waitingFor (r.waitingFor id ++ ready) order :=
      ht.congr fun x hx => waitingFor_enter fun e => hid (e ▸ hx)
    obtain ⟨lower, later, rfl, hl, hr⟩ := ht'.split
    refine ⟨_, .cons hl hr, ?_⟩
    rw [he]
    simp [enter]

/-- An arrival that is not held back publishes the entity and then the forest of what waits
for it. -/
theorem Tidy.entries_publish (h : r.Tidy) (hm : id ∉ r.line) {prerequisite : Option EntityId}
    (hn : (r.publish id prerequisite).holds id = false) :
  ∃ order, Traverses r.waitingFor (r.waitingFor id) order
    ∧ (r.publish id prerequisite).entries = r.entries ++ id :: order
  := by
  obtain ⟨hm', -⟩ | ⟨-, p, -, -, hr⟩ | ⟨-, -, hr⟩ :=
    @publish_cases (fun _ p => prerequisite = some p ∧ p ≠ id) r id prerequisite
      fun _ => Iff.rfl
  · exact absurd hm' hm
  · rw [hr] at hn
    simp [holds] at hn
  · have hready : (r.entries ++ [id] ++ r.held.map (·.2)).Nodup := by
      have : (id :: r.line).Nodup := List.nodup_cons.2 ⟨hm, h.nodup⟩
      refine (List.Perm.nodup_iff ?_).2 this
      simp [line]
    obtain ⟨order, ht, he⟩ := traverses_release hready
    obtain _ | ⟨hl, hr'⟩ := ht
    cases hr'
    exact ⟨_, hl, by rw [hr, he, List.append_nil]⟩

end

/-! ### The order of the entries -/

/-- An entity that arrives once arrives with one prerequisite. -/
theorem prerequisite_unique_of_nodup {ops : List Op} (hn : (arrivals ops).Nodup) {x : EntityId}
    {p q : Option EntityId} (hp : .publish x p ∈ ops) (hq : .publish x q ∈ ops) :
  p = q
  := by
  induction ops with
  | nil => simp at hp
  | cons op ops ih =>
    have split : arrivals (op :: ops) = arrivals [op] ++ arrivals ops := arrivals_append [op] ops
    rw [split] at hn
    have once (p q : Option EntityId) (hop : op = .publish x p)
        (hx : Op.publish x q ∈ ops) : False := by
      refine List.disjoint_of_nodup_append hn ?_ (mem_arrivals.2 ⟨q, hx⟩)
      simp [hop, arrivals]
    obtain hp | hp := List.mem_cons.1 hp
    · obtain hq | hq := List.mem_cons.1 hq
      · exact (Op.publish.inj (hp.trans hq.symm)).2
      · exact (once p q hp.symm hq).elim
    · obtain hq | hq := List.mem_cons.1 hq
      · exact (once q p hq.symm hp).elim
      · exact ih (List.nodup_append.1 hn).2.1 hp hq

/-- Where each entity arrives once, an entity with a prerequisite is held back until that is
published, and comes after it unless the prerequisite was retired. -/
theorem lined_after {ops : List Op} {waits : EntityId → EntityId → Prop}
    (hw : ∀ x p q, waits x p → waits x q → p = q)
    (hops : ∀ id prerequisite, .publish id prerequisite ∈ ops →
      ∀ p, waits id p ↔ prerequisite = some p ∧ p ≠ id)
    (hc : .close ∉ ops) (hn : (arrivals ops).Nodup) :
  Lined waits (fun x => x ∈ arrivals ops ∧ x ∉ (after ops).line) (after ops) []
  := by
  induction ops using List.reverseRecOn with
  | nil => exact lined_empty
  | append_singleton ops op ih =>
    rw [arrivals_append] at hn
    have ih := ih (fun id prerequisite h => hops id prerequisite (List.mem_append_left _ h))
      (fun h => hc (List.mem_append_left _ h)) (List.nodup_append.1 hn).1
    have hlast : op ∈ ops ++ [op] := List.mem_append_right _ (List.mem_singleton_self op)
    rw [after_append_singleton, arrivals_append]
    cases op with
    | publish id prerequisite =>
      refine (ih.publish hw (hops id prerequisite hlast)).mono fun x ⟨hx, hl⟩ => ?_
      refine ⟨List.mem_append_left _ hx, fun h => ?_⟩
      obtain h | rfl := (mem_line_publish _ id prerequisite).1 h
      · exact hl h
      · exact List.disjoint_of_nodup_append hn hx (by simp [arrivals])
    | retire id =>
      refine ih.restrict (fun x ⟨hx, hl⟩ => ?_) fun x hx hk => ?_
      · exact ⟨List.mem_append_left _ hx, fun h => hl (mem_line_restrict.1 h).1⟩
      · constructor
        · obtain ⟨before, prerequisite, later, he, -⟩ := (mem_line_after ops).1 hx
          apply List.mem_append_left
          exact mem_arrivals.2 ⟨prerequisite, by simp [he]⟩
        · intro h
          have := (mem_line_restrict.1 h).2
          simp [hk] at this
    | close => exact absurd hlast hc

/-- Where each entity arrives once, an entry comes after the prerequisite that it arrived
with. -/
theorem precedes_after {ops : List Op} (hc : .close ∉ ops) (hn : (arrivals ops).Nodup)
    {x p : EntityId} (hop : .publish x (some p) ∈ ops) (hne : p ≠ x)
    (hx : x ∈ (after ops).entries) (hp : p ∈ (after ops).entries) :
  Precedes (after ops).entries p x
  := by
  have hl : Lined (fun x p => .publish x (some p) ∈ ops ∧ p ≠ x)
      (fun x => x ∈ arrivals ops ∧ x ∉ (after ops).line) (after ops) [] := by
    apply lined_after _ _ hc hn
    · rintro x p q ⟨hp, -⟩ ⟨hq, -⟩
      exact Option.some.inj (prerequisite_unique_of_nodup hn hp hq)
    · intro id prerequisite h p
      constructor
      · rintro ⟨hp, hne⟩
        exact ⟨prerequisite_unique_of_nodup hn h hp, hne⟩
      · rintro ⟨rfl, hne⟩
        exact ⟨h, hne⟩
  refine (hl.placed x hx p ⟨hop, hne⟩).resolve_right fun hgone => ?_
  exact hgone.2 (List.mem_append_left _ hp)

/-! ### An index of what is published -/

/-- A roster that looks in an index whether an entity is published. -/
structure Indexed where
  entries : List EntityId := []
  index : Std.TreeSet EntityId := ∅
  held : List (EntityId × EntityId) := []

namespace Indexed

/-- The roster without its index. -/
def forget (r : Indexed) : Roster := ⟨r.entries, r.held⟩

/-- Whether an entity is published. -/
def contains (r : Indexed) (id : EntityId) : Bool := r.index.contains id

/-- The roster with `id` published, where what waited for `id` is held back no more. -/
def enter (r : Indexed) (id : EntityId) : Indexed :=
  ⟨r.entries ++ [id], r.index.insert id, r.held.filter (·.1 != id)⟩

/-- The roster after the entities `ready` are published one by one, each followed by what
waited for it. -/
def release (r : Indexed) : List EntityId → Indexed
  | [] => r
  | id :: ready => release (r.enter id) (r.forget.waitingFor id ++ ready)
termination_by ready => ready.length + r.held.length
decreasing_by
  have := r.forget.length_waitingFor_add id
  simp only [List.length_append, List.length_cons]
  simp only [Roster.enter, forget] at this
  simp only [enter, forget]
  omega

/-- The roster after the arrival of an entity. -/
def publish (r : Indexed) (id : EntityId) (prerequisite : Option EntityId) : Indexed :=
  if r.contains id || r.forget.holds id then r
  else
    match prerequisite with
    | some p => if p != id && !r.contains p then { r with held := r.held ++ [(p, id)] }
      else r.release [id]
    | none => r.release [id]

/-- The roster without an entity.  Its entries are gone through only if the entity is
published. -/
def retire (r : Indexed) (id : EntityId) : Indexed :=
  if r.contains id then
    ⟨r.entries.filter (· != id), r.index.erase id, r.held.filter (·.2 != id)⟩
  else { r with held := r.held.filter (·.2 != id) }

/-- The roster in which everything held back is published. -/
def close (r : Indexed) : Indexed := r.held.foldl closeOne { r with held := [] }
  where
    /-- The roster in which one more entity is published, unless it was. -/
    closeOne (r : Indexed) (h : EntityId × EntityId) : Indexed :=
      if r.contains h.2 then r
      else { r with entries := r.entries ++ [h.2], index := r.index.insert h.2 }

/-- The roster after an operation. -/
def apply (r : Indexed) : Op → Indexed
  | .publish id prerequisite => r.publish id prerequisite
  | .retire id => r.retire id
  | .close => r.close

/-- The roster after a sequence of operations on an empty one. -/
def after (ops : List Op) : Indexed := ops.foldl apply {}

/-- The index holds the entries. -/
def Exact (r : Indexed) : Prop := ∀ x, x ∈ r.index ↔ x ∈ r.entries

section

variable {r : Indexed}

theorem Exact.contains_eq (h : r.Exact) (x : EntityId) :
  r.contains x = r.forget.contains x
  := by
  rw [Bool.eq_iff_iff]
  simpa [contains, Roster.contains, forget] using h x

theorem Exact.enter (h : r.Exact) (id : EntityId) :
  (r.enter id).Exact
  := by
  intro x
  simp only [Indexed.enter, mem_insert_iff, List.mem_append, List.mem_singleton, h x]
  tauto

theorem Exact.release (h : r.Exact) (ready : List EntityId) :
  (r.release ready).Exact ∧ (r.release ready).forget = r.forget.release ready
  := by
  fun_induction Indexed.release r ready with
  | case1 r => exact ⟨h, by rw [Roster.release]⟩
  | case2 r id ready ih =>
    obtain ⟨he, hf⟩ := ih (h.enter id)
    exact ⟨he, by rw [hf, Roster.release]; rfl⟩

theorem Exact.publish (h : r.Exact) (id : EntityId) (prerequisite : Option EntityId) :
  (r.publish id prerequisite).Exact
    ∧ (r.publish id prerequisite).forget = r.forget.publish id prerequisite
  := by
  have hr := h.release [id]
  simp only [Indexed.publish, Roster.publish, h.contains_eq id]
  by_cases hm : (r.forget.contains id || r.forget.holds id) = true
  · simp only [if_pos hm]
    exact ⟨h, trivial⟩
  · simp only [if_neg hm]
    cases prerequisite with
    | none => exact hr
    | some p =>
      simp only [h.contains_eq p]
      by_cases hp : (p != id && !r.forget.contains p) = true
      · simp only [if_pos hp]
        exact ⟨fun x => h x, rfl⟩
      · simp only [if_neg hp]
        exact hr

theorem Exact.retire (h : r.Exact) (id : EntityId) :
  (r.retire id).Exact ∧ (r.retire id).forget = r.forget.retire id
  := by
  unfold Indexed.retire
  by_cases hm : r.contains id = true
  · rw [if_pos hm]
    refine ⟨fun x => ?_, rfl⟩
    simp only [mem_erase_iff, List.mem_filter, bne_iff_ne, h x]
    tauto
  · rw [if_neg hm]
    refine ⟨h, ?_⟩
    have hn : id ∉ r.entries := by
      simpa [h.contains_eq id, forget, Roster.contains] using hm
    have : r.entries.filter (· != id) = r.entries := by
      rw [List.filter_eq_self]
      intro x hx
      simpa using fun e : x = id => hn (e ▸ hx)
    simp [forget, Roster.retire, this]

theorem Exact.close (h : r.Exact) :
  r.close.Exact ∧ r.close.forget = r.forget.close
  := by
  have all (held : List (EntityId × EntityId)) (s : Indexed) (hs : s.Exact)
      (hheld : s.held = []) :
      (held.foldl close.closeOne s).Exact
        ∧ (held.foldl close.closeOne s).forget = ⟨closeWith s.entries held, []⟩ := by
    induction held generalizing s with
    | nil => exact ⟨hs, by simp [forget, closeWith, hheld]⟩
    | cons x held ih =>
      rw [List.foldl_cons, closeWith]
      by_cases hx : s.contains x.2 = true
      · have hx' : s.entries.contains x.2 = true := (hs.contains_eq x.2).symm.trans hx
        rw [close.closeOne, if_pos hx, if_pos hx']
        exact ih s hs hheld
      · have hx' : ¬ s.entries.contains x.2 = true := fun he =>
          hx ((hs.contains_eq x.2).trans he)
        rw [close.closeOne, if_neg hx, if_neg hx']
        exact ih _ (fun y => hs.enter x.2 y) hheld
  exact all r.held { r with held := [] } (fun x => h x) rfl

/-- The index does not change what the roster comes to. -/
theorem exact_after (ops : List Op) :
  (after ops).Exact ∧ (after ops).forget = Roster.after ops
  := by
  induction ops using List.reverseRecOn with
  | nil => exact ⟨fun x => by simp [after], rfl⟩
  | append_singleton ops op ih =>
    obtain ⟨h, hf⟩ := ih
    have hlast : after (ops ++ [op]) = (after ops).apply op := by simp [after]
    rw [hlast, after_append_singleton, ← hf]
    cases op with
    | publish id prerequisite => exact h.publish id prerequisite
    | retire id => exact h.retire id
    | close => exact h.close

end

end Indexed

/-! ### Any sequence of operations -/

/-- A sequence of operations loses nothing and duplicates nothing: entries and those that are
held back are distinct, the index says who is an entry, no entry holds anything back, and what
arrived and was not retired since is in the line, and an entry once the roster is closed.  An
arrival that is not held back adds to the entries the entity and the forest of what waits for
it.  Without closing, and where each entity arrives once, an entry comes after its
prerequisite. -/
theorem operations_lossless (ops : List Op) :
  (after ops).entries.Nodup
    ∧ (∀ x, (Indexed.after ops).contains x = true ↔ x ∈ (after ops).entries)
    ∧ (Indexed.after ops).forget = after ops
    ∧ (∀ x, (after ops).contains x = true ↔ x ∈ (after ops).entries)
    ∧ ((after ops).held.map (·.2)).Nodup
    ∧ (∀ p x, (p, x) ∈ (after ops).held → x ∉ (after ops).entries ∧ p ∉ (after ops).entries)
    ∧ (∀ x, Stays ops x ↔ x ∈ (after ops).entries ∨ (after ops).holds x = true)
    ∧ (∀ x, Stays ops x → x ∈ (after (ops ++ [.close])).entries)
    ∧ (∀ id prerequisite, (after ops).contains id = false → (after ops).holds id = false →
        (after (ops ++ [.publish id prerequisite])).holds id = false →
        ∃ order, Traverses (after ops).waitingFor ((after ops).waitingFor id) order
          ∧ (after (ops ++ [.publish id prerequisite])).entries
            = (after ops).entries ++ id :: order)
    ∧ (.close ∉ ops → (arrivals ops).Nodup → ∀ x p, .publish x (some p) ∈ ops → p ≠ x →
        x ∈ (after ops).entries → p ∈ (after ops).entries → Precedes (after ops).entries p x)
  := by
  have tidy := tidy_after ops
  obtain ⟨hentries, hheld, hdisjoint⟩ := List.nodup_append'.1 tidy.nodup
  obtain ⟨hindex, hforget⟩ := Indexed.exact_after ops
  have contains (x : EntityId) : (after ops).contains x = true ↔ x ∈ (after ops).entries :=
    List.contains_iff_mem
  have holds (x : EntityId) :
      (after ops).holds x = true ↔ x ∈ (after ops).held.map (·.2) := by
    simp [Roster.holds]
  have line (x : EntityId) :
      x ∈ (after ops).line ↔ x ∈ (after ops).entries ∨ (after ops).holds x = true := by
    rw [holds]
    exact List.mem_append
  refine ⟨hentries, fun x => ?_, hforget, contains, hheld, fun p x hx => ?_, fun x => ?_,
    fun x hx => ?_, fun id prerequisite hc hh hn => ?_, fun hc hn x p => precedes_after hc hn⟩
  · rw [hindex.contains_eq, hforget]
    exact contains x
  · have hx' : x ∈ (after ops).held.map (·.2) := List.mem_map.2 ⟨(p, x), hx, rfl⟩
    exact ⟨fun he => hdisjoint he hx', tidy.held p x hx⟩
  · rw [← line, mem_line_after]
  · rw [after_append_singleton, apply, entries_close tidy.nodup]
    exact (mem_line_after ops).2 hx
  · have hm : id ∉ (after ops).line := by
      rw [line, ← contains, hc, hh]
      simp
    rw [after_append_singleton] at hn ⊢
    exact tidy.entries_publish hm hn

/-- Entities that wait for each other, some of which arrive before what they wait for. -/
def chainOps : List Op :=
  [.publish "C" (some "B"), .publish "E" none, .publish "B" (some "A"),
    .publish "D" (some "A"), .retire "E"]

theorem operations_lossless_chainOps :
  (∃ order, Traverses (after chainOps).waitingFor ((after chainOps).waitingFor "A") order
      ∧ (after (chainOps ++ [.publish "A" none])).entries
        = (after chainOps).entries ++ "A" :: order)
    ∧ Precedes (after (chainOps ++ [.publish "A" none])).entries "B" "C"
  := by
  obtain ⟨-, -, -, -, -, -, -, -, published, -⟩ := operations_lossless chainOps
  obtain ⟨-, -, -, -, -, -, -, -, -, ordered⟩ :=
    operations_lossless (chainOps ++ [.publish "A" none])
  constructor
  · exact published "A" none (by decide +kernel) (by decide +kernel) (by decide +kernel)
  · exact ordered (by simp [chainOps]) (by decide +kernel) "C" "B" (by simp [chainOps])
      (by decide +kernel) (by decide +kernel) (by decide +kernel)

end Roster

end Conformance
