import Conformance.Program.Site
import Std.Data.TreeSet

/-!
# Postponed work

Work that waits until the pass under way has come back.  A `Lane` is a first-in
first-out queue that takes each name at most once, also after the name was served.  A
`Backlog` has a lane for each kind of task; `next?` serves declarations before aspects
of types, and those before completions.
-/

namespace Conformance

/-- A queue that takes each name at most once. -/
structure Lane (α : Type) where
  /-- The items that wait, in order of arrival. -/
  waiting : List α := []
  /-- The names that were ever taken. -/
  taken : Std.TreeSet EntityId := ∅

namespace Lane

variable {α : Type}

/-- Whether the queue still takes a name. -/
def takes (l : Lane α) (name : EntityId) : Bool := !l.taken.contains name

/-- The queue after an item with a name arrived. -/
def push (l : Lane α) (name : EntityId) (item : α) : Lane α :=
  if l.takes name then ⟨l.waiting ++ [item], l.taken.insert name⟩ else l

/-- The item that waits longest, and the queue without it. -/
def pop? (l : Lane α) : Option (α × Lane α) :=
  match l.waiting with
  | [] => none
  | a :: as => some (a, { l with waiting := as })

/-- A name is taken once it arrived, and stays taken. -/
theorem takes_push (l : Lane α) (name other : EntityId) (item : α) :
  (l.push name item).takes other = (l.takes other && other != name)
  := by
  cases ht : l.taken.contains name
  · have hp : l.push name item = ⟨l.waiting ++ [item], l.taken.insert name⟩ := by
      simp [push, takes, ht]
    by_cases h : other = name
    · simp [hp, takes, h]
    · have hc : (compare name other == .eq) = false :=
        beq_false_of_ne fun e => h (Std.LawfulEqOrd.eq_of_compare e).symm
      have hn : (other != name) = true := bne_iff_ne.2 h
      simp only [hp, takes, Std.TreeSet.contains_insert, hc, hn, Bool.false_or, Bool.and_true]
  · have hp : l.push name item = l := by simp [push, takes, ht]
    by_cases h : other = name
    · simp [hp, takes, h, ht]
    · simp [hp, takes, h]

/-- An item is appended if its name is still taken. -/
theorem waiting_push (l : Lane α) (name : EntityId) (item : α) :
  (l.push name item).waiting = l.waiting ++ if l.takes name then [item] else []
  := by
  by_cases h : l.takes name <;> simp [push, h]

/-- What is served was the first to wait, and names stay taken. -/
theorem of_pop?_eq_some {l l' : Lane α} {a : α} (h : l.pop? = some (a, l')) :
  l.waiting = a :: l'.waiting ∧ l'.taken = l.taken
  := by
  unfold pop? at h
  split at h
  · simp at h
  · next hw =>
    obtain ⟨rfl, rfl⟩ := Prod.mk.inj (Option.some.inj h)
    exact ⟨hw, rfl⟩

theorem pop?_eq_none_iff (l : Lane α) :
  l.pop? = none ↔ l.waiting = []
  := by
  unfold pop?
  split <;> simp_all

end Lane

/-- A unit of postponed work. -/
inductive Task where
  /-- An entity to decide in a context of its own. -/
  | declaration (id : EntityId)
  /-- The aspects of a type, with the entity whose mode governs the reports. -/
  | aspects (type : EntityId) (anchor : Option EntityId)
  /-- An access type whose designated type was incomplete when it was decided. -/
  | completion (access : EntityId)
  deriving DecidableEq

/-- The postponed work of a run. -/
structure Backlog where
  declarations : Lane EntityId := {}
  aspects : Lane (EntityId × Option EntityId) := {}
  completions : Lane EntityId := {}

namespace Backlog

/-- Whether the backlog still takes a task. -/
def takes (b : Backlog) : Task → Bool
  | .declaration id => b.declarations.takes id
  | .aspects type _ => b.aspects.takes type
  | .completion access => b.completions.takes access

/-- The backlog after a task arrived. -/
def push (b : Backlog) : Task → Backlog
  | .declaration id => { b with declarations := b.declarations.push id id }
  | .aspects type anchor => { b with aspects := b.aspects.push type (type, anchor) }
  | .completion access => { b with completions := b.completions.push access access }

/-- The task to be served next, and the backlog without it. -/
def next? (b : Backlog) : Option (Task × Backlog) :=
  match b.declarations.pop? with
  | some (id, rest) => some (.declaration id, { b with declarations := rest })
  | none =>
    match b.aspects.pop? with
    | some ((type, anchor), rest) => some (.aspects type anchor, { b with aspects := rest })
    | none =>
      match b.completions.pop? with
      | some (access, rest) => some (.completion access, { b with completions := rest })
      | none => none

/-- The tasks that wait, in the order in which they would be served. -/
def toList (b : Backlog) : List Task :=
  b.declarations.waiting.map .declaration
    ++ b.aspects.waiting.map (fun (type, anchor) => .aspects type anchor)
    ++ b.completions.waiting.map .completion

/-- The number of tasks that wait. -/
def size (b : Backlog) : Nat :=
  b.declarations.waiting.length + b.aspects.waiting.length + b.completions.waiting.length

/-- Whether no task waits. -/
def isEmpty (b : Backlog) : Bool :=
  b.declarations.waiting.isEmpty && b.aspects.waiting.isEmpty
    && b.completions.waiting.isEmpty

/-- The task that is served is the first of those that wait. -/
theorem toList_of_next? {b b' : Backlog} {task : Task} (h : b.next? = some (task, b')) :
  b.toList = task :: b'.toList
  := by
  unfold next? at h
  split at h
  · next hd =>
    obtain ⟨rfl, rfl⟩ := Prod.mk.inj (Option.some.inj h)
    simp [toList, (Lane.of_pop?_eq_some hd).1]
  · next hd =>
    split at h
    · next ha =>
      obtain ⟨rfl, rfl⟩ := Prod.mk.inj (Option.some.inj h)
      simp [toList, (Lane.pop?_eq_none_iff _).1 hd, (Lane.of_pop?_eq_some ha).1]
    · next ha =>
      split at h
      · next hc =>
        obtain ⟨rfl, rfl⟩ := Prod.mk.inj (Option.some.inj h)
        simp [toList, (Lane.pop?_eq_none_iff _).1 hd, (Lane.pop?_eq_none_iff _).1 ha,
          (Lane.of_pop?_eq_some hc).1]
      · simp at h

theorem length_toList (b : Backlog) :
  b.toList.length = b.size
  := by simp [toList, size, Nat.add_assoc]

theorem isEmpty_iff (b : Backlog) :
  b.isEmpty ↔ b.toList = []
  := by simp [toList, isEmpty, and_assoc]

end Backlog

end Conformance
