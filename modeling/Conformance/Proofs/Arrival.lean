import Conformance.Proofs.Ledger
import Mathlib.Data.List.Induction
import Mathlib.Data.List.Nodup

/-!
# Sequences of arrivals and services

Tasks arrive at a backlog and are asked for in any sequence.  `Backlog.log` keeps a record of
what came of each operation.  Whatever the sequence, a task is accepted when the first task of
its slot arrives and never again, each kind of task is served in the order in which its tasks
were accepted, and what is asked for is the oldest task of the first kind that has one.
-/

namespace Conformance

/-- The kinds of tasks, each of which waits in a queue of its own. -/
inductive TaskKind where
  | declaration
  | aspects
  | completion
  deriving DecidableEq

/-- The kind of a task. -/
def Task.kind : Task → TaskKind
  | .declaration _ => .declaration
  | .aspects .. => .aspects
  | .completion _ => .completion

namespace Backlog

/-- The tasks of a kind that wait, the oldest first. -/
def pending (b : Backlog) : TaskKind → List Task
  | .declaration => b.declarations.waiting.map .declaration
  | .aspects => b.aspects.waiting.map fun (type, anchor) => .aspects type anchor
  | .completion => b.completions.waiting.map .completion

/-- An operation on a backlog. -/
inductive Op where
  | push (task : Task)
  | pop
  deriving DecidableEq

/-- What came of an operation on a backlog. -/
inductive Entry where
  /-- A task arrived, and was accepted or not. -/
  | arrival (task : Task) (accepted : Bool)
  /-- A task was asked for, and one was served if any waited. -/
  | service (task : Option Task)
  deriving DecidableEq

/-- What comes of an operation, and the backlog after it. -/
def operate (b : Backlog) : Op → Entry × Backlog
  | .push task => (.arrival task (b.takes task), b.push task)
  | .pop =>
    match b.next? with
    | some (task, rest) => (.service (some task), rest)
    | none => (.service none, b)

/-- A backlog with a record of what came of the operations on it, the latest last. -/
structure Log where
  backlog : Backlog := {}
  entries : List Entry := []

/-- The log after an operation. -/
def Log.operate (log : Log) (op : Op) : Log where
  backlog := (log.backlog.operate op).2
  entries := log.entries ++ [(log.backlog.operate op).1]

/-- The log of a sequence of operations on an empty backlog. -/
def log (ops : List Op) : Log := ops.foldl Log.operate {}

/-- The tasks that arrive in a sequence of operations. -/
def arrivals (ops : List Op) : List Task :=
  ops.filterMap fun
    | .push task => some task
    | .pop => none

/-- The tasks that were accepted, in order of arrival. -/
def accepted (entries : List Entry) : List Task :=
  entries.filterMap fun
    | .arrival task true => some task
    | _ => none

/-- The tasks that were served, in order of service. -/
def served (entries : List Entry) : List Task :=
  entries.filterMap fun
    | .service task => task
    | _ => none

theorem log_append_singleton (ops : List Op) (op : Op) :
  log (ops ++ [op]) = (log ops).operate op
  := by simp [log]

/-! ### What waits -/

section

variable {b b' : Backlog} {t : Task}

theorem pending_push (h : b.takes t = true) (kind : TaskKind) :
  (b.push t).pending kind = b.pending kind ++ [t].filter (·.kind = kind)
  := by
  cases t with
  | declaration id =>
    have h : b.declarations.takes id = true := h
    cases kind <;> simp [pending, push, Task.kind, Lane.waiting_push, h]
  | aspects type anchor =>
    have h : b.aspects.takes type = true := h
    cases kind <;> simp [pending, push, Task.kind, Lane.waiting_push, h]
  | completion access =>
    have h : b.completions.takes access = true := h
    cases kind <;> simp [pending, push, Task.kind, Lane.waiting_push, h]

/-- The task that is served is the oldest one of the first kind that has one. -/
theorem next?_cases (b : Backlog) :
  (∃ id rest, b.next? = some (.declaration id, { b with declarations := rest })
      ∧ b.declarations.waiting = id :: rest.waiting)
    ∨ (∃ type anchor rest, b.next? = some (.aspects type anchor, { b with aspects := rest })
      ∧ b.declarations.waiting = [] ∧ b.aspects.waiting = (type, anchor) :: rest.waiting)
    ∨ (∃ access rest, b.next? = some (.completion access, { b with completions := rest })
      ∧ b.declarations.waiting = [] ∧ b.aspects.waiting = []
      ∧ b.completions.waiting = access :: rest.waiting)
    ∨ b.next? = none ∧ b.toList = []
  := by
  cases hd : b.declarations.pop? with
  | some served =>
    left
    exact ⟨served.1, served.2, by simp [next?, hd], (Lane.of_pop?_eq_some hd).1⟩
  | none =>
    have hdw := (Lane.pop?_eq_none_iff _).1 hd
    cases ha : b.aspects.pop? with
    | some served =>
      right; left
      exact ⟨served.1.1, served.1.2, served.2, by simp [next?, hd, ha], hdw,
        (Lane.of_pop?_eq_some ha).1⟩
    | none =>
      have haw := (Lane.pop?_eq_none_iff _).1 ha
      right; right
      cases hc : b.completions.pop? with
      | some served =>
        left
        exact ⟨served.1, served.2, by simp [next?, hd, ha, hc], hdw, haw,
          (Lane.of_pop?_eq_some hc).1⟩
      | none =>
        right
        have hn : b.next? = none := by simp [next?, hd, ha, hc]
        exact ⟨hn, toList_of_next?_eq_none hn⟩

/-- A service takes the task that it serves from the front of its queue. -/
theorem pending_of_next? (h : b.next? = some (t, b')) (kind : TaskKind) :
  b.pending kind = [t].filter (·.kind = kind) ++ b'.pending kind
  := by
  obtain ⟨id, rest, hn, hw⟩ | ⟨type, anchor, rest, hn, -, hw⟩ | ⟨access, rest, hn, -, -, hw⟩
    | ⟨hn, -⟩ := b.next?_cases
  case inr.inr.inr => cases h.symm.trans hn
  all_goals
    obtain ⟨rfl, rfl⟩ := Prod.mk.inj (Option.some.inj (h.symm.trans hn))
    cases kind <;> simp [pending, Task.kind, hw]

/-- Declarations are served first, then aspects, then completions. -/
theorem entry_pop (b : Backlog) :
  (b.operate .pop).1 = .service ((b.pending .declaration).head?.or
    ((b.pending .aspects).head?.or (b.pending .completion).head?))
  := by
  obtain ⟨id, rest, hn, hd⟩ | ⟨type, anchor, rest, hn, hd, ha⟩ | ⟨access, rest, hn, hd, ha, hc⟩
    | ⟨hn, hl⟩ := b.next?_cases
  · simp [operate, hn, pending, hd]
  · simp [operate, hn, pending, hd, ha]
  · simp [operate, hn, pending, hd, ha, hc]
  · simp only [toList, List.append_eq_nil_iff, List.map_eq_nil_iff] at hl
    simp [operate, hn, pending, hl]

theorem size_eq_zero_iff (b : Backlog) :
  b.size = 0 ↔ b.isEmpty = true
  := by rw [isEmpty_iff, ← length_toList, List.length_eq_zero_iff]

/-- Nothing is served exactly where nothing waits. -/
theorem isEmpty_iff_entry_pop (b : Backlog) :
  b.isEmpty = true ↔ (b.operate .pop).1 = .service none
  := by
  rw [isEmpty_iff, entry_pop]
  simp [toList, pending, Option.or_eq_none_iff]

end

/-! ### What a log keeps -/

/-- What was accepted was served since or waits, in order, and it is all that arrived but for
repetitions. -/
structure Log.Orderly (log : Log) (ops : List Op) : Prop where
  taken : ∀ t, log.backlog.takes t = false ↔ t.slot ∈ (arrivals ops).map Task.slot
  known : ∀ t ∈ accepted log.entries, log.backlog.takes t = false
  once : ((accepted log.entries).map Task.slot).Nodup
  order : ∀ kind, (accepted log.entries).filter (·.kind = kind)
    = (served log.entries).filter (·.kind = kind) ++ log.backlog.pending kind

theorem orderly_empty :
  Log.Orderly {} []
  where
    taken t := by cases t <;> simp [takes, Lane.takes, arrivals]
    known := by simp [accepted]
    once := by simp [accepted]
    order kind := by cases kind <;> simp [accepted, served, pending]

section

variable {log : Log} {ops : List Op} {t : Task}

/-- A task of a slot that was never taken is accepted. -/
theorem Log.Orderly.accept (h : log.Orderly ops) (ht : log.backlog.takes t = true) :
  (log.operate (.push t)).Orderly (ops ++ [.push t])
  := by
  have ha : accepted (log.operate (.push t)).entries = accepted log.entries ++ [t] := by
    simp [Log.operate, Backlog.operate, accepted, ht]
  have hs : served (log.operate (.push t)).entries = served log.entries := by
    simp [Log.operate, Backlog.operate, served]
  constructor
  · intro t'
    change (log.backlog.push t).takes t' = false ↔ _
    rw [takes_push_slot, Bool.and_eq_false_iff, bne_eq_false_iff_eq, h.taken]
    simp [arrivals]
  · rw [ha]
    intro t' ht'
    change (log.backlog.push t).takes t' = false
    obtain ht' | ht' := List.mem_append.1 ht'
    · rw [takes_push_slot, h.known t' ht', Bool.false_and]
    · rw [List.mem_singleton.1 ht']
      exact not_takes_push log.backlog t
  · rw [ha, List.map_append, List.map_singleton, List.nodup_append]
    refine ⟨h.once, List.nodup_singleton _, fun s hs s' hs' he => ?_⟩
    -- A task of the same slot that was accepted before is taken no more.
    obtain ⟨t', ht', rfl⟩ := List.mem_map.1 hs
    rw [List.mem_singleton.1 hs'] at he
    have := h.known t' ht'
    rw [← takes_slot, he, takes_slot, ht] at this
    cases this
  · intro kind
    rw [ha, hs, List.filter_append, h.order kind, List.append_assoc]
    exact congrArg _ (pending_push ht kind).symm

/-- A task of a slot that was taken before changes nothing. -/
theorem Log.Orderly.refuse (h : log.Orderly ops) (ht : log.backlog.takes t = false) :
  (log.operate (.push t)).Orderly (ops ++ [.push t])
  := by
  have ha : accepted (log.operate (.push t)).entries = accepted log.entries := by
    simp [Log.operate, Backlog.operate, accepted, ht]
  have hs : served (log.operate (.push t)).entries = served log.entries := by
    simp [Log.operate, Backlog.operate, served]
  have hb : (log.operate (.push t)).backlog = log.backlog := push_eq_self ht
  constructor
  · intro t'
    have harrivals : arrivals (ops ++ [.push t]) = arrivals ops ++ [t] := by simp [arrivals]
    rw [hb, h.taken, harrivals, List.map_append, List.mem_append, List.map_singleton,
      List.mem_singleton, or_iff_left_of_imp]
    intro he
    rw [he]
    exact (h.taken t).1 ht
  · rw [ha, hb]
    exact h.known
  · rw [ha]
    exact h.once
  · rw [ha, hs, hb]
    exact h.order

theorem Log.Orderly.pop (h : log.Orderly ops) :
  (log.operate .pop).Orderly (ops ++ [.pop])
  := by
  have harrivals : arrivals (ops ++ [.pop]) = arrivals ops := by simp [arrivals]
  have ha : accepted (log.operate .pop).entries = accepted log.entries := by
    simp only [Log.operate, Backlog.operate]
    split <;> simp [accepted]
  cases hn : log.backlog.next? with
  | none =>
    have hs : served (log.operate .pop).entries = served log.entries := by
      simp [Log.operate, Backlog.operate, served, hn]
    have hb : (log.operate .pop).backlog = log.backlog := by
      simp [Log.operate, Backlog.operate, hn]
    constructor
    · rw [hb, harrivals]
      exact h.taken
    · rw [ha, hb]
      exact h.known
    · rw [ha]
      exact h.once
    · rw [ha, hs, hb]
      exact h.order
  | some next =>
    obtain ⟨t, rest⟩ := next
    have hs : served (log.operate .pop).entries = served log.entries ++ [t] := by
      simp [Log.operate, Backlog.operate, served, hn]
    have hb : (log.operate .pop).backlog = rest := by
      simp [Log.operate, Backlog.operate, hn]
    have ht (t' : Task) : rest.takes t' = log.backlog.takes t' := takes_of_next? hn t'
    constructor
    · intro t'
      rw [hb, ht, harrivals]
      exact h.taken t'
    · intro t' ht'
      rw [ha] at ht'
      rw [hb, ht]
      exact h.known t' ht'
    · rw [ha]
      exact h.once
    · intro kind
      rw [ha, hs, hb, List.filter_append, List.append_assoc, ← pending_of_next? hn kind]
      exact h.order kind

end

theorem orderly_log (ops : List Op) :
  (log ops).Orderly ops
  := by
  induction ops using List.reverseRecOn with
  | nil => exact orderly_empty
  | append_singleton ops op ih =>
    rw [log_append_singleton]
    cases op with
    | push t =>
      cases ht : (log ops).backlog.takes t with
      | true => exact ih.accept ht
      | false => exact ih.refuse ht
    | pop => exact ih.pop

/-- After any sequence of operations, a task that arrives is accepted exactly if no task of its
slot arrived before, so nothing is accepted twice; what was accepted of a kind is what was
served of it, followed by what waits, in order of arrival; what is asked for is the oldest
declaration that waits, else the oldest aspects, else the oldest completion; and the size is
zero exactly if the backlog is empty, exactly if nothing would be served. -/
theorem served_once_in_order (ops : List Op) :
  (∀ t, ((log ops).backlog.operate (.push t)).1
      = .arrival t (decide (t.slot ∉ (arrivals ops).map Task.slot)))
    ∧ ((accepted (log ops).entries).map Task.slot).Nodup
    ∧ (∀ kind, (accepted (log ops).entries).filter (·.kind = kind)
      = (served (log ops).entries).filter (·.kind = kind) ++ (log ops).backlog.pending kind)
    ∧ ((log ops).backlog.operate .pop).1
      = .service (((log ops).backlog.pending .declaration).head?.or
        (((log ops).backlog.pending .aspects).head?.or
          ((log ops).backlog.pending .completion).head?))
    ∧ ((log ops).backlog.size = 0 ↔ (log ops).backlog.isEmpty = true)
    ∧ ((log ops).backlog.isEmpty = true ↔ ((log ops).backlog.operate .pop).1 = .service none)
  := by
  have h := orderly_log ops
  refine ⟨fun t => ?_, h.once, h.order, entry_pop _, size_eq_zero_iff _,
    isEmpty_iff_entry_pop _⟩
  have ht : (log ops).backlog.takes t = decide (t.slot ∉ (arrivals ops).map Task.slot) := by
    rw [Bool.eq_iff_iff, decide_eq_true_iff, ← h.taken, Bool.not_eq_false]
  rw [operate, ht]

/-- Aspects keep the mode of the arrival that was accepted, and are not accepted again after
they were served. -/
example :
  (log [.push (.completion "A"), .push (.aspects "T" (some "P")), .push (.aspects "T" none),
      .pop, .push (.aspects "T" none), .pop]).entries
    = [.arrival (.completion "A") true, .arrival (.aspects "T" (some "P")) true,
      .arrival (.aspects "T" none) false, .service (some (.aspects "T" (some "P"))),
      .arrival (.aspects "T" none) false, .service (some (.completion "A"))]
  := by decide +kernel

end Backlog

end Conformance
