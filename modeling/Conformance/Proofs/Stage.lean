import Conformance.Proofs.Passage

/-!
# Stages of a run over a program

A run over a program is a chain of stages: an item of a context clause, the content of a
unit, or the service of a task.  No matter is under way between stages.  `Proceeds` are
the chains of stages, along with the contents that are gone through, and
`proceeds_wholeProgram` says that a run over the whole program is such a chain, at the end
of which no task waits.
-/

namespace Conformance

/-- The content of a compilation unit. -/
def Node.content (n : Node) : Node :=
  match n.shape with
  | .compilationUnit _ unit => unit
  | _ => n

namespace Run

/-- The run in which a task is served. -/
def take (r : Run) (task : Task) (backlog : Backlog) : Run :=
  (r.rule fun v => { v with backlog }).note (.served task)

/-- The run after the aspects of a type were gone through. -/
def concludeAspects (r : Run) (type : EntityId) : Run :=
  if r.violated then
    r.rule fun v => { v with failedAspects := v.failedAspects.insert type }
  else r

/-- The run after an access type is completed. -/
def complete (r : Run) (type access : EntityId) : Run :=
  r.rule fun v => { v with completions := v.completions.insert type access }

/-- The run after an access type is taken back for what it designates. -/
def takeBack (r : Run) (p : Program) (access type : EntityId) (cause : Site) : Run :=
  let step := r.withdraw p type cause (.declaration access)
  if step.2 then step.1.cascade p cause [access] else step.1

end Run

namespace Setting

variable (S : Setting)

/-- The scope of the aspects of a type. -/
def aspectsScope (type : EntityId) (anchor : Option EntityId) (mode : Option Mode)
    (attribution : Site) : Scope :=
  { matter := some (.aspects type), mode, anchor, attribution := some attribution }

/-- A run passes to another one in a stage, in which the given contents of units are gone
through. -/
inductive Stage : List Node → Run → Run → Prop
  | context {n : Node} {path : List Step} {r r₁ : Run} (l : (S.contextItem n).Leads path ())
      (w : S.Passes (.steps {} path) { r with cause := none } r₁) :
    Stage [] r { r₁ with cause := r.cause }
  | unit {n : Node} {path : List Step} {r r' : Run} (l : (S.item {} n).Leads path ())
      (w : S.Passes (.steps {} path) r r') : Stage [n] r r'
  | declaration {id : EntityId} {backlog : Backlog} {r r' : Run}
      (hn : r.verdicts.backlog.next? = some (.declaration id, backlog))
      (d : S.Passes (.decision id) (r.take (.declaration id) backlog) r') : Stage [] r r'
  /-- Aspects that are not analysed. -/
  | aspectsOff {type : EntityId} {anchor : Option EntityId} {backlog : Backlog} {r : Run}
      (hn : r.verdicts.backlog.next? = some (.aspects type anchor, backlog)) :
    Stage [] r (r.take (.aspects type anchor) backlog)
  | aspects {type : EntityId} {anchor : Option EntityId} {backlog : Backlog}
      {e : Entity} {t : TypeFacet} {mode : Option Mode} {attribution : Site}
      {path : List Step} {r r₁ : Run}
      (hn : r.verdicts.backlog.next? = some (.aspects type anchor, backlog))
      (he : S.program.entity type = .ok e) (ht : S.program.typeFacet type = .ok t)
      (hm : S.aspectsMode e anchor = .ok (mode, attribution)) (ho : mode ≠ some .off)
      (l : (S.aspectsInquiry t).Leads path ())
      (w : S.Passes (.steps (aspectsScope type anchor mode attribution) path)
        { r.take (.aspects type anchor) backlog with cause := none } r₁) :
    Stage [] r { r₁.concludeAspects type with cause := r.cause }
  /-- The completion of an access type that is excluded by now. -/
  | completionVoid {access : EntityId} {backlog : Backlog} {r : Run}
      (hn : r.verdicts.backlog.next? = some (.completion access, backlog))
      (ha : r.admits access = false) : Stage [] r (r.take (.completion access) backlog)
  | completion {access type : EntityId} {backlog : Backlog} {r r₁ : Run}
      (hn : r.verdicts.backlog.next? = some (.completion access, backlog))
      (hd : S.designated access = .ok type) (ha : r.admits access = true)
      (d : S.Passes (.decision type) (r.take (.completion access) backlog) r₁)
      (ht : r₁.admits type = true) : Stage [] r (r₁.complete type access)
  /-- The completion of an access type by an entity that is excluded. -/
  | completionFailed {access type : EntityId} {backlog : Backlog} {cause : Site}
      {r r₁ : Run} (hn : r.verdicts.backlog.next? = some (.completion access, backlog))
      (hd : S.designated access = .ok type) (ha : r.admits access = true)
      (d : S.Passes (.decision type) (r.take (.completion access) backlog) r₁)
      (ht : r₁.admits type = false) (hc : S.causeOf r₁.verdicts type = .ok cause) :
    Stage [] r (r₁.takeBack S.program access type cause)

/-- A run passes to another one in stages, in which the given contents of units are gone
through. -/
inductive Proceeds : List Node → Run → Run → Prop
  | nil {r : Run} : Proceeds [] r r
  | cons {ns ms : List Node} {r r₁ r' : Run} (h : S.Stage ns r r₁)
      (rest : Proceeds ms r₁ r') : Proceeds (ns ++ ms) r r'

variable {S}

theorem Proceeds.trans {ns ms : List Node} {r r₁ r' : Run} (h : S.Proceeds ns r r₁)
    (h' : S.Proceeds ms r₁ r') :
  S.Proceeds (ns ++ ms) r r'
  := by
  induction h with
  | nil => exact h'
  | cons h _ ih =>
    rw [List.append_assoc]
    exact .cons h (ih h')

theorem Stage.proceeds {ns : List Node} {r r' : Run} (h : S.Stage ns r r') :
  S.Proceeds ns r r'
  := by
  rw [← List.append_nil ns]
  exact .cons h .nil

/-! ### From acts to stages -/

theorem stage_serveAspects {type : EntityId} {anchor : Option EntityId} {backlog : Backlog}
    {r r' : Run} (hn : r.verdicts.backlog.next? = some (.aspects type anchor, backlog))
    (h : S.serveAspects type anchor (r.take (.aspects type anchor) backlog) = .ok () r') :
  S.Stage [] r r'
  := by
  obtain ⟨e, _, hl, h⟩ := Act.bind_eq_ok.1 h
  obtain ⟨he, rfl⟩ := Act.lift_eq_ok.1 hl
  obtain ⟨t, _, hl, h⟩ := Act.bind_eq_ok.1 h
  obtain ⟨ht, rfl⟩ := Act.lift_eq_ok.1 hl
  obtain ⟨⟨mode, attribution⟩, _, hl, h⟩ := Act.bind_eq_ok.1 h
  obtain ⟨hm, rfl⟩ := Act.lift_eq_ok.1 hl
  simp only at h
  split at h
  · obtain ⟨-, rfl⟩ := Act.pure_eq_ok.1 h
    exact .aspectsOff hn
  · next ho =>
    rw [beq_iff_eq] at ho
    obtain ⟨r₁, ha, rfl⟩ := Act.afresh_eq_ok.1 h
    obtain ⟨_, r₂, hw, ha⟩ := Act.bind_eq_ok.1 ha
    obtain ⟨path, l, w⟩ := passes_walk passes_decide hw
    obtain rfl := Act.modify_eq_ok.1 ha
    exact .aspects hn he ht hm ho l w

theorem stage_serveCompletion {access : EntityId} {backlog : Backlog} {r r' : Run}
    (hn : r.verdicts.backlog.next? = some (.completion access, backlog))
    (h : S.serveCompletion access (r.take (.completion access) backlog) = .ok () r') :
  S.Stage [] r r'
  := by
  obtain ⟨type, _, hl, h⟩ := Act.bind_eq_ok.1 h
  obtain ⟨hd, rfl⟩ := Act.lift_eq_ok.1 hl
  obtain ⟨_, _, ha, h⟩ := Act.bind_eq_ok.1 h
  obtain ⟨rfl, rfl⟩ := Act.admits_eq_ok.1 ha
  split at h
  · next ha =>
    obtain ⟨_, r₁, hi, h⟩ := Act.bind_eq_ok.1 h
    have d := passes_decide _ _ _ hi
    obtain ⟨_, _, ht, h⟩ := Act.bind_eq_ok.1 h
    obtain ⟨rfl, rfl⟩ := Act.admits_eq_ok.1 ht
    split at h
    · next ht =>
      obtain rfl := Act.rule_eq_ok.1 h
      exact .completion hn hd ha d ht
    · next ht =>
      obtain ⟨_, _, hg, h⟩ := Act.bind_eq_ok.1 h
      obtain ⟨rfl, rfl⟩ := Act.get_eq_ok.1 hg
      obtain ⟨cause, _, hl, h⟩ := Act.bind_eq_ok.1 h
      obtain ⟨hc, rfl⟩ := Act.lift_eq_ok.1 hl
      obtain rfl := Act.modify_eq_ok.1 h
      exact .completionFailed hn hd ha d (Bool.eq_false_iff.2 ht) hc
  · next ha =>
    obtain ⟨-, rfl⟩ := Act.pure_eq_ok.1 h
    exact .completionVoid hn (Bool.eq_false_iff.2 ha)

theorem proceeds_drainWithin (steps : Nat) {r r' : Run}
    (h : S.drainWithin steps r = .ok () r') :
  S.Proceeds [] r r' ∧ r'.verdicts.backlog.next? = none
  := by
  induction steps generalizing r with
  | zero =>
    rw [drainWithin] at h
    obtain ⟨_, _, hg, h⟩ := Act.bind_eq_ok.1 h
    obtain ⟨rfl, rfl⟩ := Act.get_eq_ok.1 hg
    cases hn : r.verdicts.backlog.next? with
    | none =>
      rw [hn] at h
      obtain ⟨-, rfl⟩ := Act.pure_eq_ok.1 h
      exact ⟨.nil, hn⟩
    | some next =>
      rw [hn] at h
      exact (Act.throw_eq_ok.1 h).elim
  | succ steps ih =>
    rw [drainWithin] at h
    obtain ⟨_, _, hg, h⟩ := Act.bind_eq_ok.1 h
    obtain ⟨rfl, rfl⟩ := Act.get_eq_ok.1 hg
    cases hn : r.verdicts.backlog.next? with
    | none =>
      rw [hn] at h
      obtain ⟨-, rfl⟩ := Act.pure_eq_ok.1 h
      exact ⟨.nil, hn⟩
    | some next =>
      obtain ⟨task, backlog⟩ := next
      rw [hn] at h
      obtain ⟨_, _, hr, h⟩ := Act.bind_eq_ok.1 h
      obtain rfl := Act.rule_eq_ok.1 hr
      obtain ⟨_, _, hm, h⟩ := Act.bind_eq_ok.1 h
      obtain rfl := Act.modify_eq_ok.1 hm
      obtain ⟨_, r₁, hs, h⟩ := Act.bind_eq_ok.1 h
      have st : S.Stage [] r r₁ := by
        cases task with
        | declaration id => exact .declaration hn (passes_decide _ _ _ hs)
        | aspects type anchor => exact stage_serveAspects hn hs
        | completion access => exact stage_serveCompletion hn hs
      obtain ⟨hp, hn'⟩ := ih h
      exact ⟨st.proceeds.trans hp, hn'⟩

theorem proceeds_context {context : List Node} {r r' : Run} {u : Unit}
    (h : (context.forM fun item => Act.afresh (S.walkOutside (S.contextItem item))) r
      = .ok u r') :
  S.Proceeds [] r r'
  := by
  induction context generalizing r with
  | nil =>
    obtain ⟨-, rfl⟩ := Act.pure_eq_ok.1 h
    exact .nil
  | cons n ns ih =>
    obtain ⟨_, _, ha, h⟩ := Act.bind_eq_ok.1 h
    obtain ⟨r₁, hw, rfl⟩ := Act.afresh_eq_ok.1 ha
    obtain ⟨path, l, w⟩ := passes_walk passes_decide hw
    exact (Stage.context l w).proceeds.trans (ih h)

theorem proceeds_unit {n : Node} {r r' : Run} (h : S.unit n r = .ok () r') :
  S.Proceeds [n.content] r r'
  := by
  unfold unit at h
  unfold Node.content
  generalize n.shape = shape at h ⊢
  cases shape with
  | compilationUnit context unit =>
    obtain ⟨_, r₁, hc, h⟩ := Act.bind_eq_ok.1 h
    obtain ⟨path, l, w⟩ := passes_walk passes_decide h
    exact (proceeds_context hc).trans (Stage.unit l w).proceeds
  | _ =>
    obtain ⟨path, l, w⟩ := passes_walk passes_decide h
    exact (Stage.unit l w).proceeds

theorem proceeds_units {ns : List Node} {r r' : Run} {u : Unit}
    (h : (ns.forM fun u => do S.unit u; S.drain) r = .ok u r') :
  S.Proceeds (ns.map Node.content) r r'
    ∧ (r.verdicts.backlog.next? = none → r'.verdicts.backlog.next? = none)
  := by
  induction ns generalizing r with
  | nil =>
    obtain ⟨-, rfl⟩ := Act.pure_eq_ok.1 h
    exact ⟨.nil, id⟩
  | cons n ns ih =>
    obtain ⟨_, r₁, hu, h⟩ := Act.bind_eq_ok.1 h
    obtain ⟨_, r₂, hu, hd⟩ := Act.bind_eq_ok.1 hu
    obtain ⟨hd, hn⟩ := proceeds_drainWithin _ hd
    obtain ⟨hp, hn'⟩ := ih h
    exact ⟨((proceeds_unit hu).trans hd).trans hp, fun _ => hn' hn⟩

/-- A run over the whole program is a chain of stages that goes through the contents of all
units and ends when no task waits. -/
theorem proceeds_wholeProgram {r : Run} (h : S.wholeProgram {} = .ok () r) :
  ∃ r₁, S.Proceeds (S.program.units.map Node.content) {} r₁
    ∧ r₁.verdicts.backlog.next? = none
    ∧ r = r₁.rule fun v => { v with roster := v.roster.close }
  := by
  obtain ⟨_, r₁, hu, h⟩ := Act.bind_eq_ok.1 h
  obtain ⟨hp, hn⟩ := proceeds_units hu
  exact ⟨r₁, hp, hn rfl, (Act.rule_eq_ok.1 h).symm⟩

end Setting

end Conformance
