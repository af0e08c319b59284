import Conformance.Proofs.Excision
import Conformance.Proofs.Foundation
import Conformance.Proofs.Placement

/-!
# Attribution to loops

A run attributes an entity to a loop only where it comes to a node that places the entity in that
loop, and wherever it comes to such a node, the entity is attributed.  `Attributes` is this
invariant, `attributes_of_passes` carries it through a run, and `loops_exact` reads off which
entities are attributed to which loops in the end: parameters to the `for` loops over them, and
objects to the innermost loop around their declaration.  An entity that two walked nodes place in
different loops is attributed to one of them.
-/

namespace Conformance

/-- The node that an event comes to, if it is a declaration, a body or a statement. -/
def Event.item? : Event → Option Node
  | .visited _ .item n => some n
  | _ => none

namespace Run

variable {r r' : Run}

/-- The declarations, bodies and statements that a run came to, the latest first. -/
def walked (r : Run) : List Node := r.journal.filterMap Event.item?

/-- What a run came to, and what it placed in loops. -/
def layout (r : Run) : List Node × Std.TreeMap EntityId NodeId := (r.walked, r.verdicts.loops)

theorem layout_note {e : Event} (h : e.item? = none) :
  (r.note e).layout = r.layout
  := by simp [layout, walked, note, h]

theorem layout_find (r : Run) (scope : Scope) (site : Site) (finding : Finding) :
  (r.find scope site finding).layout = r.layout
  := by
  obtain ⟨cause, reports, h⟩ := r.exists_find scope site finding
  rw [h]
  rfl

theorem layout_rest (r : Run) (scope : Scope) (id : EntityId) (site : Site) :
  (r.rest scope id site).layout = r.layout
  := by
  obtain ⟨dependents, cause, reports, h⟩ := r.exists_rest scope id site
  rw [h]
  rfl

theorem layout_start (r : Run) (scope : Scope) (m : Matter) :
  (r.start scope m).layout = r.layout
  := by
  obtain ⟨reporting, h⟩ := r.exists_start scope m
  rw [h]
  rfl

theorem layout_inheritCause (r : Run) (e : Entity) :
  (r.inheritCause e).layout = r.layout
  := by
  obtain ⟨bodyCauses, h⟩ := r.exists_inheritCause e
  rw [h]
  rfl

theorem layout_concludeBody (r : Run) (e : Entity) :
  (r.concludeBody e).layout = r.layout
  := by
  unfold Run.concludeBody
  split <;> rfl

theorem layout_concludeAspects (r : Run) (type : EntityId) :
  (r.concludeAspects type).layout = r.layout
  := by
  unfold concludeAspects
  split <;> rfl

theorem Strikes.layout {id : EntityId} (h : r.Strikes id r') :
  r'.layout = r.layout
  := by
  obtain ⟨new, hj, hn⟩ := h.journal
  have hnew : new.filterMap Event.item? = [] := by
    rw [List.filterMap_eq_nil_iff]
    intro e he
    obtain ⟨x, cause, rfl⟩ := hn e he
    rfl
  have hw : r'.walked = r.walked := by
    rw [walked, hj, List.filterMap_append, hnew]
    rfl
  rw [Run.layout, hw, h.frame]
  rfl

theorem layout_takeBack (r : Run) (p : Program) (access type : EntityId) (cause : Site) :
  (r.takeBack p access type cause).layout = r.layout
  := by
  obtain ⟨he, -⟩ | ⟨-, hx⟩ := r.excises_takeBack p access type cause
  · rw [he]
  · exact hx.strikes.layout

/-! ### The invariant -/

/-- What a run attributes to a loop was placed there by a node that it came to, and what such a
node places is attributed to a loop.  One placement may be due. -/
structure Attributes (r : Run) (p : Program) (due : Option (EntityId × NodeId)) : Prop where
  placed : ∀ x loop, r.verdicts.loops[x]? = some loop ∨ due = some (x, loop) →
    ∃ around n, p.Stands around n ∧ n.placement? around = some (x, loop) ∧ n ∈ r.walked
  walked : ∀ n ∈ r.walked, ∃ around, p.Stands around n
    ∧ ∀ x loop, n.placement? around = some (x, loop) →
      x ∈ r.verdicts.loops ∨ due = some (x, loop)

variable {p : Program}

theorem attributes_empty :
  Attributes {} p none
  where
    placed x loop h := by
      obtain h | h := h
      · cases Std.TreeMap.getElem?_emptyc.symm.trans h
      · cases h
    walked := by simp [Run.walked]

theorem Attributes.of_layout {due : Option (EntityId × NodeId)} (h : r.Attributes p due)
    (hl : r'.layout = r.layout) :
  r'.Attributes p due
  := by
  obtain ⟨hw, hloops⟩ : r'.walked = r.walked ∧ r'.verdicts.loops = r.verdicts.loops := by
    simpa [layout] using hl
  constructor
  · rw [hw, hloops]
    exact h.placed
  · rw [hw, hloops]
    exact h.walked

/-- The run comes to a node, and what it places is due. -/
theorem Attributes.visit (h : r.Attributes p none) {around : List Node} {n : Node}
    (hs : p.Stands around n) (m : Option Matter) :
  (r.note (.visited m .item n)).Attributes p (n.placement? around)
  := by
  have hw : (r.note (.visited m .item n)).walked = n :: r.walked := rfl
  constructor
  · rw [hw]
    rintro x loop (hx | hx)
    · obtain ⟨around', n', hs', hn', hm⟩ := h.placed x loop (Or.inl hx)
      exact ⟨around', n', hs', hn', List.mem_cons_of_mem _ hm⟩
    · exact ⟨around, n, hs, hx, List.mem_cons_self⟩
  · rw [hw]
    intro n' hn'
    obtain rfl | hn' := List.mem_cons.1 hn'
    · exact ⟨around, hs, fun _ _ => Or.inr⟩
    · obtain ⟨around', hs', hp⟩ := h.walked n' hn'
      refine ⟨around', hs', fun x loop hx => ?_⟩
      exact Or.inl ((hp x loop hx).resolve_right (by simp))

/-- The run places what is due. -/
theorem Attributes.place {x : EntityId} {loop : NodeId} (h : r.Attributes p (some (x, loop))) :
  (r.rule fun v => { v with loops := v.loops.insert x loop }).Attributes p none
  where
    placed y loop' hy := by
      have hy : (r.verdicts.loops.insert x loop)[y]? = some loop' := hy.resolve_right (by simp)
      by_cases he : y = x
      · subst he
        rw [Std.TreeMap.getElem?_insert_self] at hy
        exact h.placed y loop' (Or.inr (by rw [Option.some.inj hy]))
      · rw [getElem?_insert_of_ne he] at hy
        exact h.placed y loop' (Or.inl hy)
    walked n hn := by
      obtain ⟨around, hs, hp⟩ := h.walked n hn
      refine ⟨around, hs, fun y loop' hy => Or.inl (Std.TreeMap.mem_insert.2 ?_)⟩
      obtain hy | hy := hp y loop' hy
      · exact Or.inr hy
      · obtain ⟨rfl, -⟩ : x = y ∧ loop = loop' := by simpa using hy
        exact Or.inl (by simp)

/-! ### Loops over an entity and declarations in a loop -/

/-- A run came to the `for` loop over an entity. -/
def Drives (r : Run) (x : EntityId) (loop : NodeId) : Prop :=
  ∃ n ∈ r.walked, n.parameter? = some x ∧ n.id = loop

/-- A run came to the declaration of an object, and a loop is the innermost one around it. -/
def DeclaresIn (r : Run) (p : Program) (x : EntityId) (loop : NodeId) : Prop :=
  ∃ around n, p.Stands around n ∧ n ∈ r.walked ∧ n.object? = some x
    ∧ Node.innermostLoop? around = some loop

end Run

/-- Each object has at most one declaration, and each loop parameter belongs to one loop. -/
structure Program.DeclaresOnce (p : Program) : Prop where
  object {around around' : List Node} {n n' : Node} {x : EntityId} (hs : p.Stands around n)
    (hs' : p.Stands around' n') (hx : n.object? = some x) (hx' : n'.object? = some x) :
    around = around' ∧ n = n'
  parameter {around around' : List Node} {n n' : Node} {x : EntityId} (hs : p.Stands around n)
    (hs' : p.Stands around' n') (hx : n.parameter? = some x) (hx' : n'.parameter? = some x) :
    n.id = n'.id

/-- Nodes that stand in a program are the same if they name the same entity, and no entity is
named twice. -/
theorem Program.Stands.eq_of_nodup {p : Program} {depth : Nat} (hd : (p.layer depth).isEmpty)
    {f : Node → Option EntityId}
    (hf : (((p.above depth).filter fun a => (f a.2).isSome).map fun a => f a.2).Nodup)
    {around around' : List Node} {n n' : Node} {x : EntityId} (hs : p.Stands around n)
    (hs' : p.Stands around' n') (hx : f n = some x) (hx' : f n' = some x) :
  around = around' ∧ n = n'
  := by
  have listed {around : List Node} {n : Node} (hs : p.Stands around n) (hx : f n = some x) :
      (around, n) ∈ (p.above depth).filter fun a => (f a.2).isSome :=
    List.mem_filter.2 ⟨hs.mem_above hd, by simp [hx]⟩
  have he := List.inj_on_of_nodup_map hf (listed hs hx) (listed hs' hx') (hx.trans hx'.symm)
  exact Prod.mk.inj he

/-- It is enough to look at the layers of a program. -/
theorem Program.declaresOnce_of_nodup {p : Program} {depth : Nat} (hd : (p.layer depth).isEmpty)
    (ho : (((p.above depth).filter (·.2.object?.isSome)).map (·.2.object?)).Nodup)
    (hp : (((p.above depth).filter (·.2.parameter?.isSome)).map (·.2.parameter?)).Nodup) :
  p.DeclaresOnce
  where
    object hs hs' := Stands.eq_of_nodup hd ho hs hs'
    parameter hs hs' hx hx' := by rw [(Stands.eq_of_nodup hd hp hs hs' hx hx').2]

namespace Run

theorem DeclaresIn.unique {r : Run} {p : Program} {x : EntityId} {loop loop' : NodeId}
    (h : r.DeclaresIn p x loop) (hp : p.DeclaresOnce) (h' : r.DeclaresIn p x loop') :
  loop = loop'
  := by
  obtain ⟨around, n, hs, -, hx, hl⟩ := h
  obtain ⟨around', n', hs', -, hx', hl'⟩ := h'
  obtain ⟨rfl, -⟩ := hp.object hs hs' hx hx'
  exact Option.some.inj (hl.symm.trans hl')

end Run

namespace Setting

variable {S : Setting} {p : Program} {due : Option (EntityId × NodeId)}

/-! ### Passages -/

/-- The steps of a course come to what stands in a program, where a placement may be due. -/
def Course.Situated (p : Program) (due : Option (EntityId × NodeId)) : Course → Prop
  | .steps _ path => p.Situated due path
  | .decision _ => due = none

theorem layout_plain {scope : Scope} {s : Step} {r r' : Run} (h : S.Plain scope s r r')
    (hs : s.isConfined = true) :
  r'.layout = r.layout
  := by
  cases h with
  | @visit r role node => cases role <;> first | rfl | cases hs
  | ask => exact Run.layout_note rfl
  | look | hideView | postponeCompletion | postponeAspects => rfl
  | find => exact Run.layout_find _ _ _ _
  | relax h =>
    obtain ⟨relaxed, rfl⟩ := S.relax_eq_ok h
    rfl
  | placeInLoop => cases hs

/-- Before a confined step nothing is due. -/
theorem situated_confined {s : Step} {path : List Step} (h : p.Situated due (s :: path))
    (hs : s.isConfined = true) :
  due = none ∧ p.Situated none path
  := by
  cases h with
  | confined _ h => exact ⟨rfl, h⟩
  | visit | place | body => cases hs

theorem situated_body {e : Entity} {mode : Option Mode} {inner : Inquiry Unit}
    {path : List Step} (h : p.Situated due (.body e mode inner :: path)) :
  due = none ∧ p.Situated none path
    ∧ ∀ innerPath, inner.Leads innerPath () → p.Situated none innerPath
  := by
  cases h with
  | confined hs => cases hs
  | body hi h => exact ⟨rfl, h, hi⟩

/-- What is attributed to loops stays so on every passage. -/
theorem attributes_of_passes {c : Course} {r r' : Run} (h : S.Passes c r r')
    (hc : Course.Situated S.program due c) (hr : r.Attributes S.program due) :
  r'.Attributes S.program none
  := by
  induction h generalizing due with
  | nil =>
    cases hc
    exact hr
  | known =>
    cases hc
    exact hr
  | @plain scope s path r r₁ r' hp _ ih =>
    have confined (hs : s.isConfined = true) : r'.Attributes S.program none := by
      obtain ⟨rfl, hpath⟩ := situated_confined hc hs
      exact ih hpath (hr.of_layout (layout_plain hp hs))
    cases hc with
    | confined hs => exact confined hs
    | @visit around n _ hs hpath =>
      cases hp with
      | visit => exact ih hpath (hr.visit hs scope.matter)
    | place hpath =>
      cases hp with
      | placeInLoop => exact ih hpath hr.place
    | body => cases hp
  | decide _ _ ihd ih | declare _ _ _ ihd ih =>
    obtain ⟨rfl, hpath⟩ := situated_confined hc rfl
    exact ih hpath (ihd rfl hr)
  | declareResting _ _ _ _ ihd ih =>
    obtain ⟨rfl, hpath⟩ := situated_confined hc rfl
    exact ih (.confined rfl hpath) (ihd rfl hr)
  | consult _ _ ihd ih =>
    obtain ⟨rfl, hpath⟩ := situated_confined hc rfl
    exact ih hpath ((ihd rfl hr).of_layout (Run.layout_rest _ _ _ _))
  | bodyExcluded _ _ _ ihd ih =>
    obtain ⟨rfl, hpath, -⟩ := situated_body hc
    exact ih hpath ((ihd rfl hr).of_layout (Run.layout_inheritCause _ _))
  | bodyOff _ _ _ _ ihd ih =>
    obtain ⟨rfl, hpath, -⟩ := situated_body hc
    exact ih hpath (ihd rfl hr)
  | @body scope e mode inner mode' path innerPath r r₁ r₂ r' _ _ _ _ l _ _ ihd ihw ih =>
    obtain ⟨rfl, hpath, hi⟩ := situated_body hc
    have h₁ := (ihd rfl hr).of_layout (r₁.layout_start (e.bodyScope mode') (.body e.name))
    have h₂ := ihw (hi innerPath l) h₁
    exact ih hpath (h₂.of_layout (r₂.layout_concludeBody e))
  | off =>
    cases hc
    exact hr.of_layout rfl
  | @reject e mode path r r₁ _ l _ _ ih =>
    cases hc
    have h₁ := ih (S.situates_entityInquiry e path () l)
      (hr.of_layout ((r.examine e.name).layout_start _ _))
    exact h₁.of_layout (r₁.strikes_exclude S.program e).layout
  | @revoke e mode path path' r r₁ r₂ r₃ _ l _ _ _ hp l' _ _ ih ih' =>
    cases hc
    have h₁ := ih (S.situates_entityInquiry e path () l)
      (hr.of_layout ((r.examine e.name).layout_start _ _))
    obtain ⟨roster, rfl⟩ := S.publish_eq_ok hp
    have h₃ := ih' (situates_predicateInquiry S.program e path' () l') (h₁.of_layout rfl)
    exact h₃.of_layout (r₃.strikes_exclude S.program e).layout
  | @grant e mode path path' r r₁ r₂ r₃ _ l _ _ _ hp l' _ _ ih ih' =>
    cases hc
    have h₁ := ih (S.situates_entityInquiry e path () l)
      (hr.of_layout ((r.examine e.name).layout_start _ _))
    obtain ⟨roster, rfl⟩ := S.publish_eq_ok hp
    have h₃ := ih' (situates_predicateInquiry S.program e path' () l') (h₁.of_layout rfl)
    exact h₃.of_layout rfl

theorem attributes_of_stage {ns : List Node} {r r' : Run} (st : S.Stage ns r r')
    (hns : ∀ n ∈ ns, (S.item {} n).Situates S.program) (hr : r.Attributes S.program none) :
  r'.Attributes S.program none
  := by
  cases st with
  | @context n path r r₁ l w =>
    have h₁ := attributes_of_passes w (S.situates_contextItem n path () l) (hr.of_layout rfl)
    exact h₁.of_layout rfl
  | @unit n path _ _ l w => exact attributes_of_passes w (hns n (by simp) path () l) hr
  | declaration _ d => exact attributes_of_passes d rfl (hr.of_layout rfl)
  | aspectsOff | completionVoid => exact hr.of_layout rfl
  | @aspects type _ _ _ t _ _ path _ r₁ _ _ _ _ _ l w =>
    have h₁ := attributes_of_passes w (S.situates_aspectsInquiry t path () l) (hr.of_layout rfl)
    exact h₁.of_layout (r₁.layout_concludeAspects type)
  | completion _ _ _ d =>
    exact (attributes_of_passes d rfl (hr.of_layout rfl)).of_layout rfl
  | @completionFailed access type _ cause _ r₁ _ _ _ d =>
    have h₁ := attributes_of_passes d rfl (hr.of_layout rfl)
    exact h₁.of_layout (r₁.layout_takeBack S.program access type cause)

theorem attributes_of_proceeds {ns : List Node} {r r' : Run} (h : S.Proceeds ns r r')
    (hns : ∀ n ∈ ns, (S.item {} n).Situates S.program) (hr : r.Attributes S.program none) :
  r'.Attributes S.program none
  := by
  induction h with
  | nil => exact hr
  | cons st _ ih =>
    obtain ⟨hfirst, hrest⟩ := List.forall_mem_append.1 hns
    exact ih hrest (attributes_of_stage st hfirst hr)

theorem attributes_of_wholeProgram {r : Run} (h : S.wholeProgram {} = .ok () r) :
  r.Attributes S.program none
  := by
  obtain ⟨r₁, hp, -, rfl⟩ := proceeds_wholeProgram h
  have h₁ := attributes_of_proceeds hp (fun _ hn => S.situates_content hn) Run.attributes_empty
  exact h₁.of_layout rfl

/-! ### What is attributed in the end -/

variable {r : Run} {x : EntityId}

theorem drives_or_declares (h : S.wholeProgram {} = .ok () r) {loop : NodeId}
    (hx : r.verdicts.loops[x]? = some loop) :
  r.Drives x loop ∨ r.DeclaresIn S.program x loop
  := by
  obtain ⟨around, n, hs, hp, hn⟩ := (attributes_of_wholeProgram h).placed x loop (Or.inl hx)
  obtain ⟨hd, hl⟩ | ⟨hd, hl⟩ := Node.placement?_eq_some_iff.1 hp
  · exact Or.inl ⟨n, hn, hd, hl⟩
  · exact Or.inr ⟨around, n, hs, hn, hd, hl⟩

/-- Where each object has one declaration and each parameter one loop, every walked loop and
declaration attributes its entity to some loop. -/
theorem mem_loops (h : S.wholeProgram {} = .ok () r) (hp : S.program.DeclaresOnce)
    {loop : NodeId} (hx : r.Drives x loop ∨ r.DeclaresIn S.program x loop) :
  x ∈ r.verdicts.loops
  := by
  have ha := attributes_of_wholeProgram h
  obtain ⟨n, hn, hx, rfl⟩ | ⟨around, n, hs, hn, hx, hl⟩ := hx
  · obtain ⟨around, -, hw⟩ := ha.walked n hn
    have hplaced : n.placement? around = some (x, n.id) :=
      Node.placement?_eq_some_iff.2 (Or.inl ⟨hx, rfl⟩)
    exact (hw x n.id hplaced).resolve_right (by simp)
  · obtain ⟨around', hs', hw⟩ := ha.walked n hn
    obtain ⟨rfl, -⟩ := hp.object hs hs' hx hx
    have hplaced : n.placement? around = some (x, loop) :=
      Node.placement?_eq_some_iff.2 (Or.inr ⟨hx, hl⟩)
    exact (hw x loop hplaced).resolve_right (by simp)

theorem drives_unique (h : S.wholeProgram {} = .ok () r) (hp : S.program.DeclaresOnce)
    {loop loop' : NodeId} (hx : r.Drives x loop) (hx' : r.Drives x loop') :
  loop = loop'
  := by
  have ha := attributes_of_wholeProgram h
  obtain ⟨n, hn, hx, rfl⟩ := hx
  obtain ⟨n', hn', hx', rfl⟩ := hx'
  obtain ⟨around, hs, -⟩ := ha.walked n hn
  obtain ⟨around', hs', -⟩ := ha.walked n' hn'
  exact hp.parameter hs hs' hx hx'

/-- In a program where each object has one declaration and each parameter one loop, an entity is
attributed to a loop if and only if a walked `for` loop runs over it, and that is the loop, or its
declaration was walked, and that is the innermost loop around it.  Only where both hold with
different loops, the entity is attributed to one of the two.  An object that is declared outside
of loops, or inside a body or a package in a loop, is not attributed unless a loop runs over it. -/
theorem loops_exact (h : S.wholeProgram {} = .ok () r) (hp : S.program.DeclaresOnce)
    (x : EntityId) :
  ((∀ loop loop', r.Drives x loop → r.DeclaresIn S.program x loop' → loop = loop') →
      ∀ loop, r.verdicts.loops[x]? = some loop ↔
        r.Drives x loop ∨ r.DeclaresIn S.program x loop)
    ∧ (x ∈ r.verdicts.loops ↔ ∃ loop, r.Drives x loop ∨ r.DeclaresIn S.program x loop)
    ∧ (∀ loop, r.verdicts.loops[x]? = some loop →
      r.Drives x loop ∨ r.DeclaresIn S.program x loop)
    ∧ ∀ around n, S.program.Stands around n → n.object? = some x →
      Node.innermostLoop? around = none → (∀ loop, ¬ r.Drives x loop) →
        x ∉ r.verdicts.loops
  := by
  have attributed : x ∈ r.verdicts.loops ↔ ∃ loop, r.verdicts.loops[x]? = some loop := by
    rw [Std.TreeMap.mem_iff_isSome_getElem?, Option.isSome_iff_exists]
  refine ⟨fun hx loop => ⟨drives_or_declares h, fun hl => ?_⟩, ?_,
    fun _ => drives_or_declares h, ?_⟩
  · obtain ⟨loop', hl'⟩ := attributed.1 (mem_loops h hp hl)
    obtain rfl : loop = loop' := by
      obtain hl | hl := hl <;> obtain hl' | hl' := drives_or_declares h hl'
      · exact drives_unique h hp hl hl'
      · exact hx loop loop' hl hl'
      · exact (hx loop' loop hl' hl).symm
      · exact hl.unique hp hl'
    exact hl'
  · constructor
    · intro hm
      obtain ⟨loop, hl⟩ := attributed.1 hm
      exact ⟨loop, drives_or_declares h hl⟩
    · exact fun ⟨_, hl⟩ => mem_loops h hp hl
  · intro around n hs hn hl hd hm
    obtain ⟨loop, hx⟩ := attributed.1 hm
    obtain hx | ⟨around', n', hs', -, hn', hl'⟩ := drives_or_declares h hx
    · exact hd loop hx
    · obtain ⟨rfl, -⟩ := hp.object hs hs' hn hn'
      cases hl.symm.trans hl'

/-! ### Loops in a procedure -/

/-- The entities of a procedure with objects of its own, and a procedure within it. -/
def loopEntities : List Entity :=
  [{ name := "T", kind := .type { definition := .signed 0 9 } },
    { name := "X", scope := some "P", kind := .object { type := "T" } },
    { name := "Y", scope := some "P", kind := .object { type := "T" } },
    { name := "Z", scope := some "Q", kind := .object { type := "T" } },
    { name := "P", kind := .subprogram { kind := .procedure } },
    { name := "Q", scope := some "P", kind := .subprogram { kind := .procedure } }]

/-- A loop over an entity with the given statements. -/
def loopOver (x : EntityId) (statements : List Node) : Node :=
  let bound (value : Int) : Node := .plain (.literal (.integer value))
  .plain (.loop (.overDomain x (.plain (.range (bound 1) (bound 2))) false) statements)

/-- A loop with a block that declares an object, and a procedure whose body declares another. -/
def loopSample : Setting :=
  (ofParts? loopEntities
    [.plain (.body .subprogram "P" none []
      [loopOver "X" [.plain (.block [.plain (.declaration .object "Y"),
        .plain (.body .subprogram "Q" none [.plain (.declaration .object "Z")] [])] [])]])]).get
    (by decide +kernel)

/-- The parameter and the object of the block are attributed to the loop.  The object of the
procedure is not. -/
theorem loops_exact_loopSample :
  let r := (loopSample.wholeProgram.after {}).2
  loopSample.wholeProgram {} = .ok () r ∧ loopSample.program.DeclaresOnce
    ∧ (∀ loop, r.verdicts.loops["X"]? = some loop ↔
      r.Drives "X" loop ∨ r.DeclaresIn loopSample.program "X" loop)
    ∧ r.Drives "X" 1 ∧ r.DeclaresIn loopSample.program "Y" 1 ∧ "Z" ∉ r.verdicts.loops
  := by
  have h : loopSample.wholeProgram {} = .ok () (loopSample.wholeProgram.after {}).2 :=
    Act.eq_ok_of_after (by decide +kernel)
  have hp : loopSample.program.DeclaresOnce :=
    Program.declaresOnce_of_nodup (by decide +kernel : (loopSample.program.layer 5).isEmpty)
      (by decide +kernel) (by decide +kernel)
  have hw : ∀ n ∈ (loopSample.wholeProgram.after {}).2.walked,
      n.object? ≠ some "X" ∧ n.parameter? ≠ some "Y" ∧ n.parameter? ≠ some "Z" := by
    decide +kernel
  have hX : ∀ loop, (loopSample.wholeProgram.after {}).2.verdicts.loops["X"]? = some loop ↔
      (loopSample.wholeProgram.after {}).2.Drives "X" loop
        ∨ (loopSample.wholeProgram.after {}).2.DeclaresIn loopSample.program "X" loop :=
    (loops_exact h hp "X").1 fun _ _ _ ⟨_, n, _, hn, hx, _⟩ => ((hw n hn).1 hx).elim
  refine ⟨h, hp, hX, ?_, ?_, ?_⟩
  · obtain hx | ⟨_, n, _, hn, hx, _⟩ := (hX 1).1 (by decide +kernel)
    · exact hx
    · exact ((hw n hn).1 hx).elim
  · obtain ⟨n, hn, hy, _⟩ | hy := (loops_exact h hp "Y").2.2.1 1 (by decide +kernel)
    · exact ((hw n hn).2.1 hy).elim
    · exact hy
  · have ha : (loopSample.program.layer 4).any (fun a =>
        a.2.object? == some "Z" && Node.innermostLoop? a.1 == none) := by decide +kernel
    obtain ⟨⟨around, n⟩, hm, ha⟩ := List.any_eq_true.1 ha
    simp only [Bool.and_eq_true, beq_iff_eq] at ha
    have hs := (Program.mem_layer_iff.1 hm).1
    refine (loops_exact h hp "Z").2.2.2 around n hs ha.1 ha.2 ?_
    exact fun _ ⟨n, hn, hz, _⟩ => (hw n hn).2.2 hz

/-- A loop over an entity, and a loop with a block that declares the same entity. -/
def crossedSample : Setting :=
  (ofParts? loopEntities
    [.plain (.body .subprogram "P" none []
      [loopOver "X" [],
        .plain (.loop .forever [.plain (.block [.plain (.declaration .object "X")] [])])])]).get
    (by decide +kernel)

/-- The loop that was walked last stays, so the loop over the entity is lost. -/
theorem drives_lost_crossedSample :
  let r := (crossedSample.wholeProgram.after {}).2
  crossedSample.wholeProgram {} = .ok () r ∧ crossedSample.program.DeclaresOnce
    ∧ r.Drives "X" 1 ∧ r.DeclaresIn crossedSample.program "X" 5
    ∧ r.verdicts.loops["X"]? = some 5
    ∧ ¬ ∀ loop, r.verdicts.loops["X"]? = some loop ↔
      r.Drives "X" loop ∨ r.DeclaresIn crossedSample.program "X" loop
  := by
  have h : crossedSample.wholeProgram {} = .ok () (crossedSample.wholeProgram.after {}).2 :=
    Act.eq_ok_of_after (by decide +kernel)
  have hp : crossedSample.program.DeclaresOnce :=
    Program.declaresOnce_of_nodup (by decide +kernel : (crossedSample.program.layer 5).isEmpty)
      (by decide +kernel) (by decide +kernel)
  have hfive : (crossedSample.wholeProgram.after {}).2.verdicts.loops["X"]? = some 5 := by
    decide +kernel
  have hone : (crossedSample.wholeProgram.after {}).2.Drives "X" 1 := by
    have ha : (crossedSample.wholeProgram.after {}).2.walked.any (fun n =>
        n.parameter? == some "X" && n.id == 1) := by decide +kernel
    obtain ⟨n, hn, ha⟩ := List.any_eq_true.1 ha
    simp only [Bool.and_eq_true, beq_iff_eq] at ha
    exact ⟨n, hn, ha⟩
  refine ⟨h, hp, hone, ?_, hfive, ?_⟩
  · obtain hd | hd := drives_or_declares h hfive
    · exact absurd (drives_unique h hp hone hd) (by decide)
    · exact hd
  · intro hall
    cases hfive.symm.trans ((hall 1).2 (Or.inl hone))

end Setting

end Conformance
