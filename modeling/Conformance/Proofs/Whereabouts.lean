import Conformance.Proofs.Attribution
import Conformance.Proofs.Moment
import Conformance.Proofs.Subtree
import Conformance.Proofs.Trail

/-!
# Where inquiries and acts go

The declarations, bodies and statements that an inquiry comes to are constituents of those it
starts from, and packages are declared as soon as their declaration is come to.
`Inquiry.StaysIn` says this for whatever answers an inquiry gets and however far it comes, so it
carries over to acts, whether they succeed or fail: all nodes that a run over a program comes to
stand in the program (`staysIn_wholeProgram`).
-/

namespace Conformance

/-- The package that a node declares. -/
def Node.package? (n : Node) : Option EntityId :=
  match n.shape with
  | .package entity _ _ => some entity
  | _ => none

/-- What an inquiry declares before all else. -/
def Inquiry.declared? {α : Type} : Inquiry α → Option EntityId
  | .declare id _ _ => some id
  | _ => none

/-- Whatever answers an inquiry gets, the declarations, bodies and statements that it comes to
have a property, also those in the bodies that it decides.  Once it came to the declaration of a
package, it declares the package. -/
def Inquiry.StaysIn {α : Type} (P : Node → Prop) : Inquiry α → Prop
  | .done _ | .fail _ => True
  | .visit role n next =>
    (role = .item → P n ∧ ∀ x, n.package? = some x → next.declared? = some x) ∧ next.StaysIn P
  | .consult _ _ next | .isAdmitted _ next | .isExamined _ next => ∀ b, (next b).StaysIn P
  | .declare _ _ next | .decide _ next | .find _ _ next | .hideView _ next
  | .postponeCompletion _ next | .postponeAspects _ next | .relax _ next
  | .placeInLoop _ _ next => next.StaysIn P
  | .body _ _ inner next => inner.StaysIn P ∧ next.StaysIn P

/-- The declarations, bodies and statements that a run came to have a property. -/
def Run.StaysIn (P : Node → Prop) (r : Run) : Prop := ∀ n ∈ r.walked, P n

/-- An act comes to declarations, bodies and statements with a property only, whether it
succeeds or fails. -/
def Act.StaysIn {α : Type} (P : Node → Prop) (act : Act α) : Prop := act.Keeps (Run.StaysIn P)

/-- A node stands somewhere in a program. -/
def Program.Holds (p : Program) (n : Node) : Prop := ∃ around, p.Stands around n

theorem Program.Holds.constituent {p : Program} {n m : Node} (h : p.Holds n)
    (hm : m ∈ n.constituents) :
  p.Holds m
  := by
  obtain ⟨around, h⟩ := h
  exact ⟨n :: around, .inside h hm⟩

namespace Inquiry

variable {α β : Type} {P P' : Node → Prop} {i : Inquiry α}

theorem StaysIn.mono (h : i.StaysIn P) (hP : ∀ n, P n → P' n) :
  i.StaysIn P'
  := by
  induction i with
  | done | fail => trivial
  | consult _ _ _ ih | isAdmitted _ _ ih | isExamined _ _ ih => exact fun b => ih b (h b)
  | visit _ _ _ ih => exact ⟨fun hr => (h.1 hr).imp_left (hP _), ih h.2⟩
  | body _ _ _ _ ihi ih => exact ⟨ihi h.1, ih h.2⟩
  | declare _ _ _ ih | decide _ _ ih | find _ _ _ ih | hideView _ _ ih
  | postponeCompletion _ _ ih | postponeAspects _ _ ih | relax _ _ ih
  | placeInLoop _ _ _ ih => exact ih h

theorem declared?_bind {f : α → Inquiry β} {x : EntityId} (h : i.declared? = some x) :
  (i.bind f).declared? = some x
  := by
  cases i with
  | declare => exact h
  | _ => cases h

@[grind ←]
theorem staysIn_bind {f : α → Inquiry β} (h : i.StaysIn P) (hf : ∀ a, (f a).StaysIn P) :
  (i >>= f).StaysIn P
  := by
  change (i.bind f).StaysIn P
  induction i with
  | done a => exact hf a
  | fail => trivial
  | consult _ _ _ ih | isAdmitted _ _ ih | isExamined _ _ ih => exact fun b => ih b (h b) hf
  | visit _ _ _ ih =>
    exact ⟨fun hr => (h.1 hr).imp_right fun hd x hx => declared?_bind (hd x hx), ih h.2 hf⟩
  | body _ _ _ _ _ ih => exact ⟨h.1, ih h.2 hf⟩
  | declare _ _ _ ih | decide _ _ ih | find _ _ _ ih | hideView _ _ ih
  | postponeCompletion _ _ ih | postponeAspects _ _ ih | relax _ _ ih
  | placeInLoop _ _ _ ih => exact ih h hf

@[grind ←]
theorem staysIn_pure (a : α) :
  (pure a : Inquiry α).StaysIn P
  := trivial

@[grind ←]
theorem staysIn_throw (fault : Fault) :
  (throw fault : Inquiry α).StaysIn P
  := trivial

@[grind ←]
theorem staysIn_lift (x : Answer α) :
  (liftM x : Inquiry α).StaysIn P
  := by cases x <;> trivial

theorem staysIn_visit {role : Role} {n : Node} {i : Inquiry Unit} (h : P n)
    (hd : ∀ x, n.package? = some x → i.declared? = some x) (hi : i.StaysIn P) :
  (do come role n; i).StaysIn P
  := ⟨fun _ => ⟨h, hd⟩, hi⟩

theorem staysIn_body (e : Entity) (mode : Option Mode) {inner : Inquiry Unit}
    (h : inner.StaysIn P) :
  (Inquiry.body e mode inner (.done ())).StaysIn P
  := ⟨h, trivial⟩

/-- A confined inquiry comes to no declarations, bodies and statements. -/
@[grind ←]
theorem Confined.staysIn (h : i.Confined) :
  i.StaysIn P
  := by
  induction i with
  | done | fail => trivial
  | consult _ _ _ ih | isAdmitted _ _ ih | isExamined _ _ ih => exact fun b => ih b (h b)
  | visit _ _ _ ih => exact ⟨fun hr => (h.1 hr).elim, ih h.2⟩
  | placeInLoop | body => cases h
  | declare _ _ _ ih | decide _ _ ih | find _ _ _ ih | hideView _ _ ih
  | postponeCompletion _ _ ih | postponeAspects _ _ ih | relax _ _ ih => exact ih h

end Inquiry

/-! ### Inquiries -/

/-- The constituents of a node are among its children. -/
theorem Node.constituents_subset (n : Node) :
  n.constituents ⊆ n.children
  := by
  obtain ⟨id, location, type, shape⟩ := n
  cases shape with
  | ifElse branches otherwise =>
    refine List.append_subset.2 ⟨?_, List.subset_append_right _ _⟩
    intro m hm
    obtain ⟨b, hb, hm⟩ := List.mem_flatMap.1 hm
    exact List.mem_append_left _ (List.mem_flatMap.2 ⟨b, hb, List.mem_cons_of_mem _ hm⟩)
  | case selector branches =>
    intro m hm
    obtain ⟨b, hb, hm⟩ := List.mem_flatMap.1 hm
    exact List.mem_cons_of_mem _ (List.mem_flatMap.2 ⟨b, hb, List.mem_append_right _ hm⟩)
  | loop => exact List.subset_append_right _ _
  | compilationUnit => exact List.subset_append_right _ _
  | package | body | block | protectedBody => exact List.Subset.refl _
  | _ => exact List.nil_subset _

namespace Setting

open Inquiry

variable {S : Setting} {P : Node → Prop} {around : Surroundings}

theorem staysIn_items {ns : List Node} (h : ∀ n ∈ ns, (S.item around n).StaysIn P) :
  (S.items around ns).StaysIn P
  := by
  induction ns with
  | nil => exact staysIn_pure ()
  | cons n ns ih =>
    obtain ⟨hn, hns⟩ := List.forall_mem_cons.1 h
    exact staysIn_bind hn fun _ => ih hns

theorem staysIn_branches {bs : List (Branch Node)}
    (h : ∀ b ∈ bs, ∀ n ∈ b.body, (S.item around n).StaysIn P) :
  (S.branches around bs).StaysIn P
  := by
  induction bs with
  | nil => exact staysIn_pure ()
  | cons b bs ih =>
    obtain ⟨hb, hbs⟩ := List.forall_mem_cons.1 h
    refine staysIn_bind (S.confined_expression b.condition).staysIn fun _ => ?_
    exact staysIn_bind (staysIn_items hb) fun _ => ih hbs

theorem staysIn_caseBranches {bs : List (CaseBranch Node)}
    (h : ∀ b ∈ bs, ∀ n ∈ b.body, (S.item around n).StaysIn P) :
  (S.caseBranches around bs).StaysIn P
  := by
  induction bs with
  | nil => exact staysIn_pure ()
  | cons b bs ih =>
    obtain ⟨hb, hbs⟩ := List.forall_mem_cons.1 h
    refine staysIn_bind (S.confined_expressions b.choices).staysIn fun _ => ?_
    exact staysIn_bind (staysIn_items hb) fun _ => ih hbs

/-- The inquiry into a node stays in what holds of the node and is passed on to constituents. -/
theorem staysIn_item (hP : ∀ n, P n → ∀ m ∈ n.constituents, P m) {n : Node} (h : P n)
    (around : Surroundings) :
  (S.item around n).StaysIn P
  := by
  induction n using Node.induction generalizing around with
  | step n ih =>
    -- The inquiries into the constituents, wherever the node takes them up.
    have inner : ∀ m ∈ n.constituents, ∀ around, (S.item around m).StaysIn P :=
      fun m hm => ih m (n.constituents_subset hm) (hP n h m hm)
    obtain ⟨id, location, type, shape⟩ := n
    unfold item
    refine staysIn_visit h (fun x hx => ?_) ?_
    · cases shape with
      | package => exact hx
      | _ => cases hx
    cases shape with
    | body kind entity mode declarations statements =>
      refine staysIn_bind (staysIn_lift _) fun e => ?_
      refine staysIn_body e mode ?_
      obtain ⟨hd, hs⟩ := List.forall_mem_append.1 inner
      exact staysIn_bind (staysIn_items fun m hm => hd m hm _) fun _ =>
        staysIn_items fun m hm => hs m hm _
    | protectedBody entity mode bodies =>
      refine staysIn_bind (staysIn_lift _) fun e => ?_
      refine staysIn_body e mode ?_
      exact staysIn_items fun m hm => inner m hm _
    | ifElse bs otherwise =>
      obtain ⟨hb, ho⟩ := List.forall_mem_append.1 inner
      refine staysIn_bind (staysIn_branches fun b hb' m hm => ?_) fun _ =>
        staysIn_items fun m hm => ho m hm _
      exact hb m (List.mem_flatMap.2 ⟨b, hb', hm⟩) _
    | case selector bs =>
      refine staysIn_bind (S.confined_expression selector).staysIn fun _ => ?_
      exact staysIn_caseBranches fun b hb m hm => inner m (List.mem_flatMap.2 ⟨b, hb, hm⟩) _
    | loop scheme statements =>
      refine staysIn_bind ?_ fun _ => staysIn_items fun m hm => inner m hm _
      cases scheme with
      | forever => exact staysIn_pure ()
      | whileTrue condition => exact (S.confined_expression condition).staysIn
      | overDomain parameter domain reversed =>
        have hd := (S.confined_expression domain).staysIn (P := P)
        exact staysIn_bind trivial fun _ => staysIn_bind hd fun _ => trivial
    | block declarations statements =>
      obtain ⟨hd, hs⟩ := List.forall_mem_append.1 inner
      exact staysIn_bind (staysIn_items fun m hm => hd m hm _) fun _ =>
        staysIn_items fun m hm => hs m hm _
    | declaration kind entity =>
      dsimp only
      unfold declareHere
      split <;> trivial
    | package => trivial
    | «return» value | raise value => cases value <;> grind
    | _ => grind

theorem staysIn_objectInquiry (e : Entity) (o : ObjectFacet) :
  (S.objectInquiry e o).StaysIn P
  := by
  have rest (admitted : Bool) : (S.objectEnd e o admitted).StaysIn P := by
    unfold objectEnd
    grind
  rw [objectInquiry_eq]
  refine staysIn_bind (confined_ask o.type e.site).staysIn fun admitted => ?_
  cases o.initial with
  | none => exact rest admitted
  | some value =>
    refine staysIn_bind (S.confined_expression value).staysIn fun _ => ?_
    cases admitted with
    | false => exact rest false
    | true =>
      have hs := S.confined_checkStored o.type o.constant value
      exact staysIn_bind hs.staysIn fun _ => rest true

/-- What a package declares stands in the program. -/
theorem staysIn_packageInquiry (e : Entity) (initialCondition : Option Node) :
  (S.packageInquiry e initialCondition).StaysIn S.program.Holds
  := by
  have hc := (S.confined_optionalExpression initialCondition).staysIn (P := S.program.Holds)
  unfold packageInquiry
  cases hn : S.program.packageDeclaration? e.name with
  | none => exact hc
  | some d =>
    have hd : S.program.Holds d := Program.exists_stands_package hn
    refine staysIn_bind (staysIn_items fun m hm => ?_) fun _ => hc
    refine staysIn_item (fun _ h _ => h.constituent) (hd.constituent ?_) _
    obtain ⟨id, location, type, shape⟩ := d
    cases shape with
    | package => exact hm
    | _ => cases hm

theorem staysIn_entityInquiry (e : Entity) :
  (S.entityInquiry e).StaysIn S.program.Holds
  := by
  unfold entityInquiry
  cases e.kind with
  | type t => exact (S.confined_typeInquiry e t).staysIn
  | object o => exact staysIn_objectInquiry e o
  | parameter p => exact (S.confined_parameterInquiry e p).staysIn
  | component c | discriminant c => exact (S.confined_componentInquiry e c).staysIn
  | subprogram s => exact (S.confined_subprogramInquiry e s).staysIn
  | package initialCondition => exact staysIn_packageInquiry e initialCondition
  | number value => exact (S.confined_optionalExpression value).staysIn
  | abstractState | exception => exact staysIn_pure ()

theorem staysIn_predicateInquiry (e : Entity) :
  (predicateInquiry e).StaysIn P
  := by
  unfold predicateInquiry
  split
  · exact staysIn_pure ()
  · exact fun _ => staysIn_pure ()

theorem staysIn_contextItem (n : Node) :
  (S.contextItem n).StaysIn P
  := by
  have hd (id : EntityId) : (Inquiry.decide id (.done ())).StaysIn P := trivial
  unfold contextItem
  grind

/-- The inquiry into the content of a unit stays in the program. -/
theorem staysIn_content {u : Node} (hu : u ∈ S.program.units) :
  (S.item {} u.content).StaysIn S.program.Holds
  := by
  have h : S.program.Holds u := ⟨[], .unit hu⟩
  refine staysIn_item (fun _ h _ => h.constituent) ?_ {}
  obtain ⟨id, location, type, shape⟩ := u
  cases shape with
  | compilationUnit context unit => exact h.constituent List.mem_cons_self
  | _ => exact h

/-! ### Acts -/

variable {decide : EntityId → Act Unit} {scope : Scope}

theorem walked_eq_of_layout {r r' : Run} (h : r'.layout = r.layout) :
  r'.walked = r.walked
  := congrArg Prod.fst h

theorem staysIn_modify {f : Run → Run} (h : ∀ r, (f r).walked = r.walked) :
  (modify f : Act Unit).StaysIn P
  := fun r hr n hn => hr n (h r ▸ hn)

theorem staysIn_note {e : Event} (h : e.item? = none) :
  (modify (·.note e) : Act Unit).StaysIn P
  := staysIn_modify fun _ => walked_eq_of_layout (Run.layout_note h)

theorem staysIn_rule (f : Verdicts → Verdicts) :
  (Act.rule f).StaysIn P
  := staysIn_modify fun _ => rfl

theorem staysIn_afresh {act : Act Unit} (h : act.StaysIn P) :
  act.afresh.StaysIn P
  := h.afresh fun _ _ hr => hr

theorem walked_findExcluded (r : Run) (scope : Scope) (site : Site) (id : EntityId) :
  (r.findExcluded scope site id).walked = r.walked
  := by
  unfold Run.findExcluded Run.report
  split <;> rfl

theorem staysIn_consult (hd : ∀ id, (decide id).StaysIn P) (id : EntityId) (site : Site) :
  (Act.consult decide scope id site).StaysIn P
  := by
  refine (hd id).bind fun _ => ?_
  refine (staysIn_note rfl).bind fun _ => ?_
  refine (Act.keeps_admits id).bind fun admitted => ?_
  split
  · split
    · exact Act.keeps_pure true
    · exact (staysIn_rule _).bind fun _ => Act.keeps_pure true
  · refine (staysIn_modify fun r => ?_).bind fun _ => Act.keeps_pure false
    exact walked_findExcluded r scope site id

theorem staysIn_declare (hd : ∀ id, (decide id).StaysIn P) (id : EntityId) (site : Site) :
  (S.declare decide scope id site).StaysIn P
  := by
  have consulted : (Act.consult decide scope id site >>= fun _ => pure ()).StaysIn P :=
    (staysIn_consult hd id site).bind fun _ => Act.keeps_pure ()
  refine (hd id).bind fun _ => ?_
  split
  · refine (Act.keeps_admits id).bind fun admitted => ?_
    split
    · exact consulted
    · refine (Act.keeps_lift _).bind fun off => ?_
      cases off with
      | false => exact consulted
      | true => exact Act.keeps_pure ()
  · exact Act.keeps_pure ()

theorem staysIn_begin (m : Matter) :
  (Act.begin scope m).StaysIn P
  := by
  refine (staysIn_note rfl).bind fun _ => ?_
  split
  · exact staysIn_rule _
  · exact Act.keeps_pure ()

theorem staysIn_decideBody (hd : ∀ id, (decide id).StaysIn P) (e : Entity) (mode : Option Mode)
    {inner : Scope → Act Unit} (hi : ∀ scope, (inner scope).StaysIn P) :
  (S.decideBody decide e mode inner).StaysIn P
  := by
  refine (hd e.name).bind fun _ => ?_
  refine (Act.keeps_admits e.name).bind fun admitted => ?_
  split
  · refine (Act.keeps_lift _).bind fun ⟨mode, anchor⟩ => ?_
    dsimp only
    split
    · exact Act.keeps_pure ()
    · refine staysIn_afresh ((staysIn_begin _).bind fun _ => (hi _).bind fun _ => ?_)
      exact staysIn_modify fun r => walked_eq_of_layout (r.layout_concludeBody e)
  · exact staysIn_rule _

theorem staysIn_relax (type : EntityId) :
  (S.relax type).StaysIn P
  := by
  intro r hr
  cases h : S.relax type r with
  | ok _ r' =>
    rw [Act.after_of_ok h]
    obtain ⟨relaxed, rfl⟩ := S.relax_eq_ok h
    exact hr
  | error _ r' =>
    rw [Act.after_of_error h]
    cases stops_relax h with
    | plain | examined => exact hr

/-- The act that carries out an inquiry stays where the inquiry stays. -/
theorem staysIn_walk (hd : ∀ id, (decide id).StaysIn P) {α : Type} {i : Inquiry α}
    (h : i.StaysIn P) (scope : Scope) :
  (S.walk decide scope i).StaysIn P
  := by
  induction i generalizing scope with
  | done value => exact Act.keeps_pure value
  | fail fault => exact fun _ hr => hr
  | visit role node next ih =>
    refine Act.Keeps.bind (fun r hr n hn => ?_) fun _ => ih h.2 scope
    cases role with
    | item =>
      obtain rfl | hn := List.mem_cons.1 hn
      · exact (h.1 rfl).1
      · exact hr n hn
    | _ => exact hr n hn
  | consult id site next ih =>
    exact (staysIn_consult hd id site).bind fun b => ih b (h b) scope
  | declare id site next ih => exact (staysIn_declare hd id site).bind fun _ => ih h scope
  | decide id next ih => exact (hd id).bind fun _ => ih h scope
  | isAdmitted id next ih =>
    refine (staysIn_note rfl).bind fun _ => ?_
    exact (Act.keeps_admits id).bind fun b => ih b (h b) scope
  | isExamined id next ih => exact Act.keeps_get.bind fun r => ih _ (h _) scope
  | find site finding next ih =>
    refine (staysIn_modify fun r => ?_).bind fun _ => ih h scope
    exact walked_eq_of_layout (r.layout_find scope site finding)
  | hideView _ next ih | postponeCompletion _ next ih | postponeAspects _ next ih
  | placeInLoop _ _ next ih => exact (staysIn_rule _).bind fun _ => ih h scope
  | relax type next ih => exact (staysIn_relax type).bind fun _ => ih h scope
  | body e mode inner next ihi ih =>
    exact (staysIn_decideBody hd e mode fun scope => ihi h.1 scope).bind fun _ => ih h.2 scope

section

variable (hP : ∀ n, S.program.Holds n → P n)

theorem staysIn_grant (hd : ∀ id, (decide id).StaysIn P) (e : Entity) :
  (S.grant decide scope e).StaysIn P
  := by
  have excluded : (S.exclude e).StaysIn P :=
    staysIn_modify fun r => walked_eq_of_layout (r.strikes_exclude S.program e).layout
  have published : (S.publish e).StaysIn P := by
    unfold publish
    split
    · exact (Act.keeps_lift _).bind fun _ => staysIn_rule _
    · exact Act.keeps_pure ()
  have followed (ids : List EntityId) :
      (ids.forM fun id => Act.postpone (.declaration id)).StaysIn P := by
    induction ids with
    | nil => exact Act.keeps_pure ()
    | cons id ids ih => exact (staysIn_rule _).bind fun _ => ih
  have kept (kept : Bool) : (if kept then e.followers.forM fun id => .postpone (.declaration id)
      else S.exclude e : Act Unit).StaysIn P := by
    split
    · exact followed e.followers
    · exact excluded
  refine published.bind fun _ => ?_
  split
  · exact kept true
  · next function _ => exact (staysIn_consult hd function e.site).bind kept

theorem staysIn_conclude (hd : ∀ id, (decide id).StaysIn P) (e : Entity) :
  (S.conclude decide scope e).StaysIn P
  := by
  refine Act.keeps_get.bind fun r => ?_
  split
  · exact staysIn_modify fun r => walked_eq_of_layout (r.strikes_exclude S.program e).layout
  · exact staysIn_grant hd e

include hP

theorem staysIn_examine (hd : ∀ id, (decide id).StaysIn P) (e : Entity) :
  (S.examine decide e).StaysIn P
  := by
  refine (staysIn_rule _).bind fun _ => ?_
  refine (Act.keeps_lift _).bind fun ⟨mode, anchor⟩ => ?_
  dsimp only
  split
  · exact Act.keeps_pure ()
  · refine staysIn_afresh ((staysIn_begin _).bind fun _ => (staysIn_rule _).bind fun _ => ?_)
    have hi := (staysIn_entityInquiry e).mono hP
    exact (staysIn_walk hd hi _).bind fun _ => staysIn_conclude hd e

theorem staysIn_decideWithin (levels : Nat) (id : EntityId) :
  (S.decideWithin levels id).StaysIn P
  := by
  induction levels generalizing id with
  | zero =>
    rw [decideWithin]
    refine Act.keeps_get.bind fun r => ?_
    split
    · exact Act.keeps_pure ()
    · exact (Act.keeps_lift _).bind fun e _ hr => hr
  | succ levels ih =>
    rw [decideWithin]
    refine Act.keeps_get.bind fun r => ?_
    split
    · exact Act.keeps_pure ()
    · exact (Act.keeps_lift _).bind fun e => staysIn_examine hP ih e

theorem staysIn_decide (id : EntityId) :
  (S.decide id).StaysIn P
  := staysIn_decideWithin hP S.program.entityCount id

theorem staysIn_serve (t : Task) :
  (S.serve t).StaysIn P
  := by
  cases t with
  | declaration id => exact staysIn_decide hP id
  | aspects type anchor =>
    refine (Act.keeps_lift _).bind fun e => ?_
    refine (Act.keeps_lift _).bind fun t => ?_
    refine (Act.keeps_lift _).bind fun ⟨mode, attribution⟩ => ?_
    dsimp only
    split
    · exact Act.keeps_pure ()
    · have hi : (S.aspectsInquiry t).StaysIn P := (S.confined_expressions t.aspects).staysIn
      refine staysIn_afresh ((staysIn_walk (staysIn_decide hP) hi _).bind fun _ => ?_)
      exact staysIn_modify fun r => walked_eq_of_layout (r.layout_concludeAspects type)
  | completion access =>
    refine (Act.keeps_lift _).bind fun type => ?_
    refine (Act.keeps_admits _).bind fun admitted => ?_
    split
    · refine (staysIn_decide hP type).bind fun _ => ?_
      refine (Act.keeps_admits _).bind fun completed => ?_
      split
      · exact staysIn_rule _
      · refine Act.keeps_get.bind fun r => ?_
        refine (Act.keeps_lift _).bind fun cause => ?_
        exact staysIn_modify fun r =>
          walked_eq_of_layout (r.layout_takeBack S.program access type cause)
    · exact Act.keeps_pure ()

theorem staysIn_drainWithin (steps : Nat) :
  (S.drainWithin steps).StaysIn P
  := by
  induction steps with
  | zero =>
    rw [drainWithin]
    refine Act.keeps_get.bind fun r => ?_
    split
    · exact Act.keeps_pure ()
    · exact fun _ hr => hr
  | succ steps ih =>
    rw [drainWithin]
    refine Act.keeps_get.bind fun r => ?_
    split
    · exact Act.keeps_pure ()
    · next task backlog _ =>
      refine (staysIn_rule _).bind fun _ => ?_
      refine (staysIn_note rfl).bind fun _ => ?_
      exact (staysIn_serve hP task).bind fun _ => ih

theorem staysIn_unit {u : Node} (hu : u ∈ S.program.units) :
  (S.unit u).StaysIn P
  := by
  have context (ns : List Node) : (ns.forM fun item =>
      Act.afresh (S.walkOutside (S.contextItem item))).StaysIn P := by
    induction ns with
    | nil => exact Act.keeps_pure ()
    | cons n ns ih =>
      have hn : (S.walkOutside (S.contextItem n)).StaysIn P :=
        staysIn_walk (staysIn_decide hP) (staysIn_contextItem n) {}
      exact (staysIn_afresh hn).bind fun _ => ih
  rw [unit_eq]
  refine (context u.context).bind fun _ => ?_
  exact staysIn_walk (staysIn_decide hP) ((staysIn_content hu).mono hP) {}

/-- Whether it succeeds or fails, a run over a program comes only to what stands in it. -/
theorem staysIn_wholeProgram :
  S.wholeProgram.StaysIn P
  := by
  have units {us : List Node} (hus : us ⊆ S.program.units) :
      (us.forM fun u => do S.unit u; S.drain).StaysIn P := by
    induction us with
    | nil => exact Act.keeps_pure ()
    | cons u us ih =>
      obtain ⟨hu, hus⟩ := List.cons_subset.1 hus
      refine Act.Keeps.bind ?_ fun _ => ih hus
      exact (staysIn_unit hP hu).bind fun _ => staysIn_drainWithin hP _
  exact (units (List.Subset.refl _)).bind fun _ => staysIn_rule _

end

end Setting

end Conformance
