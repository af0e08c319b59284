import Conformance.Proofs.Firm
import Conformance.Proofs.Trail

/-!
# Going over a trail again

An inquiry that was gone through and that now gets its answers from the run it left behind comes
to nothing new.  An entity that is admitted by now was admitted when it was consulted, so where
the parts of an expression are left out this time, all or a part of them was gone through; and
what an inquiry does in addition where more is admitted only looks and finds.

`Setting.Retraces` says that a path comes to nothing new as long as its steps are answered by a
run.  `Setting.Revisits` compares an inquiry with one that was gone through, and `recurs_item`
and `recurs_contextItem` say that what units hold comes to nothing new.
-/

namespace Conformance

/-- Whether a step only looks or finds. -/
def Step.isMild : Step → Bool
  | .visit .. | .ask .. | .find .. | .placeInLoop .. => true
  | _ => false

@[simp]
theorem Step.isMild_visit (role : Role) (n : Node) :
  (Step.visit role n).isMild = true
  := rfl

@[simp]
theorem Step.isMild_ask (id : EntityId) (b : Bool) :
  (Step.ask id b).isMild = true
  := rfl

@[simp]
theorem Step.isMild_find (site : Site) (finding : Finding) :
  (Step.find site finding).isMild = true
  := rfl

/-- An inquiry that only looks and finds. -/
abbrev Inquiry.IsMild {α : Type} (i : Inquiry α) : Prop := i.Every (·.isMild) fun _ => True

/-- A step gets the answer that a run gives. -/
def Run.Answers (r : Run) : Step → Prop
  | .consult id _ b | .declare id _ (some b) | .ask id b => b = r.admits id
  | _ => True

/-- A step that only looks and finds, or is about an entity that was examined. -/
def Run.Knows (r : Run) : Step → Prop
  | .consult id _ _ | .declare id _ _ | .decide id => id ∈ r.verdicts.examined
  | s => s.isMild = true

namespace Setting

open Inquiry

variable (S : Setting) (r : Run)

/-- A body that is analysed. -/
def Analysed (e : Entity) (mode : Option Mode) : Prop :=
  ∃ mode', S.bodyMode e mode = .ok mode' ∧ mode'.1 ≠ some .off

/-- A path comes to nothing new as long as a run answers its steps.  The body of an admitted
entity comes to nothing new either, and if it has a path that only rests on what is admitted
then it is admitted already. -/
inductive Retraces : List Step → Prop
  | nil : Retraces []
  | cons {s : Step} {path : List Step} (hs : r.Knows s) (rest : r.Answers s → Retraces path) :
    Retraces (s :: path)
  | body {e : Entity} {mode : Option Mode} {inner : Inquiry Unit} {path : List Step}
      (hx : e.name ∈ r.verdicts.examined)
      (hp : e.name ∈ r.verdicts.admitted → S.Analysed e mode →
        ∀ p, inner.Leads p () → Retraces p)
      (hb : e.name ∈ r.verdicts.admitted → S.Analysed e mode →
        ∀ p, inner.Favours p () → (∀ s ∈ p, S.Confirms (· ∈ r.verdicts.admitted) s) →
          e.name ∈ r.verdicts.admittedBodies)
      (rest : Retraces path) :
    Retraces (.body e mode inner :: path)

variable {α β γ δ : Type}

/-- What a path of one inquiry comes to, where a path of another one was gone through. -/
def Revisits (R : β → α → Prop) (j : Inquiry β) (i : Inquiry α) : Prop :=
  ∀ p a q b, i.Leads p a → (∀ s ∈ p, S.Trodden {} r s) → j.Leads q b →
    S.Retraces r q ∧ ((∀ s ∈ q, r.Answers s) → R b a)

/-- An inquiry that was gone through comes to nothing new. -/
abbrev Recurs (i : Inquiry Unit) : Prop := S.Revisits r (fun _ _ => True) i i

variable {S r}
variable {R : β → α → Prop} {R' : δ → γ → Prop} {i : Inquiry α} {j : Inquiry β}

theorem Retraces.append {p q : List Step} (h : S.Retraces r p)
    (h' : (∀ s ∈ p, r.Answers s) → S.Retraces r q) :
  S.Retraces r (p ++ q)
  := by
  induction h with
  | nil => exact h' (by simp)
  | cons hs _ ih =>
    refine .cons hs fun ha => ih ha fun hp => h' ?_
    rw [List.forall_mem_cons]
    exact ⟨ha, hp⟩
  | body hx hp hb _ _ ih =>
    refine .body hx hp hb (ih fun hp => h' ?_)
    rw [List.forall_mem_cons]
    exact ⟨trivial, hp⟩

theorem retraces_of_isMild {p : List Step} (h : ∀ s ∈ p, s.isMild = true) :
  S.Retraces r p
  := by
  induction p with
  | nil => exact .nil
  | cons s p ih =>
    rw [List.forall_mem_cons] at h
    refine .cons ?_ fun _ => ih h.2
    cases s <;> first | exact h.1 | cases h.1

/-! ### Putting inquiries together -/

theorem Revisits.bind {f : α → Inquiry γ} {g : β → Inquiry δ} (h : S.Revisits r R j i)
    (h' : ∀ b a, R b a → S.Revisits r R' (g b) (f a)) :
  S.Revisits r R' (j >>= g) (i >>= f)
  := by
  intro p a q b lp ht lq
  obtain ⟨p₁, c, p₂, rfl, lp₁, lp₂⟩ := leads_bind_iff.1 lp
  obtain ⟨q₁, d, q₂, rfl, lq₁, lq₂⟩ := leads_bind_iff.1 lq
  rw [List.forall_mem_append] at ht
  obtain ⟨h₁, hr⟩ := h p₁ c q₁ d lp₁ ht.1 lq₁
  have rest (ha : ∀ s ∈ q₁, r.Answers s) := h' d c (hr ha) p₂ a q₂ b lp₂ ht.2 lq₂
  refine ⟨h₁.append fun ha => (rest ha).1, fun ha => ?_⟩
  rw [List.forall_mem_append] at ha
  exact (rest ha.1).2 ha.2

/-- One inquiry and then another one. -/
theorem Revisits.append {i' : Inquiry γ} {j' : Inquiry δ} (h : S.Revisits r R j i)
    (h' : S.Revisits r R' j' i') :
  S.Revisits r R' (do let _ ← j; j') (do let _ ← i; i')
  := h.bind fun _ _ _ => h'

/-- What was gone through first may be left out. -/
theorem revisits_skip {f : γ → Inquiry α} {i : Inquiry γ} (h : ∀ c, S.Revisits r R j (f c)) :
  S.Revisits r R j (i >>= f)
  := by
  intro p a q b lp ht lq
  obtain ⟨p₁, c, p₂, rfl, -, lp₂⟩ := leads_bind_iff.1 lp
  exact h c p₂ a q b lp₂ (fun s hs => ht s (List.mem_append_right _ hs)) lq

/-- What was gone through at the end may be left out. -/
theorem revisits_stop {f : α → Inquiry γ} (h : S.Revisits r (fun _ _ => True) j i) :
  S.Revisits r (fun _ _ => True) j (i >>= f)
  := by
  intro p a q b lp ht lq
  obtain ⟨p₁, c, p₂, rfl, lp₁, -⟩ := leads_bind_iff.1 lp
  have h := h p₁ c q b lp₁ (fun s hs => ht s (List.mem_append_left _ hs)) lq
  exact ⟨h.1, fun _ => trivial⟩

theorem revisits_of_isMild (h : j.IsMild) (i : Inquiry α) :
  S.Revisits r (fun _ _ => True) j i
  := by
  intro p a q b _ _ lq
  exact ⟨retraces_of_isMild (h.of_leads lq).1, fun _ => trivial⟩

theorem recurs_of_isMild {i : Inquiry Unit} (h : i.IsMild) :
  S.Recurs r i
  := revisits_of_isMild h i

theorem revisits_pure {a : α} {b : β} (h : R b a) :
  S.Revisits r R (pure b) (pure a)
  := by
  intro p c q d lp _ lq
  obtain ⟨-, rfl⟩ := leads_pure.1 lp
  obtain ⟨rfl, rfl⟩ := leads_pure.1 lq
  exact ⟨.nil, fun _ => h⟩

theorem revisits_fail (j : Inquiry β) (fault : Fault) :
  S.Revisits r R j (throw fault)
  := fun _ _ _ _ lp => (leads_throw.1 lp).elim

theorem revisits_lift {x : Answer γ} {f : γ → Inquiry α} {g : γ → Inquiry β}
    (h : ∀ c, x = .ok c → S.Revisits r R (g c) (f c)) :
  S.Revisits r R (liftM x >>= g) (liftM x >>= f)
  := by
  intro p a q b lp ht lq
  obtain ⟨p₁, c, p₂, rfl, lp₁, lp₂⟩ := leads_bind_iff.1 lp
  obtain ⟨q₁, d, q₂, rfl, lq₁, lq₂⟩ := leads_bind_iff.1 lq
  obtain ⟨rfl, hc⟩ := leads_lift.1 lp₁
  obtain ⟨rfl, hd⟩ := leads_lift.1 lq₁
  obtain rfl := Except.ok.inj (hc.symm.trans hd)
  exact h c hc p₂ a q₂ b lp₂ ht lq₂

/-- What is admitted by now was admitted when it was consulted. -/
theorem revisits_ask {id : EntityId} {site : Site} {f : Bool → Inquiry α} {g : Bool → Inquiry β}
    (h : ∀ b c, (b = true → c = true) → S.Revisits r R (g b) (f c)) :
  S.Revisits r R (ask id site >>= g) (ask id site >>= f)
  := by
  have ha : S.Revisits r (fun b c => b = true → c = true) (ask id site) (ask id site) := by
    intro p c q b lp ht lq
    cases lp with
    | step t lp =>
      cases t with
      | consult c' =>
        obtain ⟨rfl, rfl⟩ := leads_pure.1 lp
        cases lq with
        | step t lq =>
          cases t with
          | consult b' =>
            obtain ⟨rfl, rfl⟩ := leads_pure.1 lq
            cases ht _ List.mem_cons_self with
            | still h => cases h
            | consult hx hb =>
              refine ⟨.cons hx fun _ => .nil, fun ha hb' => hb (Run.admits_iff.1 ?_)⟩
              exact (ha _ List.mem_cons_self).symm.trans hb'
  exact ha.bind h

theorem recurs_restOn (id : EntityId) (site : Site) :
  S.Recurs r (restOn id site)
  := by
  change S.Revisits r _ (ask id site >>= fun _ => pure ()) (ask id site >>= fun _ => pure ())
  exact revisits_ask fun _ _ _ => revisits_pure trivial

theorem recurs_declare (id : EntityId) (site : Site) :
  S.Recurs r (.declare id site (.done ()))
  := by
  intro p a q b lp ht lq
  cases lp with
  | step t lp =>
    cases t with
    | declare c =>
      cases lq with
      | step t lq =>
        cases t with
        | declare d =>
          obtain ⟨rfl, -⟩ := leads_pure.1 lq
          have hx : id ∈ r.verdicts.examined := by
            cases ht _ List.mem_cons_self with
            | still h => cases h
            | declare hx => exact hx
            | declareResting hx => exact hx
          exact ⟨.cons hx fun _ => .nil, fun _ => trivial⟩

theorem recurs_decide (id : EntityId) :
  S.Recurs r (.decide id (.done ()))
  := by
  intro p a q b lp ht lq
  cases lp with
  | step t lp =>
    cases t
    cases lq with
    | step t lq =>
      cases t
      obtain ⟨rfl, -⟩ := leads_pure.1 lq
      cases ht _ List.mem_cons_self with
      | still h => cases h
      | decide hx => exact ⟨.cons hx fun _ => .nil, fun _ => trivial⟩

theorem revisits_come {role : Role} {n : Node} (h : S.Revisits r R j i) :
  S.Revisits r R (do come role n; j) (do come role n; i)
  := (revisits_of_isMild (j := come role n) (by simp) (come role n)).append h

theorem recurs_forM {as : List γ} {f : γ → Inquiry Unit} (h : ∀ c ∈ as, S.Recurs r (f c)) :
  S.Recurs r (as.forM f)
  := by
  induction as with
  | nil => exact revisits_pure trivial
  | cons a as ih =>
    apply (h a List.mem_cons_self).append
    exact ih fun c hc => h c (List.mem_cons_of_mem a hc)

/-! ### Checks -/

theorem mild_attribute (site : Site) (name : String) (ofType : Bool) :
  (checkAttribute site name ofType).IsMild
  := by
  unfold checkAttribute
  split <;> simp

section

variable (S : Setting)

@[simp]
theorem mild_move (toConstant : Bool) (n : Node) :
  (S.checkMove toConstant n).IsMild
  := by simp [checkMove]

@[simp]
theorem mild_loan (observe : Bool) (n : Node) :
  (S.checkLoan observe n).IsMild
  := by simp [checkLoan]

@[simp]
theorem mild_lent (type : EntityId) (a : AccessDefinition) (n : Node) :
  (S.checkLent type a n).IsMild
  := by simp [checkLent, checkCompatible]

@[simp]
theorem mild_stored (type : EntityId) (toConstant : Bool) (n : Node) :
  (S.checkStored type toConstant n).IsMild
  := by
  simp only [checkStored, every_bind, every_lift, every_ite, every_pure]
  refine fun owning _ => ⟨fun _ => ⟨fun _ o _ => ?_, fun _ => trivial⟩,
    fun _ anonymous _ => ⟨fun _ o _ => ?_, fun _ => trivial⟩⟩
  · cases o <;> simp
  · cases o <;> simp

theorem mild_association (a : Association Node) :
  (S.checkAssociation a).IsMild
  := by
  unfold checkAssociation
  split <;> simp

theorem mild_actual (callee id : EntityId) (actual : Node) :
  (S.checkActual callee id actual).IsMild
  := by
  have owning (direction : Direction) : (S.checkOwningActual direction actual).IsMild := by
    unfold checkOwningActual
    split <;> simp
  simp only [checkActual, every_bind, every_lift, every_stands, every_ite]
  refine fun facet _ b => ⟨rfl, fun _ o _ => ?_, fun _ => trivial⟩
  cases o <;> simp [owning]

theorem mild_forM {as : List γ} {f : γ → Inquiry Unit} (h : ∀ c, (f c).IsMild) :
  (as.forM f).IsMild
  := by
  induction as with
  | nil => trivial
  | cons a as ih =>
    have hs : (fun _ : Unit => (as.forM f).IsMild) = fun _ => True := funext fun _ => eq_true ih
    have ha : (f a).Every (·.isMild) fun _ => (as.forM f).IsMild := hs ▸ h a
    exact every_bind.2 ha

theorem mild_actuals (callee : EntityId) (formals : List EntityId) (actuals : List Node) :
  (S.checkActuals callee formals actuals).IsMild
  := mild_forM fun _ => S.mild_actual callee _ _

theorem mild_conversion (site : Site) (target : EntityId) (operand : Node) :
  (S.checkConversion site target operand).IsMild
  := by
  unfold checkConversion
  split <;> simp

theorem mild_binary (n : Node) (operator : BinaryOperator) (left right : Node) :
  (S.checkBinary n operator left right).IsMild
  := by
  have scaling : (S.checkScaling n operator left right).IsMild := by
    unfold checkScaling
    split
    · simp only [every_bind, every_lift]
      intro l _ r _
      split <;> simp
    · simp
  have equality : (S.checkEquality n.site left right).IsMild := by
    unfold checkEquality
    split
    · simp
    · split <;> simp
  unfold checkBinary
  split <;> simp [scaling, equality]

theorem mild_allocated (target : EntityId) (initial : Node) :
  (S.checkAllocated target initial).IsMild
  := by simp [checkAllocated]

theorem mild_assigned (target value : Node) :
  (S.checkAssigned target value).IsMild
  := by
  unfold checkAssigned
  split <;> simp

theorem mild_returned (around : Surroundings) (value : Node) :
  (S.checkReturned around value).IsMild
  := by
  unfold checkReturned
  split
  · simp
  · simp only [every_bind, every_lift]
    intro facet _
    split <;> simp [checkResult]

end

/-! ### Expressions -/

variable (S r) in
/-- An inquiry `i` may be left out in favour of `o`, which goes through its parts only. -/
structure Masks (o i : Inquiry Unit) : Prop where
  whole : S.Recurs r i
  masked : S.Revisits r (fun _ _ => True) o i
  parts : S.Recurs r o

variable {o o' i i' : Inquiry Unit}

theorem masks_self (h : S.Recurs r i) :
  S.Masks r i i
  := ⟨h, h, h⟩

/-- Without parts nothing is gone through. -/
theorem masks_pure (h : S.Recurs r i) :
  S.Masks r (pure ()) i
  := ⟨h, revisits_of_isMild (by simp) i, revisits_pure trivial⟩

theorem Masks.append (h : S.Masks r o i) (h' : S.Masks r o' i') :
  S.Masks r (do o; o') (do i; i')
  := ⟨h.whole.append h'.whole, h.masked.append h'.masked, h.parts.append h'.parts⟩

/-- What comes before the parts. -/
theorem Masks.after {f : Unit → Inquiry Unit} (h : S.Masks r o (f ())) (hi : S.Recurs r i) :
  S.Masks r o (i >>= f)
  := ⟨hi.bind fun _ _ _ => h.whole, revisits_skip fun _ => h.masked, h.parts⟩

/-- What comes after the parts. -/
theorem Masks.before {c : Inquiry Unit} (h : S.Masks r o i) (hc : S.Recurs r c) :
  S.Masks r o (do i; c)
  := ⟨h.whole.append hc, revisits_stop h.masked, h.parts⟩

/-- A check that is made where the answer is yes. -/
theorem recurs_ask {id : EntityId} {site : Site} {c : Inquiry Unit} (h : S.Recurs r i)
    (hc : c.IsMild) :
  S.Recurs r (do
    let admitted ← ask id site
    i
    if admitted then c)
  := by
  have mild (b : Bool) : (if b then c else pure () : Inquiry Unit).IsMild := by
    split
    · exact hc
    · trivial
  apply revisits_ask
  intro b d _
  exact h.append (revisits_of_isMild (mild b) _)

/-- An inquiry that is left out in favour of its parts unless a type is admitted. -/
theorem Masks.typed {site : Site} {type : Option EntityId} (h : S.Masks r o i) :
  S.Recurs r (do if ← restOnType site type then i else o)
  := by
  cases type with
  | none => exact h.whole
  | some type =>
    apply revisits_ask
    intro b c hb
    cases b with
    | true =>
      obtain rfl := hb rfl
      exact h.whole
    | false =>
      cases c with
      | true => exact h.masked
      | false => exact h.parts

theorem Masks.rested {role : Role} {n : Node} (h : S.Masks r o i) :
  S.Recurs r (do
    come role n
    if ← restOnType n.site n.type then i else o)
  := revisits_come h.typed

theorem recurs_component (site : Site) (component : EntityId) :
  S.Recurs r (S.restOnComponent site component)
  := by
  apply revisits_lift
  intro e _
  split
  · exact recurs_restOn component site
  · exact recurs_restOn component site
  · exact revisits_pure trivial

theorem revisits_namedType (role : Role) (n : Node) :
  S.Revisits r Eq (S.restOnNamedType role n) (S.restOnNamedType role n)
  := by
  apply revisits_come
  split
  · next entity _ =>
    apply revisits_lift
    intro e _
    split
    · exact (recurs_restOn entity n.site).append (revisits_pure rfl)
    · exact revisits_pure rfl
  · exact revisits_pure rfl

/-- A part that is gone through as an expression unless it names a type. -/
theorem revisits_unlessType {role : Role} {n : Node} {f g : Bool → Inquiry Unit}
    (h : S.Recurs r (S.expression n)) (h' : ∀ b, S.Revisits r (fun _ _ => True) (g b) (f b)) :
  S.Revisits r (fun _ _ => True)
    (do
      let ofType ← S.restOnNamedType role n
      if !ofType then S.expression n
      g ofType)
    (do
      let ofType ← S.restOnNamedType role n
      if !ofType then S.expression n
      f ofType)
  := by
  apply (revisits_namedType role n).bind
  rintro ofType _ rfl
  cases ofType
  · exact h.append (h' false)
  · exact h' true

theorem masks_unlessType {role : Role} {n : Node} {f g : Bool → Inquiry Unit}
    (h : S.Recurs r (S.expression n)) (h' : ∀ b, S.Masks r (g b) (f b)) :
  S.Masks r
    (do
      let ofType ← S.restOnNamedType role n
      if !ofType then S.expression n
      g ofType)
    (do
      let ofType ← S.restOnNamedType role n
      if !ofType then S.expression n
      f ofType)
  := ⟨revisits_unlessType h fun b => (h' b).whole, revisits_unlessType h fun b => (h' b).masked,
    revisits_unlessType h fun b => (h' b).parts⟩

theorem recurs_call {site : Site} {callee : EntityId} {arguments : List Node}
    (h : S.Recurs r (S.expressions arguments)) :
  S.Recurs r (S.callStatement site callee arguments)
  := by
  apply revisits_ask
  intro b c _
  apply revisits_lift
  intro facet _
  have mild : (if b then S.checkActuals callee facet.parameters arguments
      else pure () : Inquiry Unit).IsMild := by
    split
    · exact S.mild_actuals callee facet.parameters arguments
    · trivial
  exact h.append (revisits_of_isMild mild _)

theorem masks_call {site : Site} {callee : EntityId} {arguments : List Node}
    (h : S.Recurs r (S.expressions arguments)) :
  S.Masks r (S.expressions arguments) (S.callStatement site callee arguments)
  := ⟨recurs_call h, revisits_skip fun _ => revisits_skip fun _ => revisits_stop h, h⟩

/-- A part that a check comes after where a target is admitted. -/
theorem masks_ask {id : EntityId} {site : Site} {c : Inquiry Unit} (h : S.Recurs r i)
    (hc : c.IsMild) :
  S.Masks r i (do
    let admitted ← ask id site
    i
    if admitted then c)
  := ⟨recurs_ask h hc, revisits_skip fun _ => revisits_stop h, h⟩

mutual

theorem recurs_expression : (n : Node) → S.Recurs r (S.expression n)
  | ⟨id, location, type, shape⟩ => by
    match shape with
    | .identifier entity =>
      simp only [expression, operands]
      exact (masks_pure (recurs_restOn _ _)).rested
    | .literal value =>
      simp only [expression, operands]
      exact (masks_pure (revisits_pure trivial)).rested
    | .aggregate as =>
      simp only [expression, operands]
      exact (masks_associations as).rested
    | .selected whole component =>
      simp only [expression, operands]
      exact ((masks_self (recurs_expression whole)).before (recurs_component _ component)).rested
    | .indexed whole indices =>
      simp only [expression, operands]
      exact (masks_self ((recurs_expression whole).append (recurs_expressions indices))).rested
    | .slice left right | .range left right =>
      simp only [expression, operands]
      exact (masks_self ((recurs_expression left).append (recurs_expression right))).rested
    | .dereference operand | .unary _ operand =>
      simp only [expression, operands]
      exact (masks_self (recurs_expression operand)).rested
    | .call callee arguments =>
      simp only [expression, operands]
      exact (masks_call (recurs_expressions arguments)).rested
    | .attribute whole name arguments =>
      simp only [expression, operands]
      have ha (ofType : Bool) : S.Masks r (S.expressions arguments) (do
          checkAttribute (Node.site ⟨id, location, type, .attribute whole name arguments⟩) name ofType
          S.expressions arguments) :=
        (masks_self (recurs_expressions arguments)).after (recurs_of_isMild (mild_attribute _ _ _))
      exact (masks_unlessType (recurs_expression whole) ha).rested
    | .conversion target operand =>
      simp only [expression, operands]
      exact (masks_ask (recurs_expression operand) (S.mild_conversion _ target operand)).rested
    | .qualified target operand =>
      simp only [expression, operands]
      exact ((masks_self (recurs_expression operand)).after (recurs_restOn target _)).rested
    | .binary operator left right =>
      simp only [expression, operands]
      have hr := (masks_self (recurs_expression right)).before
        (recurs_of_isMild (r := r) (S.mild_binary ⟨id, location, type, .binary operator left right⟩
          operator left right))
      exact ((masks_self (recurs_expression left)).append hr).rested
    | .allocator target none =>
      simp only [expression, operands]
      exact (masks_pure (revisits_ask fun _ _ _ => revisits_pure trivial)).rested
    | .allocator target (some value) =>
      simp only [expression, operands]
      exact (masks_ask (recurs_expression value) (S.mild_allocated target value)).rested
    | .conditional condition thenValue elseValue =>
      simp only [expression, operands]
      exact (masks_self ((recurs_expression condition).append
        ((recurs_expression thenValue).append (recurs_expression elseValue)))).rested
    | .quantified element domain predicate _ =>
      simp only [expression, operands]
      exact ((masks_self ((recurs_expression domain).append
        (recurs_expression predicate))).after (recurs_restOn element _)).rested
    | .membership operand cs =>
      simp only [expression, operands]
      exact (masks_self ((recurs_expression operand).append (recurs_choices cs))).rested
    | .word _ | .assignment .. | .procedureCall .. | .return _ | .ifElse .. | .case ..
    | .loop .. | .block .. | .exit _ | .goto _ | .raise _ | .delay _ | .abort | .machineCode
    | .nothing | .pragma .. | .declaration .. | .package .. | .body .. | .protectedBody ..
    | .compilationUnit .. | .withClause _ | .useClause =>
      simp only [expression, operands]
      exact (masks_pure (revisits_fail _ _)).rested

theorem recurs_expressions : (ns : List Node) → S.Recurs r (S.expressions ns)
  | [] => by
    rw [expressions]
    exact revisits_pure trivial
  | n :: ns => by
    rw [expressions]
    exact (recurs_expression n).append (recurs_expressions ns)

theorem recurs_choices : (ns : List Node) → S.Recurs r (S.choices ns)
  | [] => by
    rw [choices]
    exact revisits_pure trivial
  | n :: ns => by
    rw [choices]
    exact revisits_unlessType (recurs_expression n) fun _ => recurs_choices ns

theorem masks_associations :
    (as : List (Association Node)) → S.Masks r (S.associationOperands as) (S.associations as)
  | [] => by
    rw [associationOperands, associations]
    exact masks_pure (revisits_pure trivial)
  | ⟨cs, others, value⟩ :: as => by
    rw [associationOperands, associations]
    have ha := (masks_associations as).after (f := fun _ => S.associations as)
      (recurs_of_isMild (r := r) (S.mild_association ⟨cs, others, value⟩))
    exact (masks_self (recurs_choices cs)).append ((masks_self (recurs_expression value)).append ha)

end

/-! ### Bodies -/

/-- Where the steps of a path are safe for what is admitted by now, the path was clean when it
was gone through. -/
theorem clean_of_safe {since : Run} {p : List Step}
    (h : S.Safe (· ∈ r.verdicts.admitted) p) (ht : ∀ s ∈ p, S.Trodden since r s) :
  (∀ s ∈ p, s.isClean = true) ∧ ∀ s ∈ p, ∀ x, s.consults x → x ∈ r.verdicts.admitted
  := by
  induction p with
  | nil => simp
  | cons s p ih =>
    rw [List.forall_mem_cons] at ht
    obtain ⟨hs, hp⟩ := h
    have head : s.isClean = true ∧ ∀ x, s.consults x → x ∈ r.verdicts.admitted := by
      cases s with
      | consult id site b =>
        cases ht.1 with
        | still h => cases h
        | consult hx hb =>
          refine ⟨hb hs, ?_⟩
          rintro x rfl
          exact hs
      | declare id site b =>
        cases ht.1 with
        | still h => cases h
        | declare hx =>
          refine ⟨rfl, ?_⟩
          rintro x ⟨⟩
        | declareResting hx hb ho =>
          have ha : id ∈ r.verdicts.admitted := hs.resolve_right fun h => by cases ho.symm.trans h
          refine ⟨hb ha, ?_⟩
          rintro x rfl
          exact ha
      | find site finding =>
        have hv : finding.violates = false := hs
        refine ⟨by simp [Step.isClean, hv], ?_⟩
        rintro x ⟨⟩
      | _ =>
        refine ⟨rfl, ?_⟩
        rintro x ⟨⟩
    obtain ⟨hc, ha⟩ := ih (hp head.1) ht.2
    rw [List.forall_mem_cons, List.forall_mem_cons]
    exact ⟨⟨head.1, hc⟩, head.2, ha⟩

/-- A body that was gone through comes to nothing new, and it is admitted if it could be. -/
theorem recurs_body {e : Entity} {mode : Option Mode} {ns : List Node}
    (h : S.Recurs r (S.items e.inside ns)) :
  S.Recurs r (.body e mode (S.items e.inside ns) (.done ()))
  := by
  intro p a q b lp ht lq
  refine ⟨?_, fun _ => trivial⟩
  cases lp with
  | step t lp =>
    cases t
    cases lq with
    | step t lq =>
      cases t
      obtain ⟨rfl, -⟩ := leads_pure.1 lq
      cases ht _ List.mem_cons_self with
      | still h => cases h
      | bodyExcluded hx ha =>
        exact .body hx (fun ha' => absurd ha' ha) (fun ha' => absurd ha' ha) .nil
      | bodyOff hx hm =>
        have off (hn : S.Analysed e mode) : False := by
          obtain ⟨mode', hm', hn⟩ := hn
          obtain rfl := Except.ok.inj (hm.symm.trans hm')
          exact hn rfl
        exact .body hx (fun _ hn => (off hn).elim) (fun _ hn => (off hn).elim) .nil
      | @body _ _ _ path hx l hp _ _ hc hk =>
        refine .body hx (fun _ _ q lq => (h path () q () l hp lq).1) (fun ha _ q hq hcq => ?_) .nil
        have hsafe := ((regular_bodyItems e ns).safe (by simp) hq hcq l).1
        obtain ⟨hclean, hadm⟩ := clean_of_safe hsafe hp
        -- What the body consulted is on its path, so it is not forfeited.
        refine (hk hclean).resolve_right fun hf => ?_
        obtain ⟨y, -, hn, rfl | hy⟩ := hf
        · exact hn ha
        · obtain ⟨s, hs, hy⟩ := hc y hy
          exact hn (hadm s hs y hy)

/-! ### Declarations and statements -/

theorem recurs_declareHere (around : Surroundings) (site : Site) (kind : Declared)
    (id : EntityId) :
  S.Recurs r (declareHere around site kind id)
  := by
  unfold declareHere
  split
  · next loop _ =>
    have hp : (Inquiry.placeInLoop id loop (.done ())).IsMild := ⟨rfl, trivial⟩
    exact (recurs_of_isMild hp).append (recurs_declare id site)
  · exact recurs_declare id site

theorem recurs_pragma (site : Site) (name : String) (arguments : List (PragmaArgument Node)) :
  S.Recurs r (S.pragma site name arguments)
  := by
  unfold pragma
  split
  · apply recurs_forM
    intro a _
    split
    · exact revisits_pure trivial
    · exact revisits_pure trivial
    · exact recurs_expression a.value
  · exact revisits_pure trivial
  · exact revisits_pure trivial
  · exact recurs_of_isMild (by simp)
  · split <;> exact recurs_of_isMild (by simp)

theorem recurs_optional (n : Option Node) :
  S.Recurs r (S.optionalExpression n)
  := by
  cases n with
  | none => exact revisits_pure trivial
  | some n => exact recurs_expression n

theorem recurs_loopScheme (site : Site) (loop : NodeId) (scheme : LoopScheme Node) :
  S.Recurs r (S.loopScheme site loop scheme)
  := by
  cases scheme with
  | forever => exact revisits_pure trivial
  | whileTrue condition => exact recurs_expression condition
  | overDomain parameter domain _ =>
    have hp : (Inquiry.placeInLoop parameter loop (.done ())).IsMild := ⟨rfl, trivial⟩
    exact (recurs_of_isMild hp).append
      ((recurs_expression domain).append (recurs_declare parameter site))

/-- A value that is checked for where it goes. -/
theorem recurs_checked {c : Inquiry Unit} (h : S.Recurs r i) (hc : c.IsMild) :
  S.Recurs r (do i; c)
  := h.append (recurs_of_isMild hc)

mutual

theorem recurs_item : (n : Node) → (around : Surroundings) → S.Recurs r (S.item around n)
  | ⟨id, location, type, shape⟩, around => by
    match shape with
    | .declaration kind entity =>
      simp only [item]
      exact revisits_come (recurs_declareHere _ _ _ _)
    | .package entity _ _ =>
      simp only [item]
      exact revisits_come (recurs_declare _ _)
    | .body _ entity mode declarations statements =>
      simp only [item, ← items_append]
      apply revisits_come
      apply revisits_lift
      intro e _
      apply recurs_body
      rw [items_append]
      exact (recurs_items declarations _).append (recurs_items statements _)
    | .protectedBody entity mode bs =>
      simp only [item]
      apply revisits_come
      apply revisits_lift
      intro e _
      exact recurs_body (recurs_items bs _)
    | .assignment target value =>
      simp only [item]
      exact revisits_come ((recurs_expression target).append
        (recurs_checked (recurs_expression value) (S.mild_assigned target value)))
    | .procedureCall callee arguments =>
      simp only [item]
      exact revisits_come (recurs_call (recurs_expressions arguments))
    | .return none =>
      simp only [item]
      exact revisits_come (revisits_pure trivial)
    | .return (some value) =>
      simp only [item]
      exact revisits_come (recurs_checked (recurs_expression value) (S.mild_returned around value))
    | .ifElse bs otherwise =>
      simp only [item]
      exact revisits_come ((recurs_branches bs _).append (recurs_items otherwise _))
    | .case selector bs =>
      simp only [item]
      exact revisits_come ((recurs_expression selector).append (recurs_caseBranches bs _))
    | .loop scheme statements =>
      simp only [item]
      exact revisits_come ((recurs_loopScheme _ _ scheme).append (recurs_items statements _))
    | .block declarations statements =>
      simp only [item]
      exact revisits_come ((recurs_items declarations _).append (recurs_items statements _))
    | .exit condition =>
      simp only [item]
      exact revisits_come (recurs_optional condition)
    | .raise none =>
      simp only [item]
      exact revisits_come (revisits_pure trivial)
    | .raise (some entity) =>
      simp only [item]
      exact revisits_come (recurs_restOn entity _)
    | .delay value =>
      simp only [item]
      exact revisits_come (recurs_expression value)
    | .pragma name arguments =>
      simp only [item]
      exact revisits_come (recurs_pragma _ _ _)
    | .goto _ | .abort | .machineCode =>
      simp only [item]
      exact revisits_come (recurs_of_isMild (by simp))
    | .nothing | .useClause =>
      simp only [item]
      exact revisits_come (revisits_pure trivial)
    | .compilationUnit .. | .withClause _ | .identifier _ | .word _
    | .literal _ | .aggregate _ | .selected .. | .indexed .. | .slice .. | .dereference _
    | .call .. | .attribute .. | .conversion .. | .qualified .. | .binary .. | .unary ..
    | .allocator .. | .conditional .. | .quantified .. | .range .. | .membership .. =>
      simp only [item]
      exact revisits_come (revisits_fail _ _)

theorem recurs_items :
    (ns : List Node) → (around : Surroundings) → S.Recurs r (S.items around ns)
  | [], around => by
    rw [items]
    exact revisits_pure trivial
  | n :: ns, around => by
    rw [items]
    exact (recurs_item n _).append (recurs_items ns _)

theorem recurs_branches :
    (bs : List (Branch Node)) → (around : Surroundings) → S.Recurs r (S.branches around bs)
  | [], around => by
    rw [branches]
    exact revisits_pure trivial
  | ⟨condition, statements⟩ :: bs, around => by
    rw [branches]
    exact (recurs_expression condition).append
      ((recurs_items statements _).append (recurs_branches bs _))

theorem recurs_caseBranches :
    (bs : List (CaseBranch Node)) → (around : Surroundings) →
      S.Recurs r (S.caseBranches around bs)
  | [], around => by
    rw [caseBranches]
    exact revisits_pure trivial
  | ⟨cs, statements⟩ :: bs, around => by
    rw [caseBranches]
    exact (recurs_expressions cs).append
      ((recurs_items statements _).append (recurs_caseBranches bs _))

end

theorem recurs_contextItem (n : Node) :
  S.Recurs r (S.contextItem n)
  := by
  unfold contextItem
  split
  · exact recurs_decide _
  · exact revisits_pure trivial
  · exact recurs_pragma _ _ _
  · exact revisits_fail _ _

/-- The paths of an inquiry that was gone through come to nothing new. -/
theorem Recurs.retraces {i : Inquiry Unit} (h : S.Recurs r i) (ht : S.Toured r i)
    {q : List Step} (lq : i.Leads q ()) :
  S.Retraces r q
  := by
  obtain ⟨p, lp, ht⟩ := ht
  exact (h p () q () lp ht lq).1

end Setting

end Conformance
