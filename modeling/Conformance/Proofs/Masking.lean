import Conformance.Proofs.Coverage
import Conformance.Proofs.PackageIndex

/-!
# Expressions whose static type is excluded

Where the static type of an expression is excluded, the rules of the expression are left out,
and its parts are gone through by a traversal of its own.  `Setting.HandsOn` takes a path apart
into steps of its own and the paths of the parts that it hands on, which it determines
(`HandsOn.unique`).  With the rules and without them, the inquiry into an expression hands on
the same parts in the same order; by induction on the tree, it comes to the whole tree, whatever
static types in it are excluded.
-/

namespace Conformance

/-- Whether a layer is that of an expression. -/
def Shape.isExpression {α : Type} : Shape α → Bool
  | .identifier _ | .word _ | .literal _ | .aggregate _ | .selected .. | .indexed .. | .slice ..
  | .dereference _ | .call .. | .attribute .. | .conversion .. | .qualified .. | .binary ..
  | .unary .. | .allocator .. | .conditional .. | .quantified .. | .range .. | .membership .. =>
    true
  | _ => false

/-- A tree of expressions. -/
def Node.IsExpression (n : Node) : Prop := ∀ m ∈ n.subtree, m.shape.isExpression

/-- The node that a step comes to. -/
def Step.node? : Step → Option Node
  | .visit _ n => some n
  | _ => none

namespace Shape

variable {s : Shape Node}

/-- All children of an expression are parts of it, in order. -/
theorem operandParts_eq_children (h : s.isExpression) :
  s.operandParts.map Prod.snd = s.children
  := by
  cases s with
  | aggregate as => simp [operandParts, children, Role.each, List.map_flatMap, Function.comp_def]
  | identifier | word | literal | selected | indexed | slice | dereference | call | «attribute»
  | conversion | qualified | binary | unary | allocator | conditional | quantified | range
  | membership => simp [operandParts, children, Role.each, Function.comp_def]
  | _ => cases h

theorem role_ne_item {part : Role × Node} (h : part ∈ s.operandParts) :
  part.1 ≠ .item
  := by
  cases s <;> simp only [operandParts, Role.each] at h <;> grind

end Shape

namespace Inquiry

variable {α : Type} {i j j' : Inquiry α} {s : Step}

theorem Takes.unique (h : i.Takes s j) (h' : i.Takes s j') :
  j = j'
  := by
  cases h <;> cases h' <;> rfl

/-- Of two paths of an inquiry that go on to the same path, each determines the other. -/
theorem Leads.unique {p q p' q' : List Step} {a a' : α} (l : i.Leads p a) (l' : i.Leads p' a')
    (h : p ++ q = p' ++ q') :
  p = p' ∧ q = q'
  := by
  induction l generalizing p' with
  | done =>
    cases l' with
    | done => exact ⟨rfl, h⟩
    | step t => cases t
  | step t _ ih =>
    cases l' with
    | done => cases t
    | step t' l' =>
      obtain ⟨rfl, ht⟩ := List.cons.inj h
      obtain rfl := t.unique t'
      obtain ⟨rfl, hq⟩ := ih l' ht
      exact ⟨rfl, hq⟩

end Inquiry

namespace Setting

open Inquiry

/-- The inquiry into a part, in its role.  Where it may name a type, it is gone through as an
expression unless it does. -/
def hand (S : Setting) : Role → Node → Inquiry Unit
  | .expression, n => S.expression n
  | .item, n => S.item {} n
  | role, n => do
    let ofType ← S.restOnNamedType role n
    if !ofType then S.expression n

/-- A path is put together from steps that come to no node and paths of the parts that it hands
on, in this order. -/
inductive HandsOn (S : Setting) : List Step → List (Role × Node) → Prop
  | nil : HandsOn S [] []
  | own {s : Step} {path : List Step} {parts : List (Role × Node)} (hs : s.isVisit = false)
    (h : HandsOn S path parts) : HandsOn S (s :: path) parts
  | part {role : Role} {n : Node} {p q : List Step} {parts : List (Role × Node)}
    (l : (S.hand role n).Leads p ()) (h : HandsOn S q parts) :
    HandsOn S (p ++ q) ((role, n) :: parts)

variable {S : Setting} {parts parts' : List (Role × Node)} {path : List Step}

theorem leads_ask {id : EntityId} {site : Site} {b : Bool} (l : (ask id site).Leads path b) :
  path = [.consult id site b]
  := by
  cases l with
  | step t l =>
    cases t
    obtain ⟨rfl, rfl⟩ := leads_pure.1 l
    rfl

theorem leads_expression {n : Node} (l : (S.expression n).Leads path ()) :
  ∃ rest, path = .visit .expression n :: rest
  := by
  obtain ⟨id, location, type, shape⟩ := n
  unfold expression at l
  obtain ⟨rest, rfl, -⟩ := leads_come l
  exact ⟨rest, rfl⟩

/-- The inquiry into a part comes to the part first, in its role. -/
theorem leads_hand {role : Role} {n : Node} (l : (S.hand role n).Leads path ()) :
  ∃ rest, path = .visit role n :: rest
  := by
  cases role with
  | expression => exact leads_expression l
  | choice | whole =>
    obtain ⟨p, ofType, q, rfl, hp, -⟩ := leads_bind_iff.1 l
    obtain ⟨rest, rfl, -⟩ := leads_come hp
    exact ⟨rest ++ q, rfl⟩
  | item => exact leads_item l

/-- A path determines the parts that it hands on. -/
theorem HandsOn.unique (h : S.HandsOn path parts) (h' : S.HandsOn path parts') :
  parts = parts'
  := by
  -- The path of a part starts with a visit, which the other steps are not.
  induction h generalizing parts' with
  | nil =>
    generalize hp : [] = path at h'
    cases h' with
    | nil => rfl
    | own => cases hp
    | part l =>
      obtain ⟨rest, rfl⟩ := leads_hand l
      cases hp
  | @own s path parts hs _ ih =>
    generalize hp : s :: path = path' at h'
    cases h' with
    | nil => cases hp
    | own _ h' =>
      obtain ⟨rfl, rfl⟩ := List.cons.inj hp
      exact ih h'
    | part l =>
      obtain ⟨rest, rfl⟩ := leads_hand l
      obtain ⟨rfl, -⟩ := List.cons.inj hp
      cases hs
  | @part role n p q parts l _ ih =>
    generalize hp : p ++ q = path' at h'
    obtain ⟨rest, rfl⟩ := leads_hand l
    cases h' with
    | nil => cases hp
    | own hs' =>
      obtain ⟨rfl, -⟩ := List.cons.inj hp
      cases hs'
    | @part role' n' p' q' parts' l' h' =>
      obtain ⟨rest', rfl⟩ := leads_hand l'
      obtain ⟨⟨rfl, rfl⟩, -⟩ : (role = role' ∧ n = n') ∧ _ := by simpa using hp
      obtain ⟨-, rfl⟩ := l.unique l' hp
      rw [ih h']

theorem HandsOn.append {p q : List Step} (h : S.HandsOn p parts) (h' : S.HandsOn q parts') :
  S.HandsOn (p ++ q) (parts ++ parts')
  := by
  induction h with
  | nil => exact h'
  | own hs _ ih => exact .own hs ih
  | part l _ ih =>
    rw [List.append_assoc]
    exact .part l ih

/-! ### Inquiries that hand on parts -/

variable (S) in
/-- An inquiry hands on the given parts, in this order, on each of its paths. -/
def Hands {α : Type} (parts : List (Role × Node)) (i : Inquiry α) : Prop :=
  ∀ path a, i.Leads path a → S.HandsOn path parts

variable {α β : Type} {i : Inquiry α}

theorem Hands.bind {f : α → Inquiry β} (h : S.Hands parts i) (h' : ∀ a, S.Hands parts' (f a)) :
  S.Hands (parts ++ parts') (i >>= f)
  := by
  intro path b l
  obtain ⟨p, a, q, rfl, hp, hq⟩ := leads_bind_iff.1 l
  exact (h p a hp).append (h' a q b hq)

theorem Hands.followed {f : α → Inquiry β} (h : S.Hands parts i) (h' : ∀ a, S.Hands [] (f a)) :
  S.Hands parts (i >>= f)
  := List.append_nil parts ▸ h.bind h'

/-- An inquiry all of whose steps have a property that coming to a node has not. -/
theorem hands_of_every {P : Step → Prop} (h : i.Every P fun _ => True)
    (hP : ∀ role n, ¬ P (.visit role n)) :
  S.Hands [] i
  := by
  intro path a l
  have hs := (h.of_leads l).1
  clear l
  induction path with
  | nil => exact .nil
  | cons s path ih =>
    obtain ⟨hs, hpath⟩ := List.forall_mem_cons.1 hs
    refine .own ?_ (ih hpath)
    cases s with
    | visit role n => exact absurd hs (hP role n)
    | _ => rfl

theorem hands_quiet (h : i.IsQuiet) :
  S.Hands [] i
  := hands_of_every h fun _ _ => nofun

theorem hands_plain (h : i.IsPlain) :
  S.Hands [] i
  := hands_of_every h fun _ _ => nofun

theorem hands_pure (a : α) :
  S.Hands [] (pure a : Inquiry α)
  := hands_quiet trivial

theorem hands_throw (fault : Fault) :
  S.Hands parts (throw fault : Inquiry α)
  := fun _ _ l => (leads_throw.1 l).elim

theorem hands_hand (role : Role) (n : Node) :
  S.Hands [(role, n)] (S.hand role n)
  := fun path _ l => List.append_nil path ▸ .part l .nil

theorem hands_expression (n : Node) :
  S.Hands [(.expression, n)] (S.expression n)
  := hands_hand .expression n

theorem hands_ask {id : EntityId} {site : Site} {f : Bool → Inquiry β}
    (h : ∀ b, S.Hands parts (f b)) :
  S.Hands parts (ask id site >>= f)
  := by
  have hq : (ask id site).IsQuiet := fun _ => ⟨rfl, trivial⟩
  exact (hands_quiet hq).bind h

theorem hands_restOn (id : EntityId) (site : Site) :
  S.Hands [] (restOn id site)
  := hands_quiet fun _ => ⟨rfl, trivial⟩

theorem hands_lift {x : Answer α} {f : α → Inquiry β} (h : ∀ a, S.Hands parts (f a)) :
  S.Hands parts (liftM x >>= f)
  := (hands_quiet (by simp)).bind h

/-- A part that is gone through as an expression unless it names a type. -/
theorem hands_unlessType {role : Role} {n : Node} {f : Bool → Inquiry Unit}
    (hr : role = .choice ∨ role = .whole) (h : ∀ b, S.Hands parts (f b)) :
  S.Hands ((role, n) :: parts) (do
    let ofType ← S.restOnNamedType role n
    if !ofType then S.expression n
    f ofType)
  := by
  have he : S.hand role n = (do
      let ofType ← S.restOnNamedType role n
      if !ofType then S.expression n) := by
    obtain rfl | rfl := hr <;> rfl
  rintro path ⟨⟩ l
  obtain ⟨p, ofType, q, rfl, hp, hq⟩ := leads_bind_iff.1 l
  cases ofType with
  | true =>
    refine .part ?_ (h true q () hq)
    rw [he, ← List.append_nil p]
    exact leads_bind_iff.2 ⟨p, true, [], rfl, hp, .done⟩
  | false =>
    obtain ⟨q, q', rfl, hq, hq'⟩ := leads_then_iff.1 hq
    rw [← List.append_assoc]
    refine .part ?_ (h false q' () hq')
    rw [he]
    exact leads_bind_iff.2 ⟨p, false, q, rfl, hp, hq⟩

theorem hands_expressions (ns : List Node) :
  S.Hands (Role.expression.each ns) (S.expressions ns)
  := by
  induction ns with
  | nil => exact hands_pure ()
  | cons n ns ih => exact (hands_expression n).bind fun _ => ih

theorem hands_choices (ns : List Node) :
  S.Hands (Role.choice.each ns) (S.choices ns)
  := by
  induction ns with
  | nil => exact hands_pure ()
  | cons n ns ih => exact hands_unlessType (Or.inl rfl) fun _ => ih

/-! ### Checks -/

theorem hands_ite {c : Prop} [Decidable c] {check : Inquiry Unit} (h : S.Hands [] check) :
  S.Hands [] (if c then check else pure ())
  := by
  split
  · exact h
  · exact hands_pure ()

/-- A check that is made where a type is in the subset as far as decided. -/
theorem hands_given {type : EntityId} {check : Inquiry Unit} (h : check.IsPlain) :
  S.Hands [] (stands type >>= fun b => if b then check else pure ())
  := by
  have ha : (stands type).IsQuiet := fun _ => ⟨rfl, trivial⟩
  exact (hands_quiet ha).bind fun _ => hands_ite (hands_plain h)

theorem hands_component (site : Site) (component : EntityId) :
  S.Hands [] (S.restOnComponent site component)
  := by
  refine hands_lift fun e => ?_
  split
  · exact hands_restOn component site
  · exact hands_restOn component site
  · exact hands_pure ()

theorem hands_actuals (callee : EntityId) (formals : List EntityId) (actuals : List Node) :
  S.Hands [] (S.checkActuals callee formals actuals)
  := by
  unfold checkActuals
  induction formals.zip actuals with
  | nil => exact hands_pure ()
  | cons pair pairs ih =>
    refine Hands.bind (hands_lift fun facet => hands_given ?_) fun _ => ih
    simp only [every_bind, every_lift]
    intro a _
    cases a <;> simp

theorem hands_association (a : Association Node) :
  S.Hands [] (S.checkAssociation a)
  := by
  unfold checkAssociation
  split
  · exact hands_pure ()
  · exact hands_given (by simp)

/-! ### The rules of an expression, and its parts without them -/

theorem hands_associations (as : List (Association Node)) :
  S.Hands (Shape.aggregate as).operandParts (S.associations as)
  := by
  induction as with
  | nil => exact hands_pure ()
  | cons a as ih =>
    obtain ⟨cs, others, value⟩ := a
    have ha := (hands_association ⟨cs, others, value⟩).bind fun _ => ih
    have hv := (hands_expression value).bind fun _ => ha
    have h := (hands_choices cs).bind fun _ => hv
    simpa [Shape.operandParts, associations] using h

theorem hands_associationOperands (as : List (Association Node)) :
  S.Hands (Shape.aggregate as).operandParts (S.associationOperands as)
  := by
  induction as with
  | nil => exact hands_pure ()
  | cons a as ih =>
    obtain ⟨cs, others, value⟩ := a
    have hv := (hands_expression value).bind fun _ => ih
    have h := (hands_choices cs).bind fun _ => hv
    simpa [Shape.operandParts, associationOperands] using h

/-- Without the rules of an expression, its parts are handed on. -/
theorem hands_operands (s : Shape Node) :
  S.Hands s.operandParts (S.operands s)
  := by
  unfold operands
  cases s with
  | aggregate as => exact hands_associationOperands as
  | selected whole _ | dereference whole | conversion _ whole | qualified _ whole
  | unary _ whole => exact hands_expression whole
  | indexed whole indices =>
    exact (hands_expression whole).bind fun _ => hands_expressions indices
  | slice left right | binary _ left right | quantified _ left right _ | range left right =>
    exact (hands_expression left).bind fun _ => hands_expression right
  | call _ arguments => exact hands_expressions arguments
  | «attribute» whole _ arguments =>
    exact hands_unlessType (Or.inr rfl) fun _ => hands_expressions arguments
  | allocator _ initial =>
    cases initial with
    | none => exact hands_pure ()
    | some value => exact hands_expression value
  | conditional condition thenValue elseValue =>
    refine (hands_expression condition).bind fun _ => ?_
    exact (hands_expression thenValue).bind fun _ => hands_expression elseValue
  | membership operand cs => exact (hands_expression operand).bind fun _ => hands_choices cs
  | _ => exact hands_pure ()

/-- With the rules of an expression, the same parts are handed on as without them. -/
theorem exists_rules (n : Node) :
  ∃ rules, S.Hands n.shape.operandParts rules ∧ S.expression n = (do
    come .expression n
    if ← restOnType n.site n.type then rules else S.operands n.shape)
  := by
  obtain ⟨id, location, type, shape⟩ := n
  unfold expression
  refine ⟨_, ?_, rfl⟩
  dsimp only
  cases shape with
  | identifier entity => exact hands_restOn entity _
  | literal => exact hands_pure ()
  | aggregate as => exact hands_associations as
  | selected whole component =>
    exact (hands_expression whole).followed fun _ => hands_component _ component
  | indexed whole indices =>
    exact (hands_expression whole).bind fun _ => hands_expressions indices
  | dereference whole | unary _ whole => exact hands_expression whole
  | slice left right | range left right =>
    exact (hands_expression left).bind fun _ => hands_expression right
  | call callee arguments =>
    refine hands_ask fun admitted => hands_lift fun facet => ?_
    refine (hands_expressions arguments).followed fun _ => ?_
    exact hands_ite (hands_actuals callee facet.parameters arguments)
  | «attribute» whole name arguments =>
    refine hands_unlessType (Or.inr rfl) fun ofType => ?_
    exact (hands_plain (plain_attribute _ name ofType)).bind fun _ => hands_expressions arguments
  | conversion target operand =>
    refine hands_ask fun admitted => (hands_expression operand).followed fun _ => ?_
    exact hands_ite (hands_plain (S.plain_conversion _ target operand))
  | qualified target operand =>
    exact (hands_restOn target _).bind fun _ => hands_expression operand
  | binary operator left right =>
    refine (hands_expression left).bind fun _ => (hands_expression right).followed fun _ => ?_
    exact hands_plain (S.plain_binary _ operator left right)
  | allocator target initial =>
    refine hands_ask fun admitted => ?_
    cases initial with
    | none => exact hands_pure ()
    | some value =>
      refine (hands_expression value).followed fun _ => ?_
      exact hands_ite (hands_plain (S.plain_allocated target value))
  | conditional condition thenValue elseValue =>
    refine (hands_expression condition).bind fun _ => ?_
    exact (hands_expression thenValue).bind fun _ => hands_expression elseValue
  | quantified element domain predicate _ =>
    refine (hands_restOn element _).bind fun _ => ?_
    exact (hands_expression domain).bind fun _ => hands_expression predicate
  | membership operand cs => exact (hands_expression operand).bind fun _ => hands_choices cs
  | _ => exact hands_throw _

/-- The inquiry into an expression comes to the expression, and then hands on its parts, whether
its rules are applied or left out. -/
theorem handsOn_expression {n : Node} (l : (S.expression n).Leads path ()) :
  ∃ rest, path = .visit .expression n :: rest ∧ S.HandsOn rest n.shape.operandParts
    ∧ ∀ type, n.type = some type →
      ∃ admitted after, rest = .consult type n.site admitted :: after
        ∧ S.HandsOn after n.shape.operandParts
  := by
  obtain ⟨rules, hr, he⟩ := S.exists_rules n
  have either (admitted : Bool) :
      S.Hands n.shape.operandParts (if admitted then rules else S.operands n.shape) := by
    cases admitted with
    | true => exact hr
    | false => exact hands_operands n.shape
  rw [he] at l
  obtain ⟨rest, rfl, lr⟩ := leads_come l
  refine ⟨rest, rfl, ?_⟩
  cases hn : n.type with
  | none =>
    rw [hn] at lr
    exact ⟨either true rest () lr, nofun⟩
  | some type =>
    rw [hn] at lr
    obtain ⟨p, admitted, after, rfl, hp, hq⟩ := leads_bind_iff.1 lr
    obtain rfl := leads_ask hp
    have h := either admitted after () hq
    refine ⟨.own rfl h, ?_⟩
    rintro _ ⟨⟩
    exact ⟨admitted, after, rfl, h⟩

/-! ### Trees of expressions -/

/-- The inquiry into a part that is gone through as an expression comes to what the inquiry into
the expression comes to, unless the part is a name. -/
theorem sublist_of_leads_hand {role : Role} {n : Node} (hr : role ≠ .item)
    (l : (S.hand role n).Leads path ())
    (ih : ∀ p, (S.expression n).Leads p () → n.subtree.Sublist (p.filterMap Step.node?)) :
  n.subtree.Sublist (path.filterMap Step.node?)
  := by
  cases role with
  | expression => exact ih path l
  | item => exact absurd rfl hr
  | choice | whole =>
    obtain ⟨p, ofType, q, rfl, hp, hq⟩ := leads_bind_iff.1 l
    obtain ⟨p, rfl, ht⟩ := leads_come hp
    cases ofType with
    | false =>
      rw [List.filterMap_append]
      exact (ih q hq).trans (List.sublist_append_right _ _)
    | true =>
      -- Only identifiers name types, and no nodes are below them.
      have hn : n.descendants = [] := by
        unfold Node.descendants Node.children
        cases hs : n.shape with
        | identifier entity => rfl
        | _ =>
          rw [hs] at ht
          cases (leads_pure.1 ht).2
      rw [Node.subtree_eq, hn]
      exact (List.nil_sublist _).cons_cons n

/-- What is handed on is come to with all that is below it. -/
theorem HandsOn.sublist (h : S.HandsOn path parts) (hr : ∀ part ∈ parts, part.1 ≠ .item)
    (ih : ∀ m ∈ parts.map Prod.snd, ∀ p, (S.expression m).Leads p () →
      m.subtree.Sublist (p.filterMap Step.node?)) :
  (Node.forest (parts.map Prod.snd)).Sublist (path.filterMap Step.node?)
  := by
  induction h with
  | nil => exact List.nil_sublist _
  | @own s path parts hs _ iho =>
    have hn : s.node? = none := by cases s <;> first | rfl | cases hs
    rw [List.filterMap_cons_none hn]
    exact iho hr ih
  | part l _ ihp =>
    obtain ⟨hr, hrs⟩ := List.forall_mem_cons.1 hr
    obtain ⟨ih, ihs⟩ := List.forall_mem_cons.1 ih
    rw [List.map_cons, Node.forest_cons, List.filterMap_append]
    exact (sublist_of_leads_hand hr l ih).append (ihp hrs ihs)

/-- The inquiry into a tree of expressions comes to the whole tree, in pre-order. -/
theorem subtree_sublist {n : Node} (hn : n.IsExpression) (l : (S.expression n).Leads path ()) :
  n.subtree.Sublist (path.filterMap Step.node?)
  := by
  induction n using Node.induction generalizing path with
  | step n ih =>
    rw [Node.IsExpression, Node.subtree_eq, List.forall_mem_cons] at hn
    obtain ⟨hs, hbelow⟩ := hn
    have hc : n.shape.operandParts.map Prod.snd = n.children := Shape.operandParts_eq_children hs
    obtain ⟨rest, rfl, h, -⟩ := handsOn_expression l
    have hrest : n.descendants.Sublist (rest.filterMap Step.node?) := by
      rw [Node.descendants, ← hc]
      refine h.sublist (fun _ => Shape.role_ne_item) fun m hm p lm => ?_
      rw [hc] at hm
      exact ih m hm (fun k hk => hbelow k (List.mem_flatMap.2 ⟨m, hm, hk⟩)) lm
    rw [Node.subtree_eq]
    exact hrest.cons_cons n

/-- Where an expression has a static type, it first rests on the type.  Whether the type is in
the subset or excluded, the parts of the expression are handed on, each in its role and in the
same order; there are no other children.  So the inquiry into a tree of expressions comes to the
whole tree, in pre-order, whichever static types in it are excluded, and a run that carries the
inquiry out comes to everything below the expression. -/
theorem masking_keeps_parts (S : Setting) (n : Node) :
  (∀ type path, n.type = some type → (S.expression n).Leads path () →
      ∃ admitted after,
        path = .visit .expression n :: .consult type n.site admitted :: after
          ∧ ∀ parts, S.HandsOn after parts ↔ parts = n.shape.operandParts)
    ∧ (n.IsExpression →
      n.shape.operandParts.map Prod.snd = n.children
        ∧ (∀ path, (S.expression n).Leads path () →
          n.subtree.Sublist (path.filterMap Step.node?))
        ∧ ∀ scope r r', S.walk S.decide scope (S.expression n) r = .ok () r' →
          ∀ m ∈ n.descendants, ∃ role, .visited scope.matter role m ∈ r'.journal)
  := by
  constructor
  · intro type path hn l
    obtain ⟨rest, rfl, -, ht⟩ := handsOn_expression l
    obtain ⟨admitted, after, rfl, h⟩ := ht type hn
    refine ⟨admitted, after, rfl, fun parts => ⟨fun h' => h'.unique h, ?_⟩⟩
    rintro rfl
    exact h
  · intro hn
    refine ⟨?_, fun _ => subtree_sublist hn, ?_⟩
    · exact Shape.operandParts_eq_children (hn n n.mem_subtree_self)
    · intro scope r r' h m hm
      obtain ⟨path, l, hp⟩ := passes_walk passes_decide h
      have hi : (S.expression n).StaysIn fun _ => True := (S.confined_expression n).staysIn
      have hm : m ∈ n.subtree := Node.subtree_eq n ▸ List.mem_cons_of_mem n hm
      obtain ⟨s, hs, hsm⟩ := List.mem_filterMap.1 ((subtree_sublist hn l).subset hm)
      cases s with
      | visit role k =>
        obtain rfl := Option.some.inj hsm
        exact ⟨role, (chronicles_of_passes hp (hi.announces l)).visited role k hs⟩
      | _ => cases hsm

/-- A type that is in the subset, and one that is not. -/
def maskingSample : Setting :=
  (ofParts?
    [{ name := "T", kind := .type { definition := .signed 0 9 } },
      { name := "U", kind := .type { definition := .decimalFixed 4 1 } }] []).get
    (by decide +kernel)

/-- A membership test of an excluded static type, with a choice that names a type and one that
does not. -/
def maskingSample.test : Node := ⟨0, {}, some "U", .membership one [named, one]⟩
where
  /-- A literal of a type that is in the subset. -/
  one : Node := ⟨1, {}, some "T", .literal (.integer 1)⟩
  /-- The name of a type. -/
  named : Node := ⟨2, {}, none, .identifier "T"⟩

theorem masking_keeps_parts_maskingSample :
  let n := maskingSample.test
  let i := maskingSample.expression n
  let r := ((maskingSample.walk maskingSample.decide {} i).after {}).2
  maskingSample.walk maskingSample.decide {} i {} = .ok () r
    ∧ "T" ∈ r.verdicts.admitted ∧ "U" ∉ r.verdicts.admitted
    ∧ n.IsExpression ∧ n.descendants.length = 3
    ∧ (∀ m ∈ n.descendants, ∃ role, .visited none role m ∈ r.journal)
    ∧ ∃ admitted after,
      i.Leads (.visit .expression n :: .consult "U" n.site admitted :: after) ()
        ∧ ∀ parts, maskingSample.HandsOn after parts ↔ parts = n.shape.operandParts
  := by
  intro n i r
  have h : maskingSample.walk maskingSample.decide {} i {} = .ok () r :=
    Act.eq_ok_of_after (by decide +kernel)
  have hbelow : n.descendants
      = [maskingSample.test.one, maskingSample.test.named, maskingSample.test.one] := by
    simp [n, maskingSample.test, maskingSample.test.one, maskingSample.test.named,
      Node.descendants, Node.subtree_eq, Node.children, Node.shape, Shape.children]
  have hn : n.IsExpression := by
    rw [Node.IsExpression, Node.subtree_eq, hbelow]
    decide
  obtain ⟨hparts, htree⟩ := masking_keeps_parts maskingSample n
  obtain ⟨-, -, hv⟩ := htree hn
  obtain ⟨path, l, -⟩ := passes_walk passes_decide h
  obtain ⟨admitted, after, rfl, hafter⟩ := hparts "U" path rfl l
  have hlen : n.descendants.length = 3 := by rw [hbelow, List.length_cons]; rfl
  exact ⟨h, by decide +kernel, by decide +kernel, hn, hlen, hv {} {} r h, admitted, after, l,
    hafter⟩

end Setting

end Conformance
