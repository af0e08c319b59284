import Conformance.Proofs.Stored
import Conformance.Vocabulary.Pragma

/-!
# What inquiries come to

`Node.parts` are the parts of a node that an inquiry which comes to the node has to go
through.  A path is thorough if it comes to all parts of whatever it comes to, and if what is
stored there fits.  `Covers` says of an inquiry that its favourable consistent paths are
thorough and come to some given nodes.  There is one lemma for each way of putting inquiries
together; those about trees follow the recursion of the legality rules.
-/

namespace Conformance

/-- Nodes that are come to in one role. -/
def Role.each (role : Role) (ns : List Node) : List (Role × Node) := ns.map fun n => (role, n)

/-- What an argument of an assertion asserts, unless it is the name of a check or a
message. -/
def PragmaArgument.condition? (a : PragmaArgument Node) : Option Node :=
  match a.value.shape with
  | .word _ | .literal (.string _) => none
  | _ => some a.value

/-- The conditions of a pragma that asserts some. -/
def pragmaParts (name : String) (arguments : List (PragmaArgument Node)) :
    List (Role × Node) :=
  match PragmaClass.ofName name with
  | .assertion => Role.expression.each (arguments.filterMap PragmaArgument.condition?)
  | _ => []

namespace Shape

/-- The parts of an expression. -/
def operandParts : Shape Node → List (Role × Node)
  | .aggregate as => as.flatMap fun a => Role.choice.each a.choices ++ [(.expression, a.value)]
  | .selected whole _ | .dereference whole | .conversion _ whole | .qualified _ whole
  | .unary _ whole => [(.expression, whole)]
  | .indexed whole indices => (.expression, whole) :: Role.expression.each indices
  | .slice left right | .binary _ left right | .quantified _ left right _
  | .range left right => [(.expression, left), (.expression, right)]
  | .call _ arguments => Role.expression.each arguments
  | .attribute whole _ arguments => (.whole, whole) :: Role.expression.each arguments
  | .allocator _ initial => Role.expression.each initial.toList
  | .conditional condition thenValue elseValue =>
    [(.expression, condition), (.expression, thenValue), (.expression, elseValue)]
  | .membership operand cs => (.expression, operand) :: Role.choice.each cs
  | _ => []

/-- The parts of a declaration or a statement that belong to the same matter. -/
def itemParts : Shape Node → List (Role × Node)
  | .assignment target value => [(.expression, target), (.expression, value)]
  | .procedureCall _ arguments => Role.expression.each arguments
  | .return value => Role.expression.each value.toList
  | .ifElse bs otherwise =>
    (bs.flatMap fun b => (.expression, b.condition) :: Role.item.each b.body)
      ++ Role.item.each otherwise
  | .case selector bs =>
    (.expression, selector)
      :: bs.flatMap fun b => Role.expression.each b.choices ++ Role.item.each b.body
  | .loop scheme statements => Role.expression.each scheme.children ++ Role.item.each statements
  | .block declarations statements => Role.item.each declarations ++ Role.item.each statements
  | .exit condition => Role.expression.each condition.toList
  | .delay value => [(.expression, value)]
  | .pragma name arguments => pragmaParts name arguments
  | _ => []

end Shape

/-- The parts of a node that is come to in a role.  Where it may name a type, it is come to
again as an expression unless it is a name. -/
def Node.parts (role : Role) (n : Node) : List (Role × Node) :=
  match role with
  | .expression => n.shape.operandParts
  | .item => n.shape.itemParts
  | .choice | .whole =>
    match n.shape with
    | .identifier _ => []
    | _ => [(.expression, n)]

/-- A node is a part of another one, each in its role. -/
def Node.IsPart (whole part : Role × Node) : Prop := part ∈ whole.2.parts whole.1

/-- A path comes to nodes. -/
def ComesTo (parts : List (Role × Node)) (path : List Step) : Prop :=
  ∀ part ∈ parts, .visit part.1 part.2 ∈ path

/-- Whether a step comes to a node. -/
def Step.isVisit : Step → Bool
  | .visit .. => true
  | _ => false

/-- An inquiry comes to no node. -/
abbrev Inquiry.IsQuiet {α : Type} (i : Inquiry α) : Prop :=
  i.Every (fun s => s.isVisit = false) fun _ => True

theorem ComesTo.mono {parts : List (Role × Node)} {p q : List Step} (h : ComesTo parts p)
    (hs : p ⊆ q) :
  ComesTo parts q
  := fun part hp => hs (h part hp)

theorem ComesTo.append {parts parts' : List (Role × Node)} {p q : List Step}
    (h : ComesTo parts p) (h' : ComesTo parts' q) :
  ComesTo (parts ++ parts') (p ++ q)
  := by
  intro part hp
  obtain hp | hp := List.mem_append.1 hp
  · exact List.mem_append_left q (h part hp)
  · exact List.mem_append_right p (h' part hp)

namespace Setting

open Inquiry

variable (S : Setting)

/-- A path comes to all parts of what it comes to, and what is stored there fits. -/
def Thorough (path : List Step) : Prop :=
  ∀ role n, .visit role n ∈ path → S.StoresFit role n ∧ ComesTo (n.parts role) path

/-- The favourable consistent paths of an inquiry are thorough and come to the given nodes. -/
def Covers {α : Type} (parts : List (Role × Node)) (i : Inquiry α) : Prop :=
  ∀ path a, i.Favours path a → Consistent path → ComesTo parts path ∧ S.Thorough path

variable {S}
variable {α β : Type} {parts parts' : List (Role × Node)} {i : Inquiry α} {p q : List Step}

theorem Thorough.append (h : S.Thorough p) (h' : S.Thorough q) :
  S.Thorough (p ++ q)
  := by
  intro role n hv
  obtain hv | hv := List.mem_append.1 hv
  · obtain ⟨hf, hc⟩ := h role n hv
    exact ⟨hf, hc.mono (List.subset_append_left p q)⟩
  · obtain ⟨hf, hc⟩ := h' role n hv
    exact ⟨hf, hc.mono (List.subset_append_right p q)⟩

theorem Thorough.visit {role : Role} {n : Node} (h : S.Thorough p) (hf : S.StoresFit role n)
    (hc : ComesTo (n.parts role) p) :
  S.Thorough (.visit role n :: p)
  := by
  have hs := List.subset_cons_self (.visit role n) p
  intro role' n' hv
  obtain hv | hv := List.mem_cons.1 hv
  · obtain ⟨rfl, rfl⟩ := Step.visit.inj hv
    exact ⟨hf, hc.mono hs⟩
  · obtain ⟨hf', hc'⟩ := h role' n' hv
    exact ⟨hf', hc'.mono hs⟩

/-! ### Putting inquiries together -/

theorem Covers.bind {f : α → Inquiry β} (h : S.Covers parts i)
    (h' : ∀ a, S.Covers parts' (f a)) :
  S.Covers (parts ++ parts') (i >>= f)
  := by
  intro path b hp hc
  obtain ⟨p, a, q, rfl, hp, hq⟩ := favours_bind_iff.1 hp
  obtain ⟨hcomes, hthorough⟩ := h p a hp hc.left
  obtain ⟨hcomes', hthorough'⟩ := h' a q b hq hc.right
  exact ⟨hcomes.append hcomes', hthorough.append hthorough'⟩

theorem Covers.append {j : Inquiry β} (h : S.Covers parts i) (h' : S.Covers parts' j) :
  S.Covers (parts ++ parts') (do let _ ← i; j)
  := h.bind fun _ => h'

/-- Nodes that are come to may be left out. -/
theorem Covers.mono (h : S.Covers parts i) (hs : parts' ⊆ parts) :
  S.Covers parts' i
  := by
  intro path a hp hc
  obtain ⟨hcomes, hthorough⟩ := h path a hp hc
  exact ⟨fun part hpart => hcomes part (hs hpart), hthorough⟩

/-- An inquiry all of whose steps have a property that coming to a node has not. -/
theorem covers_of_every {P : Step → Prop} (h : i.Every P fun _ => True)
    (hP : ∀ role n, ¬ P (.visit role n)) :
  S.Covers [] i
  := by
  intro path a hp _
  refine ⟨by simp [ComesTo], fun role n hv => ?_⟩
  exact absurd ((h.of_leads hp.leads).1 _ hv) (hP role n)

theorem covers_quiet (h : i.IsQuiet) :
  S.Covers [] i
  := covers_of_every h fun _ _ => nofun

theorem covers_plain (h : i.IsPlain) :
  S.Covers [] i
  := covers_of_every h fun _ _ => nofun

theorem Covers.thorough (h : S.Covers [] i) {path : List Step} {a : α}
    (hp : i.Favours path a) (hc : Consistent path) :
  S.Thorough path
  := (h path a hp hc).2

theorem covers_pure (a : α) :
  S.Covers [] (pure a : Inquiry α)
  := covers_quiet trivial

theorem covers_fail (fault : Fault) :
  S.Covers parts (throw fault : Inquiry α)
  := fun _ _ hp _ => (favours_throw.1 hp).elim

/-- An inquiry that is followed by one that comes to nothing. -/
theorem Covers.followed {j : Inquiry β} (h : S.Covers parts i) (h' : S.Covers [] j) :
  S.Covers parts (do let _ ← i; j)
  := (h.append h').mono (by simp)

theorem covers_lift {x : Answer α} {f : α → Inquiry β} (h : ∀ a, S.Covers parts (f a)) :
  S.Covers parts (liftM x >>= f)
  := (covers_plain (by simp)).bind h

/-- An inquiry that is preceded by another one under a condition. -/
theorem covers_after {c : Prop} [Decidable c] {i : Inquiry Unit} {f : Unit → Inquiry β}
    (h : S.Covers [] i) (h' : S.Covers parts (f ())) :
  S.Covers parts (if c then i >>= f else f ())
  := by
  split
  · exact h.append h'
  · exact h'

theorem covers_restOn (id : EntityId) (site : Site) :
  S.Covers [] (restOn id site)
  := covers_quiet fun _ => ⟨rfl, trivial⟩

theorem covers_forM {γ : Type} {f : γ → Inquiry Unit} (parts : γ → List (Role × Node))
    (h : ∀ a, S.Covers (parts a) (f a)) (as : List γ) :
  S.Covers (as.flatMap parts) (as.forM f)
  := by
  induction as with
  | nil => exact covers_pure ()
  | cons a as ih => exact (h a).append ih

theorem covers_forM_nil {γ : Type} {f : γ → Inquiry Unit} (h : ∀ a, S.Covers [] (f a))
    (as : List γ) :
  S.Covers [] (as.forM f)
  := (covers_forM (fun _ => []) h as).mono (by simp)

theorem covers_restOnAll (ids : List EntityId) (site : Site) :
  S.Covers [] (restOnAll ids site)
  := covers_forM_nil (fun id => covers_restOn id site) ids

/-- A check that is made where a type is in the subset as far as decided. -/
theorem covers_given {type : EntityId} {check : Inquiry Unit} (h : check.IsPlain) :
  S.Covers [] (stands type >>= fun b => if b then check else pure ())
  := by
  have ha : S.Covers [] (stands type) := covers_quiet fun _ => ⟨rfl, trivial⟩
  apply ha.bind
  intro b
  cases b
  · exact covers_pure ()
  · exact covers_plain h

/-- On a favourable path, an entity that is consulted is in the subset. -/
theorem covers_ask {id : EntityId} {site : Site} {f : Bool → Inquiry β}
    (h : S.Covers parts (f true)) :
  S.Covers parts (ask id site >>= f)
  := by
  intro path b hp hc
  obtain ⟨p, a, q, rfl, hp, hq⟩ := favours_bind_iff.1 hp
  obtain ⟨rfl, -⟩ := favours_ask.1 hp
  obtain ⟨hcomes, hthorough⟩ := h q b hq hc.right
  have hquiet : (ask id site).IsQuiet := fun _ => ⟨rfl, trivial⟩
  obtain ⟨-, hthorough'⟩ := covers_quiet (S := S) hquiet p true hp hc.left
  exact ⟨hcomes.mono (List.subset_append_right p q), hthorough'.append hthorough⟩

/-- An inquiry that comes to a node covers it if it goes on to the parts of the node, and if
what is stored there fits. -/
theorem covers_visit {role : Role} {n : Node} {i : Inquiry Unit}
    (h : S.Covers (n.parts role) i)
    (hf : ∀ path, i.Favours path () → Consistent path → S.StoresFit role n) :
  S.Covers [(role, n)] (do come role n; i)
  := by
  rintro path ⟨⟩ hp hc
  obtain ⟨p, ⟨⟩, q, rfl, hp, hq⟩ := favours_bind_iff.1 hp
  obtain rfl := favours_come.1 hp
  obtain ⟨hcomes, hthorough⟩ := h q () hq hc.right
  exact ⟨by simp [ComesTo], hthorough.visit (hf q hq hc.right) hcomes⟩

/-- A node that stores no values. -/
theorem covers_come {role : Role} {n : Node} {i : Inquiry Unit} (hn : n.isStore role = false)
    (h : S.Covers (n.parts role) i) :
  S.Covers [(role, n)] (do come role n; i)
  := covers_visit h fun _ _ _ => storesFit_of_isStore hn

/-- An expression covers itself if it goes on to its parts once it rested on its type, and if
what is stored there fits. -/
theorem covers_storing {i j : Inquiry Unit} {n : Node} (h : S.Covers (n.parts .expression) i)
    (hf : ∀ path, i.Favours path () → Consistent path → S.StoresFit .expression n) :
  S.Covers [(.expression, n)] (do
    come .expression n
    if ← restOnType n.site n.type then i else j)
  := by
  cases n.type with
  | none => exact covers_visit h hf
  | some type =>
    apply covers_visit (covers_ask h)
    intro path hp hc
    obtain ⟨p, b, q, rfl, hp, hq⟩ := favours_bind_iff.1 hp
    obtain ⟨rfl, -⟩ := favours_ask.1 hp
    exact hf q hq hc.right

/-- An expression that stores no values. -/
theorem covers_rested {i j : Inquiry Unit} {n : Node} (hn : n.isStore .expression = false)
    (h : S.Covers (n.parts .expression) i) :
  S.Covers [(.expression, n)] (do
    come .expression n
    if ← restOnType n.site n.type then i else j)
  := covers_storing h fun _ _ _ => storesFit_of_isStore hn

/-! ### Names -/

theorem covers_component (site : Site) (component : EntityId) :
  S.Covers [] (S.restOnComponent site component)
  := by
  apply covers_lift
  intro e
  split
  · exact covers_restOn component site
  · exact covers_restOn component site
  · exact covers_pure ()

/-- Where a node may name a type, only names do. -/
theorem favours_namedType {role : Role} {n : Node} {ofType : Bool} {path : List Step}
    (hp : (S.restOnNamedType role n).Favours path ofType) (hc : Consistent path) :
  ∃ q, path = .visit role n :: q ∧ S.Thorough q
    ∧ (ofType = true → ∃ entity, n.shape = .identifier entity)
  := by
  obtain ⟨p, ⟨⟩, q, rfl, hp, hq⟩ := favours_bind_iff.1 hp
  obtain rfl := favours_come.1 hp
  refine ⟨q, rfl, ?_⟩
  split at hq
  · next entity hs =>
    refine ⟨(Covers.thorough ?_ hq hc.right), fun _ => ⟨entity, hs⟩⟩
    apply covers_lift
    intro e
    split
    · exact (covers_restOn entity n.site).append (covers_pure true)
    · exact covers_pure false
  · obtain ⟨rfl, rfl⟩ := favours_pure.1 hq
    simp [Thorough]

theorem parts_subset_of_name {role : Role} (hr : role = .choice ∨ role = .whole) (n : Node) :
  n.parts role ⊆ [(.expression, n)]
  := by
  obtain ⟨id, location, type, shape⟩ := n
  obtain rfl | rfl := hr
  · cases shape <;> simp [Node.parts, Node.shape]
  · cases shape <;> simp [Node.parts, Node.shape]

/-- A part that is gone through as an expression unless it names a type. -/
theorem covers_unlessType {role : Role} {n : Node} {f : Bool → Inquiry Unit}
    (hr : role = .choice ∨ role = .whole) (h : S.Covers [(.expression, n)] (S.expression n))
    (h' : ∀ b, S.Covers parts (f b)) :
  S.Covers ((role, n) :: parts) (do
    let ofType ← S.restOnNamedType role n
    if !ofType then S.expression n
    f ofType)
  := by
  rintro path ⟨⟩ hp hc
  obtain ⟨p, ofType, q, rfl, hp, hq⟩ := favours_bind_iff.1 hp
  obtain ⟨p, rfl, hfirst, hname⟩ := favours_namedType hp hc.left
  have hrest : ComesTo (n.parts role) q ∧ ComesTo parts q ∧ S.Thorough q := by
    cases ofType with
    | true =>
      obtain ⟨entity, hs⟩ := hname rfl
      obtain ⟨hcomes, hthorough⟩ := h' true q () hq hc.right
      refine ⟨?_, hcomes, hthorough⟩
      obtain rfl | rfl := hr <;> simp [ComesTo, Node.parts, hs]
    | false =>
      obtain ⟨hcomes, hthorough⟩ := (h.append (h' false)) q () hq hc.right
      obtain ⟨hexpression, hparts⟩ := List.forall_mem_append.1 hcomes
      refine ⟨fun part hpart => hexpression part ?_, hparts, hthorough⟩
      exact parts_subset_of_name hr n hpart
  obtain ⟨hn, hcomes, hthorough⟩ := hrest
  have hf : S.StoresFit role n := by
    apply storesFit_of_isStore
    obtain rfl | rfl := hr <;> rfl
  constructor
  · rintro part (_ | ⟨_, hpart⟩)
    · exact List.mem_cons_self
    · exact List.mem_append_right _ (hcomes part hpart)
  · exact (hfirst.append hthorough).visit hf (hn.mono (List.subset_append_right p q))

/-! ### Expressions -/

theorem covers_actual (callee id : EntityId) (actual : Node) :
  S.Covers [] (S.checkActual callee id actual)
  := by
  apply covers_lift
  intro facet
  apply covers_given
  simp only [every_bind, every_lift]
  intro a _
  cases a <;> simp

theorem covers_actuals (callee : EntityId) (formals : List EntityId) (actuals : List Node) :
  S.Covers [] (S.checkActuals callee formals actuals)
  := covers_forM_nil (fun (id, actual) => covers_actual callee id actual) _

theorem covers_association (a : Association Node) :
  S.Covers [] (S.checkAssociation a)
  := by
  unfold checkAssociation
  split
  · exact covers_pure ()
  · exact covers_given (by simp)

theorem covers_call {site : Site} {callee : EntityId} {arguments : List Node}
    (h : S.Covers (Role.expression.each arguments) (S.expressions arguments)) :
  S.Covers (Role.expression.each arguments) (S.callStatement site callee arguments)
  := by
  apply covers_ask
  apply covers_lift
  intro facet
  exact h.followed (covers_actuals callee facet.parameters arguments)

mutual

theorem covers_expression : (n : Node) → S.Covers [(.expression, n)] (S.expression n)
  | ⟨id, location, type, shape⟩ => by
    match shape with
    | .identifier entity =>
      rw [expression]
      exact covers_rested rfl (covers_restOn entity _)
    | .word text =>
      rw [expression]
      exact covers_rested rfl (covers_fail _)
    | .literal value =>
      rw [expression]
      exact covers_rested rfl (covers_pure ())
    -- Among expressions, only aggregates and initialised allocators store what they hold.
    | .aggregate as =>
      rw [expression]
      exact covers_storing (covers_associations as) fun _ hp hc =>
        storesFit_aggregate (fits_of_associations hp hc)
    | .selected whole component =>
      rw [expression]
      apply covers_rested rfl
      exact (covers_expression whole).followed (covers_component _ component)
    | .indexed whole indices =>
      rw [expression]
      apply covers_rested rfl
      exact (covers_expression whole).append (covers_expressions indices)
    | .slice whole bounds =>
      rw [expression]
      apply covers_rested rfl
      exact (covers_expression whole).append (covers_expression bounds)
    | .dereference pointer =>
      rw [expression]
      exact covers_rested rfl (covers_expression pointer)
    | .call callee arguments =>
      rw [expression]
      exact covers_rested rfl (covers_call (covers_expressions arguments))
    | .attribute whole name arguments =>
      rw [expression]
      apply covers_rested rfl
      apply covers_unlessType (Or.inr rfl) (covers_expression whole)
      intro ofType
      exact (covers_plain (plain_attribute _ name ofType)).append (covers_expressions arguments)
    | .conversion target operand =>
      rw [expression]
      apply covers_rested rfl
      apply covers_ask
      apply (covers_expression operand).followed
      exact covers_plain (S.plain_conversion _ target operand)
    | .qualified target operand =>
      rw [expression]
      apply covers_rested rfl
      exact (covers_restOn target _).append (covers_expression operand)
    | .binary operator left right =>
      rw [expression]
      apply covers_rested rfl
      apply (covers_expression left).append
      exact (covers_expression right).followed (covers_plain (S.plain_binary _ operator left right))
    | .unary operator operand =>
      rw [expression]
      exact covers_rested rfl (covers_expression operand)
    | .allocator target none =>
      rw [expression]
      exact covers_rested rfl (covers_ask (covers_pure ()))
    | .allocator target (some value) =>
      rw [expression]
      refine covers_storing ?_ fun _ hp _ => storesFit_allocator (fits_of_allocator hp)
      apply covers_ask
      exact (covers_expression value).followed (covers_plain (S.plain_allocated target value))
    | .conditional condition thenValue elseValue =>
      rw [expression]
      apply covers_rested rfl
      exact (covers_expression condition).append
        ((covers_expression thenValue).append (covers_expression elseValue))
    | .quantified element domain predicate existential =>
      rw [expression]
      apply covers_rested rfl
      exact (covers_restOn element _).append
        ((covers_expression domain).append (covers_expression predicate))
    | .range low high =>
      rw [expression]
      apply covers_rested rfl
      exact (covers_expression low).append (covers_expression high)
    | .membership operand cs =>
      rw [expression]
      apply covers_rested rfl
      exact (covers_expression operand).append (covers_choices cs)
    | .assignment .. | .procedureCall .. | .return _ | .ifElse .. | .case .. | .loop ..
    | .block .. | .exit _ | .goto _ | .raise _ | .delay _ | .abort | .machineCode | .nothing
    | .pragma .. | .declaration .. | .package .. | .body .. | .protectedBody ..
    | .compilationUnit .. | .withClause _ | .useClause =>
      simp only [expression]
      exact covers_rested rfl (covers_fail _)

theorem covers_expressions :
    (ns : List Node) → S.Covers (Role.expression.each ns) (S.expressions ns)
  | [] => by
    rw [expressions]
    exact covers_pure ()
  | n :: ns => by
    rw [expressions]
    exact (covers_expression n).append (covers_expressions ns)

theorem covers_choices : (ns : List Node) → S.Covers (Role.choice.each ns) (S.choices ns)
  | [] => by
    rw [choices]
    exact covers_pure ()
  | n :: ns => by
    rw [choices]
    exact covers_unlessType (Or.inl rfl) (covers_expression n) fun _ => covers_choices ns

theorem covers_associations :
    (as : List (Association Node)) →
      S.Covers (Shape.aggregate as).operandParts (S.associations as)
  | [] => by
    rw [associations]
    exact covers_pure ()
  | ⟨cs, others, value⟩ :: as => by
    rw [associations]
    have ha := (covers_association ⟨cs, others, value⟩).append (covers_associations as)
    apply ((covers_choices cs).append ((covers_expression value).append ha)).mono
    simp [Shape.operandParts]

end

end Setting

end Conformance
