import Conformance.Proofs.Layer
import Mathlib.Data.List.Basic

/-!
# Spines of paths

A spine is one way through a path, from the outside to the object or null at its end.  A
conditional expression has the spines of both its values.  What is asked about an expression
that may be a path only depends on what its spines refer to; it is answered if the expression
is `Setting.FindsSpines`.
-/

namespace Conformance

/-- A way through an expression. -/
structure Spine where
  /-- The nodes that it goes through, the outermost first. -/
  crossed : List Node
  /-- The node where it ends. -/
  leaf : Node

/-- A spine that goes through one more node on the outside. -/
def Spine.through (n : Node) (s : Spine) : Spine := ⟨n :: s.crossed, s.leaf⟩

namespace Node

/-- Whether a node is a slice. -/
def isSlice (n : Node) : Bool :=
  match n.shape with
  | .slice .. => true
  | _ => false

/-- The spines of an expression: they follow what is selected, indexed, sliced, dereferenced
and converted, the first argument of a call, and both values of a conditional expression. -/
def spines : Node → List Spine
  | ⟨id, location, type, shape⟩ =>
    match shape with
    | .selected whole _ => (spines whole).map (.through ⟨id, location, type, shape⟩)
    | .indexed whole _ => (spines whole).map (.through ⟨id, location, type, shape⟩)
    | .slice whole _ => (spines whole).map (.through ⟨id, location, type, shape⟩)
    | .dereference pointer => (spines pointer).map (.through ⟨id, location, type, shape⟩)
    | .conversion _ operand => (spines operand).map (.through ⟨id, location, type, shape⟩)
    | .qualified _ operand => (spines operand).map (.through ⟨id, location, type, shape⟩)
    | .call _ arguments =>
      match arguments with
      | first :: _ => (spines first).map (.through ⟨id, location, type, shape⟩)
      | [] => [⟨[], ⟨id, location, type, shape⟩⟩]
    | .conditional _ thenValue elseValue =>
      (spines thenValue ++ spines elseValue).map (.through ⟨id, location, type, shape⟩)
    | _ => [⟨[], ⟨id, location, type, shape⟩⟩]

theorem spines_ne_nil (n : Node) :
  n.spines ≠ []
  := by fun_induction spines n <;> simp_all

end Node

namespace Answer

theorem exists_bind {α β : Type} {x : Answer α} {f : α → Answer β}
    (hx : ∃ a, x = .ok a) (hf : ∀ a, x = .ok a → ∃ b, f a = .ok b) :
  ∃ b, x >>= f = .ok b
  := by
  obtain ⟨a, ha⟩ := hx
  obtain ⟨b, hb⟩ := hf a ha
  exact ⟨b, Answer.bind_eq_ok.2 ⟨a, ha, hb⟩⟩

/-- A question whose answer decides which other question is asked. -/
theorem exists_ite {x y z : Answer Bool} (hx : ∃ a, x = .ok a)
    (hy : x = .ok true → ∃ a, y = .ok a) (hz : ∃ a, z = .ok a) :
  ∃ b, (do if ← x then y else z) = .ok b
  := by
  refine exists_bind hx fun a ha => ?_
  cases a with
  | true => exact hy ha
  | false => exact hz

instance decidableExists {α : Type} (x : Answer α) : Decidable (∃ a, x = .ok a) :=
  match x with
  | .ok a => .isTrue ⟨a, rfl⟩
  | .error _ => .isFalse (by simp)

instance decidableExistsAnd {α : Type} (x : Answer α) (P : α → Prop) [DecidablePred P] :
    Decidable (∃ a, x = .ok a ∧ P a) :=
  match x with
  | .ok a => decidable_of_iff (P a) (by simp)
  | .error _ => .isFalse (by simp)

end Answer

/-- The facets of a subprogram. -/
def EntityKind.subprogram? : EntityKind → Option SubprogramFacet
  | .subprogram facet => some facet
  | _ => none

theorem EntityKind.subprogram_eq_some {kind : EntityKind} {facet : SubprogramFacet} :
  kind.subprogram? = some facet ↔ kind = .subprogram facet
  := by cases kind <;> simp [subprogram?]

namespace Setting

variable (S : Setting)

/-! ### Lookups -/

/-- The chain from a type to its core is found. -/
def HasCore (type : EntityId) : Prop := ∃ core, S.core type = .ok core

/-- An entity is found, and the core of its declared type. -/
def IsTyped (id : EntityId) : Prop :=
  ∃ e, S.program.entity id = .ok e ∧ ∀ type ∈ e.declaredType?, S.HasCore type

/-- An entity is found and, if it is a subprogram, the types that make it a traversal
function. -/
def IsCallable (callee : EntityId) : Prop :=
  ∃ e, S.program.entity callee = .ok e ∧ ∀ facet ∈ e.kind.subprogram?,
    (∀ result ∈ facet.result, S.HasCore result)
      ∧ ∀ parameter ∈ facet.parameters.head?, S.IsTyped parameter

/-- The entities that a node of a path refers to are found. -/
def Finds (n : Node) : Prop :=
  match n.shape with
  | .identifier id => S.IsTyped id
  | .dereference pointer => ∀ type ∈ pointer.type, S.HasCore type
  | .call callee _ => S.IsCallable callee
  | _ => True

/-- All lookups on the spines of an expression succeed. -/
def FindsSpines (n : Node) : Prop :=
  ∀ s ∈ n.spines, (∀ c ∈ s.crossed, S.Finds c) ∧ S.Finds s.leaf

instance (type : EntityId) : Decidable (S.HasCore type) :=
  inferInstanceAs (Decidable (∃ _, _))

instance (id : EntityId) : Decidable (S.IsTyped id) :=
  inferInstanceAs (Decidable (∃ _, _ ∧ _))

instance (callee : EntityId) : Decidable (S.IsCallable callee) :=
  inferInstanceAs (Decidable (∃ _, _ ∧ _))

instance (n : Node) : Decidable (S.Finds n) := by
  unfold Finds
  split <;> infer_instance

instance (n : Node) : Decidable (S.FindsSpines n) := List.decidableBAll _ _

variable {S}

/-! ### Lookups that succeed -/

theorem HasCore.definition {type : EntityId} (h : S.HasCore type) :
  ∃ d, S.definition type = .ok d
  := Answer.exists_bind h fun _ _ => ⟨_, rfl⟩

theorem HasCore.access {type : EntityId} (h : S.HasCore type) :
  ∃ a, S.access? type = .ok a
  := by
  refine Answer.exists_bind h.definition fun d _ => ?_
  split <;> exact ⟨_, rfl⟩

/-- What has a core is a type. -/
theorem HasCore.facet {type : EntityId} (h : S.HasCore type) :
  ∃ facet, S.program.typeFacet type = .ok facet
  := by
  obtain ⟨core, h⟩ := h
  obtain ⟨e, he, h⟩ := Answer.bind_eq_ok.1 h
  simp only [Program.typeFacet_eq_ok, he]
  rw [coreFrom] at h
  split at h
  · next facet hk => exact ⟨facet, e, rfl, hk⟩
  · simp at h

theorem HasCore.isVolatileType {type : EntityId} (h : S.HasCore type) :
  ∃ b, S.isVolatileType type = .ok b
  := by
  refine Answer.exists_bind h.facet fun facet _ => ?_
  split
  · exact ⟨true, rfl⟩
  · exact Answer.exists_bind h fun _ _ => ⟨_, rfl⟩

theorem HasCore.isConcurrentType {type : EntityId} (h : S.HasCore type) :
  ∃ b, S.isConcurrentType type = .ok b
  := by
  obtain ⟨facet, hf⟩ := h.facet
  obtain ⟨e, he, -⟩ := Program.typeFacet_eq_ok.1 hf
  refine Answer.exists_bind ⟨e, he⟩ fun e _ => ?_
  split
  · exact Answer.exists_bind h.definition fun _ _ => ⟨_, rfl⟩
  · exact ⟨false, rfl⟩

theorem exists_accessKind {type : Option EntityId} (h : ∀ t ∈ type, S.HasCore t) :
  ∃ kind, S.accessKind? type = .ok kind
  := by
  cases type with
  | none => exact ⟨none, rfl⟩
  | some type => exact Answer.exists_bind (h type rfl).access fun _ _ => ⟨_, rfl⟩

theorem HasCore.isObjectAccess {type : EntityId} (h : S.HasCore type) :
  ∃ b, S.isObjectAccess type = .ok b
  := Answer.exists_bind h.access fun _ _ => ⟨_, rfl⟩

theorem HasCore.isAnonymousAccess {type : EntityId} (h : S.HasCore type) :
  ∃ b, S.isAnonymousAccess type = .ok b
  := Answer.exists_bind h.access fun _ _ => ⟨_, rfl⟩

theorem IsTyped.isObject {id : EntityId} (h : S.IsTyped id) :
  ∃ b, S.isObject id = .ok b
  := by
  obtain ⟨e, he, -⟩ := h
  refine Answer.exists_bind ⟨e, he⟩ fun e _ => ?_
  split <;> exact ⟨_, rfl⟩

theorem exists_firstParameterType {facet : SubprogramFacet}
    (h : ∀ parameter ∈ facet.parameters.head?, S.IsTyped parameter) :
  ∃ type?, S.firstParameterType? facet = .ok type? ∧ ∀ type ∈ type?, S.HasCore type
  := by
  unfold firstParameterType?
  split
  · next first _ hp =>
    obtain ⟨e, he, htype⟩ := h first (by rw [hp]; rfl)
    exact ⟨e.declaredType?, Answer.bind_eq_ok.2 ⟨e, he, rfl⟩, htype⟩
  · exact ⟨none, rfl, nofun⟩

theorem exists_isTraversal {facet : SubprogramFacet}
    (hr : ∀ result ∈ facet.result, S.HasCore result)
    (hp : ∀ parameter ∈ facet.parameters.head?, S.IsTyped parameter) :
  ∃ b, S.isTraversal facet = .ok b
  := by
  unfold isTraversal
  split
  · next result _ hresult =>
    refine Answer.exists_ite (hr result hresult).isAnonymousAccess (fun _ => ?_) ⟨false, rfl⟩
    obtain ⟨type?, ht, htype⟩ := exists_firstParameterType hp
    refine Answer.exists_bind ⟨type?, ht⟩ fun type?' ht' => ?_
    obtain rfl := Except.ok.inj (ht.symm.trans ht')
    cases type? with
    | none => exact ⟨false, rfl⟩
    | some type => exact (htype type rfl).isObjectAccess
  · exact ⟨false, rfl⟩

theorem IsCallable.callsTraversal {callee : EntityId} (h : S.IsCallable callee) :
  ∃ b, S.callsTraversal callee = .ok b
  := by
  obtain ⟨e, he, h⟩ := h
  refine Answer.exists_bind ⟨e, he⟩ fun e' he' => ?_
  obtain rfl := Except.ok.inj (he.symm.trans he')
  split
  · next facet hk =>
    obtain ⟨hr, hp⟩ := h facet (EntityKind.subprogram_eq_some.2 hk)
    exact exists_isTraversal hr hp
  · exact ⟨false, rfl⟩

/-! ### One more node on the outside -/

section

variable {n : Node} {spines : List Spine} {P : Node → Prop}

/-- A property of all that lies on the spines, where these go through one more node. -/
theorem forall_through (h : spines ≠ []) :
  (∀ s ∈ spines.map (Spine.through n), (∀ c ∈ s.crossed, P c) ∧ P s.leaf)
    ↔ P n ∧ ∀ s ∈ spines, (∀ c ∈ s.crossed, P c) ∧ P s.leaf
  := by
  obtain ⟨s₀, hs₀⟩ := List.exists_mem_of_ne_nil spines h
  simp only [List.forall_mem_map, Spine.through, List.forall_mem_cons]
  constructor
  · exact fun h => ⟨(h s₀ hs₀).1.1, fun s hs => ⟨(h s hs).1.2, (h s hs).2⟩⟩
  · exact fun h s hs => ⟨⟨h.1, (h.2 s hs).1⟩, (h.2 s hs).2⟩

/-- A property of some node on some spine, where the spines go through one more node. -/
theorem exists_crossed_through (h : spines ≠ []) :
  (∃ s ∈ spines.map (Spine.through n), ∃ c ∈ s.crossed, P c)
    ↔ P n ∨ ∃ s ∈ spines, ∃ c ∈ s.crossed, P c
  := by
  obtain ⟨s₀, hs₀⟩ := List.exists_mem_of_ne_nil spines h
  simp only [List.mem_map, exists_exists_and_eq_and, Spine.through, List.exists_mem_cons_iff]
  constructor
  · rintro ⟨s, hs, hn | hc⟩
    · exact Or.inl hn
    · exact Or.inr ⟨s, hs, hc⟩
  · rintro (hn | ⟨s, hs, hc⟩)
    · exact ⟨s₀, hs₀, Or.inl hn⟩
    · exact ⟨s, hs, Or.inr hc⟩

/-- A property of some node on each spine, where the spines go through one more node. -/
theorem forall_crossed_through :
  (∀ s ∈ spines.map (Spine.through n), ∃ c ∈ s.crossed, P c)
    ↔ P n ∨ ∀ s ∈ spines, ∃ c ∈ s.crossed, P c
  := by
  simp only [List.forall_mem_map, Spine.through, List.exists_mem_cons_iff]
  by_cases hn : P n <;> simp [hn]

end

theorem spines_around (l : S.Layer) (n : Node) :
  (l.around n).spines = n.spines.map (Spine.through (l.around n))
  := by
  obtain ⟨id, location, type, gap⟩ := l
  cases gap <;> rfl

theorem findsSpines_through {n m : Node} (h : n.spines = m.spines.map (Spine.through n)) :
  S.FindsSpines n ↔ S.Finds n ∧ S.FindsSpines m
  := by
  rw [FindsSpines, h]
  exact forall_through m.spines_ne_nil

section

variable {id : NodeId} {location : Location} {type : Option EntityId}
  {condition thenValue elseValue : Node}

theorem findsSpines_conditional :
  S.FindsSpines ⟨id, location, type, .conditional condition thenValue elseValue⟩
    ↔ S.FindsSpines thenValue ∧ S.FindsSpines elseValue
  := by
  rw [FindsSpines, Node.spines, forall_through (by simp [thenValue.spines_ne_nil])]
  exact (and_iff_right trivial).trans List.forall_mem_append

theorem isCallable_of_findsSpines {callee : EntityId} {arguments : List Node}
    (h : S.FindsSpines ⟨id, location, type, .call callee arguments⟩) :
  S.IsCallable callee
  := by
  cases arguments with
  | nil => exact (h ⟨[], _⟩ (List.mem_singleton_self _)).2
  | cons first => exact ((findsSpines_through (m := first) rfl).1 h).1

end

/-! ### Questions about expressions -/

variable {n : Node}

theorem exists_isPath (h : S.FindsSpines n) :
  ∃ b, S.isPath n = .ok b
  := by
  fun_induction S.isPath n with
  | case1 id location type entity =>
    exact IsTyped.isObject (h ⟨[], _⟩ (List.mem_singleton_self _)).2
  | case2 _ _ _ _ _ ih | case3 _ _ _ _ _ ih | case4 _ _ _ _ _ ih | case5 _ _ _ _ ih
  | case6 _ _ _ _ _ ih | case7 _ _ _ _ _ ih => exact ih ((findsSpines_through rfl).1 h).2
  | case8 _ _ _ _ arguments ih =>
    refine Answer.exists_ite (isCallable_of_findsSpines h).callsTraversal (fun _ => ?_) ⟨false, rfl⟩
    cases arguments with
    | nil => exact ⟨false, rfl⟩
    | cons => exact ih ((findsSpines_through rfl).1 h).2
  | case9 _ _ _ _ _ _ iha ihb =>
    obtain ⟨ha, hb⟩ := findsSpines_conditional.1 h
    exact Answer.exists_ite (iha ha) (fun _ => ihb hb) ⟨false, rfl⟩
  | case10 => exact ⟨true, rfl⟩
  | case11 => exact ⟨false, rfl⟩

theorem exists_denotesObject (h : S.FindsSpines n) :
  ∃ b, S.denotesObject n = .ok b
  := by
  fun_induction S.denotesObject n with
  | case1 _ _ _ _ _ ih | case2 _ _ _ _ _ ih => exact ih ((findsSpines_through rfl).1 h).2
  | case3 id location type entity =>
    exact IsTyped.isObject (h ⟨[], _⟩ (List.mem_singleton_self _)).2
  | case8 => exact (isCallable_of_findsSpines h).callsTraversal
  | case9 _ _ _ _ _ _ iha ihb =>
    obtain ⟨ha, hb⟩ := findsSpines_conditional.1 h
    exact Answer.exists_ite (iha ha) (fun _ => ⟨true, rfl⟩) (ihb hb)
  | case10 => exact ⟨false, rfl⟩
  | _ => exact ⟨true, rfl⟩

end Setting

end Conformance
