import Conformance.Proofs.Foundation
import Conformance.Proofs.Spine

/-!
# What summaries of paths say

The summary of a path is computed in one walk that merges the values of conditional
expressions.  `Setting.Summarizes` says how it follows from what lies on the spines of the
path.
-/

namespace Conformance

namespace Entity

/-- Whether an entity is a volatile object. -/
def isVolatile (e : Entity) : Bool :=
  match e.kind with
  | .object facet => facet.volatile
  | _ => false

/-- What has no declared type is no object. -/
theorem isVolatile_eq_false {e : Entity} (h : e.declaredType? = none) :
  e.isVolatile = false
  := by
  unfold isVolatile
  split
  · next hk =>
    rw [declaredType?, hk] at h
    cases h
  · rfl

end Entity

namespace Setting

variable (S : Setting)

/-! ### What lies on a spine -/

/-- A type stands for an access type of the given kind. -/
def IsAccess (kind : AccessKind) (type : EntityId) : Prop :=
  ∃ a, S.access? type = .ok (some a) ∧ a.kind = kind

/-- A node dereferences a value of an access type of the given kind. -/
def Dereferences (kind : AccessKind) (n : Node) : Prop :=
  ∃ pointer type, n.shape = .dereference pointer ∧ pointer.type = some type
    ∧ S.IsAccess kind type

/-- A node calls a traversal function that returns an access to constant. -/
def TraversesConstant (n : Node) : Prop :=
  ∃ callee arguments facet result, n.shape = .call callee arguments
    ∧ S.callsTraversal callee = .ok true ∧ S.program.subprogramFacet callee = .ok facet
    ∧ facet.result = some result ∧ S.IsAccess .toConstant result

/-- A node goes through an access to constant. -/
def CrossesConstant (n : Node) : Prop := S.Dereferences .toConstant n ∨ S.TraversesConstant n

/-- A node is the name of an entity. -/
def Names (n : Node) (e : Entity) : Prop :=
  ∃ id, n.shape = .identifier id ∧ S.program.entity id = .ok e

/-- A node is the name of an object or of a parameter. -/
def NamesObject (n : Node) : Prop :=
  ∃ e, S.Names n e ∧ ((∃ facet, e.kind = .object facet) ∨ ∃ facet, e.kind = .parameter facet)

/-- A node is the name of a constant, or of a parameter of mode `in`. -/
def NamesConstant (n : Node) : Prop :=
  ∃ e, S.Names n e ∧
    ((∃ facet, e.kind = .object facet ∧ facet.constant = true)
      ∨ ∃ facet, e.kind = .parameter facet ∧ facet.direction = .input)

/-- A node is the name of a volatile object, or of something whose declared type is volatile
or concurrent. -/
def NamesVolatile (n : Node) : Prop :=
  ∃ e, S.Names n e ∧
    (e.isVolatile = true
      ∨ ∃ type, e.declaredType? = some type
        ∧ (S.isVolatileType type = .ok true ∨ S.isConcurrentType type = .ok true))

/-- What the summary of a path says about its spines. -/
structure Summarizes (n : Node) (s : PathSummary) : Prop where
  calls : ∀ spine ∈ n.spines, ∀ c ∈ spine.crossed, ∀ callee arguments,
    c.shape = .call callee arguments → S.callsTraversal callee = .ok true
  leaves : ∀ spine ∈ n.spines, S.NamesObject spine.leaf ∨ spine.leaf.isNull = true
  object : ∀ o, s.object = some o ↔ ∀ spine ∈ n.spines, spine.leaf.shape = .identifier o
  constantRoot : s.constantRoot = true ↔ ∃ spine ∈ n.spines, S.NamesConstant spine.leaf
  crossesSlice :
    s.crossesSlice = true ↔ ∃ spine ∈ n.spines, ∃ c ∈ spine.crossed, c.isSlice = true
  crossesConstantAccess :
    s.crossesConstantAccess = true ↔ ∃ spine ∈ n.spines, ∃ c ∈ spine.crossed, S.CrossesConstant c
  crossesVariableAccess :
    s.crossesVariableAccess = true
      ↔ ∀ spine ∈ n.spines, ∃ c ∈ spine.crossed, S.Dereferences .toVariable c
  volatileOrConcurrent :
    s.volatileOrConcurrent = true ↔ ∃ spine ∈ n.spines, S.NamesVolatile spine.leaf

variable {S}

theorem accessKind_eq_some {type : Option EntityId} {kind? : Option AccessKind}
    (h : S.accessKind? type = .ok kind?) (kind : AccessKind) :
  kind? = some kind ↔ ∃ t, type = some t ∧ S.IsAccess kind t
  := by
  cases type with
  | none =>
    obtain rfl := Answer.pure_eq_ok.1 h
    simp
  | some type =>
    obtain ⟨a, ha, h⟩ := Answer.bind_eq_ok.1 h
    obtain rfl := Answer.pure_eq_ok.1 h
    simp [IsAccess, ha]

/-! ### Summaries of layers -/

/-- What a layer adds to a summary says what its node crosses. -/
structure Crosses (S : Setting) (n : Node) (s : PathSummary) : Prop where
  slice : s.crossesSlice = true ↔ n.isSlice = true
  constantAccess : s.crossesConstantAccess = true ↔ S.CrossesConstant n
  variableAccess : s.crossesVariableAccess = true ↔ S.Dereferences .toVariable n
  volatileOrConcurrent : s.volatileOrConcurrent = false

section

variable {id : NodeId} {location : Location} {type : Option EntityId}

theorem crosses_dereference {pointer : Node} {kind? : Option AccessKind}
    (h : S.accessKind? pointer.type = .ok kind?) :
  S.Crosses ⟨id, location, type, .dereference pointer⟩ (PathSummary.dereference {} kind?)
  := by
  have hd (kind : AccessKind) :
      S.Dereferences kind ⟨id, location, type, .dereference pointer⟩ ↔ kind? = some kind := by
    simp [Dereferences, Node.shape, accessKind_eq_some h]
  have ht : ¬ S.TraversesConstant ⟨id, location, type, .dereference pointer⟩ := by
    simp [TraversesConstant, Node.shape]
  constructor <;> rcases kind? with _ | _ | _ | _ <;>
    simp [Node.isSlice, Node.shape, CrossesConstant, PathSummary.dereference, hd, ht]

theorem crosses_traversal {callee : EntityId} {arguments : List Node} {s : PathSummary}
    (ht : S.callsTraversal callee = .ok true) (h : S.summarizeTraversal {} callee = .ok s) :
  S.Crosses ⟨id, location, type, .call callee arguments⟩ s
  := by
  obtain ⟨facet, hf, h⟩ := Answer.bind_eq_ok.1 h
  obtain ⟨kind, hk, h⟩ := Answer.bind_eq_ok.1 h
  obtain rfl := Answer.pure_eq_ok.1 h
  have hc := accessKind_eq_some hk .toConstant
  constructor <;>
    simp [Node.isSlice, Node.shape, CrossesConstant, Dereferences, TraversesConstant, ht, hf, hc]

end

theorem exists_crossing {l : S.Layer} {n : Node} (h : S.Finds (l.around n)) :
  ∃ s, l.crossing n.type = .ok s
  := by
  obtain ⟨id, location, type, gap⟩ := l
  cases gap with
  | dereference => exact Answer.exists_bind (exists_accessKind h) fun _ _ => ⟨_, rfl⟩
  | traversal callee others ht =>
    obtain ⟨e, he, h⟩ := h
    obtain ⟨e', he', ht⟩ := Answer.bind_eq_ok.1 ht
    obtain rfl := Except.ok.inj (he.symm.trans he')
    split at ht
    · next facet hk =>
      have hf := Program.subprogramFacet_eq_ok.2 ⟨e, he, hk⟩
      obtain ⟨hr, -⟩ := h facet (EntityKind.subprogram_eq_some.2 hk)
      obtain ⟨kind, hkind⟩ := exists_accessKind hr
      exact ⟨_, Answer.bind_eq_ok.2 ⟨facet, hf, Answer.bind_eq_ok.2 ⟨kind, hkind, rfl⟩⟩⟩
    · simp at ht
  | _ => exact ⟨_, rfl⟩

theorem crosses_of_crossing {l : S.Layer} {n : Node} {s : PathSummary}
    (h : l.crossing n.type = .ok s) :
  S.Crosses (l.around n) s
  := by
  obtain ⟨id, location, type, gap⟩ := l
  cases gap with
  | dereference =>
    obtain ⟨kind, hk, h⟩ := Answer.bind_eq_ok.1 h
    obtain rfl := Answer.pure_eq_ok.1 h
    exact crosses_dereference hk
  | traversal callee others ht => exact crosses_traversal ht h
  | _ =>
    obtain rfl := Answer.pure_eq_ok.1 h
    constructor <;>
      simp [Node.isSlice, Node.shape, Layer.around, Gap.fill, CrossesConstant, Dereferences,
        TraversesConstant]

/-! ### Summaries of paths -/

section

variable {e : Entity}

theorem isVolatileOrConcurrent_eq (e : Entity) :
  S.isVolatileOrConcurrent e = (match e.declaredType? with
    | none => .ok false
    | some type => do
      if e.isVolatile then return true
      else if ← S.isVolatileType type then return true
      else S.isConcurrentType type)
  := rfl

theorem exists_isVolatileOrConcurrent (h : ∀ type ∈ e.declaredType?, S.HasCore type) :
  ∃ b, S.isVolatileOrConcurrent e = .ok b ∧ (b = true ↔
    e.isVolatile = true
      ∨ ∃ type, e.declaredType? = some type
        ∧ (S.isVolatileType type = .ok true ∨ S.isConcurrentType type = .ok true))
  := by
  rw [isVolatileOrConcurrent_eq]
  cases ht : e.declaredType? with
  | none => exact ⟨false, rfl, by simp [Entity.isVolatile_eq_false ht]⟩
  | some type =>
    obtain ⟨b, hb⟩ := (h type ht).isVolatileType
    obtain ⟨c, hc⟩ := (h type ht).isConcurrentType
    refine ⟨e.isVolatile || b || c, ?_, by simp [hb, hc, or_assoc]⟩
    cases e.isVolatile <;> cases b <;> simp only [hb, hc] <;> rfl

theorem exists_isConstant {id : EntityId} (he : S.program.entity id = .ok e)
    (hk : (∃ facet, e.kind = .object facet) ∨ ∃ facet, e.kind = .parameter facet) :
  ∃ b, S.isConstant id = .ok b ∧ (b = true ↔
    (∃ facet, e.kind = .object facet ∧ facet.constant = true)
      ∨ ∃ facet, e.kind = .parameter facet ∧ facet.direction = .input)
  := by
  obtain ⟨facet, hk⟩ | ⟨facet, hk⟩ := hk
  · refine ⟨facet.constant, Answer.bind_eq_ok.2 ⟨e, he, ?_⟩, by simp [hk]⟩
    rw [hk]
    rfl
  · refine ⟨facet.direction == .input, Answer.bind_eq_ok.2 ⟨e, he, ?_⟩, by simp [hk]⟩
    rw [hk]
    rfl

variable {id : NodeId} {location : Location} {type : Option EntityId}

/-- The summary of a path that is the name of an object. -/
theorem exists_summarizes_identifier {o : EntityId} (ho : S.isObject o = .ok true)
    (ht : S.IsTyped o) :
  ∃ s, S.summarize ⟨id, location, type, .identifier o⟩ = .ok s
    ∧ S.Summarizes ⟨id, location, type, .identifier o⟩ s
  := by
  obtain ⟨e, he, htype⟩ := ht
  have hk : (∃ facet, e.kind = .object facet) ∨ ∃ facet, e.kind = .parameter facet := by
    obtain ⟨e', he', ho⟩ := Answer.bind_eq_ok.1 ho
    obtain rfl := Except.ok.inj (he.symm.trans he')
    split at ho <;> simp_all
  obtain ⟨v, hv, hvolatile⟩ := exists_isVolatileOrConcurrent htype
  obtain ⟨c, hc, hconstant⟩ := exists_isConstant he hk
  have names (e' : Entity) :
      S.Names ⟨id, location, type, .identifier o⟩ e' ↔ e' = e := by
    simp [Names, Node.shape, he, eq_comm]
  have hs : S.summarize ⟨id, location, type, .identifier o⟩
      = .ok { object := some o, constantRoot := c, volatileOrConcurrent := v } := by
    refine Answer.bind_eq_ok.2 ⟨e, he, Answer.bind_eq_ok.2 ⟨v, hv, ?_⟩⟩
    exact Answer.bind_eq_ok.2 ⟨c, hc, rfl⟩
  refine ⟨_, hs, ?_, ?_, ?_, ?_, ?_, ?_, ?_, ?_⟩
  · simp [Node.spines]
  · simp [Node.spines, NamesObject, names, hk]
  · simp [Node.spines, Node.shape]
  · simp [Node.spines, NamesConstant, names, hconstant]
  · simp [Node.spines]
  · simp [Node.spines]
  · simp [Node.spines]
  · simp [Node.spines, NamesVolatile, names, hvolatile]

theorem summarizes_null :
  S.Summarizes ⟨id, location, type, .literal .null⟩ {}
  := by
  constructor <;>
    simp [Node.spines, Node.shape, Node.isNull, NamesConstant, NamesVolatile, Names]

/-- The summary of a path goes over to a layer around it. -/
theorem Summarizes.around {l : S.Layer} {n : Node} {s t : PathSummary} (h : S.Summarizes n t)
    (hs : S.Crosses (l.around n) s) :
  S.Summarizes (l.around n) (s.extend t)
  where
    calls := by
      rw [spines_around]
      refine List.forall_mem_map.2 fun spine hs =>
        List.forall_mem_cons.2 ⟨?_, h.calls spine hs⟩
      intro callee arguments hc
      obtain ⟨id, location, type, gap⟩ := l
      cases gap with
      | traversal callee others ht =>
        cases hc
        exact ht
      | _ => cases hc
    leaves := by
      rw [spines_around]
      exact List.forall_mem_map.2 h.leaves
    object o := by
      rw [spines_around, List.forall_mem_map]
      exact h.object o
    constantRoot := by
      simp only [spines_around, List.mem_map, exists_exists_and_eq_and]
      exact h.constantRoot
    crossesSlice := by
      rw [spines_around, exists_crossed_through n.spines_ne_nil, ← h.crossesSlice, ← hs.slice]
      exact Bool.or_eq_true_iff
    crossesConstantAccess := by
      rw [spines_around, exists_crossed_through n.spines_ne_nil, ← h.crossesConstantAccess,
        ← hs.constantAccess]
      exact Bool.or_eq_true_iff
    crossesVariableAccess := by
      rw [spines_around, forall_crossed_through, ← h.crossesVariableAccess, ← hs.variableAccess]
      exact Bool.or_eq_true_iff
    volatileOrConcurrent := by
      simp only [spines_around, List.mem_map, exists_exists_and_eq_and, PathSummary.extend,
        hs.volatileOrConcurrent, Bool.false_or]
      exact h.volatileOrConcurrent

/-- The merged summary of a conditional expression is about the spines of both values. -/
theorem Summarizes.conditional {condition a b : Node} {s t : PathSummary}
    (ha : S.Summarizes a s) (hb : S.Summarizes b t) :
  S.Summarizes ⟨id, location, type, .conditional condition a b⟩ (s.merge t)
  where
    calls := by
      refine List.forall_mem_map.2 fun spine hs => List.forall_mem_cons.2 ⟨nofun, ?_⟩
      exact List.forall_mem_append.2 ⟨ha.calls, hb.calls⟩ spine hs
    leaves := List.forall_mem_map.2 (List.forall_mem_append.2 ⟨ha.leaves, hb.leaves⟩)
    object o := by
      rw [Node.spines, List.forall_mem_map, List.forall_mem_append,
        PathSummary.merge_object_eq_some, ha.object, hb.object]
      rfl
    constantRoot := by
      rw [Node.spines]
      simp only [List.mem_map, exists_exists_and_eq_and, List.mem_append, or_and_right, exists_or]
      exact Bool.or_eq_true_iff.trans (or_congr ha.constantRoot hb.constantRoot)
    crossesSlice := by
      rw [Node.spines, exists_crossed_through (by simp [a.spines_ne_nil])]
      simp only [List.mem_append, or_and_right, exists_or, ← ha.crossesSlice, ← hb.crossesSlice]
      simp [Node.isSlice, Node.shape, PathSummary.merge]
    crossesConstantAccess := by
      rw [Node.spines, exists_crossed_through (by simp [a.spines_ne_nil])]
      simp only [List.mem_append, or_and_right, exists_or, ← ha.crossesConstantAccess,
        ← hb.crossesConstantAccess]
      simp [CrossesConstant, Dereferences, TraversesConstant, Node.shape, PathSummary.merge]
    crossesVariableAccess := by
      rw [Node.spines, forall_crossed_through, List.forall_mem_append, ← ha.crossesVariableAccess,
        ← hb.crossesVariableAccess]
      simp [Dereferences, Node.shape, PathSummary.merge]
    volatileOrConcurrent := by
      rw [Node.spines]
      simp only [List.mem_map, exists_exists_and_eq_and, List.mem_append, or_and_right, exists_or]
      exact Bool.or_eq_true_iff.trans
        (or_congr ha.volatileOrConcurrent hb.volatileOrConcurrent)

end

/-- A path with all its lookups has a summary, which says what lies on its spines. -/
theorem exists_summarizes {n : Node} (hp : S.isPath n = .ok true) (hr : S.FindsSpines n) :
  ∃ s, S.summarize n = .ok s ∧ S.Summarizes n s
  := by
  revert hr
  refine isPath_induction ?object ?null ?layer ?conditional hp
  case object =>
    intro id location type entity ho hr
    exact exists_summarizes_identifier ho (hr ⟨[], _⟩ (List.mem_singleton_self _)).2
  case null =>
    intro id location type _
    exact ⟨{}, rfl, summarizes_null⟩
  case layer =>
    intro l n _ ih hr
    obtain ⟨hl, hr⟩ := (findsSpines_through (spines_around l n)).1 hr
    obtain ⟨s, hs⟩ := exists_crossing hl
    obtain ⟨t, ht, h⟩ := ih hr
    refine ⟨s.extend t, ?_, h.around (crosses_of_crossing hs)⟩
    rw [summarize_around, hs, ht]
    rfl
  case conditional =>
    intro id location type condition a b _ _ iha ihb hr
    obtain ⟨hra, hrb⟩ := findsSpines_conditional.1 hr
    obtain ⟨s, hs, ha⟩ := iha hra
    obtain ⟨t, ht, hb⟩ := ihb hrb
    refine ⟨s.merge t, ?_, ha.conditional hb⟩
    rw [summarize_conditional, hs, ht]
    rfl

/-- The summary of a path says what lies on its spines. -/
theorem summary_of_spines {n : Node} (hp : S.isPath n = .ok true) (hr : S.FindsSpines n) :
  ∃ s, S.summarize n = .ok s
    ∧ (∀ spine ∈ n.spines, ∀ c ∈ spine.crossed, ∀ callee arguments,
      c.shape = .call callee arguments → S.callsTraversal callee = .ok true)
    ∧ (∀ spine ∈ n.spines, S.NamesObject spine.leaf ∨ spine.leaf.isNull = true)
    ∧ (∀ o, s.object = some o ↔ ∀ spine ∈ n.spines, spine.leaf.shape = .identifier o)
    ∧ (s.constantRoot = true ↔ ∃ spine ∈ n.spines, S.NamesConstant spine.leaf)
    ∧ (s.crossesSlice = true ↔ ∃ spine ∈ n.spines, ∃ c ∈ spine.crossed, c.isSlice = true)
    ∧ (s.crossesConstantAccess = true
      ↔ ∃ spine ∈ n.spines, ∃ c ∈ spine.crossed,
        S.Dereferences .toConstant c ∨ S.TraversesConstant c)
    ∧ (s.crossesVariableAccess = true
      ↔ ∀ spine ∈ n.spines, ∃ c ∈ spine.crossed, S.Dereferences .toVariable c)
    ∧ (s.volatileOrConcurrent = true ↔ ∃ spine ∈ n.spines, S.NamesVolatile spine.leaf)
  := by
  obtain ⟨s, hs, h⟩ := exists_summarizes hp hr
  exact ⟨s, hs, h.calls, h.leaves, h.object, h.constantRoot, h.crossesSlice,
    h.crossesConstantAccess, h.crossesVariableAccess, h.volatileOrConcurrent⟩

/-- A traversal function that returns an access to constant, and two objects of its
parameter's type. -/
def spineSample : Setting :=
  (ofParts?
    [{ name := "T", kind := .type { definition := .signed 0 9 } },
      { name := "A", kind := .type { definition := .array ["T"] "T" } },
      { name := "D", kind := .type { definition := .access { designated := "A" } } },
      { name := "L", kind := .type {
          definition := .access { designated := "A", kind := .toConstant, anonymous := true } } },
      { name := "X", kind := .parameter { type := "D" } },
      { name := "F", kind := .subprogram {
          kind := .function, parameters := ["X"], result := some "L" } },
      { name := "V", kind := .object { type := "D", volatile := true } },
      { name := "K", kind := .object { type := "D", constant := true } }] []).get
    (by decide +kernel)

/-- A slice of what the traversal function returns for either of the objects. -/
def spineSample.path : Node :=
  let either : Node :=
    ⟨0, {}, some "D", .conditional (.plain (.literal (.enumeration "True")))
      ⟨0, {}, some "D", .identifier "V"⟩ ⟨0, {}, some "D", .identifier "K"⟩⟩
  ⟨0, {}, some "A", .slice
    ⟨0, {}, some "A", .dereference ⟨0, {}, some "L", .call "F" [either]⟩⟩
    (.plain (.range (.plain (.literal (.integer 1))) (.plain (.literal (.integer 2)))))⟩

theorem summary_of_spines_spineSample :
  spineSample.isPath spineSample.path = .ok true
    ∧ spineSample.FindsSpines spineSample.path
    ∧ (∃ spine ∈ spineSample.path.spines, spineSample.NamesConstant spine.leaf)
    ∧ (∃ spine ∈ spineSample.path.spines, ∃ c ∈ spine.crossed, c.isSlice = true)
    ∧ (∃ spine ∈ spineSample.path.spines, ∃ c ∈ spine.crossed,
      spineSample.Dereferences .toConstant c ∨ spineSample.TraversesConstant c)
    ∧ (¬ ∀ spine ∈ spineSample.path.spines, ∃ c ∈ spine.crossed,
      spineSample.Dereferences .toVariable c)
    ∧ ∃ spine ∈ spineSample.path.spines, spineSample.NamesVolatile spine.leaf
  := by
  have hp : spineSample.isPath spineSample.path = .ok true := rfl
  have hr : spineSample.FindsSpines spineSample.path := by decide +kernel
  obtain ⟨s, hs, -, -, -, hroot, hslice, hconstant, hvariable, hvolatile⟩ :=
    summary_of_spines hp hr
  obtain rfl := Except.ok.inj (hs.symm.trans rfl)
  refine ⟨hp, hr, hroot.1 rfl, hslice.1 rfl, hconstant.1 rfl, ?_, hvolatile.1 rfl⟩
  rw [← hvariable]
  exact Bool.false_ne_true

end Setting

end Conformance
