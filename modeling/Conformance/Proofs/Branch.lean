import Conformance.Proofs.Foundation
import Conformance.Proofs.Layer
import Mathlib.Order.Lattice

/-!
# Conditional expressions inside of paths

A conditional expression at the top of a value is checked branch by branch, and one that
stands inside of a path by the merged summary of its branches.  `PathSummary.Blends` relates
the merged summary to those of the branches, whatever the layers around them, so that nothing
becomes a legal source by hiding a conditional expression in a path.
-/

namespace Conformance

namespace PathSummary

/-- Whether a path with the given summary may be moved, into a constant or into a variable. -/
def allowsMove (s : PathSummary) (toConstant : Bool) : Bool :=
  !s.volatileOrConcurrent && (toConstant || !s.crossesConstantAccess)

/-- The summary `t` of a path with a conditional expression inside, beside the summaries `a`
and `b` of the same path with the one and with the other branch in its place. -/
structure Blends (t a b : PathSummary) : Prop where
  object : ∀ o, t.object = some o → a.object = some o ∧ b.object = some o
  /-- Layers further out may cross a traversal function where the branches disagree. -/
  traversal : t.traversal.isSome = true → a.traversal.isSome = true ∧ b.traversal.isSome = true
  constantRoot : t.constantRoot = (a.constantRoot || b.constantRoot)
  crossesSlice : t.crossesSlice = (a.crossesSlice || b.crossesSlice)
  crossesConstantAccess :
    t.crossesConstantAccess = (a.crossesConstantAccess || b.crossesConstantAccess)
  crossesVariableAccess :
    t.crossesVariableAccess = (a.crossesVariableAccess && b.crossesVariableAccess)
  volatileOrConcurrent :
    t.volatileOrConcurrent = (a.volatileOrConcurrent || b.volatileOrConcurrent)

section

variable {t a b : PathSummary}

theorem blends_merge (a b : PathSummary) :
  (a.merge b).Blends a b
  where
    object _ := merge_object_eq_some.1
    traversal ht := by
      simp only [merge] at ht
      split at ht
      · next he => exact ⟨ht, he ▸ ht⟩
      · cases ht
    constantRoot := rfl
    crossesSlice := rfl
    crossesConstantAccess := rfl
    crossesVariableAccess := rfl
    volatileOrConcurrent := rfl

/-- A layer around all three keeps the relation. -/
theorem Blends.extend (h : t.Blends a b) (s : PathSummary) :
  (s.extend t).Blends (s.extend a) (s.extend b)
  where
    object := h.object
    traversal ht := by
      simp only [PathSummary.extend, Option.isSome_or, Bool.or_eq_true] at ht ⊢
      obtain ht | hs := ht
      · exact ⟨Or.inl (h.traversal ht).1, Or.inl (h.traversal ht).2⟩
      · exact ⟨Or.inr hs, Or.inr hs⟩
    constantRoot := h.constantRoot
    crossesSlice := by
      simp only [PathSummary.extend, h.crossesSlice]
      exact sup_sup_distrib_left s.crossesSlice a.crossesSlice b.crossesSlice
    crossesConstantAccess := by
      simp only [PathSummary.extend, h.crossesConstantAccess]
      exact sup_sup_distrib_left s.crossesConstantAccess a.crossesConstantAccess
        b.crossesConstantAccess
    crossesVariableAccess := by
      simp only [PathSummary.extend, h.crossesVariableAccess, Bool.or_and_distrib_left]
    volatileOrConcurrent := by
      simp only [PathSummary.extend, h.volatileOrConcurrent]
      exact sup_sup_distrib_left s.volatileOrConcurrent a.volatileOrConcurrent
        b.volatileOrConcurrent

theorem Blends.allowsMove (h : t.Blends a b) (toConstant : Bool) :
  t.allowsMove toConstant = (a.allowsMove toConstant && b.allowsMove toConstant)
  := by
  simp only [PathSummary.allowsMove, h.volatileOrConcurrent, h.crossesConstantAccess]
  grind

/-- Branches may be lent where the conditional expression may: it has a root if both have the
same, and it may only be assigned to if both may. -/
theorem Blends.allowsLoan (h : t.Blends a b) {observe : Bool}
    (ht : t.allowsLoan observe = true) :
  a.allowsLoan observe = true ∧ b.allowsLoan observe = true
  := by
  have root : (a.object.isSome || a.traversal.isSome) = true
      ∧ (b.object.isSome || b.traversal.isSome) = true := by
    simp only [PathSummary.allowsLoan, Bool.and_eq_true, Bool.or_eq_true] at ht ⊢
    obtain ⟨ho | htr, -⟩ := ht
    · obtain ⟨o, ho⟩ := Option.isSome_iff_exists.1 ho
      obtain ⟨ha, hb⟩ := h.object o ho
      simp [ha, hb]
    · exact ⟨Or.inr (h.traversal htr).1, Or.inr (h.traversal htr).2⟩
  simp only [PathSummary.allowsLoan, root.1, root.2, h.constantRoot, h.crossesSlice,
    h.crossesConstantAccess, h.crossesVariableAccess] at ht ⊢
  grind

end

end PathSummary

/-- Three answers, which are summaries that blend, unless there is no first one for want of one
of the others. -/
inductive Blended : Answer PathSummary → Answer PathSummary → Answer PathSummary → Prop
  | summaries {t a b : PathSummary} (h : t.Blends a b) : Blended (.ok t) (.ok a) (.ok b)
  | left {f g : Fault} {y : Answer PathSummary} : Blended (.error f) (.error g) y
  | right {f g : Fault} {x : Answer PathSummary} : Blended (.error f) x (.error g)

namespace Node

/-- The outcomes of an expression depend on what it is without conversions. -/
theorem outcomesOf_eq (whole n : Node) :
  outcomesOf whole n = match n.unconverted.shape with
    | .conditional _ thenValue elseValue => thenValue.outcomes ++ elseValue.outcomes
    | _ => [whole]
  := by
  fun_induction unconverted n with
  | case1 _ _ _ _ _ ih | case2 _ _ _ _ _ ih => exact ih
  | case3 n hconversion hqualified =>
    obtain ⟨id, location, type, shape⟩ := n
    cases shape with
    | conversion target operand => exact (hconversion id location type target operand rfl).elim
    | qualified target operand => exact (hqualified id location type target operand rfl).elim
    | _ => rfl

end Node

namespace Setting

variable {S : Setting}

/-! ### Layers around a conditional expression -/

/-- A path with any number of layers around its inner part, the outermost first. -/
def surround (layers : List S.Layer) (n : Node) : Node := layers.foldr Layer.around n

theorem isPath_surround (layers : List S.Layer) (n : Node) :
  S.isPath (surround layers n) = S.isPath n
  := by
  induction layers with
  | nil => rfl
  | cons l layers ih => exact (isPath_around l _).trans ih

theorem type_surround (layers : List S.Layer) {n m : Node} (h : n.type = m.type) :
  (surround layers n).type = (surround layers m).type
  := by
  cases layers with
  | nil => exact h
  | cons => rfl

/-- Summaries blend where the branches take the place of the conditional expression. -/
theorem blended_around {t a b : Node} (l : S.Layer)
    (h : Blended (S.summarize t) (S.summarize a) (S.summarize b)) (ha : a.type = t.type)
    (hb : b.type = t.type) :
  Blended (S.summarize (l.around t)) (S.summarize (l.around a)) (S.summarize (l.around b))
  := by
  rw [summarize_around, summarize_around, summarize_around, ha, hb]
  cases l.crossing t.type with
  | error fault => exact .left
  | ok s =>
    generalize S.summarize t = x, S.summarize a = y, S.summarize b = z at h
    cases h with
    | summaries h => exact .summaries (h.extend s)
    | left => exact .left
    | right => exact .right

theorem blended_surround (layers : List S.Layer) (id : NodeId) (location : Location)
    {type : Option EntityId} (condition : Node) {a b : Node} (ha : a.type = type)
    (hb : b.type = type) :
  Blended (S.summarize (surround layers ⟨id, location, type, .conditional condition a b⟩))
    (S.summarize (surround layers a)) (S.summarize (surround layers b))
  := by
  induction layers with
  | nil =>
    change Blended (S.summarize ⟨id, location, type, .conditional condition a b⟩)
      (S.summarize a) (S.summarize b)
    rw [summarize_conditional]
    cases S.summarize a with
    | error fault => exact .left
    | ok s =>
      cases S.summarize b with
      | error fault => exact .right
      | ok t => exact .summaries (PathSummary.blends_merge s t)
  | cons l layers ih =>
    exact blended_around l ih (type_surround layers ha) (type_surround layers hb)

/-! ### Questions about outcomes -/

/-- A path whose summary has a property. -/
def IsPathWith (S : Setting) (holds : PathSummary → Bool) (n : Node) : Prop :=
  S.isPath n = .ok true ∧ ∃ s, S.summarize n = .ok s ∧ holds s = true

theorem isPathWith_iff {holds : PathSummary → Bool} {n : Node} :
  (do if ← S.isPath n then return holds (← S.summarize n) else return false) = .ok true
    ↔ S.IsPathWith holds n
  := by
  rw [Answer.and_eq_ok, Answer.bind_eq_ok]
  simp only [Answer.pure_eq_ok]
  rfl

/-- A question about outcomes to which conversions do not matter, and which is a question about
the summary of the path where another layer is outermost. -/
structure IsRule (S : Setting) (asks : Node → Answer Bool) (holds : PathSummary → Bool) :
    Prop where
  conversion : ∀ (l : S.Layer) n, l.gap.isConversion = true → asks (l.around n) = asks n
  layer : ∀ (l : S.Layer) n, l.gap.isConversion = false →
    (asks (l.around n) = .ok true ↔ S.IsPathWith holds (l.around n))

theorem unconverted_around {l : S.Layer} (hl : l.gap.isConversion = true) (n : Node) :
  (l.around n).unconverted = n.unconverted
  := by
  obtain ⟨id, location, type, gap⟩ := l
  cases gap with
  | conversion | qualified => rfl
  | _ => cases hl

theorem isNull_unconverted_around {l : S.Layer} (hl : l.gap.isConversion = false) (n : Node) :
  (l.around n).unconverted = l.around n ∧ (l.around n).isNull = false
  := by
  obtain ⟨id, location, type, gap⟩ := l
  cases gap with
  | conversion | qualified => cases hl
  | _ => exact ⟨rfl, rfl⟩

theorem summarize_conversion {l : S.Layer} (hl : l.gap.isConversion = true) (n : Node) :
  S.summarize (l.around n) = S.summarize n
  := by
  obtain ⟨id, location, type, gap⟩ := l
  cases gap with
  | conversion | qualified => rfl
  | _ => cases hl

theorem outcomes_around {l : S.Layer} (hl : l.gap.isConversion = false) (n : Node) :
  (l.around n).outcomes = [l.around n]
  := by
  obtain ⟨id, location, type, gap⟩ := l
  cases gap with
  | conversion | qualified => cases hl
  | _ => rfl

theorem isRule_movable (toConstant : Bool) :
  S.IsRule (S.isMovable toConstant) (·.allowsMove toConstant)
  where
    conversion l n hl := by
      simp only [isMovable, denotesObject_around, hl, if_true, isPath_around,
        summarize_conversion hl]
    layer l n hl := by
      have hn : S.denotesObject (l.around n) = .ok true := by
        rw [denotesObject_around, hl]
        rfl
      rw [isMovable, hn]
      exact isPathWith_iff

theorem isRule_lendable (observe : Bool) :
  S.IsRule (S.isLendable observe) (·.allowsLoan observe)
  where
    conversion l n hl := by
      simp only [isLendable, unconverted_around hl]
    layer l n hl := by
      obtain ⟨hu, hn⟩ := isNull_unconverted_around hl n
      simp only [isLendable, hu, hn]
      exact isPathWith_iff

theorem isRule_rooted (object : Option EntityId) :
  S.IsRule (S.startsAt object) (·.object == object)
  where
    conversion l n hl := by
      simp only [startsAt, unconverted_around hl, isPath_around, summarize_conversion hl]
    layer l n hl := by
      obtain ⟨hu, hn⟩ := isNull_unconverted_around hl n
      simp only [startsAt, hu, hn]
      exact isPathWith_iff

section

variable {asks : Node → Answer Bool} {holds : PathSummary → Bool}

/-- Conversions do not matter to the answers about the outcomes. -/
theorem IsRule.forall_conversion (h : S.IsRule asks holds) {l : S.Layer}
    (hl : l.gap.isConversion = true) (n : Node) :
  (∀ o ∈ (l.around n).outcomes, asks o = .ok true) ↔ ∀ o ∈ n.outcomes, asks o = .ok true
  := by
  simp only [Node.outcomes]
  rw [Node.outcomesOf_eq _ (l.around n), unconverted_around hl, Node.outcomesOf_eq n n]
  split
  · rfl
  · simp only [List.mem_singleton, forall_eq, h.conversion l n hl]

theorem IsRule.forall_layer (h : S.IsRule asks holds) {l : S.Layer}
    (hl : l.gap.isConversion = false) (n : Node) :
  (∀ o ∈ (l.around n).outcomes, asks o = .ok true) ↔ S.IsPathWith holds (l.around n)
  := by simp only [outcomes_around hl, List.mem_singleton, forall_eq, h.layer l n hl]

variable {layers : List S.Layer} {id : NodeId} {location : Location} {type : Option EntityId}
  {condition a b : Node}

/-- A property of summaries goes over from a path with a conditional expression inside to the
same path with a branch in its place. -/
theorem isPathWith_branches (layers : List S.Layer)
    (hh : ∀ {t a b : PathSummary}, t.Blends a b → holds t = true
      → holds a = true ∧ holds b = true)
    (ha : a.type = type) (hb : b.type = type)
    (h : S.IsPathWith holds
      (surround layers ⟨id, location, type, .conditional condition a b⟩)) :
  S.IsPathWith holds (surround layers a) ∧ S.IsPathWith holds (surround layers b)
  := by
  obtain ⟨hp, t, ht, htrue⟩ := h
  rw [isPath_surround, isPath_conditional, ← isPath_surround layers a,
    ← isPath_surround layers b] at hp
  have hblend := blended_surround layers id location condition ha hb
  rw [ht] at hblend
  generalize hx : S.summarize (surround layers a) = x,
    hy : S.summarize (surround layers b) = y at hblend
  cases hblend with
  | summaries hblend =>
    obtain ⟨hxtrue, hytrue⟩ := hh hblend htrue
    exact ⟨⟨hp.1, _, hx, hxtrue⟩, ⟨hp.2, _, hy, hytrue⟩⟩

/-- And back, if it holds of a blend where it holds of both parts. -/
theorem isPathWith_conditional (layers : List S.Layer)
    (hh : ∀ {t a b : PathSummary}, t.Blends a b → holds a = true → holds b = true
      → holds t = true)
    (hta : a.type = type) (htb : b.type = type) (ha : S.IsPathWith holds (surround layers a))
    (hb : S.IsPathWith holds (surround layers b)) :
  S.IsPathWith holds (surround layers ⟨id, location, type, .conditional condition a b⟩)
  := by
  obtain ⟨hpa, x, hx, hxtrue⟩ := ha
  obtain ⟨hpb, y, hy, hytrue⟩ := hb
  constructor
  · rw [isPath_surround] at hpa hpb ⊢
    exact isPath_conditional.2 ⟨hpa, hpb⟩
  · have hblend := blended_surround layers id location condition hta htb
    rw [hx, hy] at hblend
    generalize ht : S.summarize (surround layers _) = t at hblend
    cases hblend with
    | summaries hblend => exact ⟨_, rfl, hh hblend hxtrue hytrue⟩

/-- The outcomes of a conditional expression are those of its branches. -/
theorem forall_outcomes_conditional {P : Node → Prop} :
  (∀ o ∈ Node.outcomes ⟨id, location, type, .conditional condition a b⟩, P o)
    ↔ (∀ o ∈ a.outcomes, P o) ∧ ∀ o ∈ b.outcomes, P o
  := List.forall_mem_append

/-- What a rule allows of a path with a conditional expression inside it allows of the same
path with a branch in its place. -/
theorem IsRule.branches (h : S.IsRule asks holds)
    (hh : ∀ {t a b : PathSummary}, t.Blends a b → holds t = true
      → holds a = true ∧ holds b = true)
    (ha : a.type = type) (hb : b.type = type)
    (ht : ∀ o ∈ (surround layers ⟨id, location, type, .conditional condition a b⟩).outcomes,
      asks o = .ok true) :
  (∀ o ∈ (surround layers a).outcomes, asks o = .ok true)
    ∧ ∀ o ∈ (surround layers b).outcomes, asks o = .ok true
  := by
  induction layers with
  | nil => exact forall_outcomes_conditional.1 ht
  | cons l layers ih =>
    cases hl : l.gap.isConversion with
    | true =>
      have hc := h.forall_conversion hl
      exact (ih ((hc _).1 ht)).imp (hc _).2 (hc _).2
    | false =>
      have hc := h.forall_layer hl
      exact (isPathWith_branches (l :: layers) hh ha hb ((hc _).1 ht)).imp
        (hc _).2 (hc _).2

theorem IsRule.conditional (h : S.IsRule asks holds)
    (hh : ∀ {t a b : PathSummary}, t.Blends a b → holds a = true → holds b = true
      → holds t = true)
    (hta : a.type = type) (htb : b.type = type)
    (ha : ∀ o ∈ (surround layers a).outcomes, asks o = .ok true)
    (hb : ∀ o ∈ (surround layers b).outcomes, asks o = .ok true) :
  ∀ o ∈ (surround layers ⟨id, location, type, .conditional condition a b⟩).outcomes,
    asks o = .ok true
  := by
  induction layers with
  | nil => exact forall_outcomes_conditional.2 ⟨ha, hb⟩
  | cons l layers ih =>
    cases hl : l.gap.isConversion with
    | true =>
      have hc := h.forall_conversion hl
      exact (hc _).2 (ih ((hc _).1 ha) ((hc _).1 hb))
    | false =>
      have hc := h.forall_layer hl
      exact (hc _).2 (isPathWith_conditional (l :: layers) hh hta htb
        ((hc _).1 ha) ((hc _).1 hb))

end

/-! ### Moves, loans and roots -/

/-- A check succeeds if what it asks for holds. -/
theorem require_eq_pure {x : Answer Bool} {site : Site} {v : Violation} :
  (do
      if ← x then return true
      else
        Inquiry.violation site v
        return false : Inquiry Bool) = pure true
    ↔ x = .ok true
  := by
  rcases x with fault | _ | _
  · exact iff_of_false nofun nofun
  · exact iff_of_false nofun nofun
  · exact iff_of_true rfl rfl

theorem checkMove_eq_pure {toConstant : Bool} {n : Node} :
  S.checkMove toConstant n = pure true
    ↔ ∀ o ∈ n.outcomes, S.isMovable toConstant o = .ok true
  := require_eq_pure.trans Node.allHold_eq_ok

theorem checkLoan_eq_pure {observe : Bool} {n : Node} :
  S.checkLoan observe n = pure true ↔ ∀ o ∈ n.outcomes, S.isLendable observe o = .ok true
  := require_eq_pure.trans Node.allHold_eq_ok

/-- A conditional expression inside of a path hides none of its branches, where these have its
static type: the path may be moved exactly if it may be with either branch in place of the
conditional expression; if it may be borrowed or observed, or starts at an object, then so
with either branch. -/
theorem branches_unhidden (layers : List S.Layer) {id : NodeId} {location : Location}
    {type : Option EntityId} {condition a b : Node} (ha : a.type = type) (hb : b.type = type) :
  (∀ toConstant,
      S.checkMove toConstant
          (surround layers ⟨id, location, type, .conditional condition a b⟩) = pure true
        ↔ S.checkMove toConstant (surround layers a) = pure true
          ∧ S.checkMove toConstant (surround layers b) = pure true)
    ∧ (∀ observe,
      S.checkLoan observe
          (surround layers ⟨id, location, type, .conditional condition a b⟩) = pure true
        → S.checkLoan observe (surround layers a) = pure true
          ∧ S.checkLoan observe (surround layers b) = pure true)
    ∧ ∀ object,
      S.isRootedAt (some object)
          (surround layers ⟨id, location, type, .conditional condition a b⟩) = .ok true
        → S.isRootedAt (some object) (surround layers a) = .ok true
          ∧ S.isRootedAt (some object) (surround layers b) = .ok true
  := by
  refine ⟨fun toConstant => ?_, fun observe => ?_, fun object => ?_⟩
  · simp only [checkMove_eq_pure]
    constructor
    · refine (isRule_movable toConstant).branches (fun h ht => ?_) ha hb
      rwa [h.allowsMove, Bool.and_eq_true] at ht
    · rintro ⟨h, h'⟩
      refine (isRule_movable toConstant).conditional (fun h hs ht => ?_) ha hb h h'
      rw [h.allowsMove, hs, ht, Bool.and_self]
  · simp only [checkLoan_eq_pure]
    exact (isRule_lendable observe).branches (fun h ht => h.allowsLoan ht) ha hb
  · simp only [isRootedAt, Node.allHold_eq_ok]
    refine (isRule_rooted (some object)).branches (fun h ht => ?_) ha hb
    obtain ⟨hs, ht⟩ := h.object object (beq_iff_eq.1 ht)
    exact ⟨beq_iff_eq.2 hs, beq_iff_eq.2 ht⟩

/-- A traversal function, and objects of its parameter's type. -/
def traversalSample : Setting :=
  (ofParts?
    [{ name := "T", kind := .type { definition := .signed 0 9 } },
      { name := "D", kind := .type { definition := .access { designated := "T" } } },
      { name := "L", kind := .type {
          definition := .access { designated := "T", anonymous := true } } },
      { name := "X", kind := .parameter { type := "D" } },
      { name := "F", kind := .subprogram {
          kind := .function, parameters := ["X"], result := some "L" } },
      { name := "V", kind := .object { type := "D" } }] []).get
    (by decide +kernel)

/-- A dereference of the result of the traversal function, for a converted argument. -/
def traversalSample.layers : List traversalSample.Layer :=
  [⟨0, {}, some "T", .dereference⟩,
    ⟨0, {}, some "L", .traversal "F" [] (by rfl)⟩,
    ⟨0, {}, some "D", .conversion "D"⟩]

/-- An object, and the same object in a qualified expression. -/
def traversalSample.object : Node := ⟨0, {}, some "D", .identifier "V"⟩

theorem branches_unhidden_traversalSample :
  let V := traversalSample.object
  let W : Node := ⟨0, {}, some "D", .qualified "D" V⟩
  let hidden := surround traversalSample.layers ⟨0, {}, some "D", .conditional V V W⟩
  (V.type = some "D" ∧ W.type = some "D")
    ∧ (traversalSample.checkMove false hidden = pure true
      ∧ traversalSample.checkMove false (surround traversalSample.layers V) = pure true
      ∧ traversalSample.checkMove false (surround traversalSample.layers W) = pure true)
    ∧ (traversalSample.checkLoan false hidden = pure true
      ∧ traversalSample.checkLoan false (surround traversalSample.layers V) = pure true
      ∧ traversalSample.checkLoan false (surround traversalSample.layers W) = pure true)
    ∧ traversalSample.isRootedAt (some "V") hidden = .ok true
      ∧ traversalSample.isRootedAt (some "V") (surround traversalSample.layers V) = .ok true
      ∧ traversalSample.isRootedAt (some "V") (surround traversalSample.layers W) = .ok true
  := by
  intro V W hidden
  have hV : V.type = some "D" := rfl
  have hW : W.type = some "D" := rfl
  have hm : traversalSample.checkMove false hidden = pure true := rfl
  have hl : traversalSample.checkLoan false hidden = pure true := rfl
  have hr : traversalSample.isRootedAt (some "V") hidden = .ok true := rfl
  exact ⟨⟨hV, hW⟩, ⟨hm, ((branches_unhidden _ hV hW).1 false).1 hm⟩,
    ⟨hl, (branches_unhidden _ hV hW).2.1 false hl⟩, hr, (branches_unhidden _ hV hW).2.2 "V" hr⟩

end Setting

end Conformance
