import Conformance.Proofs.Fit
import Conformance.Proofs.Reordering

/-!
# Layers of paths

A path is an object inside of any number of layers: selections, indexing, slices,
dereferences, conversions, qualifications, and calls of traversal functions.  Where a
conditional expression is reached, a path goes on into both of its values.  A layer is a
path as far as its inner part is one, and its summary extends the summary of the inner part.
-/

namespace Conformance

theorem Answer.and_eq_ok {x y : Answer Bool} :
  (do if ← x then y else return false) = .ok true ↔ x = .ok true ∧ y = .ok true
  := by
  rw [Answer.bind_eq_ok]
  constructor
  · rintro ⟨b, hb, h⟩
    cases b with
    | true => exact ⟨hb, h⟩
    | false => simp at h
  · rintro ⟨hx, hy⟩
    exact ⟨true, hx, hy⟩

namespace PathSummary

theorem extend_assoc (s t u : PathSummary) :
  (s.extend t).extend u = s.extend (t.extend u)
  := by simp [extend, Option.or_assoc, Bool.or_assoc]

@[simp]
theorem empty_extend (s : PathSummary) :
  ({} : PathSummary).extend s = s
  := by simp [extend]

theorem merge_object_eq_some {s t : PathSummary} {o : EntityId} :
  (s.merge t).object = some o ↔ s.object = some o ∧ t.object = some o
  := by
  simp only [merge]
  split
  · next h => rw [← h, and_self]
  · next h =>
    simp only [reduceCtorEq, false_iff]
    exact fun ⟨hs, ht⟩ => h (hs.trans ht.symm)

theorem extend_dereference (s t : PathSummary) (kind : Option AccessKind) :
  (s.extend t).dereference kind = s.extend (t.dereference kind)
  := by rcases kind with _ | _ | _ | _ <;> simp [extend, dereference]

end PathSummary

namespace Setting

/-! ### Walking inwards -/

section

variable {S : Setting}

theorem summarizeRoot_extend (s t : PathSummary) (id : EntityId) :
  S.summarizeRoot (s.extend t) id = s.extend <$> S.summarizeRoot t id
  := by simp [summarizeRoot, PathSummary.extend, Bool.or_assoc]

theorem summarizeTraversal_extend (s t : PathSummary) (callee : EntityId) :
  S.summarizeTraversal (s.extend t) callee = s.extend <$> S.summarizeTraversal t callee
  := by simp [summarizeTraversal, PathSummary.extend, Bool.or_assoc]

/-- What lies further out has no influence on the walk inwards. -/
theorem summarizeFrom_extend (s t : PathSummary) (n : Node) :
  S.summarizeFrom (s.extend t) n = s.extend <$> S.summarizeFrom t n
  := by
  fun_induction S.summarizeFrom t n with
  | case1 => simp only [summarizeFrom, summarizeRoot_extend]
  | case2 _ _ _ _ _ _ ih | case3 _ _ _ _ _ _ ih | case6 _ _ _ _ _ _ ih
  | case7 _ _ _ _ _ _ ih => exact ih
  | case4 _ _ _ _ _ _ ih => simpa [summarizeFrom, PathSummary.extend] using ih
  | case5 _ _ _ _ pointer ih =>
    simp only [summarizeFrom, map_bind, PathSummary.extend_dereference, ih]
  | case8 _ _ _ _ callee arguments ih =>
    cases arguments with
    | nil => simp [summarizeFrom, summarizeTraversal_extend, map_bind, apply_ite]
    | cons first rest =>
      simp [summarizeFrom, summarizeTraversal_extend, map_bind, apply_ite, ih]
  | case9 => simp [summarizeFrom, PathSummary.extend_assoc]
  | case10 => simp_all [summarizeFrom]

/-- The summary of a path whose outer part says nothing about the root. -/
theorem summarizeFrom_eq {s : PathSummary} (hs : s.extend {} = s) (n : Node) :
  S.summarizeFrom s n = s.extend <$> S.summarize n
  := by
  rw [summarize, ← summarizeFrom_extend, hs]

end

/-! ### Conversions -/

section

variable {S : Setting}

theorem isPath_unconverted (n : Node) :
  S.isPath n.unconverted = S.isPath n
  := by
  fun_induction Node.unconverted n with
  | case1 _ _ _ _ _ ih | case2 _ _ _ _ _ ih => exact ih
  | case3 => rfl

theorem summarize_unconverted (n : Node) :
  S.summarize n.unconverted = S.summarize n
  := by
  fun_induction Node.unconverted n with
  | case1 _ _ _ _ _ ih | case2 _ _ _ _ _ ih => exact ih
  | case3 => rfl

end

/-! ### Layers -/

/-- What stands around the inner part of a path. -/
inductive Gap (S : Setting) where
  | selected (component : EntityId)
  | indexed (indices : List Node)
  | slice (bounds : Node)
  | dereference
  | conversion (target : EntityId)
  | qualified (target : EntityId)
  /-- The inner part is the first argument of a traversal function. -/
  | traversal (callee : EntityId) (others : List Node) (h : S.callsTraversal callee = .ok true)

/-- A node of a path without the inner part of the path. -/
structure Layer (S : Setting) where
  id : NodeId
  location : Location
  type : Option EntityId
  gap : S.Gap

variable {S : Setting}

/-- The shape with an inner part put in. -/
def Gap.fill : S.Gap → Node → Shape Node
  | .selected component, n => .selected n component
  | .indexed indices, n => .indexed n indices
  | .slice bounds, n => .slice n bounds
  | .dereference, n => .dereference n
  | .conversion target, n => .conversion target n
  | .qualified target, n => .qualified target n
  | .traversal callee others _, n => .call callee (n :: others)

/-- Whether a layer only changes the static type. -/
def Gap.isConversion : S.Gap → Bool
  | .conversion _ | .qualified _ => true
  | _ => false

/-- The path that a layer makes of its inner part. -/
def Layer.around (l : S.Layer) (n : Node) : Node := ⟨l.id, l.location, l.type, l.gap.fill n⟩

/-- What a layer adds to the summary of an inner part with the given static type. -/
def Layer.crossing (l : S.Layer) (type : Option EntityId) : Answer PathSummary :=
  match l.gap with
  | .slice _ => return { crossesSlice := true }
  | .dereference => return PathSummary.dereference {} (← S.accessKind? type)
  | .traversal callee _ _ => S.summarizeTraversal {} callee
  | _ => return {}

theorem isPath_around (l : S.Layer) (n : Node) :
  S.isPath (l.around n) = S.isPath n
  := by
  obtain ⟨id, location, type, gap⟩ := l
  cases gap with
  | traversal callee others h =>
    change (S.callsTraversal callee >>= fun b => if b then S.isPath n else pure false) = _
    rw [h]
    rfl
  | _ => rfl

/-- A layer stands for an existing value, unless it converts something that does not. -/
theorem denotesObject_around (l : S.Layer) (n : Node) :
  S.denotesObject (l.around n) = if l.gap.isConversion then S.denotesObject n else .ok true
  := by
  obtain ⟨id, location, type, gap⟩ := l
  cases gap with
  | traversal callee others h => exact h
  | _ => rfl

theorem summarizeTraversal_outer {callee : EntityId} {s : PathSummary}
    (h : S.summarizeTraversal {} callee = .ok s) :
  s.extend {} = s
  := by
  obtain ⟨f, -, h⟩ := Answer.bind_eq_ok.1 h
  obtain ⟨kind, -, h⟩ := Answer.bind_eq_ok.1 h
  obtain rfl := Answer.pure_eq_ok.1 h
  simp [PathSummary.extend]

/-- The summary of a layer extends the summary of its inner part. -/
theorem summarize_around (l : S.Layer) (n : Node) :
  S.summarize (l.around n) = do
    let s ← l.crossing n.type
    return s.extend (← S.summarize n)
  := by
  obtain ⟨id, location, type, gap⟩ := l
  cases gap with
  | slice bounds =>
    change S.summarizeFrom { crossesSlice := true } n = _
    rw [summarizeFrom_eq rfl]
    simp [Layer.crossing]
  | dereference =>
    change (S.accessKind? n.type >>= fun kind =>
      S.summarizeFrom (PathSummary.dereference {} kind) n) = _
    have outer (kind : Option AccessKind) :
        (PathSummary.dereference {} kind).extend {} = PathSummary.dereference {} kind := by
      rcases kind with _ | _ | _ | _ <;> rfl
    simp only [summarizeFrom_eq (outer _), Layer.crossing]
    simp
  | traversal callee others h =>
    change (S.callsTraversal callee >>= fun b =>
      if b then S.summarizeTraversal {} callee >>= fun s => S.summarizeFrom s n
      else pure {}) = S.summarizeTraversal {} callee >>= fun s => _
    rw [h]
    cases ht : S.summarizeTraversal {} callee with
    | error fault => rfl
    | ok s =>
      exact (summarizeFrom_eq (summarizeTraversal_outer ht) n).trans (map_eq_pure_bind _ _)
  | _ =>
    change S.summarizeFrom {} n = (fun s => PathSummary.extend {} s) <$> S.summarizeFrom {} n
    simp

section

variable {id : NodeId} {location : Location} {type : Option EntityId}
  {condition thenValue elseValue : Node}

theorem summarize_conditional :
  S.summarize ⟨id, location, type, .conditional condition thenValue elseValue⟩ = do
    let a ← S.summarize thenValue
    let b ← S.summarize elseValue
    return a.merge b
  := by simp [summarize, summarizeFrom]

theorem isPath_conditional :
  S.isPath ⟨id, location, type, .conditional condition thenValue elseValue⟩ = .ok true
    ↔ S.isPath thenValue = .ok true ∧ S.isPath elseValue = .ok true
  := Answer.and_eq_ok

end

/-- What holds of objects and null, and goes over to layers and conditional expressions, holds
of all paths. -/
@[elab_as_elim]
theorem isPath_induction {P : Node → Prop}
    (object : ∀ id location type entity, S.isObject entity = .ok true →
      P ⟨id, location, type, .identifier entity⟩)
    (null : ∀ id location type, P ⟨id, location, type, .literal .null⟩)
    (layer : ∀ (l : S.Layer) n, S.isPath n = .ok true → P n → P (l.around n))
    (conditional : ∀ id location type condition thenValue elseValue,
      S.isPath thenValue = .ok true → S.isPath elseValue = .ok true → P thenValue →
      P elseValue → P ⟨id, location, type, .conditional condition thenValue elseValue⟩)
    {n : Node} (h : S.isPath n = .ok true) :
  P n
  := by
  fun_induction S.isPath n with
  | case1 id location type entity => exact object id location type entity h
  | case2 id location type whole component ih =>
    exact layer ⟨id, location, type, .selected component⟩ whole h (ih h)
  | case3 id location type whole indices ih =>
    exact layer ⟨id, location, type, .indexed indices⟩ whole h (ih h)
  | case4 id location type whole bounds ih =>
    exact layer ⟨id, location, type, .slice bounds⟩ whole h (ih h)
  | case5 id location type pointer ih =>
    exact layer ⟨id, location, type, .dereference⟩ pointer h (ih h)
  | case6 id location type target operand ih =>
    exact layer ⟨id, location, type, .conversion target⟩ operand h (ih h)
  | case7 id location type target operand ih =>
    exact layer ⟨id, location, type, .qualified target⟩ operand h (ih h)
  | case8 id location type callee arguments ih =>
    obtain ⟨b, hb, h⟩ := Answer.bind_eq_ok.1 h
    cases b with
    | false => simp at h
    | true =>
      cases arguments with
      | nil => simp at h
      | cons first rest =>
        exact layer ⟨id, location, type, .traversal callee rest hb⟩ first h (ih h)
  | case9 id location type condition thenValue elseValue iha ihb =>
    obtain ⟨ha, hb⟩ := Answer.and_eq_ok.1 h
    exact conditional id location type condition thenValue elseValue ha hb (iha ha) (ihb hb)
  | case10 id location type => exact null id location type
  | case11 => simp at h

end Setting

end Conformance
