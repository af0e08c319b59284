import Conformance.Proofs.Excision
import Conformance.Proofs.Support

/-!
# Settled runs

In a settled run whatever is upheld and began only once is supported.  A run over a program
is settled at each stage.  What a stage does is a chain of a few kinds of changes, so facts
about stages are proved for `Moves`, one kind of change at a time.
-/

namespace Conformance

namespace Node

theorem bodiesOf_append (ns ms : List Node) :
  bodiesOf (ns ++ ms) = bodiesOf ns ++ bodiesOf ms
  := by
  induction ns with
  | nil => rfl
  | cons n ns ih => simp [bodiesOf, ih]

end Node

theorem Run.upholds_empty (m : Matter) :
  ({} : Verdicts).upholds m = false
  := by cases m <;> simp [Verdicts.upholds]

theorem Run.coherent_empty :
  ({} : Run).Coherent
  := by constructor <;> simp [Run.upholds_empty, Verdicts.dependentsOf]

theorem Run.Coherent.take {r : Run} (h : r.Coherent) (t : Task) (b : Backlog) :
  (r.take t b).Coherent
  := by
  have hb : (r.rule fun v => { v with backlog := b }).Coherent := by
    obtain ⟨h₁, h₂, h₃, h₄, h₅, h₆, h₇⟩ := h
    exact ⟨h₁, h₂, fun m hm => h₃ m (by cases m <;> exact hm), h₄, h₅, h₆, h₇⟩
  exact hb.note (by simp) (by simp) (by simp [Event.owner])

namespace Setting

variable (S : Setting)

/-- What a run does while no matter is under way whose verdict can be withdrawn, along with
the bodies that are gone through. -/
inductive Moves : List (EntityId × List Node) → Run → Run → Prop
  | same {r r' : Run} (h : r.Same r') : Moves [] r r'
  | take {t : Task} {b : Backlog} {r : Run} (hn : r.verdicts.backlog.next? = some (t, b)) :
    Moves [] r (r.take t b)
  | pass (scope : Scope) (path : List Step) {bs : List (EntityId × List Node)} {r r' : Run}
      (hm : ∀ m, scope.matter = some m → m.isRevocable = false)
      (hb : List.Forall₂ S.IsBody (path.filterMap Step.body?) bs)
      (p : S.Passes (.steps scope path) r r') : Moves bs r r'
  | strike {id : EntityId} {r r' : Run} (hs : r.Strikes id r') : Moves [] r r'
  | trans {bs cs : List (EntityId × List Node)} {r r₁ r' : Run} (h : Moves bs r r₁)
      (h' : Moves cs r₁ r') : Moves (bs ++ cs) r r'

variable {S}

theorem Moves.decision {id : EntityId} {r r' : Run} (d : S.Passes (.decision id) r r') :
  S.Moves [] r r'
  := .pass {} [.decide id] (by simp) .nil (.decide d .nil)

theorem regular_contextItem (n : Node) :
  S.Regular {} (fun _ => False) [] (S.contextItem n)
  := by
  unfold contextItem
  split
  · exact .decide _ nofun
  · exact regular_pure ()
  · exact regular_pragma _ _ _
  · exact regular_fail _

/-- The content of a unit. -/
theorem regular_outside (n : Node) :
  S.Regular {} (fun _ => False) n.bodies (S.item {} n)
  := regular_item (by simp) n {} rfl

theorem regular_aspectsInquiry (t : TypeFacet) :
  S.Regular {} (fun _ => False) [] (S.aspectsInquiry t)
  := regular_expressions t.aspects _

theorem moves_of_stage {ns : List Node} {r r' : Run} (h : S.Stage ns r r') :
  S.Moves (Node.bodiesOf ns) r r'
  := by
  cases h with
  | @context n path r r₁ l p =>
    have hp : S.Moves [] _ r₁ := .pass {} _ (by simp) ((regular_contextItem n).bodies l) p
    exact .trans (.same (r.same_cause none)) (.trans hp (.same (r₁.same_cause _)))
  | @unit n path r r' l p =>
    have hn : Node.bodiesOf [n] = n.bodies := List.append_nil _
    rw [hn]
    exact .pass {} _ (by simp) ((regular_outside n).bodies l) p
  | declaration hn d => exact .trans (.take hn) (.decision d)
  | aspectsOff hn => exact .take hn
  | @aspects type anchor backlog e t mode attribution path r r₁ hn _ _ _ _ l p =>
    have hb := (regular_aspectsInquiry t).bodies l
    have hm (m : Matter) (hs : (aspectsScope type anchor mode attribution).matter = some m) :
        m.isRevocable = false := by
      obtain rfl := Option.some.inj hs
      rfl
    have hs : r₁.Same (r₁.concludeAspects type) := by
      unfold Run.concludeAspects
      split
      · exact ⟨rfl, rfl, rfl, rfl, rfl, .refl _⟩
      · apply Run.Same.refl
    have h₁ : S.Moves [] _ r₁ := .trans (.trans (.take hn) (.same (Run.same_cause _ none)))
      (.pass _ _ hm hb p)
    exact .trans h₁ (.trans (.same hs) (.same (Run.same_cause _ _)))
  | completionVoid hn _ => exact .take hn
  | completion hn _ _ d _ =>
    exact .trans (.trans (.take hn) (.decision d)) (.same ⟨rfl, rfl, rfl, rfl, rfl, .refl _⟩)
  | @completionFailed access type backlog cause r r₁ hn _ _ d _ _ =>
    have h₁ : S.Moves [] _ r₁ := .trans (.take hn) (.decision d)
    obtain ⟨he, -⟩ | ⟨-, hx⟩ := r₁.excises_takeBack S.program access type cause
    · rwa [he]
    · exact .trans h₁ (.strike hx.strikes)

theorem moves_of_proceeds {ns : List Node} {r r' : Run} (h : S.Proceeds ns r r') :
  S.Moves (Node.bodiesOf ns) r r'
  := by
  induction h with
  | nil => exact .same (.refl _)
  | cons h _ ih =>
    rw [Node.bodiesOf_append]
    exact .trans (moves_of_stage h) ih

/-! ### Settled runs -/

/-- Whatever is upheld and began only once is supported. -/
structure Settled (S : Setting) (r : Run) : Prop where
  coherent : r.Coherent
  supported : ∀ m, r.rounds m ≤ 1 → r.verdicts.upholds m → S.Supported r m

theorem settled_empty :
  S.Settled {}
  := by
  refine ⟨Run.coherent_empty, fun m _ hm => ?_⟩
  rw [Run.upholds_empty] at hm
  cases hm

theorem Settled.same {r r' : Run} (h : S.Settled r) (hs : r.Same r') :
  S.Settled r'
  := by
  constructor
  · exact hs.coherent h.coherent
  · intro m h₁ hm
    rw [Run.rounds_eq_of_journal hs.journal] at h₁
    rw [hs.upholds] at hm
    exact (h.supported m h₁ hm).same h.coherent hs

theorem under_of_not_isRevocable {scope : Scope}
    (hm : ∀ m, scope.matter = some m → m.isRevocable = false) (r : Run) :
  r.Under scope.matter
  := by
  intro m hs hr
  rw [hm m hs] at hr
  cases hr

theorem Settled.passes {scope : Scope} {path : List Step} {r r' : Run} (h : S.Settled r)
    (hm : ∀ m, scope.matter = some m → m.isRevocable = false)
    (hp : Course.Proper S (.steps scope path)) (p : S.Passes (.steps scope path) r r') :
  S.Settled r'
  := by
  have hu := under_of_not_isRevocable hm r
  obtain ⟨new, ha, hr', -⟩ := orderly_of_passes p h.coherent hu
  refine ⟨hr', fun m h₁ hu' => ?_⟩
  by_cases h₀ : r.rounds m = 0
  · exact settling_of_passes p hp h.coherent hu m h₀ h₁ hu'
  · have hle := Run.rounds_le_of_journal ha.journal m
    have hn := ha.not_began (m := m) (by omega)
    have hb : .began m ∈ r.journal := Run.rounds_pos_iff.1 (by omega)
    have hrev := Verdicts.isRevocable_of_upholds hu'
    have hs := h.supported m (by omega) (ha.upholds_of_began h.coherent hb hn hu')
    apply hs.advances h.coherent hrev ha _ hn
    intro hs'
    rw [hm m hs'] at hrev
    cases hrev

theorem Settled.strikes {id : EntityId} {r r' : Run} (h : S.Settled r)
    (hs : r.Strikes id r') :
  S.Settled r'
  := by
  refine ⟨h.coherent.strikes hs, fun m h₁ hm => ?_⟩
  have hle : r.rounds m ≤ r'.rounds m := by
    obtain ⟨new, hj, -⟩ := hs.journal
    exact Run.rounds_le_of_journal hj m
  exact (h.supported m (by omega) (hs.upholds m hm)).strikes h.coherent hs hm

theorem Settled.take {r : Run} {t : Task} {b : Backlog} (h : S.Settled r)
    (hn : r.verdicts.backlog.next? = some (t, b)) :
  S.Settled (r.take t b)
  := by
  refine ⟨h.coherent.take t b, fun m h₁ hm => ?_⟩
  have hj : (r.take t b).journal = [.served t] ++ r.journal := rfl
  have hle := Run.rounds_le_of_journal hj m
  have hs := h.supported m (by omega) (by cases m <;> exact hm)
  apply hs.later _ h.coherent hj (by simp [Event.owner]) fun _ => Or.inl
  · intro t' ht
    exact (Backlog.takes_of_next? hn t').trans ht
  · intro x hx
    rw [hj] at hx
    exact hs.choose_spec.choose_spec.rests x (by simpa using hx)

/-- A run stays settled. -/
theorem settled_of_moves {bs : List (EntityId × List Node)} {r r' : Run}
    (h : S.Moves bs r r') (hr : S.Settled r) :
  S.Settled r'
  := by
  induction h with
  | same h => exact hr.same h
  | take hn => exact hr.take hn
  | pass _ _ hm hb p => exact hr.passes hm (proper_of_forall₂ hb) p
  | strike hs => exact hr.strikes hs
  | trans _ _ ih ih' => exact ih' (ih hr)

theorem settled_of_wholeProgram {r : Run} (h : S.wholeProgram {} = .ok () r) :
  S.Settled r
  := by
  obtain ⟨r₁, hp, -, rfl⟩ := proceeds_wholeProgram h
  exact (settled_of_moves (moves_of_proceeds hp) settled_empty).same
    ⟨rfl, rfl, rfl, rfl, rfl, .refl _⟩

end Setting

end Conformance
