import Conformance.Proofs.Summary

/-!
# Slices on the way to a source

What lies behind a slice is never borrowed, wherever on a spine the slice is.  Whether it is
moved does not depend on the slice: a move is refused for other reasons only.
-/

namespace Conformance

namespace Node

theorem allHold_eq_false {holds : Node → Answer Bool} {ns : List Node}
    (h : ∀ n ∈ ns, ∃ b, holds n = .ok b) :
  allHold holds ns = .ok false ↔ ∃ n ∈ ns, holds n = .ok false
  := by
  induction ns with
  | nil => simp [allHold]
  | cons n ns ih =>
    obtain ⟨hn, hns⟩ := List.forall_mem_cons.1 h
    obtain ⟨b, hb⟩ := hn
    rw [allHold, List.exists_mem_cons_iff, ← ih hns, hb]
    cases b with
    | true => exact (or_iff_right (by simp)).symm
    | false => exact iff_of_true rfl (Or.inl rfl)

end Node

namespace Setting

open Inquiry

/-- What keeps an existing value from being moved, into a constant or into a variable. -/
def BarsMove (S : Setting) (toConstant : Bool) (n : Node) : Prop :=
  S.isPath n = .ok false
    ∨ (∃ spine ∈ n.spines, S.NamesVolatile spine.leaf)
    ∨ toConstant = false ∧ ∃ spine ∈ n.spines, ∃ c ∈ spine.crossed, S.CrossesConstant c

variable {S : Setting} {n : Node}

/-! ### Questions about outcomes -/

/-- The lookups of an expression succeed for its outcomes. -/
theorem findsSpines_outcomes (h : S.FindsSpines n) :
  ∀ outcome ∈ n.outcomes, S.FindsSpines outcome
  := by
  have finds (whole n : Node) (hw : S.FindsSpines whole) (hn : S.FindsSpines n) :
      ∀ outcome ∈ Node.outcomesOf whole n, S.FindsSpines outcome := by
    fun_induction Node.outcomesOf whole n with
    | case1 _ _ _ _ _ _ ih | case2 _ _ _ _ _ _ ih =>
      exact ih hw ((findsSpines_through rfl).1 hn).2
    | case3 _ _ _ _ _ _ _ iha ihb =>
      obtain ⟨ha, hb⟩ := findsSpines_conditional.1 hn
      exact List.forall_mem_append.2 ⟨iha ha ha, ihb hb hb⟩
    | case4 => exact List.forall_mem_singleton.2 hw
  exact finds n n h h

/-- Null is a path that crosses nothing. -/
theorem summarize_of_isNull (h : n.isNull = true) :
  S.isPath n = .ok true ∧ S.summarize n = .ok {}
  := by
  obtain ⟨id, location, type, shape⟩ := n
  unfold Node.isNull at h
  split at h
  · next hs =>
    change shape = _ at hs
    subst hs
    exact ⟨rfl, rfl⟩
  · cases h

/-- What lies behind a slice may not be borrowed. -/
theorem isLendable_of_slice (hr : S.FindsSpines n)
    (hslice : ∃ spine ∈ n.spines, ∃ c ∈ spine.crossed, c.isSlice = true) :
  S.isLendable false n = .ok false
  := by
  have crosses (hp : S.isPath n = .ok true) :
      ∃ s, S.summarize n = .ok s ∧ s.crossesSlice = true := by
    obtain ⟨s, hs, h⟩ := exists_summarizes hp hr
    exact ⟨s, hs, h.crossesSlice.2 hslice⟩
  simp only [isLendable, isPath_unconverted, summarize_unconverted]
  cases hn : n.unconverted.isNull with
  | true =>
    obtain ⟨hp, hs⟩ := summarize_of_isNull (S := S) hn
    rw [isPath_unconverted] at hp
    rw [summarize_unconverted] at hs
    obtain ⟨s, hs', hcrosses⟩ := crosses hp
    obtain rfl := Except.ok.inj (hs.symm.trans hs')
    cases hcrosses
  | false =>
    obtain ⟨b, hp⟩ := exists_isPath hr
    cases b with
    | false => rw [hp]; rfl
    | true =>
      obtain ⟨s, hs, hcrosses⟩ := crosses hp
      refine Answer.bind_eq_ok.2 ⟨true, hp, Answer.bind_eq_ok.2 ⟨s, hs, ?_⟩⟩
      simp [PathSummary.allowsLoan, hcrosses]

/-- When an outcome may not be moved. -/
theorem isMovable_eq_false (hr : S.FindsSpines n) (toConstant : Bool) :
  S.isMovable toConstant n = .ok false
    ↔ S.denotesObject n = .ok true ∧ S.BarsMove toConstant n
  := by
  obtain ⟨b, hn⟩ := exists_denotesObject hr
  obtain ⟨c, hp⟩ := exists_isPath hr
  unfold isMovable
  rw [BarsMove, hn, hp]
  cases b with
  | false => exact iff_of_false nofun nofun
  | true =>
    cases c with
    | false => exact iff_of_true rfl ⟨rfl, Or.inl rfl⟩
    | true =>
      obtain ⟨s, hs, h⟩ := exists_summarizes hp hr
      rw [hs, ← h.volatileOrConcurrent, ← h.crossesConstantAccess]
      change (Except.ok _ : Answer Bool) = .ok false ↔ _
      cases s.volatileOrConcurrent <;> cases toConstant <;> simp

/-- What is asked about the summary of a path is answered. -/
theorem exists_holds (hr : S.FindsSpines n) (holds : PathSummary → Bool) :
  ∃ b, (do if ← S.isPath n then return holds (← S.summarize n) else return false) = .ok b
  := by
  refine Answer.exists_ite (exists_isPath hr) (fun hp => ?_) ⟨false, rfl⟩
  obtain ⟨s, hs, -⟩ := exists_summarizes hp hr
  exact ⟨holds s, Answer.bind_eq_ok.2 ⟨s, hs, rfl⟩⟩

theorem exists_isLendable (hr : S.FindsSpines n) (observe : Bool) :
  ∃ b, S.isLendable observe n = .ok b
  := by
  simp only [isLendable, isPath_unconverted, summarize_unconverted]
  cases n.unconverted.isNull with
  | true => exact ⟨true, rfl⟩
  | false => exact exists_holds hr (·.allowsLoan observe)

theorem exists_isMovable (hr : S.FindsSpines n) (toConstant : Bool) :
  ∃ b, S.isMovable toConstant n = .ok b
  := Answer.exists_ite (exists_denotesObject hr) (fun _ => exists_holds hr _) ⟨true, rfl⟩

/-! ### Checks of sources -/

/-- A check finds its violation and fails if what it asks for does not hold. -/
theorem require_eq_refuse {x : Answer Bool} {site : Site} {v : Violation} :
  (do
      if ← x then return true
      else
        violation site v
        return false : Inquiry Bool) = (do violation site v; return false)
    ↔ x = .ok false
  := by
  rcases x with fault | _ | _
  · exact iff_of_false nofun nofun
  · exact iff_of_true rfl rfl
  · exact iff_of_false nofun nofun

/-- A source that crosses a slice is refused where it is to be borrowed.  Where it is to be
moved, the slice does not matter: it is refused exactly if something else bars the move of an
outcome that stands for an existing value. -/
theorem slices_not_lent (hr : S.FindsSpines n)
    (hslice : ∃ branch ∈ n.outcomes, ∃ spine ∈ branch.spines, ∃ c ∈ spine.crossed,
      c.isSlice = true) :
  S.checkLoan false n = (do violation n.site .borrowSource; return false)
    ∧ ∀ toConstant,
      S.checkMove toConstant n = (do violation n.site .moveSource; return false)
        ↔ ∃ outcome ∈ n.outcomes, S.denotesObject outcome = .ok true
          ∧ S.BarsMove toConstant outcome
  := by
  have hro := findsSpines_outcomes hr
  constructor
  · refine require_eq_refuse.2 ?_
    rw [isLoanSource, Node.allHold_eq_false fun o ho => exists_isLendable (hro o ho) false]
    obtain ⟨branch, hb, hslice⟩ := hslice
    exact ⟨branch, hb, isLendable_of_slice (hro branch hb) hslice⟩
  · intro toConstant
    refine require_eq_refuse.trans ?_
    rw [isMoveSource, Node.allHold_eq_false fun o ho => exists_isMovable (hro o ho) toConstant]
    exact exists_congr fun o => and_congr_right fun ho => isMovable_eq_false (hro o ho) toConstant

/-- An array of access values. -/
def partSample : Setting :=
  (ofParts?
    [{ name := "T", kind := .type { definition := .signed 1 9 } },
      { name := "D", kind := .type { definition := .access { designated := "T" } } },
      { name := "A", kind := .type { definition := .array ["T"] "D" } },
      { name := "V", kind := .object { type := "A" } }] []).get
    (by decide +kernel)

/-- An element of a slice of the array. -/
def partSample.part : Node :=
  let one : Node := ⟨0, {}, some "T", .literal (.integer 1)⟩
  let slice : Node :=
    ⟨0, {}, some "A", .slice ⟨0, {}, some "A", .identifier "V"⟩ (.plain (.range one one))⟩
  ⟨0, {}, some "D", .indexed slice [one]⟩

/-- An element of a slice, which is not lent, is moved. -/
theorem slice_moved_partSample :
  partSample.FindsSpines partSample.part
    ∧ partSample.denotesObject partSample.part = .ok true
    ∧ (∃ branch ∈ partSample.part.outcomes, ∃ spine ∈ branch.spines, ∃ c ∈ spine.crossed,
      c.isSlice = true)
    ∧ ∀ toConstant, partSample.checkMove toConstant partSample.part = pure true
  := by
  refine ⟨by decide +kernel, rfl, by decide, ?_⟩
  rintro (_ | _) <;> rfl

theorem slices_not_lent_partSample :
  (partSample.FindsSpines partSample.part
      ∧ ∃ branch ∈ partSample.part.outcomes, ∃ spine ∈ branch.spines, ∃ c ∈ spine.crossed,
        c.isSlice = true)
    ∧ partSample.checkLoan false partSample.part
      = (do violation partSample.part.site .borrowSource; return false)
    ∧ ¬ ∃ outcome ∈ partSample.part.outcomes, partSample.denotesObject outcome = .ok true
        ∧ partSample.BarsMove false outcome
  := by
  have hr : partSample.FindsSpines partSample.part := by decide +kernel
  have hslice : ∃ branch ∈ partSample.part.outcomes, ∃ spine ∈ branch.spines,
      ∃ c ∈ spine.crossed, c.isSlice = true := by decide
  obtain ⟨hloan, hmove⟩ := slices_not_lent hr hslice
  refine ⟨⟨hr, hslice⟩, hloan, fun h => ?_⟩
  have hm : partSample.checkMove false partSample.part = pure true := rfl
  cases hm.symm.trans ((hmove false).2 h)

end Setting

end Conformance
