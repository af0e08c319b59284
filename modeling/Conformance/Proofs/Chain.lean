import Mathlib.Logic.Relation
import Mathlib.Data.List.Basic

/-!
# Chains

Some links of a program lead from an element to at most one other: from a type to the type that
it stands for, from an entity to the scope that it is declared in.  A chain follows them as far
as they go.  It ends, or it is cyclic: it comes to an element that leads back to itself.

Where only finitely many elements have a link, a chain that is not cyclic ends before it passes
more of them: `endsWithin_of_not_cyclic`.
-/

namespace Conformance

namespace Chain

open Relation (ReflTransGen TransGen)

variable {α : Type} {r : α → α → Prop} {a b c : α}

/-- The chain from `a` comes to an element that leads back to itself. -/
def Cyclic (r : α → α → Prop) (a : α) : Prop := ∃ b, ReflTransGen r a b ∧ TransGen r b b

/-- The chain from `a` ends at `b`. -/
structure EndsAt (r : α → α → Prop) (a b : α) : Prop where
  leads : ReflTransGen r a b
  last : ∀ c, ¬ r b c

/-- The chain from an element ends, and has at most `n` elements. -/
inductive EndsWithin (r : α → α → Prop) : Nat → α → Prop where
  | last {n : Nat} {a : α} (h : ∀ b, ¬ r a b) : EndsWithin r (n + 1) a
  | link {n : Nat} {a b : α} (hab : r a b) (h : EndsWithin r n b) : EndsWithin r (n + 1) a

/-! ### Cycles -/

theorem Cyclic.head (hab : r a b) (h : Cyclic r b) :
  Cyclic r a
  := by
  obtain ⟨c, hbc, hc⟩ := h
  exact ⟨c, .head hab hbc, hc⟩

/-- The first link of a cyclic chain leads to a cyclic chain. -/
theorem Cyclic.exists_link (h : Cyclic r a) :
  ∃ b, r a b ∧ Cyclic r b
  := by
  obtain ⟨c, hac, hc⟩ := h
  obtain rfl | ⟨b, hab, hbc⟩ := hac.cases_head
  · obtain ⟨b, hab, hba⟩ := TransGen.head'_iff.1 hc
    exact ⟨b, hab, a, hba, hc⟩
  · exact ⟨b, hab, c, hbc, hc⟩

theorem EndsAt.head (hab : r a b) (h : EndsAt r b c) :
  EndsAt r a c
  := ⟨.head hab h.leads, h.last⟩

section

variable (hr : Relator.RightUnique r)

include hr

/-- A chain that ends goes on to its end from each element that it comes to. -/
theorem EndsAt.of_leads (h : EndsAt r a c) (hab : ReflTransGen r a b) :
  EndsAt r b c
  := by
  obtain hbc | hcb := ReflTransGen.total_of_right_unique hr hab h.leads
  · exact ⟨hbc, h.last⟩
  · obtain rfl | ⟨d, hcd, -⟩ := hcb.cases_head
    · exact ⟨.refl, h.last⟩
    · exact (h.last d hcd).elim

/-- A chain has at most one end. -/
theorem EndsAt.unique (h : EndsAt r a b) (h' : EndsAt r a c) :
  b = c
  := by
  obtain rfl | ⟨d, hbd, -⟩ := (h'.of_leads hr h.leads).leads.cases_head
  · rfl
  · exact (h.last d hbd).elim

/-- A chain that ends is not cyclic. -/
theorem EndsAt.not_cyclic (h : EndsAt r a b) :
  ¬ Cyclic r a
  := by
  obtain ⟨hab, hlast⟩ := h
  induction hab using ReflTransGen.head_induction_on with
  | refl =>
    intro hc
    obtain ⟨d, hd, -⟩ := hc.exists_link
    exact hlast d hd
  | head hac _ ih =>
    intro hc
    obtain ⟨d, hd, hc⟩ := hc.exists_link
    obtain rfl := hr hac hd
    exact ih hc

end

/-! ### Finitely many links -/

/-- A chain that is not cyclic comes to a new element at each link, so it ends if there are only
finitely many elements that have one. -/
theorem endsWithin_of_not_cyclic {elements : List α}
    (he : ∀ a b, r a b → a ∈ elements) (h : ¬ Cyclic r a) :
  EndsWithin r (elements.length + 1) a
  := by
  have walk (n : Nat) {a : α} {passed : List α} (hn : passed.Nodup) (hp : passed ⊆ elements)
      (hl : ∀ b ∈ passed, TransGen r b a) (hlen : elements.length + 1 = passed.length + n)
      (h : ¬ Cyclic r a) : EndsWithin r n a := by
    induction n generalizing a passed with
    | zero =>
      have := hn.length_le_of_subset hp
      omega
    | succ n ih =>
      by_cases hb : ∃ b, r a b
      · obtain ⟨b, hab⟩ := hb
        have ha : a ∉ passed := fun ha => h ⟨a, .refl, hl a ha⟩
        refine .link hab (@ih b (a :: passed) (List.nodup_cons.2 ⟨ha, hn⟩) ?_ ?_ ?_ ?_)
        · exact List.cons_subset.2 ⟨he a b hab, hp⟩
        · intro c hc
          obtain rfl | hc := List.mem_cons.1 hc
          · exact .single hab
          · exact (hl c hc).tail hab
        · rw [List.length_cons]
          omega
        · exact fun hb => h (hb.head hab)
      · exact .last fun b hab => hb ⟨b, hab⟩
  exact walk _ List.nodup_nil (List.nil_subset _) (by simp) (by simp) h

end Chain

end Conformance
