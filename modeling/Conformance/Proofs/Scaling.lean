import Conformance.Legality.Expression
import Conformance.Proofs.Derivation
import Conformance.Proofs.Fraction

/-!
# Scaling of fixed-point operations

A multiplication or a division of fixed-point values violates the rule of scaling exactly if the
factor between the smalls is neither an integer nor the reciprocal of one: `scaling_exact`.  What
counts are the numbers that the smalls are, whatever terms they are given by and whatever chain of
types leads to them.
-/

namespace Conformance

open Numeral
open Relation (ReflTransGen)

namespace Numeral

/-- The number that a numerator and a denominator make. -/
def ratio (terms : Int × Int) : ℚ := terms.1 / terms.2

theorem eq_ratio_of_fraction? {terms : Int × Int} {q : ℚ}
    (h : fraction? terms.1 terms.2 = some q) :
  q = ratio terms
  := by
  have hd : terms.2 ≠ 0 := by
    intro hd
    rw [fraction?_eq_none_iff.2 hd] at h
    cases h
  exact Option.some.inj (h.symm.trans (fraction?_eq_some terms.1 hd))

/-- An integer or the reciprocal of one. -/
def IsWholeOrReciprocal (q : ℚ) : Prop := (∃ k : ℤ, q = k) ∨ ∃ k : ℤ, q = 1 / k

variable {q : ℚ}

theorem isReciprocal_iff (hq : 0 < q) :
  isReciprocal q ↔ ∃ k : ℤ, q = 1 / k
  := by
  rw [isReciprocal, beq_iff_eq]
  constructor
  · intro h
    refine ⟨q.den, ?_⟩
    have hn := Rat.num_div_den q
    rw [h] at hn
    exact_mod_cast hn.symm
  · rintro ⟨k, rfl⟩
    have hk : 0 < k := by simpa using hq
    rw [one_div, Rat.inv_intCast_num_of_pos hk]

theorem isScale_iff (hq : 0 < q) :
  isScale q ↔ IsWholeOrReciprocal q
  := by rw [isScale, Bool.or_eq_true, isInteger_iff, isReciprocal_iff hq, IsWholeOrReciprocal]

end Numeral

/-! ### Factors -/

theorem scalingFactor?_multiply_comm (l r s : ℚ) :
  BinaryOperator.multiply.scalingFactor? l r s = BinaryOperator.multiply.scalingFactor? r l s
  := by
  simp only [BinaryOperator.scalingFactor?, product_eq_mul]
  rw [mul_comm]

/-- The factor between operands with the smalls `l` and `r` and a result with the small `s`. -/
inductive BinaryOperator.Scales (l r s : ℚ) : BinaryOperator → ℚ → Prop
  | multiply : Scales l r s .multiply (l * r / s)
  | divide : Scales l r s .divide (l / (r * s))

namespace BinaryOperator.Scales

variable {l r s q : ℚ} {operator : BinaryOperator}

theorem factor_eq (h : operator.Scales l r s q) (hr : 0 < r) (hs : 0 < s) :
  operator.scalingFactor? l r s = some q
  := by
  cases h with
  | multiply => rw [scalingFactor?, product_eq_mul, quotient?_eq_some _ hs.ne']
  | divide => rw [scalingFactor?, product_eq_mul, quotient?_eq_some _ (mul_pos hr hs).ne']

theorem pos (h : operator.Scales l r s q) (hl : 0 < l) (hr : 0 < r) (hs : 0 < s) :
  0 < q
  := by
  cases h with
  | multiply => exact div_pos (mul_pos hl hr) hs
  | divide => exact div_pos hl (mul_pos hr hs)

end BinaryOperator.Scales

namespace Setting

open Inquiry

variable (S : Setting)

/-- A type leads along its chain to an ordinary fixed-point type, whose small is given by two
terms that may have common divisors. -/
def HasSmall (type : EntityId) (terms : Int × Int) : Prop :=
  ∃ last t small, ReflTransGen S.StandsFor type last ∧ S.program.typeFacet last = .ok t
    ∧ t.definition = .ordinaryFixed small ∧ fraction? terms.1 terms.2 = some small

/-- The small of the type of a result that is not floating point: one, unless the type leads to an
ordinary fixed-point type. -/
inductive HasResultSmall (type : EntityId) : Int × Int → Prop where
  | fixed {terms : Int × Int} (h : S.HasSmall type terms) : HasResultSmall type terms
  | other {d : TypeDefinition} (hd : S.definition type = .ok d)
    (hfloating : ∀ digits, d ≠ .floating digits) (hfixed : ∀ small, d ≠ .ordinaryFixed small) :
    HasResultSmall type (1, 1)

/-- An operation on fixed-point operands, whose smalls and that of the result are given by terms
and are positive. -/
structure IsFixedPoint (n left right : Node) (l r s : Int × Int) : Prop where
  left : ∃ type, left.type = some type ∧ S.HasSmall type l
  right : ∃ type, right.type = some type ∧ S.HasSmall type r
  result : ∃ type, n.type = some type ∧ S.HasResultSmall type s
  left_pos : 0 < ratio l
  right_pos : 0 < ratio r
  result_pos : 0 < ratio s

variable {S} {S' : Setting} {type : EntityId} {terms l r s l' r' s' : Int × Int}
variable {n left right n' left' right' : Node} {operator : BinaryOperator} {q : ℚ}

theorem HasSmall.definition_eq (h : S.HasSmall type terms) :
  S.definition type = .ok (.ordinaryFixed (ratio terms))
  := by
  obtain ⟨last, t, small, hc, ht, hd, hq⟩ := h
  rw [definition_of_leads hc ht (by rw [hd]; rfl), hd, eq_ratio_of_fraction? hq]

theorem HasSmall.fixedSmall?_eq (h : S.HasSmall type terms) :
  S.fixedSmall? type = .ok (some (ratio terms))
  := Answer.bind_eq_ok.2 ⟨_, h.definition_eq, rfl⟩

theorem HasResultSmall.isFloating_eq (h : S.HasResultSmall type terms) :
  S.isFloating type = .ok false
  := by
  cases h with
  | fixed h => exact Answer.bind_eq_ok.2 ⟨_, h.definition_eq, rfl⟩
  | other hd hfloating =>
    refine Answer.bind_eq_ok.2 ⟨_, hd, ?_⟩
    split
    · exact absurd rfl (hfloating _)
    · rfl

theorem HasResultSmall.fixedSmall?_eq (h : S.HasResultSmall type terms) :
  ∃ small?, S.fixedSmall? type = .ok small? ∧ small?.getD 1 = ratio terms
  := by
  cases h with
  | fixed h => exact ⟨_, h.fixedSmall?_eq, rfl⟩
  | other hd _ hfixed =>
    refine ⟨none, Answer.bind_eq_ok.2 ⟨_, hd, ?_⟩, by simp [ratio]⟩
    split
    · exact absurd rfl (hfixed _)
    · rfl

/-- The check of an operation on fixed-point operands comes down to its factor. -/
theorem IsFixedPoint.checkScaling_eq (h : S.IsFixedPoint n left right l r s)
    (operator : BinaryOperator) :
  S.checkScaling n operator left right
    = if (operator.scalingFactor? (ratio l) (ratio r) (ratio s)).any isScale then pure ()
      else violation n.site .fixedPointScaling
  := by
  obtain ⟨leftType, hleft, hl⟩ := h.left
  obtain ⟨rightType, hright, hr⟩ := h.right
  obtain ⟨resultType, hresult, hs⟩ := h.result
  obtain ⟨small?, hsmall, hone⟩ := hs.fixedSmall?_eq
  simp only [checkScaling, hleft, hright, hresult, hl.fixedSmall?_eq, hr.fixedSmall?_eq,
    hs.isFloating_eq, hsmall]
  rw [← hone]
  rfl

theorem IsFixedPoint.swap (h : S.IsFixedPoint n left right l r s) :
  S.IsFixedPoint n right left r l s
  := ⟨h.right, h.left, h.result, h.right_pos, h.left_pos, h.result_pos⟩

theorem IsFixedPoint.passes_iff (h : S.IsFixedPoint n left right l r s)
    (hq : operator.Scales (ratio l) (ratio r) (ratio s) q) :
  S.checkScaling n operator left right = pure () ↔ IsWholeOrReciprocal q
  := by
  rw [h.checkScaling_eq, hq.factor_eq h.right_pos h.result_pos, Option.any_some,
    ← isScale_iff (hq.pos h.left_pos h.right_pos h.result_pos), ite_eq_left_iff, not_imp_comm]
  exact ⟨fun hp => hp nofun, fun hs _ => hs⟩

theorem IsFixedPoint.violates_iff (h : S.IsFixedPoint n left right l r s)
    (hq : operator.Scales (ratio l) (ratio r) (ratio s) q) :
  S.checkScaling n operator left right = violation n.site .fixedPointScaling
    ↔ ¬ IsWholeOrReciprocal q
  := by
  rw [← h.passes_iff hq, h.checkScaling_eq]
  split
  · exact ⟨nofun, fun hn => absurd rfl hn⟩
  · exact ⟨fun _ => nofun, fun _ => rfl⟩

/-- The scaling of operations on fixed-point values is decided exactly: the check of an operation
finds a violation if the factor is neither an integer nor the reciprocal of one, and nothing
otherwise.  Other terms and other chains of types for the same smalls leave the answer as it is,
and so does another order of the operands of a multiplication. -/
theorem scaling_exact (h : S.IsFixedPoint n left right l r s)
    (hq : operator.Scales (ratio l) (ratio r) (ratio s) q)
    (h' : S'.IsFixedPoint n' left' right' l' r' s') (hl : ratio l' = ratio l)
    (hr : ratio r' = ratio r) (hs : ratio s' = ratio s) :
  (S.checkScaling n operator left right = violation n.site .fixedPointScaling
      ↔ ¬ ((∃ k : ℤ, q = k) ∨ ∃ k : ℤ, q = 1 / k))
    ∧ (S.checkScaling n operator left right = pure ()
      ↔ (∃ k : ℤ, q = k) ∨ ∃ k : ℤ, q = 1 / k)
    ∧ (S'.checkScaling n' operator left' right' = violation n'.site .fixedPointScaling
      ↔ S.checkScaling n operator left right = violation n.site .fixedPointScaling)
    ∧ S.checkScaling n .multiply right left = S.checkScaling n .multiply left right
  := by
  have hq' : operator.Scales (ratio l') (ratio r') (ratio s') q := by rwa [hl, hr, hs]
  refine ⟨h.violates_iff hq, h.passes_iff hq, ?_, ?_⟩
  · rw [h.violates_iff hq, h'.violates_iff hq']
  · rw [h.checkScaling_eq, h.swap.checkScaling_eq, scalingFactor?_multiply_comm]

/-- Fixed-point types, one of them behind a derived type, a visible full view and a subtype, and a
type of integers. -/
def scalingSample : Setting :=
  (ofParts?
    [{ name := "F", kind := .type { definition := .ordinaryFixed (1 / 8) } },
      { name := "D", kind := .type { definition := .derived "F" [] } },
      { name := "P", kind := .type { definition := .partialView (some "D") [] false } },
      { name := "Q", kind := .type { definition := .subtype "P" [] } },
      { name := "G", kind := .type { definition := .ordinaryFixed (1 / 10) } },
      { name := "N", kind := .type { definition := .signed 0 9 } }] []).get
    (by decide +kernel)

/-- An expression of a type. -/
def typedSample (type : EntityId) : Node := ⟨0, {}, some type, .identifier "X"⟩

theorem scaling_exact_scalingSample :
  (scalingSample.IsFixedPoint (typedSample "N") (typedSample "Q") (typedSample "G")
        (1, 8) (1, 10) (1, 1)
      ∧ BinaryOperator.divide.Scales (ratio (1, 8)) (ratio (1, 10)) (ratio (1, 1)) (5 / 4)
      ∧ scalingSample.IsFixedPoint (typedSample "N") (typedSample "F") (typedSample "G")
        (2, 16) (1, 10) (1, 1)
      ∧ ratio (2, 16) = ratio (1, 8))
    ∧ scalingSample.checkScaling (typedSample "N") .divide (typedSample "Q") (typedSample "G")
      = violation (typedSample "N").site .fixedPointScaling
    ∧ scalingSample.checkScaling (typedSample "N") .divide (typedSample "F") (typedSample "G")
      = violation (typedSample "N").site .fixedPointScaling
    ∧ scalingSample.checkScaling (typedSample "N") .multiply (typedSample "G") (typedSample "Q")
      = scalingSample.checkScaling (typedSample "N") .multiply (typedSample "Q") (typedSample "G")
  := by
  have hF : scalingSample.program.typeFacet "F"
      = .ok { definition := .ordinaryFixed (1 / 8) } := by rfl
  have hG : scalingSample.program.typeFacet "G"
      = .ok { definition := .ordinaryFixed (1 / 10) } := by rfl
  have hN : scalingSample.HasResultSmall "N" (1, 1) :=
    .other (d := .signed 0 9) (by rfl) nofun nofun
  have hQF : ReflTransGen scalingSample.StandsFor "Q" "F" :=
    .head (b := "P") (standsFor_iff.2 (by decide +kernel))
      (.head (b := "D") (standsFor_iff.2 (by decide +kernel))
        (.single (standsFor_iff.2 (by decide +kernel))))
  have hq : scalingSample.HasSmall "Q" (1, 8) := ⟨_, _, _, hQF, hF, rfl, by decide +kernel⟩
  have hf : scalingSample.HasSmall "F" (2, 16) := ⟨_, _, _, .refl, hF, rfl, by decide +kernel⟩
  have hg : scalingSample.HasSmall "G" (1, 10) := ⟨_, _, _, .refl, hG, rfl, by decide +kernel⟩
  have hratio : ratio (2, 16) = ratio (1, 8) := by norm_num [ratio]
  have h : scalingSample.IsFixedPoint (typedSample "N") (typedSample "Q") (typedSample "G")
      (1, 8) (1, 10) (1, 1) :=
    ⟨⟨_, rfl, hq⟩, ⟨_, rfl, hg⟩, ⟨_, rfl, hN⟩, by norm_num [ratio], by norm_num [ratio],
      by norm_num [ratio]⟩
  have h' : scalingSample.IsFixedPoint (typedSample "N") (typedSample "F") (typedSample "G")
      (2, 16) (1, 10) (1, 1) :=
    ⟨⟨_, rfl, hf⟩, ⟨_, rfl, hg⟩, ⟨_, rfl, hN⟩, by norm_num [ratio], by norm_num [ratio],
      by norm_num [ratio]⟩
  have hfactor : BinaryOperator.divide.Scales (ratio (1, 8)) (ratio (1, 10)) (ratio (1, 1))
      (5 / 4) := by
    rw [show (5 / 4 : ℚ) = ratio (1, 8) / (ratio (1, 10) * ratio (1, 1)) by norm_num [ratio]]
    exact .divide
  have hwhole : ¬ IsWholeOrReciprocal (5 / 4) :=
    (isScale_iff (by norm_num)).not.1 (by decide +kernel)
  obtain ⟨hiff, -, hsame, hswap⟩ := scaling_exact h hfactor h' hratio rfl rfl
  have hviolates := hiff.2 hwhole
  exact ⟨⟨h, hfactor, h', hratio⟩, hviolates, hsame.2 hviolates, hswap⟩

end Setting

end Conformance
