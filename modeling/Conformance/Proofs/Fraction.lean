import Conformance.Numeral.Fraction
import Mathlib.Data.Rat.Lemmas
import Mathlib.Data.Rat.Cast.Order
import Mathlib.Tactic.FieldSimp
import Mathlib.Tactic.NormNum

/-!
# Exact fractions

The fractions that `fraction?` puts into lowest terms are those of the field of rational numbers,
and so are products and quotients of fractions: `fractions_exact`.  Since the terms are unique,
fractions are equal exactly if they are equal as they are written.
-/

namespace Conformance.Numeral

variable {n d : Int}

/-- The lowest terms stand in the same proportion as the given ones. -/
theorem lowestTerms_cross (n : Int) (hd : d ≠ 0) :
  (lowestTerms n d).1 * d = n * (lowestTerms n d).2
  := by
  have cross (n : Int) {d : Int} (hd : 0 < d) :
      (lowestTerms n d).1 * d = n * (lowestTerms n d).2 := by
    rw [lowestTerms_of_pos n hd, ← Int.mul_ediv_assoc n (Int.gcd_dvd_right n d), mul_comm n d,
      Int.mul_ediv_assoc d (Int.gcd_dvd_left n d), mul_comm]
  obtain hd | hd := Int.lt_or_gt_of_ne hd
  · have h := cross (-n) (neg_pos.2 hd)
    rw [lowestTerms_of_neg n hd]
    rwa [mul_neg, neg_mul, neg_inj] at h
  · exact cross n hd

/-- A fraction in lowest terms is the quotient of the terms it was made from. -/
theorem reduce_eq_div (n : Int) (hd : d ≠ 0) :
  reduce n d hd = (n : ℚ) / d
  := by
  have hpos := (lowestTerms_normal n hd).1
  have hden : ((reduce n d hd).den : Int) = (lowestTerms n d).2 := Int.toNat_of_nonneg hpos.le
  have hcross : (reduce n d hd).num * d = n * (reduce n d hd).den := by
    rw [hden]
    exact lowestTerms_cross n hd
  have hd' : (d : ℚ) ≠ 0 := Int.cast_ne_zero.2 hd
  rw [eq_div_iff hd', ← Rat.num_div_den (reduce n d hd), div_mul_eq_mul_div,
    div_eq_iff (Nat.cast_ne_zero.2 (reduce n d hd).den_nz)]
  exact_mod_cast hcross

theorem fraction?_eq_some (n : Int) (hd : d ≠ 0) :
  fraction? n d = some ((n : ℚ) / d)
  := by rw [fraction?, dif_neg hd, reduce_eq_div]

theorem fraction?_eq_none_iff :
  fraction? n d = none ↔ d = 0
  := by simp [fraction?]

/-- A fraction is kept as the lowest terms of what it was made from. -/
theorem fraction?_terms {q : Rat} (hq : fraction? n d = some q) :
  lowestTerms n d = (q.num, (q.den : Int))
  := by
  by_cases hd : d = 0
  · rw [fraction?_eq_none_iff.2 hd] at hq
    cases hq
  · rw [fraction?, dif_neg hd, Option.some.injEq] at hq
    subst hq
    exact Prod.ext rfl (Int.toNat_of_nonneg (lowestTerms_normal n hd).1.le).symm

/-- A product of fractions is a fraction. -/
theorem product_defined (x y : Rat) :
  fraction? (x.num * y.num) (x.den * y.den) = some (x * y)
  := by
  have hden : (x.den * y.den : Int) ≠ 0 := by simp [x.den_nz, y.den_nz]
  rw [fraction?_eq_some _ hden]
  push_cast
  rw [mul_div_mul_comm, Rat.num_div_den, Rat.num_div_den]

theorem product_eq_mul (x y : Rat) :
  product x y = x * y
  := by rw [product, product_defined, Option.getD_some]

theorem quotient?_eq_none_iff (x y : Rat) :
  quotient? x y = none ↔ y = 0
  := by simp [quotient?, fraction?_eq_none_iff]

theorem quotient?_eq_some (x : Rat) {y : Rat} (hy : y ≠ 0) :
  quotient? x y = some (x / y)
  := by
  have hden : (x.den * y.num : Int) ≠ 0 := by simp [hy]
  rw [quotient?, fraction?_eq_some _ hden]
  push_cast
  rw [mul_div_mul_comm, Rat.num_div_den, ← inv_div (y.num : ℚ), Rat.num_div_den, div_eq_mul_inv]

theorem isInteger_iff (x : Rat) :
  isInteger x ↔ ∃ n : Int, x = n
  := by
  rw [isInteger, beq_iff_eq]
  constructor
  · intro h
    exact ⟨x.num, (Rat.den_eq_one_iff x).1 h |>.symm⟩
  · rintro ⟨n, rfl⟩
    exact Rat.den_intCast n

/-- A quotient of integers is an integer exactly if the divisor divides. -/
theorem isInteger_div_iff (n : Int) (hd : d ≠ 0) :
  isInteger ((n : ℚ) / d) ↔ d ∣ n
  := by
  have hd' : (d : ℚ) ≠ 0 := Int.cast_ne_zero.2 hd
  rw [isInteger_iff]
  constructor
  · rintro ⟨k, hk⟩
    rw [div_eq_iff hd'] at hk
    exact ⟨k, by rw [mul_comm]; exact_mod_cast hk⟩
  · rintro ⟨k, rfl⟩
    exact ⟨k, by push_cast; rw [mul_div_cancel_left₀ _ hd']⟩

/-- The arithmetic of fractions is exact.  Terms with denominators other than zero make the
fraction that is their quotient, and it has a positive denominator and no common divisor left.
Fractions have the same terms exactly if what they were made from is in the same proportion.
A product never falls back on zero, a quotient is missing exactly if the divisor is zero, and a
fraction is an integer exactly if it is one as a number. -/
theorem fractions_exact {a b c d : Int} (hb : b ≠ 0) (hd : d ≠ 0) (x y : Rat) :
  (∃ q r, fraction? a b = some q ∧ fraction? c d = some r ∧ q = (a : ℚ) / b ∧
    lowestTerms a b = (q.num, (q.den : Int)) ∧ 0 < (lowestTerms a b).2 ∧
    Int.gcd (lowestTerms a b).1 (lowestTerms a b).2 = 1 ∧
    (lowestTerms a b = lowestTerms c d ↔ a * d = c * b) ∧ (q = r ↔ a * d = c * b) ∧
    (isInteger q ↔ b ∣ a)) ∧
  (fraction? (x.num * y.num) (x.den * y.den) = some (product x y) ∧ product x y = x * y) ∧
  (quotient? x y = none ↔ y = 0) ∧ (y ≠ 0 → quotient? x y = some (x / y)) ∧
  (isInteger x ↔ ∃ n : Int, x = n)
  := by
  have hq := fraction?_eq_some a hb
  have hr := fraction?_eq_some c hd
  have hb' : (b : ℚ) ≠ 0 := Int.cast_ne_zero.2 hb
  have hd' : (d : ℚ) ≠ 0 := Int.cast_ne_zero.2 hd
  have heq : (a : ℚ) / b = c / d ↔ a * d = c * b := by
    rw [div_eq_div_iff hb' hd']
    exact_mod_cast Iff.rfl
  have hterms : lowestTerms a b = lowestTerms c d ↔ (a : ℚ) / b = c / d := by
    rw [fraction?_terms hq, fraction?_terms hr, Prod.mk.injEq, Int.natCast_inj]
    exact ⟨fun h => Rat.ext h.1 h.2, fun h => by rw [h]; exact ⟨rfl, rfl⟩⟩
  refine ⟨⟨_, _, hq, hr, rfl, fraction?_terms hq, (lowestTerms_normal a hb).1,
      (lowestTerms_normal a hb).2, hterms.trans heq, heq, isInteger_div_iff a hb⟩, ?_,
    quotient?_eq_none_iff x y, quotient?_eq_some x, isInteger_iff x⟩
  rw [product_eq_mul]
  exact ⟨product_defined x y, rfl⟩

/-- Six eighths and nine twelfths, both below zero: the same terms, in different writing. -/
theorem fractions_exact_same_terms :
  ((-8 : Int) ≠ 0 ∧ (-12 : Int) ≠ 0) ∧ lowestTerms 6 (-8) = lowestTerms 9 (-12) ∧
  product (3 / 2) (2 / 3) = 1 ∧ quotient? (3 / 2) (2 / 3) = some (9 / 4)
  := by
  have h : (-8 : Int) ≠ 0 ∧ (-12 : Int) ≠ 0 := by decide
  obtain ⟨⟨q, r, -, -, -, -, -, -, hterms, -, -⟩, ⟨-, hproduct⟩, -, hquotient, -⟩ :=
    fractions_exact (a := 6) (c := 9) h.1 h.2 (3 / 2) (2 / 3)
  refine ⟨h, hterms.2 (by decide), ?_, ?_⟩
  · rw [hproduct]
    norm_num
  · rw [hquotient (by norm_num)]
    norm_num

end Conformance.Numeral
