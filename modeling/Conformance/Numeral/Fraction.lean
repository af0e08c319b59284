import Conformance.Numeral.Literal

/-!
# Fractions

The smalls and deltas of fixed-point types are exact fractions, kept as rational numbers
in lowest terms, which `lowestTerms` finds by Euclid's algorithm.  A fraction is written
`p/q` with two integer literals, as a decimal with digits after the point, or as an
integer literal.  A scale is a fraction that is an integer or the reciprocal of an
integer.
-/

namespace Conformance.Numeral

/-! ## Lowest terms -/

/-- The greatest common divisor of two integers that are not negative, by Euclid's
algorithm. -/
def euclid (a b : Int) : Int :=
  if b = 0 then a else euclid b (a.tmod b)
termination_by b.natAbs
decreasing_by
  rw [Int.natAbs_tmod]
  exact Nat.mod_lt _ (Int.natAbs_pos.2 ‹_›)

/-- The greatest common divisor of two integers. -/
def commonDivisor (a b : Int) : Int := euclid a.natAbs b.natAbs

/-- A numerator and a denominator without their common divisor. -/
def divideOut (numerator denominator : Int) : Int × Int :=
  let divisor := commonDivisor numerator denominator
  if divisor ≠ 0 ∧ divisor ≠ 1 then (numerator.tdiv divisor, denominator.tdiv divisor)
  else (numerator, denominator)

/-- A numerator and a denominator in lowest terms, where only the numerator has a sign. -/
def lowestTerms (numerator denominator : Int) : Int × Int :=
  if denominator < 0 then divideOut (-numerator) (-denominator)
  else divideOut numerator denominator

theorem natAbs_euclid (a b : Int) :
  (euclid a b).natAbs = Int.gcd a b
  := by
  fun_induction euclid a b with
  | case1 a => simp
  | case2 a b _ ih =>
    rw [ih, Int.gcd, Int.natAbs_tmod, Nat.gcd_comm, ← Nat.gcd_rec, Int.gcd, Nat.gcd_comm]

theorem euclid_nonneg {a b : Int} (ha : 0 ≤ a) (hb : 0 ≤ b) :
  0 ≤ euclid a b
  := by
  fun_induction euclid a b with
  | case1 a => exact ha
  | case2 a b _ ih => exact ih hb (Int.tmod_nonneg b ha)

/-- Euclid's algorithm finds the greatest common divisor. -/
theorem commonDivisor_eq (a b : Int) :
  commonDivisor a b = Int.gcd a b
  := by
  have h : 0 ≤ commonDivisor a b := euclid_nonneg (Int.natCast_nonneg _) (Int.natCast_nonneg _)
  rw [← Int.natAbs_of_nonneg h, commonDivisor, natAbs_euclid]
  rfl

theorem divideOut_eq (n : Int) {d : Int} (hd : d ≠ 0) :
  divideOut n d = (n / Int.gcd n d, d / Int.gcd n d)
  := by
  have hn : Int.tdiv n (Int.gcd n d) = n / Int.gcd n d :=
    Int.tdiv_eq_ediv_of_dvd (Int.gcd_dvd_left n d)
  have hd' : Int.tdiv d (Int.gcd n d) = d / Int.gcd n d :=
    Int.tdiv_eq_ediv_of_dvd (Int.gcd_dvd_right n d)
  unfold divideOut
  simp only [commonDivisor_eq, hn, hd']
  split
  · rfl
  · next h =>
    have hg : (Int.gcd n d : Int) = 1 := by
      have := Int.gcd_pos_of_ne_zero_right n hd
      omega
    simp [hg]

theorem lowestTerms_of_pos (n : Int) {d : Int} (hd : 0 < d) :
  lowestTerms n d = (n / Int.gcd n d, d / Int.gcd n d)
  := by
  have hn : ¬ d < 0 := by omega
  rw [lowestTerms, if_neg hn, divideOut_eq n (Int.ne_of_gt hd)]

/-- A sign of the denominator goes over to the numerator. -/
theorem lowestTerms_of_neg (n : Int) {d : Int} (hd : d < 0) :
  lowestTerms n d = lowestTerms (-n) (-d)
  := by
  have hn : ¬ -d < 0 := by omega
  rw [lowestTerms, if_pos hd, lowestTerms, if_neg hn]

/-- The denominator is positive, and the terms have no common divisor. -/
theorem lowestTerms_normal (n : Int) {d : Int} (hd : d ≠ 0) :
  0 < (lowestTerms n d).2 ∧ Int.gcd (lowestTerms n d).1 (lowestTerms n d).2 = 1
  := by
  have normal (n : Int) {d : Int} (hd : 0 < d) :
      0 < (lowestTerms n d).2 ∧ Int.gcd (lowestTerms n d).1 (lowestTerms n d).2 = 1 := by
    have hg := Int.gcd_pos_of_ne_zero_right n (Int.ne_of_gt hd)
    rw [lowestTerms_of_pos n hd]
    refine ⟨Int.ediv_pos_of_pos_of_dvd hd (Int.natCast_nonneg _) (Int.gcd_dvd_right n d), ?_⟩
    exact Int.gcd_ediv_gcd_ediv_gcd hg
  obtain hd | hd := Int.lt_or_gt_of_ne hd
  · rw [lowestTerms_of_neg n hd]
    exact normal (-n) (by omega)
  · exact normal n hd

/-! ## Fractions -/

/-- The fraction with the given numerator and denominator. -/
def reduce (numerator denominator : Int) (h : denominator ≠ 0) : Rat where
  num := (lowestTerms numerator denominator).1
  den := (lowestTerms numerator denominator).2.toNat
  den_nz := by
    have := (lowestTerms_normal numerator h).1
    omega
  reduced := by
    obtain ⟨hp, hg⟩ := lowestTerms_normal numerator h
    rw [Int.gcd] at hg
    rwa [← Int.natAbs_of_nonneg (Int.le_of_lt hp), Int.toNat_natCast, Nat.coprime_iff_gcd_eq_one]

/-- The fraction with the given numerator and denominator, unless the denominator is
zero. -/
def fraction? (numerator denominator : Int) : Option Rat :=
  if h : denominator = 0 then none else some (reduce numerator denominator h)

/-- The product of two fractions.  Its denominator is positive, so zero never stands in
for it. -/
def product (a b : Rat) : Rat := (fraction? (a.num * b.num) (a.den * b.den)).getD 0

/-- The quotient of two fractions, unless the divisor is zero. -/
def quotient? (a b : Rat) : Option Rat :=
  fraction? (a.num * b.den) (a.den * b.num)

/-- Whether a fraction is an integer. -/
def isInteger (q : Rat) : Bool := q.den == 1

/-- Whether a fraction is the reciprocal of a positive integer. -/
def isReciprocal (q : Rat) : Bool := q.num == 1

/-- Whether a fraction is an integer or the reciprocal of one. -/
def isScale (q : Rat) : Bool := isInteger q || isReciprocal q

/-! ## Text -/

/-- The fraction written as a decimal with the digits `places` after the point.  The number of
places is cut to 32 bits. -/
def pointed? (whole places : List Char) : Option Rat :=
  if places ≠ [] ∧ places.all Char.isDigit then
    (decimal? (whole ++ places)).bind fun n => fraction? n (Nat.pow 10 (UInt32.ofNat places.length).toNat)
  else none

/-- The value of a written fraction. -/
def readFraction? (cs : List Char) : Option Rat :=
  let text := Text.trim cs
  match Text.splitFirst (· == '/') text with
  | some (p, q) =>
    match literal? p, literal? q with
    | some n, some d => fraction? n d
    | _, _ => none
  | none =>
    match Text.splitFirst (· == '.') text with
    | some (whole, places) => pointed? whole places
    | none => (literal? text).bind fun n => fraction? n 1

/-- The text of a fraction: `p/q` in lowest terms, or `p` when it is an integer. -/
def fractionText (q : Rat) : String :=
  if isInteger q then toString q.num else s!"{q.num}/{q.den}"

end Conformance.Numeral
