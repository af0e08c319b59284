import Conformance.Proofs.Fraction
import Conformance.Proofs.Literal

/-!
# Written fractions

A fraction is read back from its text, a decimal point is exact as long as the number of places
behind it has 32 bits, and `p/q` with two literals is the quotient of their values:
`fractions_read_back`.  The three notations exclude each other, since neither a literal nor a
number has a slash or a point in it.
-/

namespace Conformance.Numeral

open Text (Blank Trimmed isBlank)

variable {cs w f p q : List Char} {c : Char} {n m : Int}

/-! ### Digits -/

/-- A text of digits, at least one. -/
structure Digits (cs : List Char) : Prop where
  nonempty : cs ≠ []
  digits : ∀ c ∈ cs, c.isDigit

theorem Digits.append (hw : Digits w) (hf : Digits f) :
  Digits (w ++ f)
  where
  nonempty := List.append_ne_nil_of_left_ne_nil hw.nonempty f
  digits c hc := (List.mem_append.1 hc).elim (hw.digits c) (hf.digits c)

theorem digits_toDigits (n : Nat) :
  Digits (Nat.toDigits 10 n)
  where
  nonempty := Nat.toDigits_ne_nil
  digits _ hc := Nat.isDigit_of_mem_toDigits (by decide) (by decide) hc

/-- The value of decimal digits. -/
def value (cs : List Char) : Nat := Nat.ofDigitChars 10 cs 0

theorem value_append (w f : List Char) :
  value (w ++ f) = 10 ^ f.length * value w + value f
  := by
  rw [value, Nat.ofDigitChars_append, Nat.ofDigitChars_eq_ofDigitChars_zero]
  rfl

theorem Digits.magnitude (h : Digits cs) :
  Magnitude cs (value cs)
  where
  head := ⟨_, List.head_mem_head? h.nonempty, h.digits _ (List.head_mem h.nonempty)⟩
  chars c hc := Or.inl (h.digits c hc)
  value := by rw [List.filter_eq_self.2 h.digits, value]

/-- Digits with an optional minus are an integer, and they are a literal. -/
theorem decimal?_of_digits (h : Digits cs) (negative : Bool) :
  decimal? (lead negative [] ++ cs) = some (signed negative (value cs))
  := by
  rw [decimal?_eq_some_iff]
  cases negative with
  | true => exact .minus rfl h.magnitude
  | false => exact .unsigned h.magnitude

theorem literal?_of_digits (h : Digits cs) (negative : Bool) :
  literal? (lead negative [] ++ cs) = some (signed negative (value cs))
  := by
  have hs : Sum negative cs (signed negative (value cs)) :=
    .head (.integer (.unsigned h.magnitude))
  have := literal?_of_literal (literal_lead (x := []) (y := []) (z := []) nofun nofun nofun hs)
  simpa using this

theorem Digits.not_isBlank (h : Digits cs) (hc : c ∈ cs) :
  ¬ isBlank c
  := not_isBlank_of_isDigit (h.digits c hc)

/-- Digits are an exponent exactly if their value fits 32 bits. -/
theorem exponent?_of_digits (h : Digits cs) :
  exponent? cs = if value cs < 2 ^ 32 then some (value cs) else none
  := by
  split
  · next hf => exact exponent?_eq_some_iff.2 (.plain ⟨h.nonempty, h.digits, rfl, hf⟩)
  · next hf =>
    rw [Option.eq_none_iff_forall_ne_some]
    intro n hn
    cases exponent?_eq_some_iff.1 hn with
    | plain he =>
      obtain ⟨-, -, rfl, hn⟩ := he
      exact hf hn
    | plus he => exact absurd (h.digits '+' List.mem_cons_self) (by decide)

theorem chars_of_power (hw : Digits w) (hf : Digits f) (hc : c ∈ w ++ '*' :: '*' :: f) :
  c.isDigit ∨ c = '*'
  := by
  simp only [List.mem_append, List.mem_cons] at hc
  obtain hc | rfl | rfl | hc := hc
  · exact Or.inl (hw.digits c hc)
  · exact Or.inr rfl
  · exact Or.inr rfl
  · exact Or.inl (hf.digits c hc)

theorem trim_of_power (hw : Digits w) (hf : Digits f) :
  Text.trim (w ++ '*' :: '*' :: f) = w ++ '*' :: '*' :: f
  := by
  refine Text.trim_of_forall fun c hc => ?_
  obtain hd | rfl := chars_of_power hw hf hc
  · exact not_isBlank_of_isDigit hd
  · decide

theorem term?_of_power (hw : Digits w) (hf : Digits f) :
  term? (w ++ '*' :: '*' :: f)
    = if value f < 2 ^ 32 then some ((value w : Int) ^ value f) else none
  := by
  have hstar : '*' ∉ w := fun hc => absurd (hw.digits _ hc) (by decide)
  have hbase : decimal? w = some (value w : Int) := decimal?_of_digits hw false
  simp only [term?, trim_of_power hw hf, splitPower_append hstar,
    Text.trim_of_forall fun _ => hw.not_isBlank, Text.trim_of_forall fun _ => hf.not_isBlank,
    hbase, exponent?_of_digits hf]
  by_cases hv : value f < 2 ^ 32
  · simp only [if_pos hv]
    rfl
  · simp only [if_neg hv]

/-- A power of digits, which has no sign in it, is read if its exponent is. -/
theorem literal?_of_power (hw : Digits w) (hf : Digits f) :
  literal? (w ++ '*' :: '*' :: f)
    = if value f < 2 ^ 32 then some ((value w : Int) ^ value f) else none
  := by
  have hsign : ∀ c ∈ w ++ '*' :: '*' :: f, ¬ isSign c := by
    intro c hc
    obtain hd | rfl := chars_of_power hw hf hc
    · exact not_isSign_of_isDigit hd
    · decide
  have hsplit : splitOffset (w ++ '*' :: '*' :: f) = none :=
    splitOffset_eq_none_iff.2 fun c hc => hsign c (List.mem_of_mem_tail hc)
  rw [literal?, trim_of_power hw hf]
  split
  · next rest h => exact absurd rfl (hsign '-' (h ▸ List.mem_cons_self))
  · rw [sum?_of_splitOffset_eq_none hsplit, term?_of_power hw hf]
    split <;> rfl

theorem toList_toString_nat (n : Nat) :
  (toString n).toList = Nat.toDigits 10 n
  := Nat.toList_repr

theorem value_toDigits (n : Nat) :
  value (Nat.toDigits 10 n) = n
  := Nat.ofDigitChars_ten_toDigits

theorem toList_toString (n : Int) :
  (toString n).toList = lead (n < 0) [] ++ Nat.toDigits 10 n.natAbs
  := by
  rw [Int.toString_eq_repr, Int.repr_eq_if]
  split
  · next h =>
    rw [Nat.toList_repr, lead, decide_eq_false (by omega), show n.toNat = n.natAbs by omega]
    rfl
  · next h =>
    rw [String.toList_append, Nat.toList_repr, lead, decide_eq_true (by omega),
      show (-n).toNat = n.natAbs by omega]
    rfl

theorem literal?_toDigits (n : Nat) :
  literal? (Nat.toDigits 10 n) = some (n : Int)
  := by
  have h := literal?_of_digits (digits_toDigits n) false
  rw [value_toDigits] at h
  exact h

theorem literal?_toString (n : Int) :
  literal? (toString n).toList = some n
  := by
  rw [toList_toString, literal?_of_digits (digits_toDigits _), value_toDigits, Option.some_inj,
    signed]
  split
  · next h =>
    have := of_decide_eq_true h
    omega
  · next h =>
    have := of_decide_eq_false (Bool.eq_false_iff.2 h)
    omega

/-! ### The three notations -/

theorem Term.chars (h : AnyTerm cs n) (hc : c ∈ cs) :
  IsMark c ∨ isBlank c ∨ c = '*'
  := by
  obtain ⟨t, w, ht, hc⟩ | hc | hc | ⟨t, k, ht, hc⟩ := h.cases_of_mem hc
  · exact Or.inl (ht.isMark hc)
  · exact Or.inr (Or.inl hc)
  · exact Or.inr (Or.inr hc)
  · exact Or.inl (ht.isMark hc)

theorem Sum.chars {negative : Bool} (h : Sum negative cs n) (hc : c ∈ cs) :
  IsMark c ∨ isBlank c ∨ c = '*'
  := by
  cases h with
  | head hh => exact (hh.ofHead fun _ _ => .plain).chars hc
  | @offset head x y offset _ _ subtracted hh hx hy ho =>
    simp only [List.mem_append, List.mem_cons] at hc
    obtain ((hc | hc) | rfl | hc) | hc := hc
    · exact (hh.ofHead fun _ _ => id).chars hc
    · exact Or.inr (Or.inl (hx c hc))
    · cases subtracted <;> simp [sign, IsMark]
    · exact Or.inr (Or.inl (hy c hc))
    · exact ho.toAny.chars hc

/-- A literal is made of marks, blanks and stars. -/
theorem Literal.chars (h : Literal cs n) (hc : c ∈ cs) :
  IsMark c ∨ isBlank c ∨ c = '*'
  := by
  cases h with
  | plain hx hy h =>
    simp only [List.mem_append] at hc
    obtain (hc | hc) | hc := hc
    · exact Or.inr (Or.inl (hx c hc))
    · exact h.chars hc
    · exact Or.inr (Or.inl (hy c hc))
  | negated hx hy hz h =>
    simp only [List.mem_append, List.mem_cons] at hc
    obtain ((hc | rfl | hc) | hc) | hc := hc
    · exact Or.inr (Or.inl (hx c hc))
    · simp [IsMark]
    · exact Or.inr (Or.inl (hy c hc))
    · exact h.chars hc
    · exact Or.inr (Or.inl (hz c hc))

/-- A slash or a point. -/
def IsSeparator (c : Char) : Prop := c = '/' ∨ c = '.'

theorem not_isSeparator_of_literal? (h : literal? cs = some n) (hc : c ∈ cs) :
  ¬ IsSeparator c
  := by
  have hm := (of_literal?_eq_some h).chars hc
  rintro (rfl | rfl)
  all_goals
    revert hm
    unfold IsMark
    decide

theorem splitFirst_eq_none_of_literal? (h : literal? cs = some n) (hc : IsSeparator c) :
  Text.splitFirst (· == c) cs = none
  := by
  refine Text.splitFirst_eq_none fun d hd => ?_
  rw [beq_iff_eq]
  rintro rfl
  exact not_isSeparator_of_literal? h hd hc

theorem literal?_trim (cs : List Char) :
  literal? (Text.trim cs) = literal? cs
  := by rw [literal?, Text.trim_trim, ← literal?]

theorem literal?_trimStart (cs : List Char) :
  literal? (Text.trimStart cs) = literal? cs
  := by rw [← literal?_trim, Text.trim_trimStart, literal?_trim]

theorem literal?_trimEnd (cs : List Char) :
  literal? (Text.trimEnd cs) = literal? cs
  := by rw [← literal?_trim, Text.trim_trimEnd, literal?_trim]

/-- A literal is read as an integer. -/
theorem readFraction?_literal (hp : literal? p = some n) :
  readFraction? p = some (n : Rat)
  := by
  have ht : literal? (Text.trim p) = some n := by rw [literal?_trim, hp]
  have hf := fraction?_eq_some n one_ne_zero
  rw [Int.cast_one, div_one] at hf
  simp only [readFraction?, splitFirst_eq_none_of_literal? ht (Or.inl rfl),
    splitFirst_eq_none_of_literal? ht (Or.inr rfl), ht]
  exact hf

/-- Behind a slash stands the denominator. -/
theorem readFraction?_slash (hp : literal? p = some n) :
  readFraction? (p ++ '/' :: q) = (literal? q).bind (fraction? n)
  := by
  have ht : literal? (Text.trimStart p) = some n := by rw [literal?_trimStart, hp]
  have hs : Text.splitFirst (· == '/') (Text.trim (p ++ '/' :: q))
      = some (Text.trimStart p, Text.trimEnd q) := by
    rw [Text.trim_append_cons (by decide)]
    refine Text.splitFirst_append (fun d hd => ?_) (by decide)
    rw [beq_iff_eq]
    rintro rfl
    exact not_isSeparator_of_literal? ht hd (Or.inl rfl)
  simp only [readFraction?, hs, ht, literal?_trimEnd]
  cases literal? q <;> rfl

/-- The text of a fraction is an integer, or a quotient of integers. -/
theorem readFraction?_fractionText (x : Rat) :
  readFraction? (fractionText x).toList = some x
  := by
  rw [fractionText]
  split
  · next h =>
    rw [isInteger, beq_iff_eq] at h
    rw [readFraction?_literal (literal?_toString x.num), (Rat.den_eq_one_iff x).1 h]
  · have htext : (s!"{x.num}/{x.den}").toList
        = (toString x.num).toList ++ '/' :: Nat.toDigits 10 x.den := by
      simp only [String.toList_append, List.append_assoc, ← toList_toString_nat]
      rfl
    have hden : (x.den : Int) ≠ 0 := Int.natCast_ne_zero.2 x.den_nz
    rw [htext, readFraction?_slash (literal?_toString x.num), literal?_toDigits, Option.bind_some,
      fraction?_eq_some _ hden, Int.cast_natCast, Rat.num_div_den]

theorem Digits.chars_lead {negative : Bool} (h : Digits cs) (hc : c ∈ lead negative [] ++ cs) :
  c.isDigit ∨ c = '-'
  := by
  obtain hc | hc := List.mem_append.1 hc
  · cases negative with
    | true => exact Or.inr (List.mem_singleton.1 hc)
    | false => cases hc
  · exact Or.inl (h.digits c hc)

theorem fraction?_places (negative : Bool) (n k : Nat) :
  fraction? (signed negative n) (Nat.pow 10 k)
    = some ((if negative then (-1 : Rat) else 1) * (n / 10 ^ k))
  := by
  have hpow : ((Nat.pow 10 k : Nat) : Int) ≠ 0 :=
    Int.natCast_ne_zero.2 (pow_ne_zero k (by decide))
  rw [fraction?_eq_some _ hpow, Option.some_inj, mul_div_assoc']
  cases negative <;> simp [signed]

/-- Behind a point stand digits, which are counted. -/
theorem readFraction?_point (hw : Digits w) (hf : Digits f) (negative : Bool) :
  readFraction? (lead negative [] ++ w ++ '.' :: f)
    = some ((if negative then (-1 : Rat) else 1)
      * (value (w ++ f) / 10 ^ (f.length % 2 ^ 32)))
  := by
  have hchars : ∀ c ∈ lead negative [] ++ w ++ '.' :: f, c.isDigit ∨ c = '-' ∨ c = '.' := by
    intro c hc
    obtain hc | hc := List.mem_append.1 hc
    · exact (hw.chars_lead hc).imp_right Or.inl
    · obtain rfl | hc := List.mem_cons.1 hc
      · exact Or.inr (Or.inr rfl)
      · exact Or.inl (hf.digits c hc)
  have htrim : Text.trim (lead negative [] ++ w ++ '.' :: f)
      = lead negative [] ++ w ++ '.' :: f := by
    refine Text.trim_of_forall fun c hc => ?_
    obtain hd | rfl | rfl := hchars c hc
    · exact not_isBlank_of_isDigit hd
    all_goals decide
  have hslash : Text.splitFirst (· == '/') (lead negative [] ++ w ++ '.' :: f) = none := by
    refine Text.splitFirst_eq_none fun c hc => ?_
    rw [beq_iff_eq]
    rintro rfl
    exact absurd (hchars '/' hc) (by decide)
  have hpoint : Text.splitFirst (· == '.') (lead negative [] ++ w ++ '.' :: f)
      = some (lead negative [] ++ w, f) := by
    refine Text.splitFirst_append (fun c hc => ?_) (by decide)
    rw [beq_iff_eq]
    rintro rfl
    exact absurd (hw.chars_lead hc) (by decide)
  have hplaces : f ≠ [] ∧ f.all Char.isDigit := ⟨hf.nonempty, List.all_eq_true.2 hf.digits⟩
  have hnumber := decimal?_of_digits (hw.append hf) negative
  rw [← List.append_assoc] at hnumber
  rw [← fraction?_places]
  simp only [readFraction?, htrim, hslash, hpoint, pointed?, if_pos hplaces, hnumber,
    Option.bind_some, UInt32.toNat_ofNat']

/-- Behind a slash stands a power of ten, if its exponent can be written. -/
theorem readFraction?_power (hw : Digits w) (hf : Digits f) (negative : Bool) :
  readFraction? (lead negative [] ++ w ++ f
      ++ '/' :: '1' :: '0' :: '*' :: '*' :: (toString f.length).toList)
    = if f.length < 2 ^ 32 then
        some ((if negative then (-1 : Rat) else 1) * (value (w ++ f) / 10 ^ f.length))
      else none
  := by
  have hten : literal? ('1' :: '0' :: '*' :: '*' :: (toString f.length).toList)
      = if f.length < 2 ^ 32 then some (10 ^ f.length) else none := by
    have h := literal?_of_power (digits_toDigits 10) (digits_toDigits f.length)
    rw [value_toDigits, value_toDigits, ← toList_toString_nat f.length] at h
    exact h
  have hnumber := literal?_of_digits (hw.append hf) negative
  rw [← List.append_assoc] at hnumber
  rw [readFraction?_slash hnumber, hten, ← fraction?_places]
  split <;> rfl

/-- The digits on both sides of a point, as a number of places. -/
theorem value_append_div (w f : List Char) :
  (value w + value f / 10 ^ f.length : Rat) = value (w ++ f) / 10 ^ f.length
  := by
  rw [value_append]
  push_cast
  field_simp

/-- A quotient by a power of ten whose exponent is cut to 32 bits. -/
theorem div_pow_cut_iff (negative : Bool) (n k : Nat) :
  (if negative then (-1 : Rat) else 1) * (n / 10 ^ (k % 2 ^ 32))
      = (if negative then (-1 : Rat) else 1) * (n / 10 ^ k) ↔ k < 2 ^ 32 ∨ n = 0
  := by
  have hsign : (if negative then (-1 : Rat) else 1) ≠ 0 := by cases negative <;> simp
  have hpow : (10 : Rat) ^ (k % 2 ^ 32) = 10 ^ k ↔ k < 2 ^ 32 := by
    rw [(pow_right_injective₀ (by norm_num) (by norm_num)).eq_iff]
    omega
  rw [mul_right_inj' hsign]
  by_cases hn : n = 0
  · simp [hn]
  · rw [div_eq_mul_inv, div_eq_mul_inv, mul_right_inj' (Nat.cast_ne_zero.2 hn), inv_inj, hpow,
      or_iff_left hn]

/-- A written fraction is read back.  A decimal point is exact, and it stands for a power of ten as
the denominator, exactly if the number of places has 32 bits, unless all digits are zero.  The
quotient of two literals is missing exactly if the second one is zero. -/
theorem fractions_read_back (x : Rat) (hw : Digits w) (hf : Digits f) (negative : Bool)
    (hp : literal? p = some n) (hq : literal? q = some m) :
  readFraction? (fractionText x).toList = some x
    ∧ (readFraction? (lead negative [] ++ w ++ '.' :: f)
        = some ((if negative then (-1 : Rat) else 1) * (value w + value f / 10 ^ f.length))
      ↔ f.length < 2 ^ 32 ∨ value (w ++ f) = 0)
    ∧ (readFraction? (lead negative [] ++ w ++ '.' :: f)
        = readFraction? (lead negative [] ++ w ++ f
          ++ '/' :: '1' :: '0' :: '*' :: '*' :: (toString f.length).toList)
      ↔ f.length < 2 ^ 32)
    ∧ (readFraction? (p ++ '/' :: q) = none ↔ m = 0)
    ∧ (m ≠ 0 → readFraction? (p ++ '/' :: q) = some ((n : Rat) / m))
  := by
  have hslash : readFraction? (p ++ '/' :: q) = fraction? n m := by
    rw [readFraction?_slash hp, hq, Option.bind_some]
  refine ⟨readFraction?_fractionText x, ?_, ?_, ?_, ?_⟩
  · rw [readFraction?_point hw hf, value_append_div, Option.some_inj, div_pow_cut_iff]
  · rw [readFraction?_point hw hf, readFraction?_power hw hf]
    constructor
    · intro h
      by_contra hk
      rw [if_neg hk] at h
      cases h
    · intro hk
      rw [if_pos hk, Nat.mod_eq_of_lt hk]
  · rw [hslash, fraction?_eq_none_iff]
  · intro hm
    rw [hslash, fraction?_eq_some n hm]

/-- A fraction below zero whose whole part is zero, and a quotient with a minus in its denominator
and blanks around the slash. -/
theorem fractions_read_back_below_zero :
  (Digits ['0'] ∧ Digits ['0', '5'] ∧ literal? ['2', '*', '*', '3', ' '] = some 8
      ∧ literal? [' ', '-', '4'] = some (-4) ∧ (-4 : Int) ≠ 0)
    ∧ readFraction? (fractionText (-3 / 4)).toList = some (-3 / 4)
    ∧ readFraction? ['-', '0', '.', '0', '5'] = some (-1 / 20)
    ∧ readFraction? ['-', '0', '0', '5', '/', '1', '0', '*', '*', '2'] = some (-1 / 20)
    ∧ readFraction? ['2', '*', '*', '3', ' ', '/', ' ', '-', '4'] = some (-2)
  := by
  have hw : Digits ['0'] := digits_toDigits 0
  have hf : Digits ['0', '5'] := (digits_toDigits 0).append (digits_toDigits 5)
  have hp : literal? ['2', '*', '*', '3', ' '] = some 8 := by decide +kernel
  have hq : literal? [' ', '-', '4'] = some (-4) := by decide +kernel
  have hm : (-4 : Int) ≠ 0 := by decide
  obtain ⟨htext, hpoint, hpower, -, hslash⟩ := fractions_read_back (-3 / 4) hw hf true hp hq
  have hpoint := hpoint.2 (Or.inl (by decide))
  have hpower := hpower.2 (by decide)
  have hvalue : (if true then (-1 : Rat) else 1)
      * (value ['0'] + value ['0', '5'] / 10 ^ ['0', '5'].length) = -1 / 20 := by
    rw [show value ['0'] = 0 by decide, show value ['0', '5'] = 5 by decide]
    norm_num
  rw [hvalue] at hpoint
  refine ⟨⟨hw, hf, hp, hq, hm⟩, htext, hpoint, ?_, ?_⟩
  · rw [toList_toString_nat] at hpower
    exact hpower.symm.trans hpoint
  · refine (hslash hm).trans ?_
    norm_num

theorem value_replicate_zero (k : Nat) :
  value (List.replicate k '0') = 0
  := by
  induction k with
  | zero => rfl
  | succ k ih =>
    rw [List.replicate_succ', value_append, ih]
    rfl

/-- The digits of a one in the last of some places. -/
def lastPlace (places : Nat) : List Char := List.replicate (places - 1) '0' ++ ['1']

theorem digits_lastPlace (places : Nat) :
  Digits (lastPlace places)
  where
  nonempty := by simp [lastPlace]
  digits c hc := by
    obtain hc | hc := List.mem_append.1 hc
    · rw [List.eq_of_mem_replicate hc]
      decide
    · rw [List.mem_singleton.1 hc]
      decide

theorem length_lastPlace {places : Nat} (h : 1 ≤ places) :
  (lastPlace places).length = places
  := by
  rw [lastPlace, List.length_append, List.length_replicate, List.length_singleton]
  omega

theorem value_lastPlace (places : Nat) :
  value (lastPlace places) = 1
  := by
  rw [lastPlace, value_append, value_replicate_zero]
  rfl

/-- A one in the last of `2 ^ 32` places is read as one, since their number is cut to zero. -/
theorem fraction_misread_at_overflow :
  let f := lastPlace (2 ^ 32)
  Digits ['0'] ∧ Digits f ∧ f.length = 2 ^ 32 ∧ value ['0'] = 0 ∧ value f = 1
    ∧ readFraction? ('0' :: '.' :: f) = some 1
    ∧ readFraction? ('0' :: '.' :: f) ≠ some (value ['0'] + value f / 10 ^ f.length : Rat)
    ∧ readFraction? ('0' :: f ++ '/' :: '1' :: '0' :: '*' :: '*' :: (toString f.length).toList)
      = none
  := by
  have hw : Digits ['0'] := digits_toDigits 0
  have hf := digits_lastPlace (2 ^ 32)
  have hlength : (lastPlace (2 ^ 32)).length = 2 ^ 32 := length_lastPlace (Nat.one_le_two_pow)
  have hvalue := value_lastPlace (2 ^ 32)
  generalize lastPlace (2 ^ 32) = f at hf hlength hvalue
  have hzero : value ['0'] = 0 := rfl
  have hone : value (['0'] ++ f) = 1 := by rw [value_append, hzero, hvalue, Nat.mul_zero]
  have hpoint := readFraction?_point hw hf false
  have hpower := readFraction?_power hw hf false
  rw [if_neg (by omega)] at hpower
  rw [hone, hlength, Nat.mod_self] at hpoint
  replace hpoint : readFraction? ('0' :: '.' :: f) = some 1 := by
    refine hpoint.trans ?_
    norm_num
  refine ⟨hw, hf, hlength, hzero, hvalue, hpoint, ?_, hpower⟩
  rw [hpoint, value_append_div, hone, hlength, ne_eq, Option.some_inj]
  have hlarge : (1 : Rat) < 10 ^ (2 ^ 32) := one_lt_pow₀ (by norm_num) (Nat.two_pow_pos 32).ne'
  generalize (10 : Rat) ^ (2 ^ 32) = scale at hlarge ⊢
  rw [Nat.cast_one, eq_div_iff (zero_lt_one.trans hlarge).ne', one_mul]
  exact hlarge.ne'

end Conformance.Numeral
