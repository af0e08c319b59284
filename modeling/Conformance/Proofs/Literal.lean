import Conformance.Numeral.Literal
import Conformance.Proofs.Text
import Mathlib.Algebra.Group.Nat.Defs
import Mathlib.Algebra.Ring.Int.Defs
import Mathlib.Tactic.Common

/-!
# The grammar of integer literals

`Literal` is the grammar of integer literals with their values: an optional minus, a head term and
at most one offset, with blanks around terms, signs and the `**` of powers.  A literal is read
exactly if it is written so: `literal?_eq_some_iff`.

The text is cut at its last sign, apart from one that leads it.  The offset has no sign then, so
that all other signs of the text belong to the head: the sign of its integer or of its base,
which is a minus only behind the leading minus, and a plus of its exponent, which there is no
place for unless an offset follows.
-/

namespace Conformance.Numeral

open Text (Blank Trimmed isBlank)

/-! ### The grammar -/

/-- A magnitude with its value: digits, between and after which underscores may stand. -/
structure Magnitude (cs : List Char) (n : Nat) : Prop where
  head : ∃ c ∈ cs.head?, c.isDigit
  chars : ∀ c ∈ cs, c.isDigit ∨ c = '_'
  value : Nat.ofDigitChars 10 (cs.filter Char.isDigit) 0 = n

/-- An exponent without a sign: digits that fit 32 bits. -/
structure PlainExponent (cs : List Char) (n : Nat) : Prop where
  nonempty : cs ≠ []
  digits : ∀ c ∈ cs, c.isDigit
  value : Nat.ofDigitChars 10 cs 0 = n
  fits : n < 2 ^ 32

/-- An exponent that may carry a plus. -/
inductive Exponent : List Char → Nat → Prop where
  | plain {cs : List Char} {n : Nat} (h : PlainExponent cs n) : Exponent cs n
  | plus {cs : List Char} {n : Nat} (h : PlainExponent cs n) : Exponent ('+' :: cs) n

/-- An integer without a sign. -/
inductive Unsigned : List Char → Int → Prop where
  | mk {cs : List Char} {n : Nat} (h : Magnitude cs n) : Unsigned cs n

/-- An integer that may carry a sign of its own, which is a minus only on demand. -/
inductive Signed (mayBeMinus : Bool) : List Char → Int → Prop where
  | unsigned {cs : List Char} {n : Nat} (h : Magnitude cs n) : Signed mayBeMinus cs n
  | plus {cs : List Char} {n : Nat} (h : Magnitude cs n) : Signed mayBeMinus ('+' :: cs) n
  | minus {cs : List Char} {n : Nat} (hm : mayBeMinus = true) (h : Magnitude cs n) :
    Signed mayBeMinus ('-' :: cs) (-n)

/-- A term: an integer, or a power with blanks around the `**`. -/
inductive Term (integer : List Char → Int → Prop) (exponent : List Char → Nat → Prop) :
    List Char → Int → Prop where
  | integer {cs : List Char} {v : Int} (h : integer cs v) : Term integer exponent cs v
  | power {base x y digits : List Char} {b : Int} {n : Nat} (hb : integer base b) (hx : Blank x)
    (hy : Blank y) (he : exponent digits n) :
    Term integer exponent (base ++ x ++ '*' :: '*' :: y ++ digits) (b ^ n)

/-- A value that is negated on demand. -/
def signed (negative : Bool) (v : Int) : Int := if negative then -v else v

/-- The sign that negates on demand. -/
def sign (negative : Bool) : Char := if negative then '-' else '+'

/-- A head term that is negated on demand, and at most one offset, which has no signs but the
one before it. -/
inductive Sum (negative : Bool) : List Char → Int → Prop where
  | head {cs : List Char} {h : Int} (hh : Term (Signed negative) PlainExponent cs h) :
    Sum negative cs (signed negative h)
  | offset {head x y cs : List Char} {h o : Int} {subtracted : Bool}
    (hh : Term (Signed negative) Exponent head h) (hx : Blank x) (hy : Blank y)
    (ho : Term Unsigned PlainExponent cs o) :
    Sum negative (head ++ x ++ sign subtracted :: y ++ cs)
      (signed negative h + signed subtracted o)

/-- An integer literal with its value.  The minus before it applies to the head alone. -/
inductive Literal : List Char → Int → Prop where
  | plain {x y cs : List Char} {v : Int} (hx : Blank x) (hy : Blank y) (h : Sum false cs v) :
    Literal (x ++ cs ++ y) v
  | negated {x y z cs : List Char} {v : Int} (hx : Blank x) (hy : Blank y) (hz : Blank z)
    (h : Sum true cs v) : Literal (x ++ '-' :: y ++ cs ++ z) v

variable {cs x y base digits before after : List Char} {c : Char} {n m : Nat} {v : Int}
variable {negative : Bool}

/-! ### Characters -/

theorem not_isBlank_of_isDigit (h : c.isDigit) :
  ¬ isBlank c
  := by
  obtain ⟨hl, hu⟩ := Char.isDigit_iff_toNat.1 h
  change 48 ≤ c.toNat at hl
  change c.toNat ≤ 57 at hu
  simp [isBlank]
  omega

/-- The characters of a number are digits, underscores and signs. -/
def IsMark (c : Char) : Prop := c.isDigit ∨ c = '_' ∨ c = '+' ∨ c = '-'

theorem IsMark.not_isBlank (h : IsMark c) :
  ¬ isBlank c
  := by
  obtain h | rfl | rfl | rfl := h
  · exact not_isBlank_of_isDigit h
  all_goals decide

theorem IsMark.ne_star (h : IsMark c) :
  c ≠ '*'
  := by
  rintro rfl
  revert h
  unfold IsMark
  decide

theorem not_isSign_of_isDigit (h : c.isDigit) :
  ¬ isSign c
  := by
  intro hs
  simp only [isSign, Bool.or_eq_true, beq_iff_eq] at hs
  obtain rfl | rfl := hs <;> exact absurd h (by decide)

theorem not_isSign_of_isBlank (h : isBlank c) :
  ¬ isSign c
  := by
  intro hs
  have hm : IsMark c := by
    simp only [isSign, Bool.or_eq_true, beq_iff_eq] at hs
    exact Or.inr (Or.inr hs)
  exact hm.not_isBlank h

theorem isSign_sign (negative : Bool) :
  isSign (sign negative)
  := by cases negative <;> rfl

theorem exists_sign (h : isSign c) :
  ∃ negative, c = sign negative
  := by
  simp only [isSign, Bool.or_eq_true, beq_iff_eq] at h
  obtain rfl | rfl := h
  · exact ⟨false, rfl⟩
  · exact ⟨true, rfl⟩

/-! ### Decimal integers and exponents -/

/-- Digits are read one after another, and underscores are skipped. -/
theorem digitsAfter?_eq_some_iff :
  digitsAfter? n cs = some m
    ↔ (∀ c ∈ cs, c.isDigit ∨ c = '_') ∧ Nat.ofDigitChars 10 (cs.filter Char.isDigit) n = m
  := by
  induction cs generalizing n with
  | nil => simp [digitsAfter?]
  | cons c cs ih =>
    rw [digitsAfter?, List.forall_mem_cons]
    split
    · next hc =>
      subst hc
      rw [ih, List.filter_cons_of_neg (by decide)]
      simp
    · next hc =>
      split
      · next hd =>
        rw [ih, List.filter_cons_of_pos hd, Nat.ofDigitChars_cons]
        simp [hd, digitValue]
      · next hd => simp [hc, hd]

theorem magnitude?_eq_some_iff :
  magnitude? cs = some n ↔ Magnitude cs n
  := by
  cases cs with
  | nil =>
    constructor
    · nofun
    · rintro ⟨⟨c, hc, -⟩, -, -⟩
      cases hc
  | cons c cs =>
    rw [magnitude?]
    split
    · next hc =>
      subst hc
      constructor
      · nofun
      · rintro ⟨⟨c, hc, hd⟩, -, -⟩
        obtain rfl := Option.some.inj hc
        exact absurd hd (by decide)
    · next hc =>
      rw [digitsAfter?_eq_some_iff]
      constructor
      · rintro ⟨h, hv⟩
        exact ⟨⟨c, rfl, (h c List.mem_cons_self).resolve_right hc⟩, h, hv⟩
      · rintro ⟨-, h, hv⟩
        exact ⟨h, hv⟩

theorem Magnitude.not_cons (hc : ¬ c.isDigit) :
  ¬ Magnitude (c :: cs) n
  := by
  rintro ⟨⟨d, hd, h⟩, -, -⟩
  obtain rfl := Option.some.inj hd
  exact hc h

/-- The value of a magnitude with a sign. -/
theorem map_magnitude?_eq_some_iff {f : Int → Int} :
  (do return (← magnitude? cs : Nat) : Option Int).map f = some v
    ↔ ∃ n : Nat, Magnitude cs n ∧ f n = v
  := by
  rw [bind_pure_comp, Option.map_eq_map, Option.map_map, Option.map_eq_some_iff]
  simp only [magnitude?_eq_some_iff, Function.comp_apply]

theorem decimal?_eq_some_iff :
  decimal? cs = some v ↔ Signed true cs v
  := by
  unfold decimal?
  split
  · rw [map_magnitude?_eq_some_iff]
    constructor
    · rintro ⟨n, h, rfl⟩
      exact .minus rfl h
    · intro h
      cases h with
      | unsigned h => exact absurd h (Magnitude.not_cons (by decide))
      | minus _ h => exact ⟨_, h, rfl⟩
  · rw [map_magnitude?_eq_some_iff]
    constructor
    · rintro ⟨n, h, rfl⟩
      exact .plus h
    · intro h
      cases h with
      | unsigned h => exact absurd h (Magnitude.not_cons (by decide))
      | plus h => exact ⟨_, h, rfl⟩
  · next hm hp =>
    rw [map_magnitude?_eq_some_iff]
    constructor
    · rintro ⟨n, h, rfl⟩
      exact .unsigned h
    · intro h
      cases h with
      | unsigned h => exact ⟨_, h, rfl⟩
      | plus h => exact absurd rfl (hp _)
      | minus _ h => exact absurd rfl (hm _)

theorem filter_plainDigits?_eq_some_iff :
  (plainDigits? cs).filter (· < Nat.pow 2 32) = some n ↔ PlainExponent cs n
  := by
  rw [Option.filter_eq_some_iff, decide_eq_true_eq, plainDigits?]
  split
  · next h =>
    obtain ⟨hn, ha⟩ := h
    have hd : ∀ c ∈ cs, c.isDigit := List.all_eq_true.1 ha
    rw [digitsAfter?_eq_some_iff, List.filter_eq_self.2 hd]
    constructor
    · rintro ⟨⟨-, hv⟩, hf⟩
      exact ⟨hn, hd, hv, hf⟩
    · rintro ⟨-, -, hv, hf⟩
      exact ⟨⟨fun c hc => Or.inl (hd c hc), hv⟩, hf⟩
  · next h =>
    constructor
    · rintro ⟨⟨⟩, -⟩
    · intro he
      exact absurd ⟨he.nonempty, List.all_eq_true.2 he.digits⟩ h

theorem exponent?_eq_some_iff :
  exponent? cs = some n ↔ Exponent cs n
  := by
  unfold exponent?
  split
  · rw [filter_plainDigits?_eq_some_iff]
    constructor
    · exact .plus
    · intro h
      cases h with
      | plain h => exact absurd (h.digits '+' List.mem_cons_self) (by decide)
      | plus h => exact h
  · next hp =>
    rw [filter_plainDigits?_eq_some_iff]
    constructor
    · exact .plain
    · intro h
      cases h with
      | plain h => exact h
      | plus h => exact absurd rfl (hp _)

/-! ### Marks -/

theorem Magnitude.isMark (h : Magnitude cs n) (hc : c ∈ cs) :
  IsMark c
  := by
  obtain hd | rfl := h.chars c hc
  · exact Or.inl hd
  · exact Or.inr (Or.inl rfl)

theorem Signed.isMark {mayBeMinus : Bool} (h : Signed mayBeMinus cs v) (hc : c ∈ cs) :
  IsMark c
  := by
  cases h with
  | unsigned h => exact h.isMark hc
  | plus h | minus _ h =>
    obtain rfl | hc := List.mem_cons.1 hc
    · simp [IsMark]
    · exact h.isMark hc

theorem Exponent.isMark (h : Exponent cs n) (hc : c ∈ cs) :
  IsMark c
  := by
  cases h with
  | plain h => exact Or.inl (h.digits c hc)
  | plus h =>
    obtain rfl | hc := List.mem_cons.1 hc
    · simp [IsMark]
    · exact Or.inl (h.digits c hc)

theorem Magnitude.ne_nil (h : Magnitude cs n) :
  cs ≠ []
  := by
  rintro rfl
  obtain ⟨c, hc, -⟩ := h.head
  cases hc

theorem Signed.trimmed {mayBeMinus : Bool} (h : Signed mayBeMinus cs v) :
  Trimmed cs
  := by
  refine Text.trimmed_of_forall (fun c hc => (h.isMark hc).not_isBlank) ?_
  cases h with
  | unsigned h => exact h.ne_nil
  | plus | minus => exact List.cons_ne_nil _ _

theorem Exponent.trimmed (h : Exponent cs n) :
  Trimmed cs
  := by
  refine Text.trimmed_of_forall (fun c hc => (h.isMark hc).not_isBlank) ?_
  cases h with
  | plain h => exact h.nonempty
  | plus => exact List.cons_ne_nil _ _

/-! ### Terms -/

/-- A term with the signs that terms carry at most. -/
abbrev AnyTerm : List Char → Int → Prop := Term (Signed true) Exponent

/-- What a term is made of may be seen in another way.  Its integer begins the term. -/
theorem Term.imp {integer integer' : List Char → Int → Prop}
    {exponent exponent' : List Char → Nat → Prop} (h : Term integer exponent cs v)
    (hi : ∀ t w, t <+: cs → integer t w → integer' t w)
    (he : ∀ t n, exponent t n → exponent' t n) :
  Term integer' exponent' cs v
  := by
  cases h with
  | integer h => exact .integer (hi _ _ List.prefix_rfl h)
  | power hb hx hy hn =>
    refine .power (hi _ _ ?_ hb) hx hy (he _ _ hn)
    simp only [List.append_assoc]
    exact List.prefix_append _ _

theorem Term.trimmed (h : AnyTerm cs v) :
  Trimmed cs
  := by
  cases h with
  | integer h => exact h.trimmed
  | @power base x y digits _ _ hb hx hy he =>
    have := hb.trimmed.around he.trimmed (x ++ '*' :: '*' :: y)
    simpa only [List.append_assoc, List.cons_append] using this

theorem splitPower_append (h : '*' ∉ base) :
  splitPower (base ++ '*' :: '*' :: digits) = some (base, digits)
  := by
  induction base with
  | nil => rfl
  | cons c base ih =>
    rw [List.mem_cons, not_or] at h
    rw [List.cons_append, splitPower, ih h.2]
    · rfl
    · intro cs hc
      exact absurd hc.symm h.1

theorem splitPower_eq_none (h : '*' ∉ cs) :
  splitPower cs = none
  := by
  induction cs with
  | nil => rfl
  | cons c cs ih =>
    rw [List.mem_cons, not_or] at h
    rw [splitPower, ih h.2]
    · rfl
    · intro cs hc
      exact absurd hc.symm h.1

theorem of_splitPower_eq_some (h : splitPower cs = some (base, digits)) :
  cs = base ++ '*' :: '*' :: digits
  := by
  fun_induction splitPower cs generalizing base with
  | case1 => cases h
  | case2 cs =>
    cases h
    rfl
  | case3 c cs hn ih =>
    obtain ⟨⟨b, e⟩, hs, he⟩ := Option.map_eq_some_iff.1 h
    cases he
    rw [ih hs, List.cons_append]

/-- A term is read if it stands between blanks. -/
theorem term?_pad (hx : Blank x) (hy : Blank y) (h : AnyTerm cs v) :
  term? (x ++ cs ++ y) = some v
  := by
  rw [term?, Text.trim_pad hx hy h.trimmed]
  cases h with
  | integer h =>
    have hs : '*' ∉ cs := fun hc => (h.isMark hc).ne_star rfl
    simp only [splitPower_eq_none hs, decimal?_eq_some_iff.2 h]
  | @power base x y digits b n hb hx hy he =>
    have hs : '*' ∉ base ++ x := by
      rw [List.mem_append, not_or]
      refine ⟨fun hc => (hb.isMark hc).ne_star rfl, fun hc => ?_⟩
      exact absurd (hx _ hc) (by decide)
    have htb : Text.trim (base ++ x) = base := by
      simpa using Text.trim_pad (x := []) nofun hx hb.trimmed
    have hte : Text.trim (y ++ digits) = digits := by
      simpa using Text.trim_pad (y := []) hy nofun he.trimmed
    rw [List.append_assoc _ ('*' :: '*' :: y), List.cons_append, List.cons_append]
    simp only [splitPower_append hs, htb, hte, decimal?_eq_some_iff.2 hb,
      exponent?_eq_some_iff.2 he]
    rfl

/-- What is read as a term is one between blanks. -/
theorem of_term?_eq_some (h : term? cs = some v) :
  ∃ x t y, Blank x ∧ Blank y ∧ cs = x ++ t ++ y ∧ AnyTerm t v
  := by
  obtain ⟨x, y, hx, hy, hcs⟩ := Text.exists_pad cs
  simp only [term?] at h
  split at h
  · next base digits hs =>
    split at h
    · next b n hb he =>
      cases h
      obtain ⟨x₁, y₁, hx₁, hy₁, hbase⟩ := Text.exists_pad base
      obtain ⟨x₂, y₂, hx₂, hy₂, hdigits⟩ := Text.exists_pad digits
      refine ⟨x ++ x₁, _, y₂ ++ y, hx.append hx₁, hy₂.append hy, ?_,
        .power (decimal?_eq_some_iff.1 hb) hy₁ hx₂ (exponent?_eq_some_iff.1 he)⟩
      rw [of_splitPower_eq_some hs, hbase, hdigits] at hcs
      rw [hcs]
      simp only [List.append_assoc, List.cons_append]
    · cases h
  · exact ⟨x, _, y, hx, hy, hcs, .integer (decimal?_eq_some_iff.1 h)⟩

/-! ### Signs in terms -/

theorem Magnitude.not_isSign (h : Magnitude cs n) (hc : c ∈ cs) :
  ¬ isSign c
  := by
  obtain hd | rfl := h.chars c hc
  · exact not_isSign_of_isDigit hd
  · decide

theorem Signed.ne_nil {mayBeMinus : Bool} (h : Signed mayBeMinus cs v) :
  cs ≠ []
  := by
  rintro rfl
  cases h with
  | unsigned h => exact h.ne_nil rfl

/-- A sign of its own comes first in an integer. -/
theorem Signed.not_isSign {mayBeMinus : Bool} (h : Signed mayBeMinus cs v) (hc : c ∈ cs.tail) :
  ¬ isSign c
  := by
  cases h with
  | unsigned h => exact h.not_isSign (List.mem_of_mem_tail hc)
  | plus h | minus _ h => exact h.not_isSign hc

theorem PlainExponent.not_isSign (h : PlainExponent cs n) (hc : c ∈ cs) :
  ¬ isSign c
  := not_isSign_of_isDigit (h.digits c hc)

section

variable {integer : List Char → Int → Prop} {exponent : List Char → Nat → Prop}

/-- What the characters of a term belong to. -/
theorem Term.cases_of_mem (h : Term integer exponent cs v) (hc : c ∈ cs) :
  (∃ t w, integer t w ∧ c ∈ t) ∨ isBlank c ∨ c = '*' ∨ ∃ t n, exponent t n ∧ c ∈ t
  := by
  cases h with
  | integer h => exact Or.inl ⟨_, _, h, hc⟩
  | @power base x y digits b n hb hx hy he =>
    simp only [List.mem_append, List.mem_cons] at hc
    obtain ((hc | hc) | rfl | rfl | hc) | hc := hc
    · exact Or.inl ⟨_, _, hb, hc⟩
    · exact Or.inr (Or.inl (hx c hc))
    · exact Or.inr (Or.inr (Or.inl rfl))
    · exact Or.inr (Or.inr (Or.inl rfl))
    · exact Or.inr (Or.inl (hy c hc))
    · exact Or.inr (Or.inr (Or.inr ⟨_, _, he, hc⟩))

/-- What the characters of a term behind the first one belong to. -/
theorem Term.cases_of_mem_tail (h : Term integer exponent cs v)
    (hn : ∀ t w, integer t w → t ≠ []) (hc : c ∈ cs.tail) :
  (∃ t w, integer t w ∧ c ∈ t.tail) ∨ isBlank c ∨ c = '*' ∨ ∃ t n, exponent t n ∧ c ∈ t
  := by
  cases h with
  | integer h => exact Or.inl ⟨_, _, h, hc⟩
  | @power base x y digits b n hb hx hy he =>
    obtain ⟨d, base, rfl⟩ := List.exists_cons_of_ne_nil (hn _ _ hb)
    have ht : Term (fun t _ => t = base) exponent (base ++ x ++ '*' :: '*' :: y ++ digits)
        (b ^ n) := .power rfl hx hy he
    obtain ⟨t, -, rfl, hm⟩ | hm := ht.cases_of_mem hc
    · exact Or.inl ⟨_, _, hb, hm⟩
    · exact Or.inr hm

/-- A term without a sign behind its first character carries none in its exponent. -/
theorem Term.plainExponent (h : Term integer Exponent cs v)
    (hn : ∀ t w, integer t w → t ≠ []) (hs : ∀ c ∈ cs.tail, ¬ isSign c) :
  Term integer PlainExponent cs v
  := by
  cases h with
  | integer h => exact .integer h
  | @power base x y digits b n hb hx hy he =>
    refine .power hb hx hy ?_
    cases he with
    | plain he => exact he
    | plus he =>
      refine absurd rfl (hs '+' ?_)
      obtain ⟨c, base, rfl⟩ := List.exists_cons_of_ne_nil (hn _ _ hb)
      simp

end

theorem Term.not_isSign_of_mem_tail (h : Term (Signed negative) PlainExponent cs v)
    (hc : c ∈ cs.tail) :
  ¬ isSign c
  := by
  obtain ⟨t, w, ht, hc⟩ | hc | rfl | ⟨t, n, ht, hc⟩ :=
    h.cases_of_mem_tail (fun _ _ => Signed.ne_nil) hc
  · exact ht.not_isSign hc
  · exact not_isSign_of_isBlank hc
  · decide
  · exact ht.not_isSign hc

theorem Term.not_isSign (h : Term Unsigned PlainExponent cs v) (hc : c ∈ cs) :
  ¬ isSign c
  := by
  obtain ⟨t, w, ⟨ht⟩, hc⟩ | hc | rfl | ⟨t, n, ht, hc⟩ := h.cases_of_mem hc
  · exact ht.not_isSign hc
  · exact not_isSign_of_isBlank hc
  · decide
  · exact ht.not_isSign hc

/-- A term in which no sign is found carries none. -/
theorem Term.unsigned (h : AnyTerm cs v) (hs : ∀ c ∈ cs, ¬ isSign c) :
  Term Unsigned PlainExponent cs v
  := by
  have hp := h.plainExponent (fun _ _ => Signed.ne_nil) fun c hc => hs c (List.mem_of_mem_tail hc)
  refine hp.imp (fun t w ht hw => ?_) fun _ _ => id
  cases hw with
  | unsigned hw => exact ⟨hw⟩
  | plus => exact absurd rfl (hs '+' (ht.subset List.mem_cons_self))
  | minus => exact absurd rfl (hs '-' (ht.subset List.mem_cons_self))

theorem Term.toAny (h : Term Unsigned PlainExponent cs v) :
  AnyTerm cs v
  := h.imp (fun _ _ _ ⟨ht⟩ => .unsigned ht) fun _ _ => .plain

/-! ### Sums -/

/-- The head of a sum, as a term of its own. -/
theorem Term.ofHead {exponent : List Char → Nat → Prop} (h : Term (Signed negative) exponent cs v)
    (he : ∀ t n, exponent t n → Exponent t n) :
  AnyTerm cs v
  := by
  refine h.imp (fun t w _ ht => ?_) he
  cases ht with
  | unsigned ht => exact .unsigned ht
  | plus ht => exact .plus ht
  | minus _ ht => exact .minus rfl ht

/-- A term has a minus of its own only if it starts with one. -/
theorem Term.toHead {exponent : List Char → Nat → Prop} (h : Term (Signed true) exponent cs v)
    (hm : negative = false → cs.head? ≠ some '-') :
  Term (Signed negative) exponent cs v
  := by
  refine h.imp (fun t w hp ht => ?_) fun _ _ => id
  cases ht with
  | unsigned ht => exact .unsigned ht
  | plus ht => exact .plus ht
  | minus _ ht =>
    obtain ⟨rest, rfl⟩ := hp
    cases negative with
    | true => exact .minus rfl ht
    | false => exact absurd rfl (hm rfl)

/-- The head and the offset of a sum, which is cut at its last sign. -/
theorem splitOffset_append (hn : before ≠ []) (hc : isSign c) (ha : ∀ d ∈ after, ¬ isSign d) :
  splitOffset (before ++ c :: after) = some (before, c, after)
  := by
  obtain ⟨d, before, rfl⟩ := List.exists_cons_of_ne_nil hn
  rw [List.cons_append, splitOffset, Text.splitLast_append hc ha]
  rfl

theorem of_splitOffset_eq_some (h : splitOffset cs = some (before, c, after)) :
  before ≠ [] ∧ cs = before ++ c :: after ∧ isSign c ∧ ∀ d ∈ after, ¬ isSign d
  := by
  cases cs with
  | nil => cases h
  | cons d cs =>
    obtain ⟨⟨b, e, a⟩, hs, he⟩ := Option.map_eq_some_iff.1 h
    cases he
    obtain ⟨rfl, hc, ha⟩ := Text.of_splitLast_eq_some hs
    exact ⟨List.cons_ne_nil _ _, rfl, hc, ha⟩

theorem splitOffset_eq_none_iff :
  splitOffset cs = none ↔ ∀ c ∈ cs.tail, ¬ isSign c
  := by
  cases cs with
  | nil => simp [splitOffset]
  | cons d cs =>
    rw [splitOffset, Option.map_eq_none_iff, Text.splitLast_eq_none_iff, List.tail_cons]

theorem sum?_of_splitOffset_eq_none (h : splitOffset cs = none) :
  sum? negative cs = (term? cs).map (signed negative)
  := by
  simp only [sum?, h]
  cases negative <;> rfl

theorem sum?_of_splitOffset_eq_some {subtracted : Bool}
    (h : splitOffset cs = some (before, sign subtracted, after)) :
  sum? negative cs = do return signed negative (← term? before) + signed subtracted (← term? after)
  := by
  simp only [sum?, h]
  cases term? before with
  | none => rfl
  | some h =>
    cases term? after with
    | none => rfl
    | some o => cases negative <;> cases subtracted <;> rfl

theorem sum?_of_sum (h : Sum negative cs v) :
  sum? negative cs = some v
  := by
  cases h with
  | @head _ h hh =>
    have ht := term?_pad (x := []) (y := []) nofun nofun (hh.ofHead fun _ _ => .plain)
    rw [List.nil_append, List.append_nil] at ht
    rw [sum?_of_splitOffset_eq_none
      (splitOffset_eq_none_iff.2 fun c hc => hh.not_isSign_of_mem_tail hc), ht]
    rfl
  | @offset head x y offset h o subtracted hh hx hy ho =>
    have hth := term?_pad (x := []) nofun hx (hh.ofHead fun _ _ => id)
    have hto := term?_pad (y := []) hy nofun ho.toAny
    rw [List.nil_append] at hth
    rw [List.append_nil] at hto
    have hs : splitOffset (head ++ x ++ sign subtracted :: (y ++ offset))
        = some (head ++ x, sign subtracted, y ++ offset) := by
      refine splitOffset_append ?_ (isSign_sign subtracted) fun d hd => ?_
      · exact List.append_ne_nil_of_left_ne_nil (hh.ofHead fun _ _ => id).trimmed.ne_nil _
      · obtain hd | hd := List.mem_append.1 hd
        · exact not_isSign_of_isBlank (hy d hd)
        · exact ho.not_isSign hd
    rw [List.append_assoc _ (_ :: y), List.cons_append, sum?_of_splitOffset_eq_some hs, hth, hto]
    rfl

theorem Sum.trimmed (h : Sum negative cs v) :
  Trimmed cs
  := by
  cases h with
  | head hh => exact (hh.ofHead fun _ _ => .plain).trimmed
  | @offset head x y offset h o subtracted hh hx hy ho =>
    have := (hh.ofHead fun _ _ => id).trimmed.around ho.toAny.trimmed (x ++ sign subtracted :: y)
    simpa only [List.append_assoc, List.cons_append] using this

/-- Without a minus before it, a sum does not start with one. -/
theorem Sum.head?_ne_minus (h : Sum false cs v) :
  cs.head? ≠ some '-'
  := by
  have term {exponent : List Char → Nat → Prop} {t : List Char} {w : Int}
      (ht : Term (Signed false) exponent t w) : ∃ c ∈ t.head?, c ≠ '-' := by
    have integer {t : List Char} {w : Int} (ht : Signed false t w) : ∃ c ∈ t.head?, c ≠ '-' := by
      cases ht with
      | unsigned h =>
        obtain ⟨c, hc, hd⟩ := h.head
        refine ⟨c, hc, ?_⟩
        rintro rfl
        exact absurd hd (by decide)
      | plus => exact ⟨'+', rfl, by decide⟩
      | minus hm => cases hm
    cases ht with
    | integer h => exact integer h
    | power hb =>
      obtain ⟨c, hc, hne⟩ := integer hb
      exact ⟨c, by simp_all, hne⟩
  obtain ⟨c, hc, hne⟩ : ∃ c ∈ cs.head?, c ≠ '-' := by
    cases h with
    | head hh => exact term hh
    | offset hh =>
      obtain ⟨c, hc, hne⟩ := term hh
      exact ⟨c, by simp_all, hne⟩
  rw [hc]
  simpa using hne

/-- What is read as a sum is one with blanks behind it. -/
theorem of_sum?_eq_some (hb : ∀ c ∈ cs.head?, ¬ isBlank c)
    (hm : negative = false → cs.head? ≠ some '-') (h : sum? negative cs = some v) :
  ∃ t y, Blank y ∧ cs = t ++ y ∧ Sum negative t v
  := by
  -- A term that the text starts with has no blanks before it.
  have head {t : List Char} {w : Int} (hp : t <+: cs) (ht : term? t = some w) :
      ∃ t' y, Blank y ∧ t = t' ++ y ∧ Term (Signed negative) Exponent t' w := by
    obtain ⟨x, t', y, hx, hy, rfl, ha⟩ := of_term?_eq_some ht
    obtain ⟨rest, rfl⟩ := hp
    obtain rfl : x = [] := by
      cases x with
      | nil => rfl
      | cons c x => exact absurd (hx c List.mem_cons_self) (hb c rfl)
    exact ⟨t', y, hy, rfl, ha.toHead fun hf hh => hm hf (by simp_all)⟩
  cases hs : splitOffset cs with
  | none =>
    rw [sum?_of_splitOffset_eq_none hs] at h
    obtain ⟨w, hw, rfl⟩ := Option.map_eq_some_iff.1 h
    obtain ⟨t, y, hy, rfl, ht⟩ := head List.prefix_rfl hw
    refine ⟨t, y, hy, rfl, .head (ht.plainExponent (fun _ _ => Signed.ne_nil) fun c hc => ?_)⟩
    apply splitOffset_eq_none_iff.1 hs
    rw [List.tail_append_of_ne_nil (ht.ofHead fun _ _ => id).trimmed.ne_nil]
    exact List.mem_append_left y hc
  | some parts =>
    obtain ⟨before, c, after⟩ := parts
    obtain ⟨-, hcs, hc, ha⟩ := of_splitOffset_eq_some hs
    obtain ⟨subtracted, rfl⟩ := exists_sign hc
    rw [sum?_of_splitOffset_eq_some hs] at h
    obtain ⟨w, hw, h⟩ := Option.bind_eq_some_iff.1 h
    obtain ⟨o, ho, h⟩ := Option.bind_eq_some_iff.1 h
    cases h
    obtain ⟨t, z, hz, rfl, ht⟩ := head (hcs ▸ List.prefix_append _ _) hw
    obtain ⟨x, t', y, hx, hy, rfl, ht'⟩ := of_term?_eq_some ho
    refine ⟨_, y, hy, ?_, .offset ht hz hx (ht'.unsigned fun d hd => ha d ?_)⟩
    · rw [hcs]
      simp only [List.append_assoc, List.cons_append]
    · exact List.mem_append_left _ (List.mem_append_right _ hd)

/-! ### Literals -/

theorem literal?_of_literal (h : Literal cs v) :
  literal? cs = some v
  := by
  cases h with
  | @plain x y cs v hx hy h =>
    rw [literal?, Text.trim_pad hx hy h.trimmed]
    split
    · exact absurd rfl h.head?_ne_minus
    · exact sum?_of_sum h
  | @negated x y z cs v hx hy hz h =>
    have ht : Trimmed ('-' :: y ++ cs) := by
      have hm : Trimmed ['-'] :=
        Text.trimmed_of_forall (List.forall_mem_singleton.2 (by decide)) (List.cons_ne_nil _ _)
      simpa using hm.around h.trimmed y
    have hp := Text.trim_pad hx hz ht
    rw [← List.append_assoc] at hp
    rw [literal?, hp]
    simp only [List.cons_append, Text.trimStart_pad hy h.trimmed]
    exact sum?_of_sum h

theorem of_literal?_eq_some (h : literal? cs = some v) :
  Literal cs v
  := by
  obtain ⟨x, y, hx, hy, hcs⟩ := Text.exists_pad cs
  unfold literal? at h
  split at h
  · next rest ht =>
    obtain ⟨z, hz, hrest⟩ := Text.exists_trimStart_pad rest
    obtain ⟨t, w, hw, hs, hsum⟩ :=
      of_sum?_eq_some (fun c hc => Text.head_trimStart hc) (by simp) h
    have hn := Literal.negated hx hz (hw.append hy) hsum
    rw [hcs, ht, hrest, hs]
    simpa only [List.append_assoc, List.cons_append] using hn
  · next hm =>
    have hne : (Text.trim cs).head? ≠ some '-' := by
      intro hh
      obtain ⟨rest, hr⟩ := List.head?_eq_some_iff.1 hh
      exact hm rest hr
    obtain ⟨t, w, hw, hs, hsum⟩ :=
      of_sum?_eq_some (fun c hc => Text.head_trim hc) (fun _ => hne) h
    have hp := Literal.plain hx (hw.append hy) hsum
    rw [hcs, hs]
    simpa only [List.append_assoc] using hp

/-- A literal is read exactly if it is written as the grammar says. -/
theorem literal?_eq_some_iff :
  literal? cs = some v ↔ Literal cs v
  := ⟨of_literal?_eq_some, literal?_of_literal⟩

/-- A power binds tighter than the minus before it, which leaves the offset alone. -/
example : literal? "-2**7+1".toList = some (-127) := by decide +kernel

/-- An optional minus with blanks behind it. -/
def lead (negative : Bool) (blanks : List Char) : List Char :=
  if negative then '-' :: blanks else blanks

theorem literal_lead {z : List Char} (hx : Blank x) (hy : Blank y) (hz : Blank z)
    (h : Sum negative cs v) :
  Literal (x ++ lead negative y ++ cs ++ z) v
  := by
  cases negative with
  | true => exact .negated hx hy hz h
  | false => exact .plain (hx.append hy) hz h

/-- Integer literals are read as their grammar says.  An optional minus, a head term and at most
one offset, which have no signs of their own, are read with the value of the head, which the
minus negates, and of the offset.  What is read is a literal of the grammar, with the value that
it has there. -/
theorem literals_exact {head offset z : List Char} {h o : Int} (negative subtracted : Bool)
    (hx : Blank x) (hy : Blank y) (hb : Blank before) (ha : Blank after) (hz : Blank z)
    (hh : Term Unsigned PlainExponent head h) (ho : Term Unsigned PlainExponent offset o)
    (cs : List Char) (v : Int) :
  literal? (x ++ lead negative y ++ head ++ z) = some (signed negative h)
    ∧ literal? (x ++ lead negative y ++ head ++ before ++ sign subtracted :: after ++ offset ++ z)
      = some (signed negative h + signed subtracted o)
    ∧ (literal? cs = some v ↔ Literal cs v)
  := by
  have hhead : Term (Signed negative) PlainExponent head h :=
    hh.imp (fun _ _ _ ⟨ht⟩ => .unsigned ht) fun _ _ => id
  have hsum : Sum negative (head ++ before ++ sign subtracted :: after ++ offset)
      (signed negative h + signed subtracted o) :=
    .offset (hhead.imp (fun _ _ _ => id) fun _ _ => .plain) hb ha ho
  refine ⟨literal?_of_literal (literal_lead hx hy hz (.head hhead)), ?_, literal?_eq_some_iff⟩
  have := literal?_of_literal (literal_lead hx hy hz hsum)
  simpa only [List.append_assoc, List.cons_append] using this

/-- Blanks in all places, and a text whose head carries a minus of its own behind the leading one
and a plus in its exponent. -/
theorem literals_exact_power :
  (Blank [' '] ∧ Term Unsigned PlainExponent ['2', ' ', '*', '*', ' ', '7'] 128
      ∧ Term Unsigned PlainExponent ['1'] 1)
    ∧ literal? [' ', '-', ' ', '2', ' ', '*', '*', ' ', '7', ' '] = some (-128)
    ∧ literal? [' ', '-', ' ', '2', ' ', '*', '*', ' ', '7', ' ', '+', ' ', '1', ' '] = some (-127)
    ∧ Literal ['-', '-', '2', '*', '*', '+', '2', '-', '1'] (-5)
  := by
  have hs : Blank [' '] := List.forall_mem_singleton.2 rfl
  have h₁ : Magnitude ['1'] 1 :=
    ⟨⟨'1', by decide⟩, List.forall_mem_singleton.2 (Or.inl rfl), by decide⟩
  have h₂ : Magnitude ['2'] 2 :=
    ⟨⟨'2', by decide⟩, List.forall_mem_singleton.2 (Or.inl rfl), by decide⟩
  have h₇ : PlainExponent ['7'] 7 :=
    ⟨nofun, List.forall_mem_singleton.2 rfl, by decide, by decide⟩
  have hh : Term Unsigned PlainExponent (['2'] ++ [' '] ++ '*' :: '*' :: [' '] ++ ['7']) (2 ^ 7) :=
    .power (.mk h₂) hs hs h₇
  have ho : Term Unsigned PlainExponent ['1'] 1 := .integer (.mk h₁)
  obtain ⟨hhead, hsum, hiff⟩ := literals_exact true false hs hs hs hs hs hh ho
    ['-', '-', '2', '*', '*', '+', '2', '-', '1'] (-5)
  exact ⟨⟨hs, hh, ho⟩, hhead, hsum, hiff.1 (by decide +kernel)⟩

end Conformance.Numeral
