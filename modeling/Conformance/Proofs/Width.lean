import Conformance.Legality.Entity
import Conformance.Proofs.Derivation
import Conformance.Proofs.Path
import Mathlib.Algebra.Group.Nat.Defs
import Mathlib.Algebra.Ring.Int.Defs

/-!
# Integers fit their widths

The widths that bounds, moduli and enumerations are judged by are exact.  A type is found not to
be handled exactly if it takes integers that are beyond the policy, and a discrete type is held by
the least machine integer that has room for all that it takes: `widths_exact`.

The formulas differ from definition to definition.  What they have in common is that the width
that they compute fits a size exactly if every integer that the definition needs does:
`TypeDefinition.Discrete.exists_width`.
-/

namespace Conformance

namespace Numeral

variable {n k width size : Nat} {v : Int}

theorem bitLength_le_iff :
  bitLength n ≤ k ↔ n < 2 ^ k
  := by
  unfold bitLength
  split
  · next h =>
    subst h
    exact iff_of_true (Nat.zero_le k) (Nat.two_pow_pos k)
  · next h => rw [Nat.add_one_le_iff, Nat.log2_lt h]

/-- An integer fits two's complement of a width. -/
def FitsSigned (width : Nat) (v : Int) : Prop :=
  -2 ^ (width - 1) ≤ v ∧ v ≤ 2 ^ (width - 1) - 1

/-- An integer fits a width without a sign. -/
def FitsUnsigned (width : Nat) (v : Int) : Prop := 0 ≤ v ∧ v < 2 ^ width

instance (width : Nat) : DecidablePred (FitsSigned width) :=
  fun v => inferInstanceAs (Decidable (_ ≤ v ∧ v ≤ _))

/-- The magnitudes below zero are one greater than those above. -/
theorem signedWidth_le_iff (hw : 1 ≤ width) :
  signedWidth v ≤ width ↔ FitsSigned width v
  := by
  obtain ⟨k, rfl⟩ := Nat.exists_eq_add_of_le' hw
  have hcast : ((2 ^ k : Nat) : Int) = 2 ^ k := Int.natCast_pow 2 k
  rw [FitsSigned, Nat.add_sub_cancel, ← hcast]
  cases v with
  | ofNat n =>
    rw [signedWidth, Nat.add_le_add_iff_right, bitLength_le_iff, Int.ofNat_eq_natCast]
    omega
  | negSucc n =>
    rw [signedWidth, Nat.add_le_add_iff_right, bitLength_le_iff, Int.negSucc_eq]
    omega

/-- The widths at both ends of a byte, and beyond. -/
example : signedWidth 127 = 8 ∧ signedWidth (-128) = 8 ∧ signedWidth 128 = 9 := by decide +kernel

theorem bitLength_le_iff_fits :
  bitLength n ≤ width ↔ FitsUnsigned width n
  := by
  have hcast : ((2 ^ width : Nat) : Int) = 2 ^ width := Int.natCast_pow 2 width
  rw [bitLength_le_iff, FitsUnsigned, ← hcast]
  omega

theorem FitsUnsigned.of_le {w : Int} (h : FitsUnsigned width w) (hv : 0 ≤ v) (hvw : v ≤ w) :
  FitsUnsigned width v
  := ⟨hv, Int.lt_of_le_of_lt hvw h.2⟩

/-! ### Storage sizes -/

theorem le_storageSize (width : Nat) :
  width ≤ storageSize width
  := by
  unfold storageSize
  cases h : storageSizes.find? (width ≤ ·) with
  | none => exact Nat.le_refl width
  | some size => simpa using List.find?_some h

theorem pos_of_mem_storageSizes :
  ∀ size ∈ storageSizes, 1 ≤ size
  := by decide

theorem storageSize_pos (width : Nat) :
  1 ≤ storageSize width
  := by
  unfold storageSize
  cases h : storageSizes.find? (width ≤ ·) with
  | none =>
    have hw := List.find?_eq_none.1 h 8 (by decide)
    simp at hw
    exact Nat.le_trans (by decide) (Nat.le_of_lt hw)
  | some size => exact pos_of_mem_storageSizes size (List.mem_of_find?_eq_some h)

/-- The storage size is the least one that suffices, if one does. -/
theorem storageSize_le (hs : size ∈ storageSizes) (hw : width ≤ size) :
  storageSize width ∈ storageSizes ∧ storageSize width ≤ size
  := by
  -- The sizes ascend, so the first one that suffices is the least.
  have hsorted : storageSizes.Pairwise (· < ·) := by decide
  have hfound : (storageSizes.find? (width ≤ ·)).isSome :=
    List.find?_isSome.2 ⟨size, hs, decide_eq_true hw⟩
  obtain ⟨least, hl⟩ := Option.isSome_iff_exists.1 hfound
  obtain ⟨-, before, after, hsizes, hbefore⟩ := List.find?_eq_some_iff_append.1 hl
  rw [storageSize, hl, Option.getD_some]
  rw [hsizes, List.mem_append, List.mem_cons] at hs
  refine ⟨hsizes ▸ by simp, ?_⟩
  obtain hs | rfl | hs := hs
  · exact absurd hw (by simpa using hbefore size hs)
  · exact Nat.le_refl size
  · rw [hsizes, List.pairwise_append, List.pairwise_cons] at hsorted
    exact Nat.le_of_lt (hsorted.2.1.1 size hs)

end Numeral

open Numeral

/-! ### Representations -/

/-- A representation has room for an integer. -/
def Representation.Holds (r : Representation) (v : Int) : Prop :=
  if r.signed then FitsSigned r.size v else FitsUnsigned r.size v

namespace TypeDefinition

/-- The integers that a discrete type needs room for: the bounds of a signed type, the residues
of a modular type and the positions of the literals of an enumeration. -/
inductive Needs : TypeDefinition → Int → Prop
  | low {low high : Int} : Needs (.signed low high) low
  | high {low high : Int} : Needs (.signed low high) high
  | residue {modulus v : Int} (h : 0 ≤ v) (hm : v < modulus) : Needs (.modular modulus) v
  | position {literals : List String} {i : Nat} (h : i < literals.length) :
    Needs (.enumeration literals) i

/-- A discrete type: signed, or modular with a modulus that is positive, or an enumeration. -/
inductive Discrete : TypeDefinition → Prop
  | signed (low high : Int) : Discrete (.signed low high)
  | modular {modulus : Int} (h : 1 ≤ modulus) : Discrete (.modular modulus)
  | enumeration (literals : List String) : Discrete (.enumeration literals)

/-- A definition of a signed type. -/
def IsSigned (d : TypeDefinition) : Prop := ∃ low high, d = .signed low high

variable {d : TypeDefinition}

theorem Discrete.underlying? (h : d.Discrete) :
  d.underlying? = none
  := by cases h <;> rfl

/-- A discrete type is held in the storage size of a width, which fits a size exactly if all that
the type needs does. -/
theorem Discrete.exists_width (h : d.Discrete) :
  ∃ signed width, d.representation? = some ⟨signed, storageSize width⟩
    ∧ (signed = true ↔ d.IsSigned)
    ∧ ∀ size, 1 ≤ size → (width ≤ size ↔ ∀ v, d.Needs v → (Representation.mk signed size).Holds v)
  := by
  cases h with
  | signed low high =>
    refine ⟨true, _, rfl, ⟨fun _ => ⟨low, high, rfl⟩, fun _ => rfl⟩, fun size hs => ?_⟩
    rw [boundsWidth, Nat.max_le, signedWidth_le_iff hs, signedWidth_le_iff hs]
    constructor
    · rintro ⟨hl, hh⟩ v (_ | _)
      · exact hl
      · exact hh
    · intro h
      exact ⟨h low .low, h high .high⟩
  | @modular modulus hm =>
    refine ⟨false, _, rfl, ⟨nofun, nofun⟩, fun size _ => ?_⟩
    have hlast : ((modulus - 1).natAbs : Int) = modulus - 1 := by omega
    rw [bitLength_le_iff_fits, hlast]
    constructor
    · rintro h v ⟨⟩
      next hv hvm => exact h.of_le hv (by omega)
    · intro h
      exact h _ (.residue (by omega) (by omega))
  | enumeration literals =>
    refine ⟨false, _, rfl, ⟨nofun, nofun⟩, fun size hs => ?_⟩
    rw [Nat.max_le, and_iff_left hs]
    constructor
    · rintro h v ⟨⟩
      next i hi => exact (bitLength_le_iff_fits.1 h).of_le (by omega) (by omega)
    · intro h
      -- Without literals there is no last position, and the width is that of zero.
      by_cases hn : literals = []
      · subst hn
        exact Nat.zero_le size
      · have hlast := List.length_pos_iff.2 hn
        exact bitLength_le_iff_fits.2 (h _ (.position (Nat.sub_one_lt_of_lt hlast)))

end TypeDefinition

namespace Setting

open Inquiry

variable {S : Setting} {e : Entity} {t : TypeFacet} {path : List Step}

theorem exists_representation {id last : EntityId} (hc : Relation.ReflTransGen S.StandsFor id last)
    (ht : S.program.typeFacet last = .ok t) (hd : t.definition.Discrete) :
  ∃ r, S.representation? id = .ok (some r) ∧ (r.signed = true ↔ t.definition.IsSigned)
    ∧ (∀ v, t.definition.Needs v → r.Holds v)
    ∧ ∀ size ∈ storageSizes, (∀ v, t.definition.Needs v → (Representation.mk r.signed size).Holds v)
      → r.size ∈ storageSizes ∧ r.size ≤ size
  := by
  obtain ⟨signed, width, hr, hs, hw⟩ := hd.exists_width
  refine ⟨⟨signed, storageSize width⟩, ?_, hs, ?_, fun size hsize hn => ?_⟩
  · rw [representation?, definition_of_leads hc ht hd.underlying?]
    exact congrArg Except.ok hr
  · exact (hw _ (storageSize_pos width)).1 (le_storageSize width)
  · exact storageSize_le hsize ((hw size (pos_of_mem_storageSizes size hsize)).2 hn)

/-! ### Findings -/

theorem leads_unsupportedUnless {handled : Bool} {site : Site} {feature : Unsupported} :
  (unsupportedUnless handled site feature).Leads path ()
    ↔ path = if handled then [] else [.find site (.unsupported feature)]
  := by
  unfold unsupportedUnless
  split
  · simp
  · exact leads_unsupported

/-- The steps that the inquiry into a type takes behind those of the definition. -/
def closingSteps (e : Entity) (t : TypeFacet) : List Step :=
  (if t.invariant.isSome || t.initialCondition.isSome then [.postponeAspects e.name] else [])
    ++ if t.relaxed then
        [if t.invariant.isSome then .find e.site (.unsupported .relaxedWithInvariant)
          else .relax e.name]
      else []

theorem not_mem_closingSteps {feature : Unsupported} (hf : feature ≠ .relaxedWithInvariant) :
  .find e.site (.unsupported feature) ∉ closingSteps e t
  := by
  unfold closingSteps
  cases t.invariant <;> cases t.initialCondition <;> cases t.relaxed <;> simp [hf]

theorem leads_typeInquiry :
  (S.typeInquiry e t).Leads path ()
    ↔ ∃ p, (S.typeDefinition e.name e.site t.definition).Leads p () ∧ path = p ++ closingSteps e t
  := by
  unfold typeInquiry closingSteps
  rw [leads_then_iff]
  refine exists_congr fun p => ?_
  cases t.invariant <;> cases t.initialCondition <;> cases t.relaxed <;>
    simp [leads_then_iff, leads_unsupported, leads_postponeAspects, leads_relax, and_comm]

theorem fitsSigned_iff {low high : Int} (hb : 1 ≤ S.policy.maxIntegerBits) :
  S.fitsSigned low high
    ↔ FitsSigned S.policy.maxIntegerBits low ∧ FitsSigned S.policy.maxIntegerBits high
  := by
  rw [fitsSigned, decide_eq_true_eq, boundsWidth, Nat.max_le, signedWidth_le_iff hb,
    signedWidth_le_iff hb]

theorem fitsModular_iff {modulus : Int} :
  S.fitsModular modulus ↔ 1 ≤ modulus ∧ modulus ≤ 2 ^ S.policy.maxModulusBits
  := by
  rw [fitsModular, Bool.and_eq_true, decide_eq_true_eq, decide_eq_true_eq]
  refine and_congr_right fun h => ?_
  have hlast : ((modulus - 1).toNat : Int) = modulus - 1 := Int.toNat_of_nonneg (by omega)
  rw [bitLength_le_iff_fits, hlast, FitsUnsigned]
  omega

/-- The inquiry into an entity comes to its end whatever verdicts it gets, and it finds then that
a feature is not handled exactly if a condition holds. -/
def FindsIff (S : Setting) (e : Entity) (feature : Unsupported) (condition : Prop) : Prop :=
  (∃ path, (S.entityInquiry e).Leads path ())
    ∧ ∀ path, (S.entityInquiry e).Leads path ()
      → (.find e.site (.unsupported feature) ∈ path ↔ condition)

/-- A type whose definition is unsupported unless it is handled. -/
theorem findsIff_of_typeDefinition {feature : Unsupported} {handled : Bool}
    (he : e.kind = .type t) (hf : feature ≠ .relaxedWithInvariant)
    (hd : S.typeDefinition e.name e.site t.definition
      = unsupportedUnless handled e.site feature) :
  S.FindsIff e feature (¬ handled)
  := by
  have hpath (path : List Step) : (S.entityInquiry e).Leads path () ↔
      path = (if handled then [] else [.find e.site (.unsupported feature)])
        ++ closingSteps e t := by
    rw [entityInquiry, he, leads_typeInquiry, hd]
    simp only [leads_unsupportedUnless, exists_eq_left]
  refine ⟨⟨_, (hpath _).2 rfl⟩, fun path hl => ?_⟩
  rw [(hpath path).1 hl, List.mem_append, or_iff_left (not_mem_closingSteps hf)]
  cases handled <;> simp

/-- Integers fit their widths.  The width of an integer is that of two's complement, a type is
found not to be handled exactly if a bound does not fit the policy or the modulus is out of its
range, and a discrete type, however many links lead to it, is represented with the right sign in
the least storage size with room for all that it needs. -/
theorem widths_exact (S : Setting) :
  (∀ (v : Int) (n : Nat), 1 ≤ n →
      (signedWidth v ≤ n ↔ -2 ^ (n - 1) ≤ v ∧ v ≤ 2 ^ (n - 1) - 1))
    ∧ (∀ (e : Entity) (t : TypeFacet) (low high : Int), 1 ≤ S.policy.maxIntegerBits →
      e.kind = .type t → t.definition = .signed low high →
      S.FindsIff e .integerRange
        (¬ (FitsSigned S.policy.maxIntegerBits low ∧ FitsSigned S.policy.maxIntegerBits high)))
    ∧ (∀ (e : Entity) (t : TypeFacet) (modulus : Int), e.kind = .type t →
      t.definition = .modular modulus →
      S.FindsIff e .modulusTooLarge (modulus < 1 ∨ 2 ^ S.policy.maxModulusBits < modulus))
    ∧ ∀ (id last : EntityId) (t : TypeFacet), Relation.ReflTransGen S.StandsFor id last →
      S.program.typeFacet last = .ok t → t.definition.Discrete →
      ∃ r, S.representation? id = .ok (some r) ∧ (r.signed = true ↔ t.definition.IsSigned)
        ∧ (∀ v, t.definition.Needs v → r.Holds v)
        ∧ ∀ size ∈ storageSizes,
          (∀ v, t.definition.Needs v → (Representation.mk r.signed size).Holds v)
            → r.size ∈ storageSizes ∧ r.size ≤ size
  := by
  refine ⟨fun v n hn => signedWidth_le_iff hn, ?_, ?_, ?_⟩
  · intro e t low high hb he ht
    rw [← fitsSigned_iff hb]
    exact findsIff_of_typeDefinition he nofun (by rw [ht]; rfl)
  · intro e t modulus he ht
    have hmodulus : modulus < 1 ∨ 2 ^ S.policy.maxModulusBits < modulus
        ↔ ¬ S.fitsModular modulus := by
      rw [fitsModular_iff]
      omega
    rw [hmodulus]
    exact findsIff_of_typeDefinition he nofun (by rw [ht]; rfl)
  · exact fun id last t hc ht hd => exists_representation hc ht hd

/-- Bounds and a modulus at the ends of their ranges and beyond them. -/
def widthSample : Setting :=
  { (ofParts?
      [{ name := "S", kind := .type { definition := .signed (-128) 128 } },
        { name := "M", kind := .type { definition := .modular 257 } }] []).get
      (by decide +kernel) with policy := { maxIntegerBits := 8, maxModulusBits := 8 } }

/-- A modular type without residues, and no other type. -/
def moduloZeroSample : Setting :=
  (ofParts? [{ name := "M", kind := .type { definition := .modular 0 } }] []).get
    (by decide +kernel)

/-- A derived enumeration without literals, where no integer type is handled. -/
def bitlessSample : Setting :=
  { (ofParts?
      [{ name := "E", kind := .type { definition := .enumeration [] } },
        { name := "D", kind := .type { definition := .derived "E" [] } }] []).get
      (by decide +kernel) with policy := { maxIntegerBits := 0, maxModulusBits := 0 } }

theorem widths_exact_widthSample :
  signedWidth (-128) ≤ 8
    ∧ (1 ≤ widthSample.policy.maxIntegerBits
      ∧ ∃ s m, widthSample.program.entity "S" = .ok s ∧ widthSample.program.entity "M" = .ok m
        ∧ widthSample.FindsIff s .integerRange True ∧ widthSample.FindsIff m .modulusTooLarge True)
    ∧ (∃ m, moduloZeroSample.program.entity "M" = .ok m
      ∧ moduloZeroSample.FindsIff m .modulusTooLarge True)
    ∧ Relation.ReflTransGen bitlessSample.StandsFor "D" "E"
      ∧ bitlessSample.representation? "D" = .ok (some ⟨false, 8⟩)
  := by
  have hb : 1 ≤ widthSample.policy.maxIntegerBits := by decide
  have hc : Relation.ReflTransGen bitlessSample.StandsFor "D" "E" :=
    .single (standsFor_iff.2 (by decide +kernel))
  have ht : bitlessSample.program.typeFacet "E" = .ok { definition := .enumeration [] } := by rfl
  obtain ⟨hwidth, hsigned, hmodular, -⟩ := widths_exact widthSample
  obtain ⟨-, -, hzero, -⟩ := widths_exact moduloZeroSample
  obtain ⟨-, -, -, hheld⟩ := widths_exact bitlessSample
  have hs := hsigned { name := "S", kind := .type { definition := .signed (-128) 128 } } _ _ _ hb
    rfl rfl
  have hm := hmodular { name := "M", kind := .type { definition := .modular 257 } } _ _ rfl rfl
  have hz := hzero { name := "M", kind := .type { definition := .modular 0 } } _ _ rfl rfl
  obtain ⟨⟨signed, size⟩, hr, hsign, -, hleast⟩ := hheld _ _ _ hc ht (.enumeration [])
  obtain ⟨hsize, hle⟩ : size ∈ storageSizes ∧ size ≤ 8 := hleast 8 (by decide) nofun
  obtain rfl : signed = false := by
    rw [Bool.eq_false_iff, ne_eq, hsign]
    nofun
  obtain rfl : size = 8 := by
    simp only [storageSizes, List.mem_cons, List.not_mem_nil, or_false] at hsize
    omega
  refine ⟨(hwidth (-128) 8 (by decide)).2 (by decide), ⟨hb, _, _, rfl, rfl, ⟨hs.1, fun path hl => ?_⟩,
    ⟨hm.1, fun path hl => ?_⟩⟩, ⟨_, rfl, hz.1, fun path hl => ?_⟩, hc, hr⟩
  · exact (hs.2 path hl).trans (iff_true_intro (by decide))
  · exact (hm.2 path hl).trans (iff_true_intro (by decide))
  · exact (hz.2 path hl).trans (iff_true_intro (Or.inl (by decide)))

end Setting

end Conformance
