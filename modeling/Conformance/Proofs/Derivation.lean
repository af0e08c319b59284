import Conformance.Proofs.Chain
import Conformance.Proofs.Foundation
import Conformance.Proofs.Spine

/-!
# Chains of types

A subtype or a derived type stands for its parent, a private type for its full view unless that
is excluded from analysis, and an incomplete type for its completion.  The core of a type is
the end of the chain of these links: `core_of_chain`.  The walk along a chain is cut off after
as many types as the program has entities, and one more, so it comes to the end of every chain
that has one, and is cut off exactly on the cyclic ones.

A type is volatile if it is marked so, or its core is; the marks in between do not count:
`volatile_inherited_iff`.
-/

namespace Conformance

open Relation (ReflTransGen)

namespace Setting

variable (S : Setting)

/-- A type stands for another one, which is the next on the chain to its core. -/
inductive StandsFor (type next : EntityId) : Prop where
  | subtype {t : TypeFacet} {constraint : List Node} (ht : S.program.typeFacet type = .ok t)
    (hd : t.definition = .subtype next constraint)
  | derived {t : TypeFacet} {constraint : List Node} (ht : S.program.typeFacet type = .ok t)
    (hd : t.definition = .derived next constraint)
  /-- A private type with a full view that is not excluded from analysis. -/
  | fullView {t : TypeFacet} {discriminants : List EntityId} {tagged : Bool}
    (ht : S.program.typeFacet type = .ok t)
    (hd : t.definition = .partialView (some next) discriminants tagged)
    (ho : S.isOff next = .ok false)
  | completion {t : TypeFacet} (ht : S.program.typeFacet type = .ok t)
    (hd : t.definition = .incomplete (some next))

/-- An entity is a type, and the full view that it has as a private type has a mode. -/
def IsLinked (type : EntityId) : Prop :=
  ∃ t, S.program.typeFacet type = .ok t ∧ ∀ full discriminants tagged,
    t.definition = .partialView (some full) discriminants tagged →
      ∃ mode, S.modeOf full = .ok mode

/-- The chain of a type goes along types whose full views have modes. -/
def ChainResolves (type : EntityId) : Prop :=
  ∀ x, ReflTransGen S.StandsFor type x → S.IsLinked x

/-- The chain of a type resolves and is not cyclic. -/
structure Resolvable (type : EntityId) : Prop where
  resolves : S.ChainResolves type
  acyclic : ¬ Chain.Cyclic S.StandsFor type

/-- A type is marked as volatile itself. -/
def MarkedVolatile (type : EntityId) : Prop :=
  ∃ t, S.program.typeFacet type = .ok t ∧ t.volatile = true

/-- The link from an entity to the type that it stands for. -/
def link? (type : EntityId) : Answer (Option EntityId) := do
  S.next? (← S.program.typeFacet type)

variable {S} {origin type next last : EntityId} {t : TypeFacet} {e : Entity}

/-! ### Links -/

theorem link?_of_typeFacet (ht : S.program.typeFacet type = .ok t) :
  S.link? type = S.next? t
  := by
  rw [link?, ht]
  rfl

theorem standsFor_iff :
  S.StandsFor type next ↔ S.link? type = .ok (some next)
  := by
  constructor
  · intro h
    cases h with
    | subtype ht hd | derived ht hd | completion ht hd =>
      rw [link?_of_typeFacet ht, next?, hd]
      rfl
    | fullView ht hd ho =>
      rw [link?_of_typeFacet ht, next?, hd]
      simp only [TypeDefinition.underlying?, hidesFullView, ho]
      rfl
  · intro h
    obtain ⟨t, ht, h⟩ := Answer.bind_eq_ok.1 h
    unfold next? at h
    split at h
    · cases h
    · next x hx =>
      obtain ⟨hidden, hh, h⟩ := Answer.bind_eq_ok.1 h
      cases hidden with
      | true => cases h
      | false =>
        obtain rfl : x = next := by simpa using h
        unfold TypeDefinition.underlying? at hx
        split at hx
        · next hd => exact .subtype ht (Option.some.inj hx ▸ hd)
        · next hd => exact .derived ht (Option.some.inj hx ▸ hd)
        · next hd =>
          subst hx
          rw [hd] at hh
          exact .fullView ht hd hh
        · next hd => exact .completion ht (hx ▸ hd)
        · cases hx

/-- A type stands for at most one other type. -/
theorem standsFor_rightUnique :
  Relator.RightUnique S.StandsFor
  := by
  intro x y z hy hz
  have h := (standsFor_iff.1 hy).symm.trans (standsFor_iff.1 hz)
  exact Option.some.inj (Except.ok.inj h)

theorem mem_keys_of_standsFor (h : S.StandsFor type next) :
  type ∈ S.program.entities.keys
  := by
  obtain ⟨t, ht, -⟩ := Answer.bind_eq_ok.1 (standsFor_iff.1 h)
  obtain ⟨e, he, -⟩ := Program.typeFacet_eq_ok.1 ht
  exact Program.mem_keys_of_entity he

theorem isLinked_iff :
  S.IsLinked type ↔ ∃ next?, S.link? type = .ok next?
  := by
  constructor
  · rintro ⟨t, ht, hm⟩
    rw [link?_of_typeFacet ht]
    unfold next?
    split
    · exact ⟨none, rfl⟩
    · refine Answer.exists_bind ?_ fun hidden _ => ⟨_, rfl⟩
      unfold hidesFullView
      split
      · next hd => exact Answer.exists_bind (hm _ _ _ hd) fun _ _ => ⟨_, rfl⟩
      · exact ⟨false, rfl⟩
  · rintro ⟨next?, h⟩
    obtain ⟨t, ht, h⟩ := Answer.bind_eq_ok.1 h
    refine ⟨t, ht, fun full discriminants tagged hd => ?_⟩
    unfold Setting.next? at h
    rw [hd] at h
    obtain ⟨hidden, hh, -⟩ := Answer.bind_eq_ok.1 h
    obtain ⟨mode, hmode, -⟩ := Answer.bind_eq_ok.1 hh
    exact ⟨mode, hmode⟩

theorem ChainResolves.of_leads (h : S.ChainResolves type) (hn : ReflTransGen S.StandsFor type next) :
  S.ChainResolves next
  := fun x hx => h x (hn.trans hx)

theorem Resolvable.of_leads (h : S.Resolvable type) (hn : ReflTransGen S.StandsFor type next) :
  S.Resolvable next
  := by
  refine ⟨h.resolves.of_leads hn, ?_⟩
  rintro ⟨x, hx, hc⟩
  exact h.acyclic ⟨x, hn.trans hx, hc⟩

/-! ### Walks along a chain -/

theorem coreFrom_type (he : S.program.entity type = .ok e)
    (ht : S.program.typeFacet type = .ok t) (steps : Nat) :
  S.coreFrom origin (steps + 1) e = (do
    match ← S.next? t with
    | some next => S.coreFrom origin steps (← S.program.entity next)
    | none => return (type, t))
  := by
  obtain ⟨e', he', hk⟩ := Program.typeFacet_eq_ok.1 ht
  obtain rfl := Except.ok.inj (he.symm.trans he')
  rewrite [coreFrom, hk, S.program.name_eq_of_entity he]
  rfl

/-- The walk goes on along a link. -/
theorem coreFrom_next (he : S.program.entity type = .ok e) (hn : S.StandsFor type next)
    {e' : Entity} (he' : S.program.entity next = .ok e') (steps : Nat) :
  S.coreFrom origin (steps + 1) e = S.coreFrom origin steps e'
  := by
  obtain ⟨t, ht, hl⟩ := Answer.bind_eq_ok.1 (standsFor_iff.1 hn)
  rw [coreFrom_type he ht, hl]
  change (S.program.entity next >>= _) = _
  rw [he']
  rfl

/-- The walk along a chain comes to its end. -/
theorem coreFrom_of_endsWithin (origin : EntityId) {steps : Nat}
    (h : Chain.EndsWithin S.StandsFor steps type) (hr : S.ChainResolves type)
    (he : S.program.entity type = .ok e) :
  ∃ last t, Chain.EndsAt S.StandsFor type last ∧ S.program.typeFacet last = .ok t
    ∧ S.coreFrom origin steps e = .ok (last, t)
  := by
  induction h generalizing e with
  | @last _ type hlast =>
    obtain ⟨next?, hl⟩ := isLinked_iff.1 (hr type .refl)
    obtain ⟨t, ht, hn⟩ := Answer.bind_eq_ok.1 hl
    cases next? with
    | some next => exact (hlast next (standsFor_iff.2 hl)).elim
    | none =>
      refine ⟨type, t, ⟨.refl, hlast⟩, ht, ?_⟩
      rw [coreFrom_type he ht, hn]
      rfl
  | link hn _ ih =>
    obtain ⟨t, ht, -⟩ := hr _ (.single hn)
    obtain ⟨e', he', -⟩ := Program.typeFacet_eq_ok.1 ht
    obtain ⟨last, t, hlast, ht, hc⟩ := ih (hr.of_leads (.single hn)) he'
    exact ⟨last, t, hlast.head hn, ht, (coreFrom_next he hn he' _).trans hc⟩

/-- The walk along a cyclic chain is cut off, after however many steps. -/
theorem coreFrom_of_cyclic (h : Chain.Cyclic S.StandsFor type) (hr : S.ChainResolves type)
    (he : S.program.entity type = .ok e) (steps : Nat) :
  S.coreFrom origin steps e = .error (.contract (.cyclicDerivation origin))
  := by
  induction steps generalizing type e with
  | zero => rfl
  | succ steps ih =>
    obtain ⟨next, hn, h⟩ := h.exists_link
    obtain ⟨t, ht, -⟩ := hr _ (.single hn)
    obtain ⟨e', he', -⟩ := Program.typeFacet_eq_ok.1 ht
    rw [coreFrom_next he hn he']
    exact ih h (hr.of_leads (.single hn)) he'

/-! ### Cores -/

theorem ChainResolves.exists_entity (h : S.ChainResolves type) :
  ∃ e, S.program.entity type = .ok e
  := by
  obtain ⟨t, ht, -⟩ := h type .refl
  obtain ⟨e, he, -⟩ := Program.typeFacet_eq_ok.1 ht
  exact ⟨e, he⟩

/-- The core of a type is the end of its chain. -/
theorem Resolvable.exists_core (h : S.Resolvable type) :
  ∃ last t, Chain.EndsAt S.StandsFor type last ∧ S.program.typeFacet last = .ok t
    ∧ S.core type = .ok (last, t)
  := by
  obtain ⟨e, he⟩ := h.resolves.exists_entity
  have hw := Chain.endsWithin_of_not_cyclic (fun _ _ => mem_keys_of_standsFor) h.acyclic
  rw [Std.TreeMap.length_keys] at hw
  obtain ⟨last, t, hlast, ht, hc⟩ := coreFrom_of_endsWithin type hw h.resolves he
  exact ⟨last, t, hlast, ht, Answer.bind_eq_ok.2 ⟨e, he, hc⟩⟩

/-- A type that is no view, subtype or derivation of another one is the core of all types whose
chains come to it. -/
theorem core_of_leads (h : ReflTransGen S.StandsFor type last)
    (ht : S.program.typeFacet last = .ok t) (hd : t.definition.underlying? = none) :
  S.core type = .ok (last, t)
  := by
  have hl : S.link? last = .ok none := by
    rw [link?_of_typeFacet ht, next?, hd]
    rfl
  have hlast : Chain.EndsAt S.StandsFor type last := by
    refine ⟨h, fun next hn => ?_⟩
    cases hl.symm.trans (standsFor_iff.1 hn)
  have hr : S.ChainResolves type := by
    intro x hx
    obtain rfl | ⟨next, hn, -⟩ :=
      (hlast.of_leads standsFor_rightUnique hx).leads.cases_head
    · exact isLinked_iff.2 ⟨none, hl⟩
    · exact isLinked_iff.2 ⟨some next, standsFor_iff.1 hn⟩
  obtain ⟨last', t', hlast', ht', hc⟩ :=
    Resolvable.exists_core ⟨hr, hlast.not_cyclic standsFor_rightUnique⟩
  obtain rfl := hlast'.unique standsFor_rightUnique hlast
  obtain rfl := Except.ok.inj (ht'.symm.trans ht)
  exact hc

theorem definition_of_leads (h : ReflTransGen S.StandsFor type last)
    (ht : S.program.typeFacet last = .ok t) (hd : t.definition.underlying? = none) :
  S.definition type = .ok t.definition
  := Answer.bind_eq_ok.2 ⟨_, core_of_leads h ht hd, rfl⟩

/-- All types on a chain have the same core. -/
theorem Resolvable.core_eq (h : S.Resolvable type) (hn : ReflTransGen S.StandsFor type next) :
  S.core next = S.core type
  := by
  obtain ⟨last, t, hlast, ht, hc⟩ := h.exists_core
  obtain ⟨last', t', hlast', ht', hc'⟩ := (h.of_leads hn).exists_core
  obtain rfl := hlast'.unique standsFor_rightUnique (hlast.of_leads standsFor_rightUnique hn)
  obtain rfl := Except.ok.inj (ht'.symm.trans ht)
  exact hc'.trans hc.symm

/-- A type has a core exactly if its chain resolves and is not cyclic. -/
theorem hasCore_iff :
  S.HasCore type ↔ S.Resolvable type
  := by
  have resolves (origin : EntityId) (steps : Nat) {type : EntityId} {e : Entity}
      {core : EntityId × TypeFacet} (he : S.program.entity type = .ok e) (h : S.coreFrom origin steps e = .ok core) :
      S.ChainResolves type := by
    induction steps generalizing type e with
    | zero => cases h
    | succ steps ih =>
      rw [coreFrom] at h
      split at h
      · next t hk =>
        have ht := Program.typeFacet_eq_ok.2 ⟨e, he, hk⟩
        obtain ⟨next?, hn, h⟩ := Answer.bind_eq_ok.1 h
        have hl : S.link? type = .ok next? := (link?_of_typeFacet ht).trans hn
        intro x hx
        obtain rfl | ⟨y, hy, hyx⟩ := hx.cases_head
        · exact isLinked_iff.2 ⟨next?, hl⟩
        · obtain rfl := Except.ok.inj (hl.symm.trans (standsFor_iff.1 hy))
          obtain ⟨e', he', h⟩ := Answer.bind_eq_ok.1 h
          exact ih he' h x hyx
      · cases h
  constructor
  · rintro ⟨core, h⟩
    obtain ⟨e, he, h⟩ := Answer.bind_eq_ok.1 h
    have hr := resolves _ _ he h
    refine ⟨hr, fun hc => ?_⟩
    cases (coreFrom_of_cyclic hc hr he _).symm.trans h
  · intro h
    obtain ⟨last, t, -, -, hc⟩ := h.exists_core
    exact ⟨(last, t), hc⟩

instance (type : EntityId) : Decidable (S.Resolvable type) := decidable_of_iff _ hasCore_iff

/-- The core of a type whose chain resolves.  If the chain is not cyclic, the core is its end,
which is its own core and that of all types on the chain, however long it is.  If it is cyclic,
the type has no core, and the answer says so. -/
theorem core_of_chain (hr : S.ChainResolves type) :
  (¬ Chain.Cyclic S.StandsFor type → ∃ last t, Chain.EndsAt S.StandsFor type last
      ∧ S.program.typeFacet last = .ok t ∧ S.core type = .ok (last, t)
      ∧ S.core last = .ok (last, t)
      ∧ ∀ next, S.StandsFor type next → S.core next = .ok (last, t))
    ∧ (Chain.Cyclic S.StandsFor type
      → S.core type = .error (.contract (.cyclicDerivation type)))
  := by
  constructor
  · intro ha
    have h : S.Resolvable type := ⟨hr, ha⟩
    obtain ⟨last, t, hlast, ht, hc⟩ := h.exists_core
    refine ⟨last, t, hlast, ht, hc, (h.core_eq hlast.leads).trans hc, fun next hn => ?_⟩
    exact (h.core_eq (.single hn)).trans hc
  · intro hc
    obtain ⟨e, he⟩ := hr.exists_entity
    rw [core, he]
    exact coreFrom_of_cyclic hc hr he _

/-- A chain with a link of each kind, from `I` to `B`, two types that are derived from each other,
and volatile types at the end of a chain and in the middle of one. -/
def derivedSample : Setting :=
  (ofParts?
    [{ name := "B", kind := .type { definition := .signed 0 9 } },
      { name := "D", kind := .type { definition := .derived "B" [], volatile := true } },
      { name := "S", kind := .type { definition := .subtype "D" [] } },
      { name := "P", kind := .type { definition := .partialView (some "S") [] false } },
      { name := "I", kind := .type { definition := .incomplete (some "P") } },
      { name := "C", kind := .type { definition := .derived "E" [] } },
      { name := "E", kind := .type { definition := .derived "C" [] } },
      { name := "V", kind := .type { definition := .modular 256, volatile := true } },
      { name := "W", kind := .type { definition := .subtype "V" [] } },
      { name := "X", kind := .object { type := "S" } },
      { name := "Y", kind := .object { type := "D" } }] []).get
    (by decide +kernel)

theorem core_of_chain_derivedSample :
  (derivedSample.ChainResolves "I" ∧ ¬ Chain.Cyclic derivedSample.StandsFor "I"
      ∧ ∃ last t, Chain.EndsAt derivedSample.StandsFor "I" last
        ∧ derivedSample.program.typeFacet last = .ok t ∧ derivedSample.core "I" = .ok (last, t)
        ∧ derivedSample.core last = .ok (last, t)
        ∧ ∀ next, derivedSample.StandsFor "I" next → derivedSample.core next = .ok (last, t))
    ∧ derivedSample.ChainResolves "C" ∧ Chain.Cyclic derivedSample.StandsFor "C"
      ∧ derivedSample.core "C" = .error (.contract (.cyclicDerivation "C"))
  := by
  have hI : derivedSample.Resolvable "I" := by decide +kernel
  have hCE : derivedSample.StandsFor "C" "E" := standsFor_iff.2 (by decide +kernel)
  have hEC : derivedSample.StandsFor "E" "C" := standsFor_iff.2 (by decide +kernel)
  have hC : Chain.Cyclic derivedSample.StandsFor "C" := ⟨"C", .refl, .head hCE (.single hEC)⟩
  have hr : derivedSample.ChainResolves "C" := by
    have around (x : EntityId) (hx : ReflTransGen derivedSample.StandsFor "C" x) :
        x = "C" ∨ x = "E" := by
      induction hx with
      | refl => exact Or.inl rfl
      | tail _ hxy ih =>
        obtain rfl | rfl := ih
        · exact Or.inr (standsFor_rightUnique hxy hCE)
        · exact Or.inl (standsFor_rightUnique hxy hEC)
    intro x hx
    obtain rfl | rfl := around x hx
    · exact isLinked_iff.2 ⟨_, standsFor_iff.1 hCE⟩
    · exact isLinked_iff.2 ⟨_, standsFor_iff.1 hEC⟩
  exact ⟨⟨hI.resolves, hI.acyclic, (core_of_chain hI.resolves).1 hI.acyclic⟩, hr, hC,
    (core_of_chain hr).2 hC⟩

/-! ### Volatile types -/

theorem markedVolatile_iff (ht : S.program.typeFacet type = .ok t) :
  S.MarkedVolatile type ↔ t.volatile = true
  := by
  unfold MarkedVolatile
  rw [ht]
  simp

/-- A type is volatile if it is marked so, or the end of its chain is. -/
theorem Resolvable.exists_isVolatileType (h : S.Resolvable type)
    (hlast : Chain.EndsAt S.StandsFor type last) :
  ∃ b, S.isVolatileType type = .ok b
    ∧ (b = true ↔ S.MarkedVolatile type ∨ S.MarkedVolatile last)
  := by
  obtain ⟨t, ht, -⟩ := h.resolves type .refl
  obtain ⟨last', t', hlast', ht', hc⟩ := h.exists_core
  obtain rfl := hlast.unique standsFor_rightUnique hlast'
  refine ⟨t.volatile || t'.volatile, ?_, ?_⟩
  · refine Answer.bind_eq_ok.2 ⟨t, ht, ?_⟩
    cases t.volatile with
    | true => rfl
    | false => exact Answer.bind_eq_ok.2 ⟨(last, t'), hc, rfl⟩
  · rw [markedVolatile_iff ht, markedVolatile_iff ht', Bool.or_eq_true]

/-- The volatility of a type passes on to what is derived from it, unless the type is volatile
for its own mark only: the types below it are volatile if they are marked so themselves, or if
the core is. -/
theorem volatile_inherited_iff (h : S.Resolvable type)
    (hn : ReflTransGen S.StandsFor type next) :
  ∃ last a b, Chain.EndsAt S.StandsFor type last ∧ S.isVolatileType type = .ok a
    ∧ S.isVolatileType next = .ok b
    ∧ (a = true ↔ S.MarkedVolatile type ∨ S.MarkedVolatile last)
    ∧ ((b = true → a = true)
      ↔ (S.MarkedVolatile next → S.MarkedVolatile type ∨ S.MarkedVolatile last))
  := by
  obtain ⟨last, -, hlast, -, -⟩ := h.exists_core
  obtain ⟨a, ha, hva⟩ := h.exists_isVolatileType hlast
  obtain ⟨b, hb, hvb⟩ := (h.of_leads hn).exists_isVolatileType
    (hlast.of_leads standsFor_rightUnique hn)
  refine ⟨last, a, b, hlast, ha, hb, hva, ?_⟩
  rw [hva, hvb]
  tauto

/-- A subtype of a type that is marked as volatile is not volatile, and an object of the subtype
is no volatile object, as one of the type is. -/
theorem volatility_lost_derivedSample :
  derivedSample.Resolvable "S" ∧ derivedSample.StandsFor "S" "D"
    ∧ derivedSample.isVolatileType "D" = .ok true ∧ derivedSample.isVolatileType "S" = .ok false
    ∧ (derivedSample.summarize (.plain (.identifier "Y"))).map (·.volatileOrConcurrent) = .ok true
    ∧ (derivedSample.summarize (.plain (.identifier "X"))).map (·.volatileOrConcurrent) = .ok false
  := by
  refine ⟨?_, standsFor_iff.2 ?_, ?_, ?_, ?_, ?_⟩ <;> decide +kernel

theorem volatile_inherited_iff_derivedSample :
  (derivedSample.Resolvable "W" ∧ ReflTransGen derivedSample.StandsFor "W" "V")
    ∧ ∃ last a b, Chain.EndsAt derivedSample.StandsFor "W" last
      ∧ derivedSample.isVolatileType "W" = .ok a ∧ derivedSample.isVolatileType "V" = .ok b
      ∧ (a = true ↔ derivedSample.MarkedVolatile "W" ∨ derivedSample.MarkedVolatile last)
      ∧ ((b = true → a = true) ↔ (derivedSample.MarkedVolatile "V"
        → derivedSample.MarkedVolatile "W" ∨ derivedSample.MarkedVolatile last))
  := by
  have h : derivedSample.Resolvable "W" := by decide +kernel
  have hn : derivedSample.StandsFor "W" "V" := standsFor_iff.2 (by decide +kernel)
  exact ⟨⟨h, .single hn⟩, volatile_inherited_iff h (.single hn)⟩

end Setting

end Conformance
