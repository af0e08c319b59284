import Conformance.Proofs.Derivation
import Conformance.Proofs.Ending

/-!
# Types with owning parts

A composite type includes the cores of its component, of its parent and parts, or of its root.
A type is owning exactly if its core comes, by way of what is included, to a type whose values
own memory themselves: `isOwning_iff_reaches`.

The search for such a type passes on the cores that it has seen from one part to the next, and
takes a core that it has seen for not owning, also if that core is still being searched.  It
is right to do so: when it finds nothing, whatever is included in a core that it has newly seen
has been seen as well, so that nothing owning is left out.
-/

namespace Conformance

open Relation (ReflTransGen)

/-- The definition of a type has a type as component, parent, part or root. -/
inductive Program.Contains (p : Program) : TypeDefinition → EntityId → Prop where
  | component {indices : List EntityId} {type : EntityId} : p.Contains (.array indices type) type
  | parent {r : RecordDefinition} {type : EntityId} (h : r.parent = some type) :
    p.Contains (.record r) type
  | part {r : RecordDefinition} {part type : EntityId} (h : part ∈ r.discriminants ++ r.components)
    (ht : p.declaredType? part = .ok (some type)) : p.Contains (.record r) type
  | root {type : EntityId} {constrained : Bool} : p.Contains (.classWide type constrained) type

namespace Setting

variable (S : Setting)

/-- A core includes the core of a type that its definition contains. -/
def Includes (whole part : EntityId) : Prop :=
  ∃ t type c, S.program.typeFacet whole = .ok t ∧ S.program.Contains t.definition type
    ∧ S.core type = .ok (part, c)

/-- The values of a type own memory, apart from what they include. -/
inductive OwnsMemory (type : EntityId) : Prop where
  | access {t : TypeFacet} {a : AccessDefinition} (ht : S.program.typeFacet type = .ok t)
    (hd : t.definition = .access a) (hk : a.kind = .toVariable)
  /-- A private type that is annotated with ownership. -/
  | annotated {t : TypeFacet} {full : Option EntityId} {discriminants : List EntityId}
    {tagged : Bool} (ht : S.program.typeFacet type = .ok t)
    (hd : t.definition = .partialView full discriminants tagged) (ho : t.ownership = true)

/-- A type comes to a type whose values own memory. -/
def ReachesOwner (type : EntityId) : Prop :=
  ∃ core t owner, S.core type = .ok (core, t) ∧ ReflTransGen S.Includes core owner
    ∧ S.OwnsMemory owner

/-- All that the definition of a type contains is found, down to its core. -/
def FindsParts (d : TypeDefinition) : Prop :=
  match d with
  | .array _ type => S.Resolvable type
  | .record r => (∀ parent ∈ r.parent, S.Resolvable parent)
      ∧ ∀ part ∈ r.discriminants ++ r.components, ∃ type?,
        S.program.declaredType? part = .ok type? ∧ ∀ type ∈ type?, S.Resolvable type
  | .classWide type _ => S.Resolvable type
  | _ => True

/-- A type has a core, and all is found that this core comes to. -/
structure Surveyed (type : EntityId) : Prop where
  resolvable : S.Resolvable type
  finds : ∀ core t x tx, S.core type = .ok (core, t) → ReflTransGen S.Includes core x →
    S.program.typeFacet x = .ok tx → S.FindsParts tx.definition

instance (d : TypeDefinition) : Decidable (S.FindsParts d) := by
  unfold FindsParts
  split <;> infer_instance

variable {S} {type name whole : EntityId} {t : TypeFacet}

/-! ### Cores and what they include -/

theorem FindsParts.resolvable {d : TypeDefinition} (h : S.FindsParts d)
    (hc : S.program.Contains d type) :
  S.Resolvable type
  := by
  cases hc with
  | component | root => exact h
  | parent hp => exact h.1 type hp
  | part hp ht =>
    obtain ⟨type?, ht', hg⟩ := h.2 _ hp
    obtain rfl := Except.ok.inj (ht'.symm.trans ht)
    exact hg type rfl

theorem typeFacet_of_core (h : S.core type = .ok (name, t)) :
  S.program.typeFacet name = .ok t
  := by
  obtain ⟨last, t', -, ht, hc⟩ := (hasCore_iff.1 ⟨_, h⟩).exists_core
  obtain ⟨rfl, rfl⟩ := Prod.mk.inj (Except.ok.inj (h.symm.trans hc))
  exact ht

theorem Surveyed.findsParts (h : S.Surveyed type) (hc : S.core type = .ok (name, t)) :
  S.FindsParts t.definition
  := h.finds name t name t hc .refl (typeFacet_of_core hc)

/-- What the core of a type contains is surveyed with the type. -/
theorem Surveyed.of_contains (h : S.Surveyed type) (hc : S.core type = .ok (name, t))
    {part : EntityId} (hp : S.program.Contains t.definition part) :
  S.Surveyed part
  where
  resolvable := (h.findsParts hc).resolvable hp
  finds _ tc x tx hcore hx :=
    h.finds name t x tx hc (.head ⟨t, part, tc, typeFacet_of_core hc, hp, hcore⟩ hx)

theorem surveyed_of_findsParts (hg : S.Resolvable type)
    (h : ∀ id ∈ S.program.entities.keys, ∀ t ∈ (S.program.typeFacet id).toOption,
      S.FindsParts t.definition) :
  S.Surveyed type
  where
  resolvable := hg
  finds _ _ x tx _ _ hx := by
    obtain ⟨e, he, -⟩ := Program.typeFacet_eq_ok.1 hx
    exact h x (Program.mem_keys_of_entity he) tx (by rw [hx]; rfl)

theorem ownsMemory_iff (ht : S.program.typeFacet type = .ok t) :
  S.OwnsMemory type ↔ match t.definition with
    | .access a => a.kind = .toVariable
    | .partialView .. => t.ownership = true
    | _ => False
  := by
  constructor
  · rintro (⟨ht', hd, hk⟩ | ⟨ht', hd, ho⟩)
    · obtain rfl := Except.ok.inj (ht.symm.trans ht')
      rwa [hd]
    · obtain rfl := Except.ok.inj (ht.symm.trans ht')
      rwa [hd]
  · intro h
    split at h
    · next hd => exact .access ht hd h
    · next hd => exact .annotated ht hd h
    · cases h

/-- A type comes to an owner in its core, or by way of a type that the core contains. -/
theorem reachesOwner_iff (hc : S.core type = .ok (name, t)) :
  S.ReachesOwner type ↔ S.OwnsMemory name
    ∨ ∃ part, S.program.Contains t.definition part ∧ S.ReachesOwner part
  := by
  have ht := typeFacet_of_core hc
  constructor
  · rintro ⟨core, tc, owner, hcore, hreach, howns⟩
    obtain ⟨rfl, rfl⟩ := Prod.mk.inj (Except.ok.inj (hcore.symm.trans hc))
    obtain rfl | ⟨x, ⟨t', part, tx, ht', hpart, hx⟩, hreach⟩ := hreach.cases_head
    · exact Or.inl howns
    · obtain rfl := Except.ok.inj (ht.symm.trans ht')
      exact Or.inr ⟨part, hpart, x, tx, owner, hx, hreach, howns⟩
  · rintro (howns | ⟨part, hpart, x, tx, owner, hx, hreach, howns⟩)
    · exact ⟨name, t, name, hc, .refl, howns⟩
    · exact ⟨name, t, owner, hc, .head ⟨t, part, tx, ht, hpart, hx⟩ hreach, howns⟩

/-! ### What a search has seen -/

/-- A search that found nothing went on from some cores that were seen to more of them.  These
own nothing themselves, and all that they include has been seen. -/
structure Extends (S : Setting) (seen seen' : Seen) : Prop where
  mono : ∀ x ∈ seen, x ∈ seen'
  unowned : ∀ x ∈ seen', x ∉ seen → ¬ S.OwnsMemory x
  closed : ∀ x ∈ seen', x ∉ seen → ∀ y, S.Includes x y → y ∈ seen'

theorem Extends.refl (seen : Seen) :
  S.Extends seen seen
  := ⟨fun _ => id, fun _ hx hn => (hn hx).elim, fun _ hx hn => (hn hx).elim⟩

theorem Extends.trans {s₁ s₂ s₃ : Seen} (h₁ : S.Extends s₁ s₂) (h₂ : S.Extends s₂ s₃) :
  S.Extends s₁ s₃
  where
  mono x hx := h₂.mono x (h₁.mono x hx)
  unowned x hx hn := by
    by_cases hm : x ∈ s₂
    · exact h₁.unowned x hm hn
    · exact h₂.unowned x hx hm
  closed x hx hn y hy := by
    by_cases hm : x ∈ s₂
    · exact h₂.mono y (h₁.closed x hm hn y hy)
    · exact h₂.closed x hx hm y hy

/-- From a core that was seen first by a search that found nothing, there is no way to an
owner. -/
theorem Extends.not_ownsMemory {seen : Seen} (h : S.Extends ∅ seen) {x : EntityId}
    (hw : whole ∈ seen) (hx : ReflTransGen S.Includes whole x) :
  ¬ S.OwnsMemory x
  := by
  have hm : x ∈ seen := by
    induction hx with
    | refl => exact hw
    | tail _ hy ih => exact h.closed _ ih Std.TreeSet.not_mem_emptyc _ hy
  exact h.unowned x hm Std.TreeSet.not_mem_emptyc

/-- What the search among some types says: there is an owner, or there is none among the cores
that have been newly seen, and the cores of the types are seen. -/
structure Explored (S : Setting) (types : EntityId → Prop) (seen : Seen) (result : Bool × Seen) :
    Prop where
  found : result.1 = true → ∃ type, types type ∧ S.ReachesOwner type
  nothing : result.1 = false → S.Extends seen result.2
    ∧ ∀ type core t, types type → S.core type = .ok (core, t) → core ∈ result.2

/-- A search has a result, and this says what it should. -/
def Explores (S : Setting) (types : EntityId → Prop) (seen : Seen) (x : Answer (Bool × Seen)) :
    Prop :=
  ∃ result, x = .ok result ∧ S.Explored types seen result

variable {types types' : EntityId → Prop} {seen seen' : Seen} {result : Bool × Seen}

theorem Explored.of_iff (h : S.Explored types seen result) (ht : ∀ type, types' type ↔ types type) :
  S.Explored types' seen result
  := by rwa [show types' = types from funext fun type => propext (ht type)]

theorem Explored.none (h : ∀ type, ¬ types type) :
  S.Explored types seen (false, seen)
  := ⟨nofun, fun _ => ⟨.refl seen, fun type _ _ ht => (h type ht).elim⟩⟩

/-- A search among some types, and one among further types unless the first has found an owner. -/
theorem Explores.orElse {x : Answer (Bool × Seen)} {rest : Seen → Answer (Bool × Seen)}
    (h : S.Explores types seen x)
    (hr : ∀ seen', S.Extends seen seen' → S.Explores types' seen' (rest seen')) :
  S.Explores (fun type => types type ∨ types' type) seen (do
    let (found, seen) ← x
    if found then return (true, seen) else rest seen)
  := by
  obtain ⟨⟨b, seen'⟩, rfl, hb⟩ := h
  cases b with
  | true =>
    refine ⟨(true, seen'), rfl, fun _ => ?_, nofun⟩
    obtain ⟨type, ht, ho⟩ := hb.found rfl
    exact ⟨type, Or.inl ht, ho⟩
  | false =>
    obtain ⟨he, hs⟩ := hb.nothing rfl
    obtain ⟨result, hx, hres⟩ := hr seen' he
    refine ⟨result, hx, fun hf => ?_, fun hf => ?_⟩
    · obtain ⟨type, ht, ho⟩ := hres.found hf
      exact ⟨type, Or.inr ht, ho⟩
    · obtain ⟨he', hs'⟩ := hres.nothing hf
      refine ⟨he.trans he', ?_⟩
      rintro type core t (ht | ht) hc
      · exact he'.mono core (hs type core t ht hc)
      · exact hs' type core t ht hc

/-! ### The search -/

section

variable {levels : Nat} {search : EntityId → Seen → Answer (Bool × Seen)}
  (h : ∀ type seen, S.Surveyed type → (S.program.outside seen).length ≤ levels →
    S.Explores (· = type) seen (search type seen))

include h

theorem explores_anyPartOwning {parts : List EntityId}
    (hp : ∀ part ∈ parts, ∃ type?, S.program.declaredType? part = .ok type?)
    (ht : ∀ part ∈ parts, ∀ type, S.program.declaredType? part = .ok (some type) →
      S.Surveyed type)
    (hl : (S.program.outside seen).length ≤ levels) :
  S.Explores (fun type => ∃ part ∈ parts, S.program.declaredType? part = .ok (some type)) seen
    (S.anyPartOwning search parts seen)
  := by
  induction parts generalizing seen with
  | nil => exact ⟨_, rfl, .none (by simp)⟩
  | cons part parts ih =>
    rw [List.forall_mem_cons] at hp ht
    obtain ⟨⟨type?, hd⟩, hp⟩ := hp
    rw [anyPartOwning, hd]
    cases type? with
    | none =>
      obtain ⟨result, hx, hr⟩ := ih hp ht.2 hl
      exact ⟨result, hx, hr.of_iff fun type => by simp [hd]⟩
    | some type =>
      obtain ⟨result, hx, hr⟩ := (h type seen (ht.1 type hd) hl).orElse fun seen' he =>
        ih hp ht.2 (Nat.le_trans (Program.outside_mono he.mono) hl)
      exact ⟨result, hx, hr.of_iff fun type' => by simp [hd, eq_comm]⟩

theorem explores_recordOwning {r : RecordDefinition} (hf : S.FindsParts (.record r))
    (hs : ∀ type, S.program.Contains (.record r) type → S.Surveyed type)
    (hl : (S.program.outside seen).length ≤ levels) :
  S.Explores (S.program.Contains (.record r)) seen (S.recordOwning search r seen)
  := by
  have parts {seen : Seen} (hl : (S.program.outside seen).length ≤ levels) :=
    explores_anyPartOwning h (fun part hp => (hf.2 part hp).imp fun _ => And.left)
      (fun part hp type ht => hs type (.part hp ht)) hl
  have contains (type : EntityId) : S.program.Contains (.record r) type ↔ r.parent = some type
      ∨ ∃ part ∈ r.discriminants ++ r.components,
        S.program.declaredType? part = .ok (some type) := by
    constructor
    · rintro (_ | h | ⟨h, ht⟩)
      · exact Or.inl h
      · exact Or.inr ⟨_, h, ht⟩
    · rintro (h | ⟨part, h, ht⟩)
      · exact .parent h
      · exact .part h ht
  unfold recordOwning
  split
  · next hp =>
    obtain ⟨result, hx, hr⟩ := parts hl
    exact ⟨result, hx, hr.of_iff fun type => by simp [contains, hp]⟩
  · next parent hp =>
    obtain ⟨result, hx, hr⟩ := (h parent seen (hs parent (.parent hp)) hl).orElse fun seen' he =>
      parts (Nat.le_trans (Program.outside_mono he.mono) hl)
    exact ⟨result, hx, hr.of_iff fun type => by simp [contains, hp, eq_comm]⟩

end

/-- A search that enters a core for the first time, and goes on to what the core contains. -/
theorem Explored.enter (hc : S.core type = .ok (name, t)) (ho : ¬ S.OwnsMemory name)
    (h : S.Explored (S.program.Contains t.definition) (seen.insert name) result) :
  S.Explored (· = type) seen result
  where
  found hb := ⟨type, rfl, (reachesOwner_iff hc).2 (Or.inr (h.found hb))⟩
  nothing hb := by
    obtain ⟨he, hs⟩ := h.nothing hb
    have hname : name ∈ result.2 := he.mono name Std.TreeSet.mem_insert_self
    -- a core that is new to the search is the one entered, or new to the search of its parts
    have new (x : EntityId) (hn : x ∉ seen) : x = name ∨ x ∉ seen.insert name := by
      rw [Std.TreeSet.mem_insert, Std.LawfulEqCmp.compare_eq_iff_eq]
      tauto
    refine ⟨⟨fun x hx => he.mono x (Std.TreeSet.mem_insert.2 (Or.inr hx)), ?_, ?_⟩, ?_⟩
    · intro x hx hn
      obtain rfl | hn := new x hn
      · exact ho
      · exact he.unowned x hx hn
    · intro x hx hn y hy
      obtain rfl | hn := new x hn
      · obtain ⟨t', part, ty, ht', hpart, hy⟩ := hy
        obtain rfl := Except.ok.inj ((typeFacet_of_core hc).symm.trans ht')
        exact hs part y ty hpart hy
      · exact he.closed x hx hn y hy
    · rintro type' core tc rfl hcore
      obtain ⟨rfl, rfl⟩ := Prod.mk.inj (Except.ok.inj (hcore.symm.trans hc))
      exact hname

/-- A search that enters a core which contains nothing. -/
theorem Explored.leaf (hc : S.core type = .ok (name, t))
    (hn : ∀ part, ¬ S.program.Contains t.definition part) {b : Bool}
    (hb : b = true ↔ S.OwnsMemory name) :
  S.Explored (· = type) seen (b, seen.insert name)
  := by
  cases b with
  | true => exact ⟨fun _ => ⟨type, rfl, (reachesOwner_iff hc).2 (Or.inl (hb.1 rfl))⟩, nofun⟩
  | false =>
    have ho : ¬ S.OwnsMemory name := fun ho => Bool.false_ne_true (hb.2 ho)
    exact (Explored.none hn).enter hc ho

/-- A search from a type whose core has been seen. -/
theorem Explored.again (hc : S.core type = .ok (name, t)) (hs : name ∈ seen) :
  S.Explored (· = type) seen (false, seen)
  where
  found := nofun
  nothing _ := by
    refine ⟨.refl seen, ?_⟩
    rintro type' core tc rfl hcore
    obtain ⟨rfl, rfl⟩ := Prod.mk.inj (Except.ok.inj (hcore.symm.trans hc))
    exact hs

/-- The search from a type, which has enough levels for the cores that were not seen. -/
theorem explores_owningFrom (levels : Nat) (h : S.Surveyed type)
    (hl : (S.program.outside seen).length ≤ levels) :
  S.Explores (· = type) seen (S.owningFrom levels type seen)
  := by
  induction levels generalizing type seen with
  | zero =>
    obtain ⟨⟨name, t⟩, hc⟩ := hasCore_iff.2 h.resolvable
    have hs := mem_seen_of_core hc hl
    exact ⟨_, owningFrom_seen hc hs 0, .again hc hs⟩
  | succ levels ih =>
    obtain ⟨⟨name, t⟩, hc⟩ := hasCore_iff.2 h.resolvable
    by_cases hs : name ∈ seen
    · exact ⟨_, owningFrom_seen hc hs _, .again hc hs⟩
    have ho := ownsMemory_iff (typeFacet_of_core hc)
    have hl' := length_outside_insert_core hc hs hl
    -- the search goes on to the only type that the core contains
    have single {part : EntityId} (hp : ∀ x, S.program.Contains t.definition x ↔ x = part)
        (ho : ¬ S.OwnsMemory name) :
        S.Explores (· = type) seen (S.owningFrom levels part (seen.insert name)) := by
      obtain ⟨result, hx, hr⟩ := ih (h.of_contains hc ((hp part).2 rfl)) hl'
      exact ⟨result, hx, .enter hc ho (hr.of_iff hp)⟩
    rw [owningFrom, hc]
    change S.Explores _ seen (if seen.contains name then _ else _)
    rw [if_neg (mt Std.TreeSet.mem_iff_contains.2 hs)]
    cases hd : t.definition with
    | access a =>
      refine ⟨_, rfl, .leaf hc (by rw [hd]; rintro part ⟨⟩) ?_⟩
      rw [ho, hd, beq_iff_eq]
    | partialView =>
      refine ⟨_, rfl, .leaf hc (by rw [hd]; rintro part ⟨⟩) ?_⟩
      rw [ho, hd]
    | array indices component =>
      refine single (fun x => ?_) (by rw [ho, hd]; exact id)
      rw [hd]
      exact ⟨by rintro ⟨⟩; rfl, by rintro rfl; exact .component⟩
    | classWide root constrained =>
      refine single (fun x => ?_) (by rw [ho, hd]; exact id)
      rw [hd]
      exact ⟨by rintro ⟨⟩; rfl, by rintro rfl; exact .root⟩
    | record r =>
      obtain ⟨result, hx, hr⟩ := explores_recordOwning (fun type seen h hl => ih h hl)
        (hd ▸ h.findsParts hc) (fun x hx => h.of_contains hc (hd ▸ hx)) hl'
      exact ⟨result, hx, .enter hc (by rw [ho, hd]; exact id) (hd ▸ hr)⟩
    | _ =>
      refine ⟨_, rfl, .leaf hc (by rw [hd]; rintro part ⟨⟩) ?_⟩
      rw [ho, hd]
      exact iff_of_false Bool.false_ne_true id

/-- A type is searched through with success, and found to be owning exactly if it comes to an
owner. -/
theorem Surveyed.exists_isOwning (h : S.Surveyed type) :
  ∃ b, S.isOwning type = .ok b ∧ (b = true ↔ S.ReachesOwner type)
  := by
  obtain ⟨⟨b, seen⟩, hx, hr⟩ :=
    explores_owningFrom S.program.entityCount h (Program.length_outside_le (∅ : Seen))
  refine ⟨b, Answer.bind_eq_ok.2 ⟨_, hx, rfl⟩, fun hb => ?_, fun ho => ?_⟩
  · obtain ⟨_, rfl, ho⟩ := hr.found hb
    exact ho
  · cases b with
    | true => rfl
    | false =>
      obtain ⟨he, hs⟩ := hr.nothing rfl
      obtain ⟨core, t, owner, hc, hreach, howns⟩ := ho
      exact (he.not_ownsMemory (hs type core t rfl hc) hreach howns).elim

/-- The question whether a type is owning never goes on for ever.  If all is found that the core
of the type comes to, the answer is yes exactly if an owner is among it, however the types
include each other.  So a record type is owning exactly if its parent is, or the type of one of
its parts. -/
theorem isOwning_iff_reaches (S : Setting) :
  (∀ type, Answer.Ends (S.isOwning type))
    ∧ ∀ type, S.Surveyed type → ∃ core t b, S.core type = .ok (core, t)
      ∧ S.isOwning type = .ok b
      ∧ (b = true ↔ ∃ owner, ReflTransGen S.Includes core owner ∧ S.OwnsMemory owner)
      ∧ ∀ r, t.definition = .record r →
        (∀ part, S.program.Contains (.record r) part → ∃ a, S.isOwning part = .ok a)
          ∧ (b = true
            ↔ ∃ part, S.program.Contains (.record r) part ∧ S.isOwning part = .ok true)
  := by
  refine ⟨ends_isOwning, fun type h => ?_⟩
  obtain ⟨⟨core, t⟩, hc⟩ := hasCore_iff.2 h.resolvable
  obtain ⟨b, hb, hiff⟩ := h.exists_isOwning
  refine ⟨core, t, b, hc, hb, ?_, fun r hd => ⟨fun part hp => ?_, ?_⟩⟩
  · rw [hiff, ReachesOwner]
    simp [hc]
  · obtain ⟨a, ha, -⟩ := (h.of_contains hc (hd ▸ hp)).exists_isOwning
    exact ⟨a, ha⟩
  · have howns : ¬ S.OwnsMemory core := by
      rw [ownsMemory_iff (typeFacet_of_core hc), hd]
      exact id
    rw [hiff, reachesOwner_iff hc, or_iff_right howns, hd]
    refine exists_congr fun part => and_congr_right fun hp => ?_
    obtain ⟨a, ha, ho⟩ := (h.of_contains hc (hd ▸ hp)).exists_isOwning
    rw [← ho, ha]
    simp

/-- Two record types with parts of each other's types, of which one has a part of an access type
as well, after the part that leads round. -/
def mutualSample : Setting :=
  (ofParts?
    [{ name := "T", kind := .type { definition := .signed 0 9 } },
      { name := "A", kind := .type { definition := .access { designated := "T" } } },
      { name := "R", kind := .type { definition := .record { components := ["RQ", "RA"] } } },
      { name := "RQ", scope := some "R", kind := .component { type := "Q" } },
      { name := "RA", scope := some "R", kind := .component { type := "A" } },
      { name := "Q", kind := .type { definition := .record { components := ["QS", "QT"] } } },
      { name := "QS", scope := some "Q", kind := .component { type := "S" } },
      { name := "QT", scope := some "Q", kind := .component { type := "T" } },
      { name := "S", kind := .type { definition := .subtype "R" [] } }] []).get
    (by decide +kernel)

theorem isOwning_iff_reaches_mutualSample :
  ∀ type ∈ ["R", "Q", "T"], mutualSample.Surveyed type ∧ ∃ core t b,
    mutualSample.core type = .ok (core, t) ∧ mutualSample.isOwning type = .ok b
      ∧ (b = true ↔ ∃ owner, ReflTransGen mutualSample.Includes core owner
        ∧ mutualSample.OwnsMemory owner)
      ∧ ∀ r, t.definition = .record r →
        (∀ part, mutualSample.program.Contains (.record r) part →
          ∃ a, mutualSample.isOwning part = .ok a)
          ∧ (b = true ↔ ∃ part, mutualSample.program.Contains (.record r) part
            ∧ mutualSample.isOwning part = .ok true)
  := by
  have hg : ∀ type ∈ ["R", "Q", "T"], mutualSample.Resolvable type := by decide +kernel
  have hf : ∀ id ∈ mutualSample.program.entities.keys,
      ∀ t ∈ (mutualSample.program.typeFacet id).toOption,
        mutualSample.FindsParts t.definition := by decide +kernel
  intro type htype
  have h := surveyed_of_findsParts (hg type htype) hf
  exact ⟨h, (isOwning_iff_reaches mutualSample).2 type h⟩

/-- Each of the two record types is owning, although the search from one of them is cut off at
it when it comes back from the other. -/
example : ∀ type ∈ ["R", "Q"], mutualSample.isOwning type = .ok true := by decide +kernel

end Setting

end Conformance
