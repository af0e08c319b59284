import Conformance.Proofs.Chain
import Conformance.Proofs.Reordering

/-!
# Questions that end

Two kinds of questions about a program are answered by a walk that is cut off after as many
steps as there are entities: the search for owning parts, which sees a new core at each level,
and the way outwards through the scopes of an entity, which comes to a new entity at each step
unless the packages around it are declared in each other.  So the search is never cut off, and
the way outwards is not where no entity is in a scope of itself.  All other questions, and all
inquiries, end because they go along a tree.
-/

namespace Conformance

open Relation (TransGen)

/-- The question is not cut off: it has a value, or a fault of the program. -/
def Answer.Ends {α : Type} (x : Answer α) : Prop := x ≠ .error .unfinished

namespace Answer

variable {α β : Type}

theorem ends_ok (a : α) :
  Answer.Ends (.ok a)
  := by simp [Ends]

theorem ends_error_iff {fault : Fault} :
  Answer.Ends (.error fault : Answer α) ↔ fault ≠ .unfinished
  := by simp [Ends]

@[grind ←]
theorem ends_bind {x : Answer α} {f : α → Answer β} (h : Answer.Ends x)
    (hf : ∀ a, Answer.Ends (f a)) :
  Answer.Ends (x >>= f)
  := by
  cases x with
  | ok a => exact hf a
  | error fault => exact ends_error_iff.2 (ends_error_iff.1 h)

@[grind ←]
theorem ends_pure (a : α) :
  Answer.Ends (pure a)
  := ends_ok a

@[grind ←]
theorem ends_throw (breach : Breach) :
  Answer.Ends (throw (.contract breach) : Answer α)
  := ends_error_iff.2 (by simp)

end Answer

namespace Program

variable (p : Program)

@[grind ←]
theorem ends_entity (id : EntityId) :
  Answer.Ends (p.entity id)
  := by
  unfold entity
  split
  · exact Answer.ends_ok _
  · exact Answer.ends_error_iff.2 (by simp)

@[grind ←]
theorem ends_typeFacet (id : EntityId) :
  Answer.Ends (p.typeFacet id)
  := by
  unfold typeFacet
  grind

@[grind ←]
theorem ends_subprogramFacet (id : EntityId) :
  Answer.Ends (p.subprogramFacet id)
  := by
  unfold subprogramFacet
  grind

@[grind ←]
theorem ends_declaredType? (id : EntityId) :
  Answer.Ends (p.declaredType? id)
  := by
  unfold declaredType?
  grind

/-! ### Counting entities -/

theorem length_filter_le {l : List EntityId} {q q' : EntityId → Bool}
    (h : ∀ x, q' x = true → q x = true) :
  (l.filter q').length ≤ (l.filter q).length
  := by
  rw [← List.countP_eq_length_filter, ← List.countP_eq_length_filter]
  exact List.countP_mono_left fun x _ => h x

/-- A condition that holds of fewer elements of a list is met by fewer of them. -/
theorem length_filter_lt {l : List EntityId} {q q' : EntityId → Bool} {a : EntityId} (ha : a ∈ l)
    (h : ∀ x, q' x = true → q x = true) (hq : q a = true) (hq' : q' a = false) :
  (l.filter q').length < (l.filter q).length
  := by
  induction l with
  | nil => cases ha
  | cons x l ih =>
    have hle := length_filter_le (l := l) h
    obtain rfl | ha := List.mem_cons.1 ha
    · rw [List.filter_cons_of_pos hq, List.filter_cons_of_neg (by simp [hq']), List.length_cons]
      omega
    · have hlt := ih ha
      have hx := h x
      simp only [List.filter_cons]
      grind

/-- The entities of a program that are not in a set. -/
def outside (s : Std.TreeSet EntityId) : List EntityId :=
  p.entities.keys.filter fun id => !s.contains id

variable {p} {id : EntityId}

theorem length_outside_le (s : Std.TreeSet EntityId) :
  (p.outside s).length ≤ p.entityCount
  := by
  have hl := List.length_filter_le (fun id => !s.contains id) p.entities.keys
  rwa [Std.TreeMap.length_keys] at hl

theorem nodup_outside (s : Std.TreeSet EntityId) :
  (p.outside s).Nodup
  := Std.TreeMap.nodup_keys.filter _

theorem mem_outside {s : Std.TreeSet EntityId} :
  id ∈ p.outside s ↔ id ∈ p.entities.keys ∧ id ∉ s
  := by
  rw [outside, List.mem_filter, Bool.not_eq_true', ← Bool.not_eq_true]
  rfl

theorem outside_mono {s s' : Std.TreeSet EntityId} (h : ∀ id ∈ s, id ∈ s') :
  (p.outside s').length ≤ (p.outside s).length
  := by
  apply (nodup_outside s').length_le_of_subset
  intro id hid
  rw [mem_outside] at hid ⊢
  exact ⟨hid.1, fun hs => hid.2 (h id hs)⟩

/-- A set that takes up an entity of the program leaves fewer outside. -/
theorem outside_insert {s : Std.TreeSet EntityId} (hid : id ∈ p.entities.keys) (h : id ∉ s) :
  (p.outside (s.insert id)).length < (p.outside s).length
  := by
  apply length_filter_lt hid
  · intro x hx
    rw [Bool.not_eq_true'] at hx ⊢
    rw [← Bool.not_eq_true] at hx ⊢
    exact fun hs => hx (Std.TreeSet.mem_insert.2 (Or.inr hs))
  · rw [Bool.not_eq_true', ← Bool.not_eq_true]
    exact h
  · rw [Bool.not_eq_false']
    exact Std.TreeSet.mem_insert_self

/-! ### Scopes -/

/-- An entity is declared in another one. -/
def Within (p : Program) (id scope : EntityId) : Prop :=
  ∃ e, p.entity id = .ok e ∧ e.scope = some scope

/-- No entity is declared in itself, directly or in a scope within itself. -/
def ScopesAcyclic (p : Program) : Prop := ∀ id, ¬ TransGen p.Within id id

/-- Scopes are acyclic if each entity has a greater rank than the entity that it is declared
in. -/
theorem scopesAcyclic_of_rank (rank : EntityId → Nat)
    (h : p.entities.toList.all fun (id, e) => e.scope.all fun scope => rank scope < rank id) :
  p.ScopesAcyclic
  := by
  have step {id scope : EntityId} (hw : p.Within id scope) : rank scope < rank id := by
    obtain ⟨e, he, hs⟩ := hw
    have hmem : (id, e) ∈ p.entities.toList := by
      unfold entity get? at he
      split at he
      · next hg =>
        obtain rfl := Except.ok.inj he
        exact Std.TreeMap.mem_toList_iff_getElem?_eq_some.2 hg
      · cases he
    have := List.all_eq_true.1 h _ hmem
    simpa [hs] using this
  have run {id scope : EntityId} (hw : TransGen p.Within id scope) : rank scope < rank id := by
    induction hw with
    | single hw => exact step hw
    | tail _ hw ih => exact Nat.lt_trans (step hw) ih
  exact fun id hid => Nat.lt_irrefl _ (run hid)

/-- A package is declared in another entity. -/
def PackageIn (p : Program) (package scope : EntityId) : Prop :=
  ∃ e initialCondition, p.entity package = .ok e ∧ e.kind = .package initialCondition
    ∧ e.scope = some scope

/-- The way outwards from an entity goes round among packages that are declared in each other. -/
def InRing (p : Program) (id : EntityId) : Prop :=
  ∃ e scope, p.entity id = .ok e ∧ e.scope = some scope ∧ Chain.Cyclic p.PackageIn scope

/-- Whether an entity is a package. -/
def isPackage (p : Program) (id : EntityId) : Answer Bool := do
  match (← p.entity id).kind with
  | .package _ => return true
  | _ => return false

variable {scope scope' : EntityId}

theorem mem_keys_of_packageIn (h : p.PackageIn scope scope') :
  scope ∈ p.entities.keys
  := by
  obtain ⟨e, -, he, -⟩ := h
  exact mem_keys_of_entity he

theorem libraryLevelFrom_packageIn (h : p.PackageIn scope scope') (steps : Nat) :
  p.libraryLevelFrom (steps + 1) (some scope) = p.libraryLevelFrom steps (some scope')
  := by
  obtain ⟨e, i, he, hk, hs⟩ := h
  rw [libraryLevelFrom, he]
  change (match e.kind with
    | .package _ => p.libraryLevelFrom steps e.scope
    | _ => return false) = _
  rw [hk, hs]

/-- The walk outwards goes on until it comes to something that is no package in a scope, and says
whether that is a package. -/
theorem libraryLevelFrom_of_endsWithin {steps : Nat}
    (h : Chain.EndsWithin p.PackageIn steps scope) :
  ∃ last, Chain.EndsAt p.PackageIn scope last
    ∧ p.libraryLevelFrom steps (some scope) = p.isPackage last
  := by
  induction h with
  | @last steps scope hlast =>
    refine ⟨scope, ⟨.refl, hlast⟩, ?_⟩
    rw [libraryLevelFrom, isPackage]
    cases he : p.entity scope with
    | error fault => rfl
    | ok e =>
      change (match e.kind with
        | .package _ => p.libraryLevelFrom steps e.scope
        | _ => return false)
        = match e.kind with
          | .package _ => return true
          | _ => return false
      split
      · next i hk =>
        cases hs : e.scope with
        | none => cases steps <;> rfl
        | some scope' => exact (hlast scope' ⟨e, i, he, hk, hs⟩).elim
      · rfl
  | link hp _ ih =>
    obtain ⟨last, hlast, hw⟩ := ih
    exact ⟨last, hlast.head hp, (libraryLevelFrom_packageIn hp _).trans hw⟩

/-- Where the scopes around an entity are no ring, the question is answered at the outermost
package, or at the first scope that is none. -/
theorem isLibraryLevel_of_not_inRing {e : Entity} (h : ¬ p.InRing id)
    (he : p.entity id = .ok e) :
  e.scope = none ∧ p.isLibraryLevel id = .ok true
    ∨ ∃ scope last, e.scope = some scope ∧ Chain.EndsAt p.PackageIn scope last
      ∧ p.isLibraryLevel id = p.isPackage last
  := by
  have hl : p.isLibraryLevel id = p.libraryLevelFrom (p.entityCount + 1) e.scope := by
    rw [isLibraryLevel, he]
    rfl
  rw [hl]
  cases hs : e.scope with
  | none => exact Or.inl ⟨rfl, rfl⟩
  | some scope =>
    have hc : ¬ Chain.Cyclic p.PackageIn scope := fun hc => h ⟨e, scope, he, hs, hc⟩
    have hw := Chain.endsWithin_of_not_cyclic (fun _ _ => mem_keys_of_packageIn) hc
    rw [Std.TreeMap.length_keys] at hw
    obtain ⟨last, hlast, hw⟩ := libraryLevelFrom_of_endsWithin hw
    exact Or.inr ⟨scope, last, rfl, hlast, hw⟩

@[grind ←]
theorem ends_isPackage (id : EntityId) :
  Answer.Ends (p.isPackage id)
  := by
  unfold isPackage
  grind

theorem ends_isLibraryLevel (h : ¬ p.InRing id) :
  Answer.Ends (p.isLibraryLevel id)
  := by
  cases he : p.entity id with
  | error fault =>
    have hf := Answer.ends_error_iff.1 (he ▸ p.ends_entity id)
    rw [isLibraryLevel, he]
    exact Answer.ends_error_iff.2 hf
  | ok e =>
    obtain ⟨-, hl⟩ | ⟨scope, last, -, -, hl⟩ := isLibraryLevel_of_not_inRing h he
    · exact hl ▸ Answer.ends_ok true
    · exact hl ▸ ends_isPackage last

theorem not_inRing (hp : p.ScopesAcyclic) (id : EntityId) :
  ¬ p.InRing id
  := by
  rintro ⟨-, -, -, -, x, -, hx⟩
  refine hp x (TransGen.mono (fun _ _ h => ?_) x x hx)
  obtain ⟨e, -, he, -, hs⟩ := h
  exact ⟨e, he, hs⟩

end Program

namespace Setting

variable (S : Setting)

/-! ### Questions about types -/

theorem ends_modeFrom (origin : EntityId) (steps : Nat) (id : EntityId) :
  Answer.Ends (S.modeFrom origin steps id)
  := by induction steps generalizing id <;> unfold modeFrom <;> grind

@[grind ←]
theorem ends_modeOf (id : EntityId) :
  Answer.Ends (S.modeOf id)
  := by
  have h := S.ends_modeFrom id S.program.entityCount id
  unfold modeOf
  grind

@[grind ←]
theorem ends_isOff (id : EntityId) :
  Answer.Ends (S.isOff id)
  := by
  unfold isOff
  grind

@[grind ←]
theorem ends_next? (t : TypeFacet) :
  Answer.Ends (S.next? t)
  := by
  unfold next? hidesFullView
  grind

theorem ends_coreFrom (origin : EntityId) (steps : Nat) (e : Entity) :
  Answer.Ends (S.coreFrom origin steps e)
  := by induction steps generalizing e <;> unfold coreFrom <;> grind

@[grind ←]
theorem ends_core (id : EntityId) :
  Answer.Ends (S.core id)
  := by
  have h (e : Entity) := S.ends_coreFrom id (S.program.entityCount + 1) e
  unfold core
  grind

@[grind ←]
theorem ends_definition (id : EntityId) :
  Answer.Ends (S.definition id)
  := by
  unfold definition
  grind

@[grind ←]
theorem ends_access? (id : EntityId) :
  Answer.Ends (S.access? id)
  := by
  unfold access?
  grind

@[grind ←]
theorem ends_isObjectAccess (id : EntityId) :
  Answer.Ends (S.isObjectAccess id)
  := by
  unfold isObjectAccess
  grind

@[grind ←]
theorem ends_isAnonymousAccess (id : EntityId) :
  Answer.Ends (S.isAnonymousAccess id)
  := by
  unfold isAnonymousAccess
  grind

@[grind ←]
theorem ends_isConcurrentType (id : EntityId) :
  Answer.Ends (S.isConcurrentType id)
  := by
  unfold isConcurrentType
  grind

@[grind ←]
theorem ends_isVolatileType (id : EntityId) :
  Answer.Ends (S.isVolatileType id)
  := by
  unfold isVolatileType
  grind

@[grind ←]
theorem ends_isFloating (id : EntityId) :
  Answer.Ends (S.isFloating id)
  := by
  unfold isFloating
  grind

@[grind ←]
theorem ends_fixedSmall? (id : EntityId) :
  Answer.Ends (S.fixedSmall? id)
  := by
  unfold fixedSmall?
  grind

@[grind ←]
theorem ends_isArray (id : EntityId) :
  Answer.Ends (S.isArray id)
  := by
  unfold isArray
  grind

@[grind ←]
theorem ends_arrayIndices (id : EntityId) :
  Answer.Ends (S.arrayIndices id)
  := by
  unfold arrayIndices
  grind

@[grind ←]
theorem ends_isIncomplete (id : EntityId) :
  Answer.Ends (S.isIncomplete id)
  := by
  unfold isIncomplete
  grind

@[grind ←]
theorem ends_representation? (id : EntityId) :
  Answer.Ends (S.representation? id)
  := by
  unfold representation?
  grind

/-! ### Owning types -/

/-- A search is not cut off, and goes on with what was seen before. -/
structure Searches (x : Answer (Bool × Seen)) (seen : Seen) : Prop where
  ends : Answer.Ends x
  seen : ∀ result, x = .ok result → ∀ id ∈ seen, id ∈ result.2

theorem searches_pure {seen seen' : Seen} (b : Bool) (h : ∀ id ∈ seen, id ∈ seen') :
  Searches (pure (b, seen')) seen
  := ⟨Answer.ends_ok _, by rintro _ ⟨⟩; exact h⟩

theorem searches_error {fault : Fault} {seen : Seen}
    (h : Answer.Ends (.error fault : Answer α)) :
  Searches (.error fault) seen
  := ⟨Answer.ends_error_iff.2 (Answer.ends_error_iff.1 h), by rintro _ ⟨⟩⟩

theorem Searches.mono {x : Answer (Bool × Seen)} {seen seen' : Seen} (h : Searches x seen')
    (hs : ∀ id ∈ seen, id ∈ seen') :
  Searches x seen
  := ⟨h.ends, fun result he id hid => h.seen result he id (hs id hid)⟩

/-- A search in a part, and a search in the other parts unless the part is owning. -/
theorem Searches.bind {x : Answer (Bool × Seen)} {f : Bool × Seen → Answer (Bool × Seen)}
    {seen : Seen} (h : Searches x seen)
    (hf : ∀ b seen', (∀ id ∈ seen, id ∈ seen') → Searches (f (b, seen')) seen') :
  Searches (x >>= f) seen
  := by
  cases x with
  | error fault => exact searches_error h.ends
  | ok result =>
    obtain ⟨b, seen'⟩ := result
    have hs := h.seen _ rfl
    have hr := hf b seen' hs
    exact ⟨hr.ends, fun result he id hid => hr.seen result he id (hs id hid)⟩

variable {S} {search : EntityId → Seen → Answer (Bool × Seen)}

theorem searches_anyPartOwning {levels : Nat}
    (h : ∀ id seen, (S.program.outside seen).length ≤ levels → Searches (search id seen) seen)
    (parts : List EntityId) {seen : Seen} (hl : (S.program.outside seen).length ≤ levels) :
  Searches (S.anyPartOwning search parts seen) seen
  := by
  induction parts generalizing seen with
  | nil => exact searches_pure false fun _ => id
  | cons part parts ih =>
    rw [anyPartOwning]
    cases hd : S.program.declaredType? part with
    | error fault =>
      have := S.program.ends_declaredType? part
      rw [hd] at this
      exact searches_error this
    | ok type =>
      cases type with
      | none => exact ih hl
      | some type =>
        refine (h type seen hl).bind fun b seen' hs => ?_
        cases b with
        | true => exact searches_pure true fun _ => id
        | false => exact ih (Nat.le_trans (Program.outside_mono hs) hl)

theorem searches_recordOwning {levels : Nat}
    (h : ∀ id seen, (S.program.outside seen).length ≤ levels → Searches (search id seen) seen)
    (r : RecordDefinition) {seen : Seen} (hl : (S.program.outside seen).length ≤ levels) :
  Searches (S.recordOwning search r seen) seen
  := by
  unfold recordOwning
  split
  · exact searches_anyPartOwning h _ hl
  · refine (h _ seen hl).bind fun b seen' hs => ?_
    cases b with
    | true => exact searches_pure true fun _ => id
    | false => exact searches_anyPartOwning h _ (Nat.le_trans (Program.outside_mono hs) hl)

/-- The core of a type is an entity of the program. -/
theorem mem_keys_of_core {id : EntityId} {core : EntityId × TypeFacet} (h : S.core id = .ok core) :
  core.1 ∈ S.program.entities.keys
  := by
  have walk (origin : EntityId) (steps : Nat) {e : Entity} (he : S.program.entity e.name = .ok e)
      (h : S.coreFrom origin steps e = .ok core) : core.1 ∈ S.program.entities.keys := by
    induction steps generalizing e with
    | zero => cases h
    | succ steps ih =>
      rw [coreFrom] at h
      split at h
      · obtain ⟨next, -, h⟩ := Answer.bind_eq_ok.1 h
        split at h
        · obtain ⟨e', he', h⟩ := Answer.bind_eq_ok.1 h
          exact ih ((S.program.name_eq_of_entity he').symm ▸ he') h
        · obtain rfl := Except.ok.inj h
          exact Program.mem_keys_of_entity he
      · cases h
  obtain ⟨e, he, h⟩ := Answer.bind_eq_ok.1 h
  exact walk _ _ ((S.program.name_eq_of_entity he).symm ▸ he) h

section

variable {id name : EntityId} {t : TypeFacet} {seen : Seen}

theorem owningFrom_seen (hc : S.core id = .ok (name, t)) (hs : name ∈ seen) (levels : Nat) :
  S.owningFrom levels id seen = .ok (false, seen)
  := by
  rw [owningFrom, hc]
  change (if seen.contains name then _ else _) = _
  rw [if_pos (Std.TreeSet.mem_iff_contains.1 hs)]
  rfl

/-- At the last level, all cores have been seen. -/
theorem mem_seen_of_core (hc : S.core id = .ok (name, t))
    (hl : (S.program.outside seen).length ≤ 0) :
  name ∈ seen
  := by
  by_contra hs
  have hm : name ∈ S.program.outside seen := Program.mem_outside.2 ⟨mem_keys_of_core hc, hs⟩
  rw [List.length_eq_zero_iff.1 (Nat.le_zero.1 hl)] at hm
  cases hm

/-- Below a core that is new, one level less is enough. -/
theorem length_outside_insert_core {levels : Nat} (hc : S.core id = .ok (name, t))
    (hs : name ∉ seen) (hl : (S.program.outside seen).length ≤ levels + 1) :
  (S.program.outside (seen.insert name)).length ≤ levels
  := by
  have hlt : (S.program.outside (seen.insert name)).length < (S.program.outside seen).length :=
    Program.outside_insert (mem_keys_of_core hc) hs
  omega

end

/-- The search for owning parts sees a new core at each level. -/
theorem searches_owningFrom (levels : Nat) (id : EntityId) {seen : Seen}
    (hl : (S.program.outside seen).length ≤ levels) :
  Searches (S.owningFrom levels id seen) seen
  := by
  induction levels generalizing id seen with
  | zero =>
    cases hc : S.core id with
    | error fault =>
      rw [owningFrom, hc]
      exact searches_error (hc ▸ S.ends_core id)
    | ok core =>
      rw [owningFrom_seen hc (mem_seen_of_core hc hl)]
      exact searches_pure false fun _ h => h
  | succ levels ih =>
    cases hc : S.core id with
    | error fault =>
      rw [owningFrom, hc]
      exact searches_error (hc ▸ S.ends_core id)
    | ok core =>
      obtain ⟨name, t⟩ := core
      by_cases hs : name ∈ seen
      · rw [owningFrom_seen hc hs]
        exact searches_pure false fun _ h => h
      · have hl' := length_outside_insert_core hc hs hl
        have hi : ∀ id ∈ seen, id ∈ seen.insert name :=
          fun _ hid => Std.TreeSet.mem_insert.2 (Or.inr hid)
        rw [owningFrom, hc]
        change Searches (if seen.contains name then _ else _) seen
        rw [if_neg (mt Std.TreeSet.mem_iff_contains.2 hs)]
        split
        · exact searches_pure _ hi
        · exact (ih _ hl').mono hi
        · exact (searches_recordOwning (fun id _ => ih id) _ hl').mono hi
        · exact searches_pure _ hi
        · exact (ih _ hl').mono hi
        · exact searches_pure _ hi

@[grind ←]
theorem ends_isOwning (id : EntityId) :
  Answer.Ends (S.isOwning id)
  := by
  have h := (searches_owningFrom (S := S) S.program.entityCount id
    (Program.length_outside_le ∅)).ends
  unfold isOwning
  grind

variable (S)

/-! ### Paths -/

@[grind ←]
theorem ends_isTraversal (s : SubprogramFacet) :
  Answer.Ends (S.isTraversal s)
  := by
  unfold isTraversal firstParameterType?
  grind

@[grind ←]
theorem ends_callsTraversal (callee : EntityId) :
  Answer.Ends (S.callsTraversal callee)
  := by
  unfold callsTraversal
  grind

@[grind ←]
theorem ends_isObject (id : EntityId) :
  Answer.Ends (S.isObject id)
  := by
  unfold isObject
  grind

@[grind ←]
theorem ends_isConstant (id : EntityId) :
  Answer.Ends (S.isConstant id)
  := by
  unfold isConstant
  grind

@[grind ←]
theorem ends_denotesObject (n : Node) :
  Answer.Ends (S.denotesObject n)
  := by fun_induction denotesObject <;> grind

@[grind ←]
theorem ends_isPath (n : Node) :
  Answer.Ends (S.isPath n)
  := by fun_induction isPath <;> grind

@[grind ←]
theorem ends_isVolatileOrConcurrent (e : Entity) :
  Answer.Ends (S.isVolatileOrConcurrent e)
  := by
  unfold isVolatileOrConcurrent
  grind

@[grind ←]
theorem ends_summarizeRoot (s : PathSummary) (id : EntityId) :
  Answer.Ends (S.summarizeRoot s id)
  := by
  unfold summarizeRoot
  grind

@[grind ←]
theorem ends_accessKind? (type : Option EntityId) :
  Answer.Ends (S.accessKind? type)
  := by
  unfold accessKind?
  grind

@[grind ←]
theorem ends_summarizeTraversal (s : PathSummary) (callee : EntityId) :
  Answer.Ends (S.summarizeTraversal s callee)
  := by
  unfold summarizeTraversal
  grind

@[grind ←]
theorem ends_summarizeFrom (s : PathSummary) (n : Node) :
  Answer.Ends (S.summarizeFrom s n)
  := by
  fun_induction summarizeFrom with
  | case8 s id location type callee arguments ih => cases arguments <;> grind
  | _ => grind

theorem ends_allHold {holds : Node → Answer Bool} (h : ∀ n, Answer.Ends (holds n)) (ns : List Node) :
  Answer.Ends (Node.allHold holds ns)
  := by induction ns <;> unfold Node.allHold <;> grind

@[grind ←]
theorem ends_isMovable (toConstant : Bool) (n : Node) :
  Answer.Ends (S.isMovable toConstant n)
  := by
  unfold isMovable summarize
  grind

@[grind ←]
theorem ends_isLendable (observe : Bool) (n : Node) :
  Answer.Ends (S.isLendable observe n)
  := by
  unfold isLendable summarize
  grind

@[grind ←]
theorem ends_startsAt (object : Option EntityId) (n : Node) :
  Answer.Ends (S.startsAt object n)
  := by
  unfold startsAt summarize
  grind

@[grind ←]
theorem ends_isMoveSource (toConstant : Bool) (n : Node) :
  Answer.Ends (S.isMoveSource toConstant n)
  := ends_allHold (S.ends_isMovable toConstant) _

@[grind ←]
theorem ends_isLoanSource (observe : Bool) (n : Node) :
  Answer.Ends (S.isLoanSource observe n)
  := ends_allHold (S.ends_isLendable observe) _

@[grind ←]
theorem ends_isRootedAt (object : Option EntityId) (n : Node) :
  Answer.Ends (S.isRootedAt object n)
  := ends_allHold (S.ends_startsAt object) _

@[grind ←]
theorem ends_isCompatible (expected : EntityId) (n : Node) :
  Answer.Ends (S.isCompatible expected n)
  := by
  unfold isCompatible
  refine Answer.ends_bind (S.ends_access? _) fun e => ?_
  split
  · grind
  · split <;> grind

@[grind ←]
theorem ends_loanType? (type : EntityId) :
  Answer.Ends (S.loanType? type)
  := by
  unfold loanType?
  grind

@[grind ←]
theorem ends_formal (callee id : EntityId) :
  Answer.Ends (S.formal callee id)
  := by
  unfold formal
  grind

@[grind ←]
theorem ends_sameRepresentation (types : List (EntityId × EntityId)) :
  Answer.Ends (S.sameRepresentation types)
  := by fun_induction sameRepresentation <;> grind

@[grind ←]
theorem ends_isVolatileObject (id : EntityId) :
  Answer.Ends (S.isVolatileObject id)
  := by
  unfold isVolatileObject
  grind

@[grind ←]
theorem ends_firstParameterAccess? (s : SubprogramFacet) :
  Answer.Ends (S.firstParameterAccess? s)
  := by
  unfold firstParameterAccess? firstParameterType?
  grind

end Setting

end Conformance
