import Conformance.Fault
import Conformance.Program.Numbering
import Std.Data.TreeMap

/-!
# Programs

A `Program` is a list of compilation units with the entities they talk about, keyed by
name, all of whose nodes are numbered.  `Program.assemble` numbers the nodes and refuses
a name that is declared twice; the other functions look entities up.
-/

namespace Conformance

/-- A table of entities, each of which is found under its own name only. -/
def IsKeyed (table : Std.TreeMap EntityId Entity) : Prop :=
  ∀ (id : EntityId) (e : Entity), table[id]? = some e → e.name = id

/-- A whole program. -/
structure Program where
  units : List Node
  entities : Std.TreeMap EntityId Entity
  nodeCount : Nat
  keyed : IsKeyed entities

namespace Program

/-- A table of entities extended by more of them, whose names must be new. -/
def enter (table : Std.TreeMap EntityId Entity) :
    List Entity → Answer (Std.TreeMap EntityId Entity)
  | [] => .ok table
  | e :: es =>
    if e.name ∈ table then .error (.contract (.declaredTwice e.name))
    else enter (table.insert e.name e) es

theorem isKeyed_empty :
  IsKeyed ∅
  := by simp [IsKeyed]

/-- A table stays keyed when more entities are entered. -/
theorem isKeyed_of_enter {es : List Entity} {table table' : Std.TreeMap EntityId Entity}
    (h : IsKeyed table) (he : enter table es = .ok table') :
  IsKeyed table'
  := by
  induction es generalizing table with
  | nil =>
    obtain rfl := Except.ok.inj he
    exact h
  | cons e₀ es ih =>
    simp only [enter] at he
    split at he
    · cases he
    · refine ih (fun id e hid => ?_) he
      rw [Std.TreeMap.getElem?_insert] at hid
      split at hid
      · next heq =>
        obtain rfl := Option.some.inj hid
        exact Std.LawfulEqOrd.eq_of_compare heq
      · exact h id e hid

/-- The program with the given entities and units, its nodes numbered: those of the
entities first. -/
def assemble (entities : List Entity) (units : List Node) : Answer Program :=
  let (entities, next) := (Numbering.entities entities).run 0
  let (units, nodeCount) := (Numbering.nodes units).run next
  match h : enter ∅ entities with
  | .ok table => .ok ⟨units, table, nodeCount, isKeyed_of_enter isKeyed_empty h⟩
  | .error fault => .error fault

variable (p : Program)

/-- The number of entities. -/
def entityCount : Nat := p.entities.size

/-- The entity with a name, if there is one. -/
def get? (id : EntityId) : Option Entity := p.entities[id]?

/-- The entity with a name. -/
def entity (id : EntityId) : Answer Entity :=
  match p.get? id with
  | some e => .ok e
  | none => .error (.unknownEntity id)

/-- The facets of the type with a name. -/
def typeFacet (id : EntityId) : Answer TypeFacet := do
  let e ← p.entity id
  match e.kind with
  | .type facet => return facet
  | kind => throw (.contract (.notAType kind.describe id))

/-- The facets of the subprogram with a name. -/
def subprogramFacet (id : EntityId) : Answer SubprogramFacet := do
  let e ← p.entity id
  match e.kind with
  | .subprogram facet => return facet
  | _ => throw (.contract (.notASubprogram id))

/-- The declared type of the entity with a name, if it has one. -/
def declaredType? (id : EntityId) : Answer (Option EntityId) := do
  let e ← p.entity id
  return e.declaredType?

/-- Whether the scopes from `scope` outwards are all packages, where at most `steps` of
them are looked at.  The walk outwards ends only where a scope has no scope. -/
def libraryLevelFrom : Nat → Option EntityId → Answer Bool
  | _, none => .ok true
  | 0, some _ => .error .unfinished
  | steps + 1, some scope => do
    let e ← p.entity scope
    match e.kind with
    | .package _ => libraryLevelFrom steps e.scope
    | _ => return false

/-- Whether an entity is declared outside of any subprogram, task or protected unit. -/
def isLibraryLevel (id : EntityId) : Answer Bool := do
  let e ← p.entity id
  p.libraryLevelFrom (p.entityCount + 1) e.scope

end Program

end Conformance
