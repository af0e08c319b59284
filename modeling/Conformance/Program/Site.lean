/-!
# Names, places and sites

Entities have unique names, nodes have numbers, and both have a location in the source.
A `Site` is what a report points at: a node, the declaration of an entity, or the global
effects of a subprogram.
-/

namespace Conformance

/-- The unique name of an entity.  Names are ordered by code points, which is also the
order of their UTF-8 encodings. -/
abbrev EntityId := String

/-- The number of a node within a program. -/
abbrev NodeId := Nat

/-- A position in the source.  Line zero means that the position is unknown. -/
structure Location where
  line : Nat := 0
  column : Nat := 0
  deriving DecidableEq, Inhabited

namespace Location

/-- Whether a position is known. -/
def isKnown (l : Location) : Bool := l.line != 0

/-- The text of a position. -/
def text (l : Location) : String :=
  if l.isKnown then s!"{l.line}:{l.column}" else "<unknown>"

end Location

/-- The text of the number of a node. -/
def nodeText (id : NodeId) : String := s!"#{id}"

/-- What a report or a root cause points at. -/
inductive Site where
  | node (id : NodeId) (location : Location)
  | entity (id : EntityId) (location : Location)
  /-- The global effects of a subprogram. -/
  | effects (subprogram : EntityId) (location : Location)
  deriving DecidableEq, Inhabited

namespace Site

/-- The position of a site. -/
def location : Site → Location
  | .node _ l | .entity _ l | .effects _ l => l

/-- The entity that a site belongs to, unless it is a node. -/
def entity? : Site → Option EntityId
  | .node .. => none
  | .entity id _ | .effects id _ => some id

end Site

end Conformance
