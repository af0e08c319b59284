import Conformance.Document.Token

/-!
# Reading documents

The tokens of a text are put together by a pushdown automaton: it keeps the arrays and
objects that are still open, innermost first, and what may come next.  `read` gives the
document of a text, if the text is one document with nothing but blanks around it.
-/

namespace Conformance.Document

/-- The key of a member, or its defect. -/
abbrev Key := Except Defect String

/-- The object with the given members, which is garbled if one of the keys is. -/
def ofMembers (members : List (Key × Document)) : Document :=
  match members.mapM fun (key, d) => key.map fun name => (name, d) with
  | .ok named => .object named
  | .error defect => .garbled defect

/-- An array, an object or a member of an object that is still open; parts that are
complete stand last first. -/
inductive Open where
  | array (items : List Document)
  | object (members : List (Key × Document))
  | member (key : Key) (members : List (Key × Document))

/-- What may come next. -/
inductive Due where
  | value
  | valueOrClose
  | key
  | keyOrClose
  | colon
  | separator
  | nothing (result : Document)

/-- The state of the automaton. -/
structure Builder where
  stack : List Open := []
  due : Due := .value

namespace Builder

/-- The state after a complete value. -/
def place (value : Document) : List Open → Option Builder
  | [] => some ⟨[], .nothing value⟩
  | .array items :: outer => some ⟨.array (value :: items) :: outer, .separator⟩
  | .member key members :: outer =>
    some ⟨.object ((key, value) :: members) :: outer, .separator⟩
  | .object _ :: _ => none

/-- The state after a token that starts a value. -/
def start (stack : List Open) : Token → Option Builder
  | .leaf value => place value stack
  | .openBracket => some ⟨.array [] :: stack, .valueOrClose⟩
  | .openBrace => some ⟨.object [] :: stack, .keyOrClose⟩
  | _ => none

/-- The state after the token that ends the innermost array or object. -/
def close : Token → List Open → Option Builder
  | .closeBracket, .array items :: outer => place (.array items.reverse) outer
  | .closeBrace, .object members :: outer => place (ofMembers members.reverse) outer
  | _, _ => none

/-- The state after the key of a member. -/
def startMember : Token → List Open → Option Builder
  | .leaf (.text name), .object members :: outer =>
    some ⟨.member (.ok name) members :: outer, .colon⟩
  | .leaf (.garbled defect), .object members :: outer =>
    some ⟨.member (.error defect) members :: outer, .colon⟩
  | _, _ => none

/-- One token. -/
def step (b : Builder) (t : Token) : Option Builder :=
  match b.due with
  | .value => start b.stack t
  | .valueOrClose =>
    match t with
    | .closeBracket => close t b.stack
    | _ => start b.stack t
  | .key => startMember t b.stack
  | .keyOrClose =>
    match t with
    | .closeBrace => close t b.stack
    | _ => startMember t b.stack
  | .colon =>
    match t with
    | .colon => some ⟨b.stack, .value⟩
    | _ => none
  | .separator =>
    match t, b.stack with
    | .comma, .array _ :: _ => some ⟨b.stack, .value⟩
    | .comma, .object _ :: _ => some ⟨b.stack, .key⟩
    | _, _ => close t b.stack
  | .nothing _ => none

/-- The document of a finished text. -/
def finish (b : Builder) : Option Document :=
  match b.due with
  | .nothing result => some result
  | _ => none

end Builder

/-- The document that a list of tokens spells. -/
def ofTokens? (tokens : List Token) : Option Document :=
  (tokens.foldlM Builder.step {}).bind Builder.finish

/-- The document that a text spells, or why it spells none. -/
def read (text : String) : Except Defect Document := do
  match ofTokens? (← tokens text.toList) with
  | some d => return d
  | none => throw .ungrammatical

end Conformance.Document
