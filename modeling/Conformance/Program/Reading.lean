import Conformance.Document.Record
import Conformance.Program.Basic

/-!
# Programs in documents

How programs are laid out in documents.  `Node.read` and `Entity.read` read one tree and
one record of the symbol table; `Node.ofDocument` reads a tree that stands on its own and
`Program.ofDocument` a whole program.  A shape is named by a word in lower case;
`Shape.key` is that word.
-/

namespace Conformance

open Document (Fields Form Skim asText asBoolean asNatural asInteger asList asBigInteger
  asFraction asWord)

/-- The words for modes. -/
def Mode.words : List (String × Mode) := [("on", .on), ("off", .off)]

/-- The words for binary operators. -/
def BinaryOperator.words : List (String × BinaryOperator) :=
  [("add", .add), ("subtract", .subtract), ("multiply", .multiply), ("divide", .divide),
    ("mod", .modulo), ("rem", .remainder), ("power", .power), ("concat", .concatenate),
    ("eq", .equal), ("ne", .unequal), ("lt", .less), ("le", .lessOrEqual),
    ("gt", .greater), ("ge", .greaterOrEqual), ("and", .and), ("or", .or), ("xor", .xor),
    ("and_then", .andThen), ("or_else", .orElse)]

/-- The words for unary operators. -/
def UnaryOperator.words : List (String × UnaryOperator) :=
  [("plus", .plus), ("minus", .minus), ("abs", .absolute), ("not", .not)]

/-- The words for directions of parameters. -/
def Direction.words : List (String × Direction) :=
  [("in", .input), ("out", .output), ("in_out", .both)]

/-- The words for kinds of subprograms. -/
def SubprogramKind.words : List (String × SubprogramKind) :=
  [("function", .function), ("procedure", .procedure), ("entry", .entry)]

/-- The words for kinds of access types. -/
def AccessKind.words : List (String × AccessKind) :=
  [("variable", .toVariable), ("constant", .toConstant), ("subprogram", .toSubprogram)]

/-- A list of names of entities. -/
def readNames : Document → Reading (List EntityId) := asList asText

/-- A position. -/
def Location.read (d : Document) : Reading Location := do
  let f ← d.fields ["line", "col"]
  return ⟨← f.defaulted "line" 0 (asNatural 32), ← f.defaulted "col" 0 (asNatural 32)⟩

/-- The parts of a position that are read. -/
def Location.skim : Skim := .record [("line", .all), ("col", .all)]

/-- The parts that are read of a record of the symbol table or of a tree that stands on its
own. -/
def positionedSkim : Skim := .shaped [("loc", Location.skim)]

/-- The mode of a body. -/
def readBodyMode : Document → Reading Mode := asWord .nullOrObject Mode.words

section Layers

variable {α : Type} (child : Document → Reading α)

/-- An association of an aggregate. -/
def Association.read (d : Document) : Reading (Association α) := do
  let f ← d.fields ["choices", "others", "value"]
  return ⟨← f.defaulted "choices" [] (asList child), ← f.defaulted "others" false asBoolean,
    ← f.required "value" child⟩

/-- A branch of a conditional statement. -/
def Branch.read (d : Document) : Reading (Branch α) := do
  let f ← d.fields ["condition", "body"]
  return ⟨← f.required "condition" child, ← f.defaulted "body" [] (asList child)⟩

/-- A branch of a case statement. -/
def CaseBranch.read (d : Document) : Reading (CaseBranch α) := do
  let f ← d.fields ["choices", "body"]
  return ⟨← f.defaulted "choices" [] (asList child), ← f.defaulted "body" [] (asList child)⟩

/-- An argument of a pragma. -/
def PragmaArgument.read (d : Document) : Reading (PragmaArgument α) := do
  let f ← d.fields ["name", "value"]
  return ⟨← f.optional "name" asText, ← f.required "value" child⟩

/-- The forms of loop schemes. -/
def LoopScheme.forms : List (Form (LoopScheme α)) :=
  [.ofFields "while" ["condition"] fun f =>
      return .whileTrue (← f.required "condition" child),
    .ofFields "for" ["parameter", "domain", "reverse"] fun f =>
      return .overDomain (← f.required "parameter" asText) (← f.required "domain" child)
        (← f.defaulted "reverse" false asBoolean)]

/-- A loop scheme: an object with one member, whose key names the scheme. -/
def LoopScheme.read : Document → Reading (LoopScheme α)
  | .object [(key, content)] =>
    match (LoopScheme.forms child).find? (·.key == key) with
    | some form => form.read content
    | none => throw (.unknownWord key)
  | .text word =>
    if (LoopScheme.forms child).any (·.key == word) then throw .malformed
    else throw (.unknownWord word)
  | _ => throw .malformed

/-- The form of the body of a unit. -/
def bodyForm (key : String) (kind : Bodied) : Form (Shape α) :=
  .ofFields key ["entity", "mode", "declarations", "statements"] fun f =>
    return .body kind (← f.required "entity" asText) (← f.optional "mode" readBodyMode)
      (← f.defaulted "declarations" [] (asList child))
      (← f.defaulted "statements" [] (asList child))

/-- The forms of expressions. -/
def expressionForms : List (Form (Shape α)) :=
  [.ofText "identifier" "entity" .identifier,
    .ofText "name" "text" .word,
    .ofFields "integer_literal" ["value"] fun f =>
      return .literal (.integer (← f.required "value" asInteger)),
    .ofText "real_literal" "text" fun t => .literal (.real t),
    .ofText "string_literal" "value" fun t => .literal (.string t),
    .ofText "enumeration_literal" "literal" fun t => .literal (.enumeration t),
    .bare "null_literal" (.literal .null),
    .ofFields "aggregate" ["associations"] fun f =>
      return .aggregate (← f.defaulted "associations" [] (asList (Association.read child))),
    .ofFields "selected" ["prefix", "component"] fun f =>
      return .selected (← f.required "prefix" child) (← f.required "component" asText),
    .ofFields "indexed" ["prefix", "indices"] fun f =>
      return .indexed (← f.required "prefix" child) (← f.required "indices" (asList child)),
    .ofFields "slice" ["prefix", "range"] fun f =>
      return .slice (← f.required "prefix" child) (← f.required "range" child),
    .ofPart child "dereference" "prefix" .dereference,
    .ofFields "call" ["callee", "args"] fun f =>
      return .call (← f.required "callee" asText) (← f.defaulted "args" [] (asList child)),
    .ofFields "attribute" ["prefix", "name", "args"] fun f =>
      return .attribute (← f.required "prefix" child) (← f.required "name" asText)
        (← f.defaulted "args" [] (asList child)),
    .ofFields "conversion" ["target", "expr"] fun f =>
      return .conversion (← f.required "target" asText) (← f.required "expr" child),
    .ofFields "qualified" ["target", "expr"] fun f =>
      return .qualified (← f.required "target" asText) (← f.required "expr" child),
    .ofFields "binary" ["op", "left", "right"] fun f =>
      return .binary (← f.required "op" (asWord .nullOrObject BinaryOperator.words))
        (← f.required "left" child) (← f.required "right" child),
    .ofFields "unary" ["op", "operand"] fun f =>
      return .unary (← f.required "op" (asWord .nullOrObject UnaryOperator.words))
        (← f.required "operand" child),
    .ofFields "allocator" ["target", "init"] fun f =>
      return .allocator (← f.required "target" asText) (← f.optional "init" child),
    .ofFields "if_expression" ["condition", "then_value", "else_value"] fun f =>
      return .conditional (← f.required "condition" child) (← f.required "then_value" child)
        (← f.required "else_value" child),
    .ofFields "quantified" ["variable", "domain", "predicate", "existential"] fun f =>
      return .quantified (← f.required "variable" asText) (← f.required "domain" child)
        (← f.required "predicate" child) (← f.defaulted "existential" false asBoolean),
    .ofFields "range" ["low", "high"] fun f =>
      return .range (← f.required "low" child) (← f.required "high" child),
    .ofFields "membership" ["expr", "choices"] fun f =>
      return .membership (← f.required "expr" child) (← f.required "choices" (asList child))]

/-- The forms of statements. -/
def statementForms : List (Form (Shape α)) :=
  [.ofFields "assignment" ["target", "value"] fun f =>
      return .assignment (← f.required "target" child) (← f.required "value" child),
    .ofFields "procedure_call" ["callee", "args"] fun f =>
      return .procedureCall (← f.required "callee" asText)
        (← f.defaulted "args" [] (asList child)),
    .ofFields "return" ["value"] fun f => return .return (← f.optional "value" child),
    .ofFields "if" ["branches", "else_body"] fun f =>
      return .ifElse (← f.required "branches" (asList (Branch.read child)))
        (← f.defaulted "else_body" [] (asList child)),
    .ofFields "case" ["selector", "alternatives"] fun f =>
      return .case (← f.required "selector" child)
        (← f.required "alternatives" (asList (CaseBranch.read child))),
    .ofFields "loop" ["scheme", "body"] fun f =>
      return .loop ((← f.optional "scheme" (LoopScheme.read child)).getD .forever)
        (← f.defaulted "body" [] (asList child)),
    .ofFields "block" ["declarations", "statements"] fun f =>
      return .block (← f.defaulted "declarations" [] (asList child))
        (← f.defaulted "statements" [] (asList child)),
    .ofFields "exit" ["condition"] fun f => return .exit (← f.optional "condition" child),
    .ofText "goto" "label" .goto,
    .ofFields "raise" ["exception"] fun f =>
      return .raise (← f.optional "exception" asText),
    .ofPart child "delay" "value" .delay,
    .bare "abort" .abort,
    .bare "code_statement" .machineCode,
    .bare "null_statement" .nothing,
    .ofFields "pragma" ["name", "args"] fun f =>
      return .pragma (← f.required "name" asText)
        (← f.defaulted "args" [] (asList (PragmaArgument.read child)))]

/-- The forms of declarations. -/
def declarationForms : List (Form (Shape α)) :=
  [.ofText "object_declaration" "entity" (.declaration .object),
    .ofText "type_declaration" "entity" (.declaration .type),
    .ofText "subprogram_declaration" "entity" (.declaration .subprogram),
    .ofText "number_declaration" "entity" (.declaration .number),
    .ofText "exception_declaration" "entity" (.declaration .exception),
    .ofFields "package_declaration" ["entity", "visible", "private"] fun f =>
      return .package (← f.required "entity" asText)
        (← f.defaulted "visible" [] (asList child))
        (← f.defaulted "private" [] (asList child)),
    bodyForm child "subprogram_body" .subprogram,
    bodyForm child "package_body" .package,
    bodyForm child "task_body" .task,
    .ofFields "protected_body" ["entity", "mode", "bodies"] fun f =>
      return .protectedBody (← f.required "entity" asText)
        (← f.optional "mode" readBodyMode) (← f.defaulted "bodies" [] (asList child))]

/-- The forms of compilation units and their context items. -/
def unitForms : List (Form (Shape α)) :=
  [.ofFields "compilation_unit" ["context", "unit"] fun f =>
      return .compilationUnit (← f.defaulted "context" [] (asList child))
        (← f.required "unit" child),
    .ofText "with_clause" "unit" .withClause,
    .bare "use_clause" .useClause]

/-- The forms of all shapes. -/
def Shape.forms : List (Form (Shape α)) :=
  expressionForms child ++ statementForms child ++ declarationForms child ++ unitForms child

end Layers

/-- The word that names a shape. -/
def Shape.key {α : Type} : Shape α → String
  | .identifier _ => "identifier"
  | .word _ => "name"
  | .literal (.integer _) => "integer_literal"
  | .literal (.real _) => "real_literal"
  | .literal (.string _) => "string_literal"
  | .literal (.enumeration _) => "enumeration_literal"
  | .literal .null => "null_literal"
  | .aggregate _ => "aggregate"
  | .selected .. => "selected"
  | .indexed .. => "indexed"
  | .slice .. => "slice"
  | .dereference _ => "dereference"
  | .call .. => "call"
  | .attribute .. => "attribute"
  | .conversion .. => "conversion"
  | .qualified .. => "qualified"
  | .binary .. => "binary"
  | .unary .. => "unary"
  | .allocator .. => "allocator"
  | .conditional .. => "if_expression"
  | .quantified .. => "quantified"
  | .range .. => "range"
  | .membership .. => "membership"
  | .assignment .. => "assignment"
  | .procedureCall .. => "procedure_call"
  | .return _ => "return"
  | .ifElse .. => "if"
  | .case .. => "case"
  | .loop .. => "loop"
  | .block .. => "block"
  | .exit _ => "exit"
  | .goto _ => "goto"
  | .raise _ => "raise"
  | .delay _ => "delay"
  | .abort => "abort"
  | .machineCode => "code_statement"
  | .nothing => "null_statement"
  | .pragma .. => "pragma"
  | .declaration .object _ => "object_declaration"
  | .declaration .type _ => "type_declaration"
  | .declaration .subprogram _ => "subprogram_declaration"
  | .declaration .number _ => "number_declaration"
  | .declaration .exception _ => "exception_declaration"
  | .package .. => "package_declaration"
  | .body .subprogram .. => "subprogram_body"
  | .body .package .. => "package_body"
  | .body .task .. => "task_body"
  | .protectedBody .. => "protected_body"
  | .compilationUnit .. => "compilation_unit"
  | .withClause _ => "with_clause"
  | .useClause => "use_clause"

/-- A tree with at most `levels` nodes on top of each other, all numbered zero.  The
nesting of the document bounds the nesting of nodes. -/
def Node.readWithin : Nat → Document → Reading Node
  | 0, _ => throw .malformed
  | levels + 1, d => do
    let (f, shape) ← d.shaped ["loc", "type"] "NodeKind" (Shape.forms (readWithin levels))
    let location ← f.defaulted "loc" {} Location.read
    let type ← f.optional "type" asText
    return ⟨0, location, type, ← shape⟩

/-- A tree, all of whose nodes are numbered zero. -/
def Node.read : Document → Reading Node := Node.readWithin Document.nestingLimit

/-- The tree of a document, all of whose nodes are numbered zero. -/
def Node.ofDocument (d : Document) : Answer Node :=
  if positionedSkim Document.nestingLimit d then (Node.read d).mapError (.unreadable .program)
  else throw (.unreadable .program .malformed)

/-- The facets of an object. -/
def ObjectFacet.read (f : Fields) : Reading ObjectFacet := do
  return {
    type := ← f.required "type" asText
    constant := ← f.defaulted "constant" false asBoolean
    initial := ← f.optional "init" Node.read
    volatile := ← f.defaulted "volatile" false asBoolean
    relaxed := ← f.defaulted "relaxed_init" false asBoolean }

/-- The facets of a parameter. -/
def ParameterFacet.read (f : Fields) : Reading ParameterFacet := do
  return {
    type := ← f.required "type" asText
    direction := ← f.defaulted "mode" .input (asWord .nullOrObject Direction.words)
    default := ← f.optional "default" Node.read
    relaxed := ← f.defaulted "relaxed_init" false asBoolean }

/-- The facets of a component. -/
def ComponentFacet.read (f : Fields) : Reading ComponentFacet := do
  return {
    type := ← f.required "type" asText
    default := ← f.optional "default" Node.read
    relaxed := ← f.defaulted "relaxed_init" false asBoolean }

/-- The global effects of a subprogram. -/
def Effects.read (d : Document) : Reading Effects := do
  let f ← d.fields ["reads", "writes", "loc"]
  return {
    reads := ← f.defaulted "reads" [] readNames
    writes := ← f.defaulted "writes" [] readNames
    location := ← f.defaulted "loc" {} Location.read }

/-- A case of a contract. -/
def ContractCase.read (d : Document) : Reading ContractCase := do
  let f ← d.fields ["guard", "consequence"]
  return {
    guard := ← f.optional "guard" Node.read
    consequence := ← f.required "consequence" Node.read }

/-- The facets of a subprogram. -/
def SubprogramFacet.read (f : Fields) : Reading SubprogramFacet := do
  return {
    kind := ← f.required "kind" (asWord .nullOrObject SubprogramKind.words)
    parameters := ← f.defaulted "params" [] readNames
    result := ← f.optional "result" asText
    precondition := ← f.optional "pre" Node.read
    postcondition := ← f.optional "post" Node.read
    classPrecondition := ← f.optional "class_wide_pre" Node.read
    classPostcondition := ← f.optional "class_wide_post" Node.read
    contractCases := ← f.defaulted "contract_cases" [] (asList ContractCase.read)
    effects := ← f.defaulted "effects" {} Effects.read
    volatileFunction := ← f.defaulted "volatile_function" false asBoolean
    dispatching := ← f.defaulted "dispatching" false asBoolean
    overridden := ← f.defaulted "overridden" [] readNames
    companions := ← f.defaulted "companions" [] readNames }

/-- The definition of a record type. -/
def RecordDefinition.read (f : Fields) : Reading RecordDefinition := do
  return {
    discriminants := ← f.defaulted "discriminants" [] readNames
    components := ← f.defaulted "components" [] readNames
    parent := ← f.optional "parent" asText
    interfaces := ← f.defaulted "interfaces" [] readNames
    tagged := ← f.defaulted "tagged" false asBoolean }

/-- The definition of an access type. -/
def AccessDefinition.read (f : Fields) : Reading AccessDefinition := do
  return {
    designated := ← f.required "designated" asText
    kind := ← f.defaulted "kind" .toVariable (asWord .nullOrObject AccessKind.words)
    anonymous := ← f.defaulted "anonymous" false asBoolean
    storagePool := ← f.defaulted "storage_pool" false asBoolean
    storageSize := ← f.defaulted "storage_size" false asBoolean }

/-- The forms of type definitions. -/
def TypeDefinition.forms : List (Form TypeDefinition) :=
  [.ofFields "signed" ["low", "high"] fun f =>
      return .signed (← f.required "low" asBigInteger) (← f.required "high" asBigInteger),
    .ofFields "modular" ["modulus"] fun f =>
      return .modular (← f.required "modulus" asBigInteger),
    .ofFields "floating" ["digits"] fun f =>
      return .floating (← f.required "digits" (asNatural 32)),
    .ofFields "ordinary_fixed" ["small"] fun f =>
      return .ordinaryFixed (← f.required "small" asFraction),
    .ofFields "decimal_fixed" ["digits", "delta"] fun f =>
      return .decimalFixed (← f.required "digits" (asNatural 32))
        (← f.required "delta" asFraction),
    .ofFields "enumeration" ["literals"] fun f =>
      return .enumeration (← f.defaulted "literals" [] (asList asText)),
    .ofFields "array" ["indices", "component"] fun f =>
      return .array (← f.required "indices" readNames) (← f.required "component" asText),
    .ofFields "record" ["discriminants", "components", "parent", "interfaces", "tagged"]
      fun f => return .record (← RecordDefinition.read f),
    .ofFields "interface" ["parents"] fun f =>
      return .interface (← f.defaulted "parents" [] readNames),
    .ofFields "access" ["designated", "kind", "anonymous", "storage_pool", "storage_size"]
      fun f => return .access (← AccessDefinition.read f),
    .ofFields "private" ["full_view", "discriminants", "tagged"] fun f =>
      return .partialView (← f.optional "full_view" asText)
        (← f.defaulted "discriminants" [] readNames)
        (← f.defaulted "tagged" false asBoolean),
    .ofFields "incomplete" ["full_view"] fun f =>
      return .incomplete (← f.optional "full_view" asText),
    .ofFields "subtype" ["parent", "constraint"] fun f =>
      return .subtype (← f.required "parent" asText)
        (← f.defaulted "constraint" [] (asList Node.read)),
    .ofFields "derived" ["parent", "constraint"] fun f =>
      return .derived (← f.required "parent" asText)
        (← f.defaulted "constraint" [] (asList Node.read)),
    .ofFields "class_wide" ["root", "constrained"] fun f =>
      return .classWide (← f.required "root" asText)
        (← f.defaulted "constrained" false asBoolean),
    .ofFields "task" ["discriminants", "entries"] fun f =>
      return .task (← f.defaulted "discriminants" [] readNames)
        (← f.defaulted "entries" [] readNames),
    .ofFields "protected" ["discriminants", "components", "operations"] fun f =>
      return .protectedUnit (← f.defaulted "discriminants" [] readNames)
        (← f.defaulted "components" [] readNames)
        (← f.defaulted "operations" [] readNames)]

/-- The facets of a type. -/
def TypeFacet.read (d : Document) : Reading TypeFacet := do
  let (f, definition) ← d.shaped
    ["invariant", "default_initial_condition", "predicate_function", "relaxed_init",
      "ownership", "volatile", "primitives"] "TypeDef" TypeDefinition.forms
  return {
    invariant := ← f.optional "invariant" Node.read
    initialCondition := ← f.optional "default_initial_condition" Node.read
    predicateFunction := ← f.optional "predicate_function" asText
    relaxed := ← f.defaulted "relaxed_init" false asBoolean
    ownership := ← f.defaulted "ownership" false asBoolean
    volatile := ← f.defaulted "volatile" false asBoolean
    primitives := ← f.defaulted "primitives" [] readNames
    definition := ← definition }

/-- The forms of kinds of entities. -/
def EntityKind.forms : List (Form EntityKind) :=
  [.ofFields "object" ["type", "constant", "init", "volatile", "relaxed_init"] fun f =>
      return .object (← ObjectFacet.read f),
    .ofFields "parameter" ["type", "mode", "default", "relaxed_init"] fun f =>
      return .parameter (← ParameterFacet.read f),
    .ofFields "component" ["type", "default", "relaxed_init"] fun f =>
      return .component (← ComponentFacet.read f),
    .ofFields "discriminant" ["type", "default", "relaxed_init"] fun f =>
      return .discriminant (← ComponentFacet.read f),
    ⟨"type", fun d => return .type (← TypeFacet.read d)⟩,
    .ofFields "subprogram" ["kind", "params", "result", "pre", "post", "class_wide_pre",
        "class_wide_post", "contract_cases", "effects", "volatile_function", "dispatching",
        "overridden", "companions"] fun f =>
      return .subprogram (← SubprogramFacet.read f),
    .ofFields "package" ["initial_condition"] fun f =>
      return .package (← f.optional "initial_condition" Node.read),
    .bare "abstract_state" .abstractState,
    .ofFields "number" ["value"] fun f => return .number (← f.optional "value" Node.read),
    .bare "exception" .exception]

/-- A record of the symbol table. -/
def Entity.read (d : Document) : Reading Entity := do
  let (f, kind) ← d.shaped ["name", "loc", "scope", "mode"] "EntityKind" EntityKind.forms
  let location ← f.defaulted "loc" {} Location.read
  let scope ← f.optional "scope" asText
  let mode ← f.optional "mode" (asWord .null Mode.words)
  return {
    name := ← f.required "name" asText
    location, scope, mode
    kind := ← kind }

namespace Program

/-- The parts of a program that are read. -/
def skim : Skim :=
  .record [("entities", .items positionedSkim), ("units", .items positionedSkim)]

/-- The entities and the units of a program. -/
def readParts (d : Document) : Reading (List Entity × List Node) := do
  if skim Document.nestingLimit d then
    let f ← d.fields ["entities", "units"]
    return (← f.defaulted "entities" [] (asList Entity.read),
      ← f.defaulted "units" [] (asList Node.read))
  else throw .malformed

/-- The program of a document. -/
def ofDocument (d : Document) : Answer Program :=
  match readParts d with
  | .ok (entities, units) => assemble entities units
  | .error reason => .error (.unreadable .program reason)

/-- The program of a text. -/
def read (text : String) : Answer Program :=
  match Document.read text with
  | .ok d => ofDocument d
  | .error _ => throw (.unreadable .program .malformed)

end Program

end Conformance
