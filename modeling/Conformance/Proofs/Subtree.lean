import Conformance.Program.Node
import Mathlib.Data.List.Basic

/-!
# Subtrees

The layer of a node is a functor in the type of its children.  Each child is smaller than its
parent, which is the induction principle of trees, `Node.induction`; the nodes of a tree, listed
by `Node.subtree` in pre-order, are the node itself followed by the nodes of its children.
-/

namespace Conformance

section Map

variable {α β : Type} (f : α → β)

/-- An association with other children. -/
def Association.map (a : Association α) : Association β :=
  ⟨a.choices.map f, a.others, f a.value⟩

/-- A branch of a conditional statement with other children. -/
def Branch.map (b : Branch α) : Branch β := ⟨f b.condition, b.body.map f⟩

/-- A branch of a case statement with other children. -/
def CaseBranch.map (b : CaseBranch α) : CaseBranch β := ⟨b.choices.map f, b.body.map f⟩

/-- A loop scheme with another child. -/
def LoopScheme.map : LoopScheme α → LoopScheme β
  | .forever => .forever
  | .whileTrue condition => .whileTrue (f condition)
  | .overDomain parameter domain reversed => .overDomain parameter (f domain) reversed

/-- An argument of a pragma with another child. -/
def PragmaArgument.map (a : PragmaArgument α) : PragmaArgument β := ⟨a.name, f a.value⟩

/-- A layer with other children. -/
def Shape.map : Shape α → Shape β
  | .identifier entity => .identifier entity
  | .word text => .word text
  | .literal value => .literal value
  | .aggregate associations => .aggregate (associations.map (·.map f))
  | .selected whole component => .selected (f whole) component
  | .indexed whole indices => .indexed (f whole) (indices.map f)
  | .slice whole bounds => .slice (f whole) (f bounds)
  | .dereference pointer => .dereference (f pointer)
  | .call callee arguments => .call callee (arguments.map f)
  | .attribute whole name arguments => .attribute (f whole) name (arguments.map f)
  | .conversion target operand => .conversion target (f operand)
  | .qualified target operand => .qualified target (f operand)
  | .binary operator left right => .binary operator (f left) (f right)
  | .unary operator operand => .unary operator (f operand)
  | .allocator target initial => .allocator target (initial.map f)
  | .conditional condition thenValue elseValue =>
    .conditional (f condition) (f thenValue) (f elseValue)
  | .quantified element domain predicate existential =>
    .quantified element (f domain) (f predicate) existential
  | .range low high => .range (f low) (f high)
  | .membership operand choices => .membership (f operand) (choices.map f)
  | .assignment target value => .assignment (f target) (f value)
  | .procedureCall callee arguments => .procedureCall callee (arguments.map f)
  | .return value => .return (value.map f)
  | .ifElse branches otherwise => .ifElse (branches.map (·.map f)) (otherwise.map f)
  | .case selector branches => .case (f selector) (branches.map (·.map f))
  | .loop scheme statements => .loop (scheme.map f) (statements.map f)
  | .block declarations statements => .block (declarations.map f) (statements.map f)
  | .exit condition => .exit (condition.map f)
  | .goto label => .goto label
  | .raise exception => .raise exception
  | .delay value => .delay (f value)
  | .abort => .abort
  | .machineCode => .machineCode
  | .nothing => .nothing
  | .pragma name arguments => .pragma name (arguments.map (·.map f))
  | .declaration kind entity => .declaration kind entity
  | .package entity visible hidden => .package entity (visible.map f) (hidden.map f)
  | .body kind entity mode declarations statements =>
    .body kind entity mode (declarations.map f) (statements.map f)
  | .protectedBody entity mode bodies => .protectedBody entity mode (bodies.map f)
  | .compilationUnit context unit => .compilationUnit (context.map f) (f unit)
  | .withClause unit => .withClause unit
  | .useClause => .useClause

end Map

namespace Shape

variable {α β : Type}

/-- A layer without its children: what it is, and where the children would stand. -/
def frame (s : Shape α) : Shape Unit := s.map fun _ => ()

/-- The children of a layer are smaller than the layer. -/
theorem sizeOf_lt_of_mem_children [SizeOf α] {s : Shape α} {a : α} (h : a ∈ s.children) :
  sizeOf a < sizeOf s
  := by
  have listed {as : List α} (h : a ∈ as) : sizeOf a < sizeOf as := List.sizeOf_lt_of_mem h
  cases s with
  | aggregate associations =>
    obtain ⟨⟨choices, others, value⟩, hb, h⟩ := List.mem_flatMap.1 h
    have hb := List.sizeOf_lt_of_mem hb
    grind [aggregate.sizeOf_spec, Association.mk.sizeOf_spec]
  | ifElse branches otherwise =>
    obtain h | h := List.mem_append.1 h
    · obtain ⟨⟨condition, body⟩, hb, h⟩ := List.mem_flatMap.1 h
      have hb := List.sizeOf_lt_of_mem hb
      grind [ifElse.sizeOf_spec, Branch.mk.sizeOf_spec]
    · grind [ifElse.sizeOf_spec]
  | case selector branches =>
    obtain rfl | h := List.mem_cons.1 h
    · grind [case.sizeOf_spec]
    · obtain ⟨⟨choices, body⟩, hb, h⟩ := List.mem_flatMap.1 h
      have hb := List.sizeOf_lt_of_mem hb
      grind [case.sizeOf_spec, CaseBranch.mk.sizeOf_spec]
  | loop scheme statements =>
    cases scheme <;>
      grind [children, LoopScheme.children, loop.sizeOf_spec,
        LoopScheme.whileTrue.sizeOf_spec, LoopScheme.overDomain.sizeOf_spec]
  | pragma name arguments =>
    obtain ⟨⟨_, value⟩, hb, rfl⟩ := List.mem_map.1 h
    have hb := List.sizeOf_lt_of_mem hb
    grind [pragma.sizeOf_spec, PragmaArgument.mk.sizeOf_spec]
  | allocator _ value | «return» value | exit value =>
    obtain rfl := Option.mem_toList.1 h
    simp
    omega
  | identifier | word | literal | goto | raise | abort | machineCode | nothing | declaration
  | withClause | useClause => cases h
  | _ =>
    simp [children] at h ⊢
    grind

end Shape

namespace Node

/-- The children of a node are smaller than the node. -/
theorem sizeOf_lt_of_mem_children {n m : Node} (h : m ∈ n.children) :
  sizeOf m < sizeOf n
  := by
  obtain ⟨id, location, type, layer⟩ := n
  have hm : sizeOf m < sizeOf layer := Shape.sizeOf_lt_of_mem_children h
  rw [mk.sizeOf_spec]
  omega

/-- What holds of a node whenever it holds of its children holds of every node. -/
theorem induction {P : Node → Prop} (step : ∀ n, (∀ m ∈ n.children, P m) → P n) (n : Node) :
  P n
  := step n fun m _ => induction step m
termination_by n
decreasing_by exact sizeOf_lt_of_mem_children ‹_›

/-- The nodes of a tree in pre-order: the node itself, then those of its children. -/
def subtree (n : Node) : List Node :=
  n :: n.children.attach.flatMap fun m => subtree m.1
termination_by n
decreasing_by exact sizeOf_lt_of_mem_children m.2

/-- The nodes of trees, one tree after another. -/
def forest (ns : List Node) : List Node := ns.flatMap subtree

/-- The nodes below a node. -/
def descendants (n : Node) : List Node := forest n.children

theorem subtree_eq (n : Node) :
  n.subtree = n :: n.descendants
  := by
  rw [subtree, descendants, forest]
  simp

@[simp]
theorem forest_nil :
  forest [] = []
  := rfl

@[simp]
theorem forest_cons (n : Node) (ns : List Node) :
  forest (n :: ns) = n.subtree ++ forest ns
  := rfl

theorem forest_singleton (n : Node) :
  forest [n] = n :: forest n.children
  := by rw [forest_cons, forest_nil, List.append_nil, subtree_eq, descendants]

@[simp]
theorem forest_append (ns ms : List Node) :
  forest (ns ++ ms) = forest ns ++ forest ms
  := List.flatMap_append

/-- A node is among the nodes of its tree. -/
theorem mem_subtree_self (n : Node) :
  n ∈ n.subtree
  := by simp [subtree_eq]

/-- What a node says, apart from its number and from what its children say. -/
def label (n : Node) : Location × Option EntityId × Shape Unit :=
  (n.location, n.type, n.shape.frame)

end Node

end Conformance
