import Conformance.Program.Basic
import Conformance.Proofs.Subtree
import Mathlib.Data.List.Perm.Basic

/-!
# The numbers of the nodes of a program

Numbering goes through the layers of trees and through the facets of entities one
constructor after another.  Two kinds of laws say that it forgets nothing.  What is numbered
of a layer, or of an entity, is its children, or its facets, one after another
(`children_layer`, `facets_entities`); everything else is left as it was (`frame_layer`,
`names_entities`).  So trees get the numbers from the next free one on, in pre-order
(`numbers_nodes`), by induction on trees; and the nodes of a program whose entities have
different names are numbered without gaps and without repetitions.
-/

namespace Conformance

namespace Numbering

/-! ## What is numbered -/

theorem nodes_append (ns ms : List Node) :
  nodes (ns ++ ms) = (do return (← nodes ns) ++ (← nodes ms))
  := by
  induction ns with
  | nil => simp [nodes]
  | cons n ns ih => simp [nodes, ih]

theorem toList_option (n : Option Node) :
  Option.toList <$> option n = nodes n.toList
  := by cases n <;> simp [nodes, option]

theorem trees_associations (as : List (Association Node)) :
  (fun as => as.flatMap fun a => a.choices ++ [a.value]) <$> associations as
    = nodes (as.flatMap fun a => a.choices ++ [a.value])
  := by
  induction as with
  | nil => simp [nodes, associations]
  | cons a as ih =>
    obtain ⟨choices, others, value⟩ := a
    simp [associations, nodes_append, nodes, ← ih]

theorem trees_branches (bs : List (Branch Node)) :
  (fun bs => bs.flatMap fun b => b.condition :: b.body) <$> branches bs
    = nodes (bs.flatMap fun b => b.condition :: b.body)
  := by
  induction bs with
  | nil => simp [nodes, branches]
  | cons b bs ih =>
    obtain ⟨condition, body⟩ := b
    simp [branches, nodes_append, nodes, ← ih]

theorem trees_caseBranches (bs : List (CaseBranch Node)) :
  (fun bs => bs.flatMap fun b => b.choices ++ b.body) <$> caseBranches bs
    = nodes (bs.flatMap fun b => b.choices ++ b.body)
  := by
  induction bs with
  | nil => simp [nodes, caseBranches]
  | cons b bs ih =>
    obtain ⟨choices, body⟩ := b
    simp [caseBranches, nodes_append, ← ih]

theorem trees_pragmaArguments (as : List (PragmaArgument Node)) :
  (fun as => as.map (·.value)) <$> pragmaArguments as = nodes (as.map (·.value))
  := by
  induction as with
  | nil => simp [nodes, pragmaArguments]
  | cons a as ih =>
    obtain ⟨name, value⟩ := a
    simp [pragmaArguments, nodes, ← ih]

theorem children_scheme (s : LoopScheme Node) :
  LoopScheme.children <$> scheme s = nodes s.children
  := by cases s <;> simp [nodes, scheme, LoopScheme.children]

/-- To number a layer is to number its children. -/
theorem children_layer (s : Shape Node) :
  Shape.children <$> layer s = nodes s.children
  := by
  cases s with
  | aggregate as => simp [layer, Shape.children, ← trees_associations]
  | ifElse bs otherwise => simp [layer, Shape.children, nodes_append, ← trees_branches]
  | case selector bs => simp [layer, Shape.children, nodes, ← trees_caseBranches]
  | loop s statements => simp [layer, Shape.children, nodes_append, ← children_scheme]
  | pragma name as => simp [layer, Shape.children, ← trees_pragmaArguments]
  | allocator | «return» | exit => simp [layer, Shape.children, ← toList_option]
  | _ => simp [layer, Shape.children, nodes, nodes_append]

theorem constraint_definition (d : TypeDefinition) :
  TypeDefinition.constraint <$> definition d = nodes d.constraint
  := by cases d <;> simp [definition, TypeDefinition.constraint, nodes]

theorem facets_contractCases (cs : List ContractCase) :
  (fun cs => cs.flatMap ContractCase.facets) <$> contractCases cs
    = nodes (cs.flatMap ContractCase.facets)
  := by
  induction cs with
  | nil => simp [nodes, contractCases]
  | cons c cs ih =>
    obtain ⟨guard, consequence⟩ := c
    simp [contractCases, ContractCase.facets, nodes_append, nodes, ← toList_option, ← ih]

theorem facets_kind (k : EntityKind) :
  EntityKind.facets <$> kind k = nodes k.facets
  := by
  cases k with
  | type t =>
    simp [kind, typeFacet, EntityKind.facets, TypeFacet.aspects, nodes_append, ← toList_option,
      ← constraint_definition]
  | subprogram s =>
    simp [kind, subprogramFacet, EntityKind.facets, SubprogramFacet.contracts, nodes_append,
      ← toList_option, ← facets_contractCases]
  | _ => simp [kind, EntityKind.facets, nodes, ← toList_option]

/-- To number entities is to number their facets. -/
theorem facets_entities (es : List Entity) :
  (fun es => es.flatMap Entity.facets) <$> entities es = nodes (es.flatMap Entity.facets)
  := by
  induction es with
  | nil => simp [nodes, entities]
  | cons e es ih => simp [entities, entity, Entity.facets, nodes_append, ← facets_kind, ← ih]

/-! ## What is left as it was -/

theorem places_nodes (ns : List Node) (k : NodeId) :
  ((nodes ns).run k).1.map (fun _ => ()) = ns.map fun _ => ()
  := by
  induction ns generalizing k with
  | nil => rfl
  | cons n ns ih => exact congrArg (() :: ·) (ih _)

theorem places_option (n : Option Node) (k : NodeId) :
  ((option n).run k).1.map (fun _ => ()) = n.map fun _ => ()
  := by cases n <;> rfl

theorem places_associations (as : List (Association Node)) (k : NodeId) :
  ((associations as).run k).1.map (Association.map fun _ => ())
    = as.map (Association.map fun _ => ())
  := by
  induction as generalizing k with
  | nil => rfl
  | cons a as ih =>
    have hc := congrArg (Association.mk · a.others ()) (places_nodes a.choices k)
    exact congrArg₂ List.cons hc (ih _)

theorem places_branches (bs : List (Branch Node)) (k : NodeId) :
  ((branches bs).run k).1.map (Branch.map fun _ => ()) = bs.map (Branch.map fun _ => ())
  := by
  induction bs generalizing k with
  | nil => rfl
  | cons b bs ih =>
    have hb := congrArg (Branch.mk ()) (places_nodes b.body ((node b.condition).run k).2)
    exact congrArg₂ List.cons hb (ih _)

theorem places_caseBranches (bs : List (CaseBranch Node)) (k : NodeId) :
  ((caseBranches bs).run k).1.map (CaseBranch.map fun _ => ())
    = bs.map (CaseBranch.map fun _ => ())
  := by
  induction bs generalizing k with
  | nil => rfl
  | cons b bs ih =>
    have hc := places_nodes b.choices k
    have hb := places_nodes b.body ((nodes b.choices).run k).2
    exact congrArg₂ List.cons (congrArg₂ CaseBranch.mk hc hb) (ih _)

theorem places_pragmaArguments (as : List (PragmaArgument Node)) (k : NodeId) :
  ((pragmaArguments as).run k).1.map (PragmaArgument.map fun _ => ())
    = as.map (PragmaArgument.map fun _ => ())
  := by
  induction as generalizing k with
  | nil => rfl
  | cons a as ih => exact congrArg (PragmaArgument.mk a.name () :: ·) (ih _)

/-- Numbering leaves a layer as it was, apart from its children. -/
theorem frame_layer (s : Shape Node) (k : NodeId) :
  ((layer s).run k).1.frame = s.frame
  := by
  cases s with
  | aggregate => exact congrArg Shape.aggregate (places_associations _ _)
  | indexed => exact congrArg (Shape.indexed ()) (places_nodes _ _)
  | call callee => exact congrArg (Shape.call callee) (places_nodes _ _)
  | «attribute» _ name => exact congrArg (Shape.attribute () name) (places_nodes _ _)
  | allocator target => exact congrArg (Shape.allocator target) (places_option _ _)
  | membership => exact congrArg (Shape.membership ()) (places_nodes _ _)
  | procedureCall callee => exact congrArg (Shape.procedureCall callee) (places_nodes _ _)
  | «return» => exact congrArg Shape.return (places_option _ _)
  | ifElse => exact congrArg₂ Shape.ifElse (places_branches _ _) (places_nodes _ _)
  | case => exact congrArg (Shape.case ()) (places_caseBranches _ _)
  | loop scheme =>
    cases scheme with
    | forever => exact congrArg (Shape.loop .forever) (places_nodes _ _)
    | whileTrue => exact congrArg (Shape.loop (.whileTrue ())) (places_nodes _ _)
    | overDomain parameter _ reversed =>
      exact congrArg (Shape.loop (.overDomain parameter () reversed)) (places_nodes _ _)
  | block => exact congrArg₂ Shape.block (places_nodes _ _) (places_nodes _ _)
  | exit => exact congrArg Shape.exit (places_option _ _)
  | pragma name => exact congrArg (Shape.pragma name) (places_pragmaArguments _ _)
  | package entity => exact congrArg₂ (Shape.package entity) (places_nodes _ _) (places_nodes _ _)
  | body kind entity mode =>
    exact congrArg₂ (Shape.body kind entity mode) (places_nodes _ _) (places_nodes _ _)
  | protectedBody entity mode =>
    exact congrArg (Shape.protectedBody entity mode) (places_nodes _ _)
  | compilationUnit => exact congrArg (Shape.compilationUnit · ()) (places_nodes _ _)
  | _ => rfl

/-- Numbering leaves the names of entities as they were. -/
theorem names_entities (es : List Entity) (k : NodeId) :
  ((entities es).run k).1.map Entity.name = es.map Entity.name
  := by
  induction es generalizing k with
  | nil => rfl
  | cons e es ih => exact congrArg (e.name :: ·) (ih _)

/-! ## The numbers -/

open Node

/-- The trees `r.1` are the trees `ns`, numbered in pre-order from `k` on, and `r.2` is the
next number that is free. -/
structure Numbers (k : NodeId) (ns : List Node) (r : List Node × NodeId) : Prop where
  labels : (forest r.1).map label = (forest ns).map label
  ids : (forest r.1).map Node.id = List.range' k (forest ns).length
  intervals : ∀ n ∈ forest r.1, n.subtree.map Node.id = List.range' n.id n.subtree.length
  next : r.2 = k + (forest ns).length

theorem Numbers.nil (k : NodeId) :
  Numbers k [] ([], k)
  := ⟨rfl, rfl, nofun, rfl⟩

/-- Trees numbered one after another are numbered. -/
theorem Numbers.append {k : NodeId} {ns ms : List Node} {r q : List Node × NodeId}
    (hr : Numbers k ns r) (hq : Numbers r.2 ms q) :
  Numbers k (ns ++ ms) (r.1 ++ q.1, q.2)
  where
  labels := by simp [hr.labels, hq.labels]
  ids := by simp [hr.ids, hq.ids, hr.next, List.range'_append_1]
  intervals n hn := by
    obtain hn | hn := List.mem_append.1 (forest_append .. ▸ hn)
    · exact hr.intervals n hn
    · exact hq.intervals n hn
  next := by rw [hq.next, hr.next, forest_append, List.length_append, Nat.add_assoc]

/-- A node is numbered once its children are, from the number after its own on. -/
theorem Numbers.node {k : NodeId} {n m : Node} {next : NodeId} (hid : m.id = k)
    (hl : m.label = n.label) (h : Numbers (k + 1) n.children (m.children, next)) :
  Numbers k [n] ([m], next)
  := by
  have hids : (forest [m]).map Node.id = List.range' k (forest [n]).length := by
    rw [forest_singleton, forest_singleton, List.map_cons, h.ids, hid]
    rfl
  have hm : forest [m] = m.subtree := List.append_nil _
  constructor
  · simp only [forest_singleton, List.map_cons, hl, h.labels]
  · exact hids
  · intro o ho
    obtain rfl | ho := List.mem_cons.1 (forest_singleton m ▸ ho)
    · have hlen := congrArg List.length hids
      rw [List.length_map, List.length_range'] at hlen
      rw [← hm, hids, hlen, hid]
    · exact h.intervals o ho
  · rw [forest_singleton, List.length_cons, Nat.add_comm _ 1, ← Nat.add_assoc]
    exact h.next

/-- Trees are numbered if each of them is. -/
theorem numbers_nodes_of {ns : List Node}
    (h : ∀ n ∈ ns, ∀ k, Numbers k [n] ([((node n).run k).1], ((node n).run k).2)) (k : NodeId) :
  Numbers k ns ((nodes ns).run k)
  := by
  induction ns generalizing k with
  | nil => exact .nil k
  | cons n ns ih =>
    have hn := h n List.mem_cons_self k
    exact hn.append (ih (fun m hm => h m (List.mem_cons_of_mem n hm)) _)

theorem numbers_node (n : Node) (k : NodeId) :
  Numbers k [n] ([((node n).run k).1], ((node n).run k).2)
  := by
  induction n using Node.induction generalizing k with
  | step n ih =>
    obtain ⟨id, location, type, s⟩ := n
    have hs : Numbers (k + 1) s.children ((nodes s.children).run (k + 1)) :=
      numbers_nodes_of ih (k + 1)
    rw [← children_layer, StateT.run_map] at hs
    have hf := congrArg (location, type, ·) (frame_layer s (k + 1))
    exact .node rfl hf hs

/-- The numbers of trees are those from the next free one on. -/
theorem numbers_nodes (ns : List Node) (k : NodeId) :
  Numbers k ns ((nodes ns).run k)
  := numbers_nodes_of (fun n _ => numbers_node n) k

/-- The facets of entities are numbered like trees one after another. -/
theorem numbers_facets (es : List Entity) (k : NodeId) :
  Numbers k (es.flatMap Entity.facets)
    (((entities es).run k).1.flatMap Entity.facets, ((entities es).run k).2)
  := by
  have h := numbers_nodes (es.flatMap Entity.facets) k
  rwa [← facets_entities, StateT.run_map] at h

/-- The numbers of the nodes below a node are greater than that of the node. -/
theorem Numbers.lt_of_mem_descendants {k : NodeId} {ns : List Node} {r : List Node × NodeId}
    (h : Numbers k ns r) {n m : Node} (hn : n ∈ forest r.1) (hm : m ∈ n.descendants) :
  n.id < m.id
  := by
  have hi := h.intervals n hn
  rw [subtree_eq, List.map_cons, List.length_cons, List.range'_succ, List.cons.injEq] at hi
  have hm := List.mem_map_of_mem hm (f := Node.id)
  rw [hi.2, List.mem_range'_1] at hm
  exact hm.1

end Numbering

namespace Program

open Conformance.Numbering Node

/-- The values of a table. -/
def values (table : Std.TreeMap EntityId Entity) : List Entity := table.toList.map (·.2)

theorem values_insert {table : Std.TreeMap EntityId Entity} {e : Entity} (h : e.name ∉ table) :
  (values (table.insert e.name e)).Perm (e :: values table)
  := by
  have hp := Std.TreeMap.toList_insert_perm (t := table) (k := e.name) (v := e)
  rw [List.filter_eq_self.2 ?_] at hp
  · exact hp.map (·.2)
  · intro b hb
    have hb := Std.TreeMap.mem_toList_iff_getElem?_eq_some.1 hb
    have hb : b.1 ∈ table := Std.TreeMap.mem_iff_isSome_getElem?.2 (by rw [hb, Option.isSome_some])
    have hne : e.name ≠ b.1 := fun he => h (he ▸ hb)
    simpa using hne

/-- Entities with names that are new and different can be entered into a table. -/
theorem exists_enter {es : List Entity} {table : Std.TreeMap EntityId Entity}
    (hn : (es.map Entity.name).Nodup) (hd : ∀ e ∈ es, e.name ∉ table) :
  ∃ table', enter table es = .ok table' ∧ (values table').Perm (values table ++ es)
  := by
  induction es generalizing table with
  | nil => exact ⟨table, rfl, by rw [List.append_nil]⟩
  | cons e es ih =>
    rw [List.map_cons, List.nodup_cons] at hn
    have he := hd e List.mem_cons_self
    have hnew : ∀ f ∈ es, f.name ∉ table.insert e.name e := by
      intro f hf hm
      obtain hef | hm := Std.TreeMap.mem_insert.1 hm
      · have hef : e.name = f.name := Std.LawfulEqOrd.eq_of_compare hef
        exact hn.1 (hef ▸ List.mem_map_of_mem hf)
      · exact hd f (List.mem_cons_of_mem e hf) hm
    obtain ⟨table', h, hp⟩ := ih hn.2 hnew
    refine ⟨table', by rw [enter, if_neg he, h], hp.trans ?_⟩
    exact ((values_insert he).append_right es).trans List.perm_middle.symm

/-- A program has the numbered entities and units, if the entities can be entered. -/
theorem assemble_of_enter {entities : List Entity} (units : List Node)
    {table : Std.TreeMap EntityId Entity}
    (h : enter ∅ ((Numbering.entities entities).run 0).1 = .ok table) :
  let start := ((Numbering.entities entities).run 0).2
  ∃ p, assemble entities units = .ok p ∧ p.entities = table
    ∧ (p.units, p.nodeCount) = (Numbering.nodes units).run start
  := by
  intro start
  unfold assemble
  split
  next entities' start' he =>
    obtain rfl : start' = start := (congrArg Prod.snd he).symm
    split
    next units' count hu =>
      rw [he] at h
      split
      next table' h' =>
        obtain rfl := Except.ok.inj (h'.symm.trans h)
        exact ⟨_, rfl, rfl, hu.symm⟩
      next h' => cases h'.symm.trans h

variable (p : Program)

/-- The nodes of a program: those of the facets of its entities, then those of its units. -/
def nodes : List Node := forest ((values p.entities).flatMap Entity.facets ++ p.units)

/-- The nodes of a program have the numbers below `nodeCount`, each of them once; and the
nodes of a tree have consecutive numbers, of which that of its root is the first. -/
structure IsNumbered : Prop where
  nodup : (p.nodes.map Node.id).Nodup
  mem_iff (k : NodeId) : k ∈ p.nodes.map Node.id ↔ k < p.nodeCount
  lt_of_mem_descendants : ∀ n ∈ p.nodes, ∀ m ∈ n.descendants, n.id < m.id
  interval : ∀ n ∈ p.nodes, n.subtree.map Node.id = List.range' n.id n.subtree.length

variable {p}

/-- A program is numbered if its nodes, in some order, are trees numbered from 0 on. -/
theorem isNumbered_of_perm {ns ms : List Node} (h : Numbers 0 ns (ms, p.nodeCount))
    (hp : p.nodes.Perm (forest ms)) :
  p.IsNumbered
  := by
  have hids : (p.nodes.map Node.id).Perm (List.range' 0 (forest ns).length) :=
    h.ids ▸ hp.map Node.id
  constructor
  · exact hids.nodup_iff.2 List.nodup_range'
  · intro k
    rw [hids.mem_iff, List.mem_range'_1, ← h.next]
    exact and_iff_right k.zero_le
  · exact fun n hn m hm => h.lt_of_mem_descendants (hp.mem_iff.1 hn) hm
  · exact fun n hn => h.intervals n (hp.mem_iff.1 hn)

/-- Entities with different names make up a program with any units.  It has the given nodes,
and numbers them one to one with the numbers below how many they are: none is left out and
none is shared, in the facets of the entities as in the units, and at any depth. -/
theorem numbering_bijective {entities : List Entity} (units : List Node)
    (h : (entities.map Entity.name).Nodup) :
  let given := forest (entities.flatMap Entity.facets ++ units)
  ∃ p, assemble entities units = .ok p ∧ p.IsNumbered ∧ p.nodeCount = given.length
    ∧ (p.nodes.map label).Perm (given.map label)
  := by
  intro given
  rw [← names_entities entities 0] at h
  have hnew : ∀ e ∈ ((Numbering.entities entities).run 0).1,
      e.name ∉ (∅ : Std.TreeMap EntityId Entity) := fun _ _ => Std.TreeMap.not_mem_emptyc
  obtain ⟨table, ht, hv⟩ := exists_enter h hnew
  obtain ⟨p, hp, rfl, hu⟩ := assemble_of_enter units ht
  have hn := (numbers_facets entities 0).append (numbers_nodes units _)
  rw [← hu] at hn
  have hperm : p.nodes.Perm (forest _) :=
    ((hv.flatMap_right Entity.facets).append_right p.units).flatMap_right subtree
  refine ⟨p, hp, isNumbered_of_perm hn hperm, ?_, ?_⟩
  · exact hn.next.trans (Nat.zero_add _)
  · rw [← hn.labels]
    exact hperm.map label

/-- A constant with an initial value, a subtype with a constraint, and a function with a
contract of two cases. -/
def facetsSample : List Entity :=
  [{ name := "C", kind := .object { type := "T", constant := true, initial := some one } },
    { name := "S", kind := .type { definition := .subtype "T" [⟨0, {}, none, .range one one⟩] } },
    { name := "F", kind := .subprogram
        { kind := .function
          contractCases := [{ guard := some one, consequence := one }, { consequence := one }] } }]
where
  /-- The literal one. -/
  one : Node := ⟨0, {}, none, .literal (.integer 1)⟩

theorem numbering_bijective_facetsSample :
  let units := [⟨0, {}, none, .compilationUnit [] ⟨0, {}, none, .declaration .object "C"⟩⟩]
  (facetsSample.map Entity.name).Nodup
    ∧ ∃ p, assemble facetsSample units = .ok p ∧ p.IsNumbered ∧ p.nodeCount = 9
  := by
  intro units
  have h : (facetsSample.map Entity.name).Nodup := by decide
  obtain ⟨p, hp, hn, hc, -⟩ := numbering_bijective units h
  refine ⟨h, p, hp, hn, hc.trans ?_⟩
  simp [units, facetsSample, Entity.facets, EntityKind.facets, TypeFacet.aspects,
    TypeDefinition.constraint, SubprogramFacet.contracts, ContractCase.facets, subtree_eq,
    descendants, children, shape, Shape.children, facetsSample.one]

end Program

end Conformance
