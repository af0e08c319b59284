import Conformance.Proofs.EndingInquiries
import Conformance.Proofs.Stage

/-!
# Placement in loops

Where the declarations, bodies and statements of a program stand, and which of them place an
entity in a loop: an object declaration places its object in the innermost loop around it, and a
`for` loop places its parameter in itself.  Loops outside of the nearest body or package do not
count.

The inquiries keep to this.  On each of their paths, what they come to stands in the program, and
what it places is placed as the next step; nothing else is placed: `Situated`.
-/

namespace Conformance

namespace Node

/-- The declarations, bodies and statements that stand directly in a node. -/
def constituents (n : Node) : List Node :=
  match n.shape with
  | .compilationUnit _ unit => [unit]
  | .package _ visible hidden => visible ++ hidden
  | .body _ _ _ declarations statements => declarations ++ statements
  | .protectedBody _ _ bodies => bodies
  | .ifElse branches otherwise => branches.flatMap Branch.body ++ otherwise
  | .case _ branches => branches.flatMap CaseBranch.body
  | .loop _ statements => statements
  | .block declarations statements => declarations ++ statements
  | _ => []

/-- The innermost loop among the nodes around a node, which are listed from the inside outwards.
It is not looked for outside of the nearest body or package. -/
def innermostLoop? : List Node → Option NodeId
  | [] => none
  | n :: around =>
    match n.shape with
    | .loop .. => some n.id
    | .package .. | .body .. | .protectedBody .. => none
    | _ => innermostLoop? around

/-- The object that a node declares. -/
def object? (n : Node) : Option EntityId :=
  match n.shape with
  | .declaration .object entity => some entity
  | _ => none

/-- The parameter of a `for` loop. -/
def parameter? (n : Node) : Option EntityId :=
  match n.shape with
  | .loop (.overDomain parameter _ _) _ => some parameter
  | _ => none

/-- The entity that a node places in a loop, and the loop, where the nodes around it are given. -/
def placement? (around : List Node) (n : Node) : Option (EntityId × NodeId) :=
  match n.shape with
  | .declaration .object entity => (innermostLoop? around).map fun loop => (entity, loop)
  | .loop (.overDomain parameter _ _) _ => some (parameter, n.id)
  | _ => none

theorem placement?_eq_some_iff {around : List Node} {n : Node} {x : EntityId} {loop : NodeId} :
  n.placement? around = some (x, loop) ↔ n.parameter? = some x ∧ n.id = loop
    ∨ n.object? = some x ∧ innermostLoop? around = some loop
  := by
  unfold placement? object? parameter?
  generalize n.shape = shape
  cases shape with
  | declaration kind entity => cases kind <;> simp [and_comm]
  | loop scheme statements => cases scheme <;> simp
  | _ => simp

end Node

/-- A node stands in a program, within the given nodes, from the inside outwards. -/
inductive Program.Stands (p : Program) : List Node → Node → Prop where
  | unit {n : Node} (h : n ∈ p.units) : p.Stands [] n
  | inside {around : List Node} {whole part : Node} (h : p.Stands around whole)
    (hp : part ∈ whole.constituents) : p.Stands (whole :: around) part

namespace Program

variable {p : Program} {around : List Node}

/-! ### Layers -/

/-- The nodes that stand at a depth, each with the nodes around it. -/
def layer (p : Program) : Nat → List (List Node × Node)
  | 0 => p.units.map fun n => ([], n)
  | depth + 1 => (p.layer depth).flatMap fun (around, whole) =>
    whole.constituents.map fun part => (whole :: around, part)

theorem mem_layer_iff {depth : Nat} {n : Node} :
  (around, n) ∈ p.layer depth ↔ p.Stands around n ∧ around.length = depth
  := by
  constructor
  · intro h
    induction depth generalizing around n with
    | zero =>
      obtain ⟨n, hn, he⟩ := List.mem_map.1 h
      obtain ⟨rfl, rfl⟩ := Prod.mk.inj he
      exact ⟨.unit hn, rfl⟩
    | succ depth ih =>
      obtain ⟨⟨around, whole⟩, hw, h⟩ := List.mem_flatMap.1 h
      obtain ⟨part, hp, he⟩ := List.mem_map.1 h
      obtain ⟨rfl, rfl⟩ := Prod.mk.inj he
      obtain ⟨hs, rfl⟩ := ih hw
      exact ⟨.inside hs hp, rfl⟩
  · rintro ⟨h, rfl⟩
    induction h with
    | unit hn => exact List.mem_map.2 ⟨_, hn, rfl⟩
    | inside _ hp ih => exact List.mem_flatMap.2 ⟨_, ih, List.mem_map.2 ⟨_, hp, rfl⟩⟩

/-- The nodes that stand above a depth. -/
def above (p : Program) (depth : Nat) : List (List Node × Node) :=
  (List.range depth).flatMap p.layer

/-- Where no node stands at a depth, all nodes stand above it. -/
theorem Stands.mem_above {depth : Nat} {n : Node} (h : p.Stands around n)
    (hd : (p.layer depth).isEmpty) :
  (around, n) ∈ p.above depth
  := by
  have empty (k : Nat) : p.layer (depth + k) = [] := by
    induction k with
    | zero => exact List.isEmpty_iff.1 hd
    | succ k ih => rw [← Nat.add_assoc, layer, ih, List.flatMap_nil]
  have hm := mem_layer_iff.2 ⟨h, rfl⟩
  refine List.mem_flatMap.2 ⟨around.length, List.mem_range.2 ?_, hm⟩
  by_contra hlt
  obtain ⟨k, hk⟩ := Nat.exists_eq_add_of_le (Nat.le_of_not_lt hlt)
  rw [hk, empty k] at hm
  cases hm

/-! ### Packages -/

mutual

/-- The package declarations in a node that stands in a program stand there as well. -/
theorem Stands.packages {m : Node} : {around : List Node} → (n : Node) → p.Stands around n →
    m ∈ n.packages → ∃ around, p.Stands around m
  | around, ⟨id, location, type, shape⟩, h, hm => by
    have inside {ns : List Node} (hs : ns ⊆ (Node.mk id location type shape).constituents) :
        ∀ n ∈ ns, p.Stands (⟨id, location, type, shape⟩ :: around) n :=
      fun n hn => .inside h (hs hn)
    match shape with
    | .compilationUnit _ content =>
      exact Stands.packages content (.inside h List.mem_cons_self) (by simpa [Node.packages] using hm)
    | .package entity visible hidden =>
      rw [Node.packages, List.mem_cons, List.mem_append] at hm
      obtain rfl | hm | hm := hm
      · exact ⟨around, h⟩
      · exact Stands.packagesOf visible (inside (List.subset_append_left _ _)) hm
      · exact Stands.packagesOf hidden (inside (List.subset_append_right _ _)) hm
    | .body _ _ _ declarations statements | .block declarations statements =>
      rw [Node.packages, List.mem_append] at hm
      obtain hm | hm := hm
      · exact Stands.packagesOf declarations (inside (List.subset_append_left _ _)) hm
      · exact Stands.packagesOf statements (inside (List.subset_append_right _ _)) hm
    | .protectedBody _ _ bodies =>
      exact Stands.packagesOf bodies (inside (List.Subset.refl _)) (by simpa [Node.packages] using hm)
    | .loop _ statements =>
      exact Stands.packagesOf statements (inside (List.Subset.refl _))
        (by simpa [Node.packages] using hm)
    | .ifElse branches otherwise =>
      rw [Node.packages, List.mem_append] at hm
      obtain hm | hm := hm
      · refine Stands.branchPackages branches (fun b hb n hn => inside ?_ n hn) hm
        exact fun n hn => List.mem_append_left _ (List.mem_flatMap.2 ⟨b, hb, hn⟩)
      · exact Stands.packagesOf otherwise (inside (List.subset_append_right _ _)) hm
    | .case _ branches =>
      rw [Node.packages] at hm
      refine Stands.caseBranchPackages branches (fun b hb n hn => inside ?_ n hn) hm
      exact fun n hn => List.mem_flatMap.2 ⟨b, hb, hn⟩
    | .identifier _ | .word _ | .literal _ | .aggregate _ | .selected .. | .indexed .. | .slice ..
    | .dereference _ | .call .. | .attribute .. | .conversion .. | .qualified .. | .binary ..
    | .unary .. | .allocator .. | .conditional .. | .quantified .. | .range .. | .membership ..
    | .assignment .. | .procedureCall .. | .return _ | .exit _ | .goto _ | .raise _ | .delay _
    | .abort | .machineCode | .nothing | .pragma .. | .declaration .. | .withClause _
    | .useClause =>
      simp [Node.packages] at hm
termination_by structural _ n => n

theorem Stands.packagesOf {m : Node} : {around : List Node} → (ns : List Node) →
    (∀ n ∈ ns, p.Stands around n) → m ∈ Node.packagesOf ns → ∃ around, p.Stands around m
  | _, [], _, hm => by simp [Node.packagesOf] at hm
  | _, n :: ns, h, hm => by
    rw [Node.packagesOf, List.mem_append] at hm
    obtain hm | hm := hm
    · exact Stands.packages n (h n List.mem_cons_self) hm
    · exact Stands.packagesOf ns (fun n hn => h n (List.mem_cons_of_mem _ hn)) hm
termination_by structural _ ns => ns

theorem Stands.branchPackages {m : Node} : {around : List Node} → (bs : List (Branch Node)) →
    (∀ b ∈ bs, ∀ n ∈ b.body, p.Stands around n) → m ∈ Node.branchPackages bs →
      ∃ around, p.Stands around m
  | _, [], _, hm => by simp [Node.branchPackages] at hm
  | _, ⟨condition, statements⟩ :: bs, h, hm => by
    rw [Node.branchPackages, List.mem_append] at hm
    obtain hm | hm := hm
    · exact Stands.packagesOf statements (h _ List.mem_cons_self) hm
    · exact Stands.branchPackages bs (fun b hb => h b (List.mem_cons_of_mem _ hb)) hm
termination_by structural _ bs => bs

theorem Stands.caseBranchPackages {m : Node} : {around : List Node} →
    (bs : List (CaseBranch Node)) → (∀ b ∈ bs, ∀ n ∈ b.body, p.Stands around n) →
      m ∈ Node.caseBranchPackages bs → ∃ around, p.Stands around m
  | _, [], _, hm => by simp [Node.caseBranchPackages] at hm
  | _, ⟨cs, statements⟩ :: bs, h, hm => by
    rw [Node.caseBranchPackages, List.mem_append] at hm
    obtain hm | hm := hm
    · exact Stands.packagesOf statements (h _ List.mem_cons_self) hm
    · exact Stands.caseBranchPackages bs (fun b hb => h b (List.mem_cons_of_mem _ hb)) hm
termination_by structural _ bs => bs

end

/-- The declaration of a package stands in the program. -/
theorem exists_stands_package {id : EntityId} {n : Node} (h : p.packageDeclaration? id = some n) :
  ∃ around, p.Stands around n
  := by
  have hm := List.mem_of_getLast? h
  exact Stands.packagesOf p.units (fun _ => .unit) (List.mem_filter.1 hm).1

end Program

/-! ### Paths -/

/-- Whether a step comes to no declaration, body or statement, places nothing and decides no
body. -/
def Step.isConfined : Step → Bool
  | .visit .item _ | .placeInLoop .. | .body .. => false
  | _ => true

/-- On a path, what is come to stands in the program, and what it places is placed next.  The
path may start where a placement is due.  The paths of the bodies that are decided are situated
as well. -/
inductive Program.Situated (p : Program) : Option (EntityId × NodeId) → List Step → Prop where
  | nil : p.Situated none []
  | confined {s : Step} {path : List Step} (hs : s.isConfined = true)
      (h : p.Situated none path) : p.Situated none (s :: path)
  | visit {around : List Node} {n : Node} {path : List Step} (hs : p.Stands around n)
      (h : p.Situated (n.placement? around) path) : p.Situated none (.visit .item n :: path)
  | place {x : EntityId} {loop : NodeId} {path : List Step} (h : p.Situated none path) :
    p.Situated (some (x, loop)) (.placeInLoop x loop :: path)
  | body {e : Entity} {mode : Option Mode} {inner : Inquiry Unit} {path : List Step}
      (hi : ∀ innerPath, inner.Leads innerPath () → p.Situated none innerPath)
      (h : p.Situated none path) : p.Situated none (.body e mode inner :: path)

theorem Program.Situated.append {p : Program} {due : Option (EntityId × NodeId)}
    {path path' : List Step} (h : p.Situated due path) (h' : p.Situated none path') :
  p.Situated due (path ++ path')
  := by
  induction h with
  | nil => exact h'
  | confined hs _ ih => exact .confined hs ih
  | visit hs _ ih => exact .visit hs ih
  | place _ ih => exact .place ih
  | body hi _ _ ih => exact .body hi ih

/-! ### Inquiries -/

/-- All paths of an inquiry are situated. -/
def Inquiry.Situates {α : Type} (p : Program) (i : Inquiry α) : Prop :=
  ∀ path a, i.Leads path a → p.Situated none path

namespace Inquiry

variable {α β : Type} {p : Program} {i : Inquiry α} {around : List Node} {n : Node}

@[grind ←]
theorem situates_bind {f : α → Inquiry β} (h : i.Situates p) (hf : ∀ a, (f a).Situates p) :
  (i >>= f).Situates p
  := by
  intro path b l
  obtain ⟨p₁, a, p₂, rfl, l₁, l₂⟩ := leads_bind_iff.1 l
  exact (h p₁ a l₁).append (hf a p₂ b l₂)

@[grind ←]
theorem situates_pure (a : α) :
  (pure a : Inquiry α).Situates p
  := by
  intro path b l
  obtain ⟨rfl, -⟩ := leads_pure.1 l
  exact .nil

@[grind ←]
theorem situates_throw (fault : Fault) :
  (throw fault : Inquiry α).Situates p
  := fun _ _ l => (leads_throw.1 l).elim

@[grind ←]
theorem situates_lift (x : Answer α) :
  (liftM x : Inquiry α).Situates p
  := by
  intro path b l
  obtain ⟨rfl, -⟩ := leads_lift.1 l
  exact .nil

/-- A confined inquiry comes to nothing that stands in the program by itself. -/
@[grind ←]
theorem Confined.situates (h : i.Confined) :
  i.Situates p
  := by
  intro path a l
  induction l with
  | done => exact .nil
  | step ht _ ih =>
    cases ht with
    | @visit role =>
      obtain ⟨hr, h⟩ := h
      refine .confined ?_ (ih h)
      cases role <;> first | rfl | exact (hr rfl).elim
    | consult b | ask b | look b => exact .confined rfl (ih (h b))
    | placeInLoop | body => cases h
    | declare | decide | find | hideView | postponeCompletion | postponeAspects | relax =>
      exact .confined rfl (ih h)

/-- An inquiry that comes to a node which places nothing. -/
theorem situates_come {f : Unit → Inquiry β} (hs : p.Stands around n)
    (hn : n.placement? around = none) (h : (f ()).Situates p) :
  (come .item n >>= f).Situates p
  := by
  intro path b l
  cases l with
  | step ht l =>
    cases ht with
    | visit => exact .visit hs (hn ▸ h _ b l)

/-- An inquiry that comes to a node and places what the node places. -/
theorem situates_place {x : EntityId} {loop : NodeId} (hs : p.Stands around n)
    (hn : n.placement? around = some (x, loop)) (h : i.Situates p) :
  (do come .item n; .placeInLoop x loop i : Inquiry α).Situates p
  := by
  intro path b l
  cases l with
  | step ht l =>
    cases ht with
    | visit =>
      cases l with
      | step ht l =>
        cases ht with
        | placeInLoop => exact .visit hs (hn ▸ .place (h _ b l))

@[grind ←]
theorem situates_body (e : Entity) (mode : Option Mode) {inner : Inquiry Unit}
    (h : inner.Situates p) :
  (Inquiry.body e mode inner (.done ())).Situates p
  := by
  intro path a l
  cases l with
  | step ht l =>
    cases ht with
    | body =>
      obtain ⟨rfl, -⟩ := leads_pure.1 l
      exact .body (fun innerPath l => h innerPath () l) .nil

end Inquiry

namespace Setting

open Inquiry

variable (S : Setting)

/-! ### Declarations, bodies and statements -/

/-- The surroundings of an inquiry know the innermost loop around a node. -/
def Knows (surroundings : Surroundings) (around : List Node) : Prop :=
  surroundings.loop = Node.innermostLoop? around

theorem knows_inside (e : Entity) {n : Node} (around : List Node)
    (hn : Node.innermostLoop? (n :: around) = none) :
  Knows e.inside (n :: around)
  := by
  unfold Knows Entity.inside
  rw [hn]
  split <;> rfl

theorem situates_declaration {id : NodeId} {location : Location} {type : Option EntityId}
    {kind : Declared} {entity : EntityId} {around : List Node} {surroundings : Surroundings}
    (hs : S.program.Stands around ⟨id, location, type, .declaration kind entity⟩)
    (hk : Knows surroundings around) :
  (S.item surroundings ⟨id, location, type, .declaration kind entity⟩).Situates S.program
  := by
  have hd (site : Site) : (Inquiry.declare entity site (.done ())).Situates S.program :=
    Confined.situates trivial
  rw [item]
  cases kind with
  | object =>
    unfold declareHere
    unfold Knows at hk
    cases hl : surroundings.loop with
    | none =>
      refine situates_come hs ?_ (hd _)
      change (Node.innermostLoop? around).map _ = none
      rw [← hk, hl]
      rfl
    | some loop =>
      refine situates_place hs ?_ (hd _)
      change (Node.innermostLoop? around).map _ = some (entity, loop)
      rw [← hk, hl]
      rfl
  | type | subprogram | number | exception => exact situates_come hs rfl (hd _)

mutual

/-- What the inquiry into a node comes to stands in the program, as the node does. -/
theorem situates_item : {around : List Node} → (n : Node) → S.program.Stands around n →
    {surroundings : Surroundings} → Knows surroundings around →
    (S.item surroundings n).Situates S.program
  | around, ⟨id, location, type, shape⟩, hs, surroundings, hk => by
    have inside {ns : List Node} (h : ns ⊆ (Node.mk id location type shape).constituents) :
        ∀ n ∈ ns, S.program.Stands (⟨id, location, type, shape⟩ :: around) n :=
      fun n hn => .inside hs (h hn)
    match shape with
    | .declaration kind entity => exact S.situates_declaration hs hk
    | .package entity _ _ =>
      rw [item]
      exact situates_come hs rfl (Confined.situates trivial)
    | .body _ entity mode declarations statements =>
      rw [item]
      refine situates_come hs rfl (situates_bind (situates_lift _) fun e => situates_body e mode ?_)
      have hd := situates_items declarations (inside (List.subset_append_left _ _))
        (knows_inside e around rfl)
      have hi := situates_items statements (inside (List.subset_append_right _ _))
        (knows_inside e around rfl)
      exact situates_bind hd fun _ => hi
    | .protectedBody entity mode bodies =>
      rw [item]
      refine situates_come hs rfl (situates_bind (situates_lift _) fun e => situates_body e mode ?_)
      exact situates_items bodies (inside (List.Subset.refl _)) (knows_inside e around rfl)
    | .ifElse bs otherwise =>
      rw [item]
      have hb := situates_branches bs (fun b hb n hn => inside (fun n hn =>
        List.mem_append_left _ (List.mem_flatMap.2 ⟨b, hb, hn⟩)) n hn) hk
      have ho := situates_items otherwise (inside (List.subset_append_right _ _)) hk
      exact situates_come hs rfl (situates_bind hb fun _ => ho)
    | .case selector bs =>
      rw [item]
      have hb := situates_caseBranches bs (fun b hb n hn => inside (fun n hn =>
        List.mem_flatMap.2 ⟨b, hb, hn⟩) n hn) hk
      have he := (S.confined_expression selector).situates (p := S.program)
      exact situates_come hs rfl (situates_bind he fun _ => hb)
    | .block declarations statements =>
      rw [item]
      have hd := situates_items declarations (inside (List.subset_append_left _ _)) hk
      have hi := situates_items statements (inside (List.subset_append_right _ _)) hk
      exact situates_come hs rfl (situates_bind hd fun _ => hi)
    | .loop scheme statements =>
      rw [item]
      have hl : Knows { surroundings with loop := some id }
          (⟨id, location, type, .loop scheme statements⟩ :: around) := rfl
      have hi := situates_items statements (inside (List.Subset.refl _)) hl
      match scheme with
      | .forever => exact situates_come hs rfl hi
      | .whileTrue condition =>
        have he := (S.confined_expression condition).situates (p := S.program)
        exact situates_come hs rfl (situates_bind he fun _ => hi)
      | .overDomain parameter domain _ =>
        have he := (S.confined_expression domain).situates (p := S.program)
        have hd : (Inquiry.declare parameter (.node id location) (.done ())).Situates S.program :=
          Confined.situates trivial
        have hr := situates_bind (situates_bind he fun _ => hd) fun _ => hi
        exact situates_place hs rfl hr
    | .assignment .. | .procedureCall .. | .return none | .return (some _) | .exit _ | .raise none
    | .raise (some _) | .delay _ | .pragma .. | .goto _ | .abort | .machineCode | .nothing
    | .useClause | .compilationUnit .. | .withClause _ | .identifier _ | .word _
    | .literal _ | .aggregate _ | .selected .. | .indexed .. | .slice .. | .dereference _
    | .call .. | .attribute .. | .conversion .. | .qualified .. | .binary .. | .unary ..
    | .allocator .. | .conditional .. | .quantified .. | .range .. | .membership .. =>
      unfold item
      refine situates_come hs rfl ?_
      grind
termination_by structural _ n => n

theorem situates_items : {around : List Node} → (ns : List Node) →
    (∀ n ∈ ns, S.program.Stands around n) → {surroundings : Surroundings} →
    Knows surroundings around → (S.items surroundings ns).Situates S.program
  | _, [], _, _, _ => situates_pure ()
  | _, n :: ns, h, _, hk =>
    situates_bind (situates_item n (h n List.mem_cons_self) hk) fun _ =>
      situates_items ns (fun n hn => h n (List.mem_cons_of_mem _ hn)) hk
termination_by structural _ ns => ns

theorem situates_branches : {around : List Node} → (bs : List (Branch Node)) →
    (∀ b ∈ bs, ∀ n ∈ b.body, S.program.Stands around n) → {surroundings : Surroundings} →
    Knows surroundings around → (S.branches surroundings bs).Situates S.program
  | _, [], _, _, _ => situates_pure ()
  | _, ⟨condition, statements⟩ :: bs, h, _, hk => by
    have hs := situates_items statements (h _ List.mem_cons_self) hk
    have hb := situates_branches bs (fun b hb => h b (List.mem_cons_of_mem _ hb)) hk
    unfold branches
    grind
termination_by structural _ bs => bs

theorem situates_caseBranches : {around : List Node} → (bs : List (CaseBranch Node)) →
    (∀ b ∈ bs, ∀ n ∈ b.body, S.program.Stands around n) → {surroundings : Surroundings} →
    Knows surroundings around → (S.caseBranches surroundings bs).Situates S.program
  | _, [], _, _, _ => situates_pure ()
  | _, ⟨cs, statements⟩ :: bs, h, _, hk => by
    have hs := situates_items statements (h _ List.mem_cons_self) hk
    have hb := situates_caseBranches bs (fun b hb => h b (List.mem_cons_of_mem _ hb)) hk
    unfold caseBranches
    grind
termination_by structural _ bs => bs

end

/-! ### Entities, aspects and units -/

theorem situates_objectInquiry (e : Entity) (o : ObjectFacet) :
  (S.objectInquiry e o).Situates S.program
  := by
  have rest (admitted : Bool) : (S.objectEnd e o admitted).Situates S.program := by
    unfold objectEnd
    grind
  rw [objectInquiry_eq]
  refine situates_bind (confined_ask o.type e.site).situates fun admitted => ?_
  cases o.initial with
  | none => exact rest admitted
  | some value =>
    refine situates_bind (S.confined_expression value).situates fun _ => ?_
    cases admitted with
    | false => exact rest false
    | true =>
      have hs := S.confined_checkStored o.type o.constant value
      exact situates_bind hs.situates fun _ => rest true

/-- What a package declares stands in its declaration. -/
theorem situates_packageInquiry (e : Entity) (initialCondition : Option Node) :
  (S.packageInquiry e initialCondition).Situates S.program
  := by
  have hc := (S.confined_optionalExpression initialCondition).situates (p := S.program)
  unfold packageInquiry
  cases hn : S.program.packageDeclaration? e.name with
  | none => exact hc
  | some n =>
    obtain ⟨around, hs⟩ := Program.exists_stands_package hn
    refine situates_bind ?_ fun _ => hc
    obtain ⟨id, location, type, shape⟩ := n
    cases shape with
    | package entity visible hidden =>
      exact S.situates_items (visible ++ hidden) (fun _ hn => .inside hs hn) rfl
    | _ => exact situates_pure ()

theorem situates_entityInquiry (e : Entity) :
  (S.entityInquiry e).Situates S.program
  := by
  unfold entityInquiry
  cases e.kind with
  | type t => exact (S.confined_typeInquiry e t).situates
  | object o => exact S.situates_objectInquiry e o
  | parameter p => exact (S.confined_parameterInquiry e p).situates
  | component c | discriminant c => exact (S.confined_componentInquiry e c).situates
  | subprogram s => exact (S.confined_subprogramInquiry e s).situates
  | package initialCondition => exact S.situates_packageInquiry e initialCondition
  | number value => exact (S.confined_optionalExpression value).situates
  | abstractState | exception => exact situates_pure ()

theorem situates_predicateInquiry (p : Program) (e : Entity) :
  (predicateInquiry e).Situates p
  := by
  unfold predicateInquiry
  split
  · exact situates_pure ()
  · exact (confined_restOn _ _).situates

theorem situates_aspectsInquiry (t : TypeFacet) :
  (S.aspectsInquiry t).Situates S.program
  := (S.confined_expressions t.aspects).situates

theorem situates_contextItem (n : Node) :
  (S.contextItem n).Situates S.program
  := by
  have hd (id : EntityId) : (Inquiry.decide id (.done ())).Situates S.program :=
    Confined.situates trivial
  unfold contextItem
  grind

/-- What the inquiry into the content of a unit comes to stands in the program. -/
theorem situates_content {n : Node} (hn : n ∈ S.program.units.map Node.content) :
  (S.item {} n).Situates S.program
  := by
  obtain ⟨u, hu, rfl⟩ := List.mem_map.1 hn
  obtain ⟨id, location, type, shape⟩ := u
  cases shape with
  | compilationUnit context unit =>
    exact S.situates_item unit (.inside (.unit hu) List.mem_cons_self) rfl
  | _ => exact S.situates_item _ (.unit hu) rfl

end Setting

end Conformance
