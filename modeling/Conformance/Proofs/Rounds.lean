import Conformance.Proofs.Settled
import Mathlib.Data.List.Count

/-!
# How often a matter begins

Nothing is inquired into twice: a declaration because an entity is examined only once, and
a body if its entity has only one body in the program.  A body may stand in a unit, inside
of another body or in a package, and packages are gone through when they are declared, so
the proof counts: `began_le_of_passes` bounds how often a matter begins on a passage by
what the bodies on it hold, and by what the one entity holds that may host the matter.
-/

namespace Conformance

namespace Node

mutual

/-- The entities of the bodies of a tree wherever a unit can hold them, in document
order. -/
def bodied : Node → List EntityId
  | ⟨_, _, _, shape⟩ =>
    match shape with
    | .compilationUnit _ unit => bodied unit
    | .package _ visible hidden => bodiedOf visible ++ bodiedOf hidden
    | .body _ entity _ declarations statements =>
      entity :: (bodiedOf declarations ++ bodiedOf statements)
    | .protectedBody entity _ bs => entity :: bodiedOf bs
    | .block declarations statements => bodiedOf declarations ++ bodiedOf statements
    | .ifElse bs otherwise => branchBodied bs ++ bodiedOf otherwise
    | .case _ bs => caseBranchBodied bs
    | .loop _ statements => bodiedOf statements
    | _ => []

/-- The entities of the bodies of trees, one after another. -/
def bodiedOf : List Node → List EntityId
  | [] => []
  | n :: ns => bodied n ++ bodiedOf ns

/-- The entities of the bodies in the branches of a conditional statement. -/
def branchBodied : List (Branch Node) → List EntityId
  | [] => []
  | ⟨_, statements⟩ :: bs => bodiedOf statements ++ branchBodied bs

/-- The entities of the bodies in the branches of a case statement. -/
def caseBranchBodied : List (CaseBranch Node) → List EntityId
  | [] => []
  | ⟨_, statements⟩ :: bs => bodiedOf statements ++ caseBranchBodied bs

end

mutual

/-- The entities of the bodies of a tree outside of packages. -/
def held : Node → List EntityId
  | ⟨_, _, _, shape⟩ =>
    match shape with
    | .body _ entity _ declarations statements =>
      entity :: (heldOf declarations ++ heldOf statements)
    | .protectedBody entity _ bs => entity :: heldOf bs
    | .block declarations statements => heldOf declarations ++ heldOf statements
    | .ifElse bs otherwise => branchHeld bs ++ heldOf otherwise
    | .case _ bs => caseBranchHeld bs
    | .loop _ statements => heldOf statements
    | _ => []

/-- The entities of the bodies of trees outside of packages, one after another. -/
def heldOf : List Node → List EntityId
  | [] => []
  | n :: ns => held n ++ heldOf ns

/-- The entities of the bodies in the branches of a conditional statement outside of
packages. -/
def branchHeld : List (Branch Node) → List EntityId
  | [] => []
  | ⟨_, statements⟩ :: bs => heldOf statements ++ branchHeld bs

/-- The entities of the bodies in the branches of a case statement outside of packages. -/
def caseBranchHeld : List (CaseBranch Node) → List EntityId
  | [] => []
  | ⟨_, statements⟩ :: bs => heldOf statements ++ caseBranchHeld bs

end

theorem heldOf_append (ns ms : List Node) :
  heldOf (ns ++ ms) = heldOf ns ++ heldOf ms
  := by
  induction ns with
  | nil => rfl
  | cons n ns ih => simp [heldOf, ih]

/-- The entities of bodies along with those that the bodies hold. -/
def nested (bs : List (EntityId × List Node)) : List EntityId :=
  bs.flatMap fun b => b.1 :: heldOf b.2

mutual

theorem nested_bodies : (n : Node) → nested n.bodies = n.held
  | ⟨id, location, type, shape⟩ => by
    match shape with
    | .body _ entity _ declarations statements =>
      simp [bodies, held, nested, heldOf_append]
    | .protectedBody entity _ bs => simp [bodies, held, nested]
    | .block declarations statements =>
      simp only [bodies, held]
      rw [nested, List.flatMap_append]
      exact congrArg₂ (· ++ ·) (nested_bodiesOf declarations) (nested_bodiesOf statements)
    | .ifElse bs otherwise =>
      simp only [bodies, held]
      rw [nested, List.flatMap_append]
      exact congrArg₂ (· ++ ·) (nested_branchBodies bs) (nested_bodiesOf otherwise)
    | .case _ bs =>
      simp only [bodies, held]
      exact nested_caseBranchBodies bs
    | .loop _ statements =>
      simp only [bodies, held]
      exact nested_bodiesOf statements
    | .assignment .. | .procedureCall .. | .return _ | .exit _ | .goto _ | .raise _
    | .delay _ | .abort | .machineCode | .nothing | .pragma .. | .declaration ..
    | .package .. | .useClause | .compilationUnit .. | .withClause _ | .identifier _
    | .word _ | .literal _ | .aggregate _ | .selected .. | .indexed .. | .slice ..
    | .dereference _ | .call .. | .attribute .. | .conversion .. | .qualified ..
    | .binary .. | .unary .. | .allocator .. | .conditional .. | .quantified ..
    | .range .. | .membership .. => simp [bodies, held, nested]

theorem nested_bodiesOf : (ns : List Node) → nested (bodiesOf ns) = heldOf ns
  | [] => rfl
  | n :: ns => by
    rw [bodiesOf, heldOf, nested, List.flatMap_append]
    exact congrArg₂ (· ++ ·) (nested_bodies n) (nested_bodiesOf ns)

theorem nested_branchBodies : (bs : List (Branch Node)) → nested (branchBodies bs) = branchHeld bs
  | [] => rfl
  | ⟨_, statements⟩ :: bs => by
    rw [branchBodies, branchHeld, nested, List.flatMap_append]
    exact congrArg₂ (· ++ ·) (nested_bodiesOf statements) (nested_branchBodies bs)

theorem nested_caseBranchBodies :
    (bs : List (CaseBranch Node)) → nested (caseBranchBodies bs) = caseBranchHeld bs
  | [] => rfl
  | ⟨_, statements⟩ :: bs => by
    rw [caseBranchBodies, caseBranchHeld, nested, List.flatMap_append]
    exact congrArg₂ (· ++ ·) (nested_bodiesOf statements) (nested_caseBranchBodies bs)

end

/-- The entities of the bodies of package declarations outside of further packages. -/
def hosted (ps : List Node) : List EntityId := ps.flatMap fun p => heldOf p.packageItems

theorem hosted_append (ps qs : List Node) :
  hosted (ps ++ qs) = hosted ps ++ hosted qs
  := List.flatMap_append

theorem hosted_cons (id : NodeId) (location : Location) (type : Option EntityId)
    (entity : EntityId) (visible hidden ps : List Node) :
  hosted (⟨id, location, type, .package entity visible hidden⟩ :: ps)
    = heldOf visible ++ heldOf hidden ++ hosted ps
  := congrArg (· ++ hosted ps) (heldOf_append visible hidden)

variable (x : EntityId)

mutual

/-- A body of a tree is outside of packages or in one of them. -/
theorem count_bodied : (n : Node) →
    (held n).count x + (hosted n.packages).count x ≤ n.bodied.count x
  | ⟨id, location, type, shape⟩ => by
    match shape with
    | .compilationUnit _ unit =>
      have := count_bodied unit
      simp only [held, packages, bodied, List.count_nil]
      omega
    | .package entity visible hidden =>
      have hv := count_bodiedOf visible
      have hh := count_bodiedOf hidden
      simp only [held, packages, bodied, hosted_cons, hosted_append, List.count_append,
        List.count_nil]
      omega
    | .body _ entity _ declarations statements =>
      have hd := count_bodiedOf declarations
      have hs := count_bodiedOf statements
      simp only [held, packages, bodied, hosted_append, List.count_cons, List.count_append]
      omega
    | .protectedBody entity _ bs =>
      have hb := count_bodiedOf bs
      simp only [held, packages, bodied, List.count_cons]
      omega
    | .block declarations statements =>
      have hd := count_bodiedOf declarations
      have hs := count_bodiedOf statements
      simp only [held, packages, bodied, hosted_append, List.count_append]
      omega
    | .ifElse bs otherwise =>
      have hb := count_branchBodied bs
      have ho := count_bodiedOf otherwise
      simp only [held, packages, bodied, hosted_append, List.count_append]
      omega
    | .case _ bs =>
      have hb := count_caseBranchBodied bs
      simpa only [held, packages, bodied] using hb
    | .loop _ statements =>
      have hs := count_bodiedOf statements
      simpa only [held, packages, bodied] using hs
    | .assignment .. | .procedureCall .. | .return _ | .exit _ | .goto _ | .raise _
    | .delay _ | .abort | .machineCode | .nothing | .pragma .. | .declaration ..
    | .useClause | .withClause _ | .identifier _ | .word _ | .literal _ | .aggregate _
    | .selected .. | .indexed .. | .slice .. | .dereference _ | .call .. | .attribute ..
    | .conversion .. | .qualified .. | .binary .. | .unary .. | .allocator ..
    | .conditional .. | .quantified .. | .range .. | .membership .. =>
      simp [held, packages, bodied, hosted]

theorem count_bodiedOf : (ns : List Node) →
    (heldOf ns).count x + (hosted (packagesOf ns)).count x ≤ (bodiedOf ns).count x
  | [] => by simp [heldOf, packagesOf, hosted]
  | n :: ns => by
    have hn := count_bodied n
    have hns := count_bodiedOf ns
    simp only [heldOf, packagesOf, bodiedOf, hosted_append, List.count_append]
    omega

theorem count_branchBodied : (bs : List (Branch Node)) →
    (branchHeld bs).count x + (hosted (branchPackages bs)).count x ≤ (branchBodied bs).count x
  | [] => by simp [branchHeld, branchPackages, hosted]
  | ⟨_, statements⟩ :: bs => by
    have hs := count_bodiedOf statements
    have hb := count_branchBodied bs
    simp only [branchHeld, branchPackages, branchBodied, hosted_append, List.count_append]
    omega

theorem count_caseBranchBodied : (bs : List (CaseBranch Node)) →
    (caseBranchHeld bs).count x + (hosted (caseBranchPackages bs)).count x
      ≤ (caseBranchBodied bs).count x
  | [] => by simp [caseBranchHeld, caseBranchPackages, hosted]
  | ⟨_, statements⟩ :: bs => by
    have hs := count_bodiedOf statements
    have hb := count_caseBranchBodied bs
    simp only [caseBranchHeld, caseBranchPackages, caseBranchBodied, hosted_append,
      List.count_append]
    omega

end

/-- A body of a unit is outside of packages or in one of them. -/
theorem count_content (n : Node) :
  (held n.content).count x + (hosted n.packages).count x ≤ n.bodied.count x
  := by
  obtain ⟨id, location, type, shape⟩ := n
  match shape with
  | .compilationUnit _ unit =>
    simp only [packages, bodied]
    exact count_bodied x unit
  | .package .. | .body .. | .protectedBody .. | .block .. | .ifElse .. | .case .. | .loop ..
  | .assignment .. | .procedureCall .. | .return _ | .exit _ | .goto _ | .raise _
  | .delay _ | .abort | .machineCode | .nothing | .pragma .. | .declaration ..
  | .useClause | .withClause _ | .identifier _ | .word _ | .literal _ | .aggregate _
  | .selected .. | .indexed .. | .slice .. | .dereference _ | .call .. | .attribute ..
  | .conversion .. | .qualified .. | .binary .. | .unary .. | .allocator ..
  | .conditional .. | .quantified .. | .range .. | .membership .. => exact count_bodied x _

theorem count_units (ns : List Node) :
  (heldOf (ns.map content)).count x + (hosted (packagesOf ns)).count x
    ≤ (bodiedOf ns).count x
  := by
  induction ns with
  | nil => simp [heldOf, packagesOf, hosted]
  | cons n ns ih =>
    have hn := count_content x n
    simp only [List.map_cons, heldOf, packagesOf, bodiedOf, hosted_append, List.count_append]
    omega

theorem count_le_hosted {n : Node} {ps : List Node} (h : n ∈ ps) :
  (heldOf n.packageItems).count x ≤ (hosted ps).count x
  := by
  obtain ⟨ps, qs, rfl⟩ := List.append_of_mem h
  simp only [hosted, List.flatMap_append, List.flatMap_cons, List.count_append]
  omega

theorem count_add_le_hosted {n n' : Node} {ps : List Node} (h : n ∈ ps) (h' : n' ∈ ps)
    (hne : n ≠ n') :
  (heldOf n.packageItems).count x + (heldOf n'.packageItems).count x ≤ (hosted ps).count x
  := by
  obtain ⟨ps, qs, rfl⟩ := List.append_of_mem h
  have h' : n' ∈ ps ++ qs := by
    simp only [List.mem_append, List.mem_cons] at h' ⊢
    tauto
  have hle := count_le_hosted x h'
  simp only [hosted, List.flatMap_append, List.flatMap_cons, List.count_append] at hle ⊢
  omega

theorem eq_of_declaresPackage {n : Node} {id id' : EntityId} (h : n.declaresPackage id)
    (h' : n.declaresPackage id') :
  id = id'
  := by
  unfold declaresPackage at h h'
  split at h
  · next hs =>
    rw [hs] at h'
    exact (beq_iff_eq.1 h).symm.trans (beq_iff_eq.1 h')
  · cases h

end Node

namespace Run

/-- An entity is examined on the way from one run to another. -/
def Meets (r r' : Run) (id : EntityId) : Prop :=
  id ∉ r.verdicts.examined ∧ id ∈ r'.verdicts.examined

instance (r r' : Run) (id : EntityId) : Decidable (r.Meets r' id) :=
  inferInstanceAs (Decidable (_ ∧ _))

/-- An entity is examined on one part of the way at most. -/
theorem meets_add {r r₁ r' : Run} (h : ∀ x ∈ r.verdicts.examined, x ∈ r₁.verdicts.examined)
    (h' : ∀ x ∈ r₁.verdicts.examined, x ∈ r'.verdicts.examined) (id : EntityId) (w : Nat) :
  (if r.Meets r₁ id then w else 0) + (if r₁.Meets r' id then w else 0)
    = if r.Meets r' id then w else 0
  := by
  have h := h id
  have h' := h' id
  by_cases h₀ : id ∈ r.verdicts.examined
  · simp_all [Meets]
  · by_cases h₁ : id ∈ r₁.verdicts.examined
    · simp_all [Meets]
    · simp_all [Meets]

theorem Strikes.rounds_eq {r r' : Run} {id : EntityId} (h : r.Strikes id r') (m : Matter) :
  r'.rounds m = r.rounds m
  := by
  obtain ⟨new, hj, hn⟩ := h.journal
  rw [rounds, hj, List.countP_append, rounds, Nat.add_eq_right, List.countP_eq_zero]
  intro e he
  obtain ⟨x, cause, rfl⟩ := hn e he
  simp [Event.begins]

end Run

namespace Setting

open Inquiry

variable {S : Setting}

/-- How often a matter begins in bodies, if all that they hold is gone through once. -/
def toll (m : Matter) (bs : List (EntityId × List Node)) : Nat :=
  ((Node.nested bs).map Matter.body).count m

theorem toll_cons (m : Matter) (id : EntityId) (ns : List Node)
    (bs : List (EntityId × List Node)) :
  toll m ((id, ns) :: bs)
    = (if .body id = m then 1 else 0) + toll m (Node.bodiesOf ns) + toll m bs
  := by
  have hn : Node.nested ((id, ns) :: bs) = id :: Node.heldOf ns ++ Node.nested bs := rfl
  rw [toll, hn, toll, Node.nested_bodiesOf, toll, List.map_append, List.count_append,
    List.map_cons, List.count_cons]
  simp only [beq_iff_eq]
  omega

theorem toll_append (m : Matter) (bs cs : List (EntityId × List Node)) :
  toll m (bs ++ cs) = toll m bs + toll m cs
  := by simp [toll, Node.nested]

theorem toll_body (x : EntityId) (bs : List (EntityId × List Node)) :
  toll (.body x) bs = (Node.nested bs).count x
  := List.count_map_of_injective _ _ (fun _ _ h => Matter.body.inj h) x

/-- No declaration begins in a body by itself. -/
theorem toll_declaration (x : EntityId) (bs : List (EntityId × List Node)) :
  toll (.declaration x) bs = 0
  := by
  rw [toll, List.count_eq_zero]
  simp

/-- All that the decision of an entity begins of a matter by itself is due to one entity,
which begins the matter at most `w` times. -/
def Hosts (S : Setting) (m : Matter) (host : EntityId) (w : Nat) : Prop :=
  ∀ e : Entity, (if .declaration e.name = m then 1 else 0) + toll m (S.ownBodies e)
    ≤ if e.name = host then w else 0

/-- The bodies on a course. -/
def Course.Bears (S : Setting) : Course → List (EntityId × List Node) → Prop
  | .decision _, bs => bs = []
  | .steps _ path, bs => List.Forall₂ S.IsBody (path.filterMap Step.body?) bs

theorem body?_of_plain {scope : Scope} {s : Step} {r r' : Run} (h : S.Plain scope s r r') :
  s.body? = none
  := by cases h <;> rfl

theorem rounds_plain {scope : Scope} {s : Step} {r r' : Run} (h : S.Plain scope s r r')
    (m : Matter) :
  r'.rounds m = r.rounds m
  := by
  cases h with
  | find => exact Run.rounds_eq_of_journal (r.same_find _ _ _).journal m
  | relax h =>
    obtain ⟨relaxed, rfl⟩ := S.relax_eq_ok h
    rfl
  | _ => rfl

theorem rounds_rest (r : Run) (scope : Scope) (id : EntityId) (site : Site) (m : Matter) :
  (r.rest scope id site).rounds m = r.rounds m
  := by
  rw [Run.rounds, journal_rest]
  rfl

theorem examined_rest (r : Run) (scope : Scope) (id : EntityId) (site : Site) :
  (r.rest scope id site).verdicts.examined = r.verdicts.examined
  := by
  unfold Run.rest
  split
  · split
    · rfl
    · exact Verdicts.examined_depend
  · exact (Run.same_findExcluded _ _ _ _).examined

section

variable {m : Matter} {host : EntityId} {w n n' : Nat} {r r₁ r' : Run}

variable (m host w) in
/-- A matter begins at most `n` times from one run to another, and `w` times more if the
entity that may host it is examined on the way. -/
def Begins (n : Nat) (r r' : Run) : Prop :=
  r'.rounds m ≤ r.rounds m + n + if r.Meets r' host then w else 0

theorem begins_of_eq (h : r'.rounds m = r.rounds m) :
  Begins m host w 0 r r'
  := by
  unfold Begins
  omega

theorem Begins.trans (h : Begins m host w n r r₁) (h' : Begins m host w n' r₁ r')
    (he : ∀ x ∈ r.verdicts.examined, x ∈ r₁.verdicts.examined)
    (he' : ∀ x ∈ r₁.verdicts.examined, x ∈ r'.verdicts.examined) :
  Begins m host w (n + n') r r'
  := by
  have := Run.meets_add he he' host w
  unfold Begins at *
  omega

theorem Begins.eq (h : Begins m host w n r r₁) (hm : r'.rounds m = r₁.rounds m)
    (he : r'.verdicts.examined = r₁.verdicts.examined) :
  Begins m host w n r r'
  := by
  have hmeets : r.Meets r' host ↔ r.Meets r₁ host := by
    unfold Run.Meets
    rw [he]
  unfold Begins at *
  simpa only [hm, hmeets] using h

theorem Begins.same (h : Begins m host w n r r₁) (hs : r₁.Same r') :
  Begins m host w n r r'
  := h.eq (Run.rounds_eq_of_journal hs.journal m) hs.examined

theorem Begins.strikes {id : EntityId} (h : Begins m host w n r r₁) (hs : r₁.Strikes id r') :
  Begins m host w n r r'
  := h.eq (hs.rounds_eq m) (by rw [hs.frame])

theorem Begins.mono (h : Begins m host w n r r') (hle : n ≤ n') :
  Begins m host w n' r r'
  := by
  unfold Begins at *
  omega

variable (S m host w) in
/-- How often a matter begins on a passage, given the bodies on it. -/
def Bounded (c : Course) (r r' : Run) : Prop :=
  ∀ bs, Course.Bears S c bs → r.Coherent → r.Under c.matter → Begins m host w (toll m bs) r r'

/-- A matter begins on the first steps of a passage and on the others. -/
theorem Begins.append {scope : Scope} {path : List Step} {bs : List (EntityId × List Node)}
    {new : List Event} (h : Begins m host w n r r₁) (ha : r.Advances scope.matter new r₁)
    (hr₁ : r₁.Coherent) (hu : r.Under scope.matter) (p : S.Passes (.steps scope path) r₁ r')
    (ih : S.Bounded m host w (.steps scope path) r₁ r')
    (hb : Course.Bears S (.steps scope path) bs) :
  Begins m host w (n + toll m bs) r r'
  := by
  have hu₁ := hu.after ha
  obtain ⟨new', ha', -⟩ := orderly_of_passes p hr₁ hu₁
  exact h.trans (ih bs hb hr₁ hu₁) ha.examined ha'.examined

/-- What the inquiry into an entity begins is due to the entity. -/
theorem begins_open (hh : S.Hosts m host w) {e : Entity}
    {mode : Option Mode × Option EntityId} (hf : e.name ∉ r.verdicts.examined)
    (h : Begins m host w (toll m (S.ownBodies e)) (r.open e mode) r₁) (hr : r.Coherent)
    (hx : e.name ∈ r₁.verdicts.examined) :
  Begins m host w 0 r r₁
  := by
  obtain ⟨ha, -, -, hxo⟩ := Run.open_step hr hf mode
  have hs := rounds_start (r.examine e.name) (e.declarationScope mode) (.declaration e.name) m
  have hs : (r.open e mode).rounds m
      = (if .declaration e.name = m then 1 else 0) + r.rounds m := hs
  have hhost := hh e
  unfold Begins at *
  by_cases he : e.name = host
  · subst he
    have hm : r.Meets r₁ e.name := ⟨hf, hx⟩
    have hn : ¬ (r.open e mode).Meets r₁ e.name := fun h => h.1 hxo
    rw [if_pos hm]
    rw [if_neg hn] at h
    rw [if_pos rfl] at hhost
    omega
  · rw [if_neg he] at hhost
    have hm (h : (r.open e mode).Meets r₁ host) : r.Meets r₁ host :=
      ⟨fun hx => h.1 (ha.examined _ hx), h.2⟩
    split at h
    · next hmeets =>
      rw [if_pos (hm hmeets)]
      omega
    · omega

theorem begins_published (hh : S.Hosts m host w) {e : Entity}
    {mode : Option Mode × Option EntityId} {path path' : List Step} {r₂ r₃ : Run}
    (o : S.Opens e mode r) (l : (S.entityInquiry e).Leads path ())
    (p : S.Passes (.steps (e.declarationScope mode) path) (r.open e mode) r₁)
    (hp : S.publish e r₁ = .ok () r₂) (l' : (predicateInquiry e).Leads path' ())
    (p' : S.Passes (.steps (e.declarationScope mode) path') r₂ r₃)
    (ih : S.Bounded m host w (.steps (e.declarationScope mode) path) (r.open e mode) r₁)
    (ih' : S.Bounded m host w (.steps (e.declarationScope mode) path') r₂ r₃)
    (hr : r.Coherent) :
  Begins m host w 0 r r₃
  := by
  obtain ⟨-, ho, hu, hx⟩ := Run.open_step hr o.fresh mode
  obtain ⟨new, ha, hr₁, -⟩ := orderly_of_passes p ho hu
  obtain ⟨hs, -⟩ := same_publish hp
  have h₁ := (ih _ ((regular_entityInquiry o.entity).bodies l) ho hu).same hs
  have hpredicate : S.Regular {} (fun _ => False) [] (predicateInquiry e) :=
    regular_predicateInquiry e
  have h₃ := h₁.append (ha.same hs) (hs.coherent hr₁) hu p' ih'
    (hpredicate.bodies l')
  obtain ⟨new', ha', -⟩ := orderly_of_passes p' (hs.coherent hr₁) (hu.after (ha.same hs))
  exact begins_open hh o.fresh h₃ hr (ha'.examined _ ((ha.same hs).examined _ hx))

/-- What begins before and inside of a body. -/
theorem begins_body {e : Entity} {mode : Option Mode × Option EntityId} {ns : List Node}
    {path : List Step} {cause : Option Site} (hr : r.Coherent)
    (hx : e.name ∈ r.verdicts.examined) (l : (S.items e.inside ns).Leads path ())
    (ih : S.Bounded m host w (.steps (e.bodyScope mode) path)
      (r.start (e.bodyScope mode) (.body e.name)) r₁) :
  Begins m host w ((if .body e.name = m then 1 else 0) + toll m (Node.bodiesOf ns)) r
    { r₁.concludeBody e with cause }
  := by
  have hstart := hr.start (e.bodyScope mode) (m := .body e.name) hx
  have hu := r.under_start (e.bodyScope mode) (.body e.name)
  have h := ih _ ((regular_bodyItems e ns).bodies l) hstart hu
  have hs := rounds_start r (e.bodyScope mode) (.body e.name) m
  obtain ⟨reporting, hv⟩ := r.verdicts_start (e.bodyScope mode) (.body e.name)
  have hmeets : (r.start (e.bodyScope mode) (.body e.name)).Meets r₁ host ↔ r.Meets r₁ host := by
    unfold Run.Meets
    rw [hv]
  have h₁ : Begins m host w ((if .body e.name = m then 1 else 0) + toll m (Node.bodiesOf ns))
      r r₁ := by
    unfold Begins at *
    simp only [hmeets] at h
    omega
  apply h₁.eq
  all_goals unfold Run.concludeBody
  all_goals split <;> rfl

/-- How often a matter begins on a passage. -/
theorem bounded_of_passes (hh : S.Hosts m host w) {c : Course} (h : S.Passes c r r') :
  S.Bounded m host w c r r'
  := by
  have toll_nil : toll m [] = 0 := rfl
  induction h with
  | nil | known =>
    intro bs _ _ _
    exact (begins_of_eq rfl).mono (Nat.zero_le _)
  | @plain scope s path r r₁ r' h p ih =>
    intro bs hb hr hu
    obtain ⟨new, ha, hr₁⟩ := plain_step h hr hu
    have hb : Course.Bears S (.steps scope path) bs := by
      simpa only [Course.Bears, List.filterMap_cons, body?_of_plain h] using hb
    have h₁ : Begins m host w 0 r r₁ := begins_of_eq (rounds_plain h m)
    exact (h₁.append ha hr₁ hu p ih hb).mono (by omega)
  | @decide scope id path r r₁ r' d p ihd ih =>
    intro bs hb hr hu
    obtain ⟨new, ha, hr₁, -⟩ := orderly_of_passes d hr (under_decision _ _)
    have h₁ := ihd [] rfl hr (under_decision _ _)
    exact (h₁.append (ha.within _) hr₁ hu p ih hb).mono (by omega)
  | @consult scope id site path r r₁ r' d p ihd ih =>
    intro bs hb hr hu
    obtain ⟨new, ha, hr₁, hx⟩ := orderly_of_passes d hr (under_decision _ _)
    obtain ⟨ha₂, hr₂⟩ := Run.rest_step hr₁ (hu.after ha) (hx _ rfl) site
    have h₁ := (ihd [] rfl hr (under_decision _ _)).eq (rounds_rest r₁ scope id site m)
      (examined_rest r₁ scope id site)
    exact (h₁.append ((ha.within _).append ha₂) hr₂ hu p ih hb).mono (by omega)
  | @declare scope id site path r r₁ r' d _ p ihd ih =>
    intro bs hb hr hu
    obtain ⟨new, ha, hr₁, -⟩ := orderly_of_passes d hr (under_decision _ _)
    have h₁ := ihd [] rfl hr (under_decision _ _)
    exact (h₁.append (ha.within _) hr₁ hu p ih hb).mono (by omega)
  | @declareResting scope id site b path r r₁ r' d _ _ p ihd ih =>
    intro bs hb hr hu
    obtain ⟨new, ha, hr₁, -⟩ := orderly_of_passes d hr (under_decision _ _)
    have h₁ := ihd [] rfl hr (under_decision _ _)
    exact (h₁.append (ha.within _) hr₁ hu p ih hb).mono (by omega)
  | @bodyExcluded scope e mode inner path r r₁ r' d _ p ihd ih =>
    intro bs hb hr hu
    cases hb with
    | @cons _ b _ bs _ hb =>
      obtain ⟨id, ns⟩ := b
      obtain ⟨new, ha, hr₁, -⟩ := orderly_of_passes d hr (under_decision _ _)
      have hs := r₁.same_inheritCause e
      have h₁ := (ihd [] rfl hr (under_decision _ _)).same hs
      rw [toll_cons]
      exact (h₁.append ((ha.within _).same hs) (hs.coherent hr₁) hu p ih hb).mono (by omega)
  | @bodyOff scope e mode inner anchor path r r₁ r' d _ _ p ihd ih =>
    intro bs hb hr hu
    cases hb with
    | @cons _ b _ bs _ hb =>
      obtain ⟨id, ns⟩ := b
      obtain ⟨new, ha, hr₁, -⟩ := orderly_of_passes d hr (under_decision _ _)
      have h₁ := ihd [] rfl hr (under_decision _ _)
      rw [toll_cons]
      exact (h₁.append (ha.within _) hr₁ hu p ih hb).mono (by omega)
  | @body scope e mode inner mode' path innerPath r r₁ r₂ r' d _ _ _ l p₂ p ihd ih₂ ih =>
    intro bs hb hr hu
    cases hb with
    | @cons _ b _ bs hbody hb =>
      obtain ⟨id, ns⟩ := b
      obtain ⟨he, hi⟩ : S.program.entity id = .ok e ∧ inner = S.items e.inside ns := hbody
      obtain rfl := S.program.name_eq_of_entity he
      subst hi
      obtain ⟨new, ha, hr₁, hx⟩ := orderly_of_passes d hr (under_decision _ _)
      obtain ⟨new₂, ha₂, hr₂, -⟩ := body_step (orderly_of_passes p₂) hr₁ (hx _ rfl) r₁.cause
      have h₁ := ihd [] rfl hr (under_decision _ _)
      have h₂ := h₁.trans (begins_body hr₁ (hx _ rfl) l ih₂) ha.examined ha₂.examined
      rw [toll_cons]
      exact (h₂.append ((ha.append ha₂).within _) hr₂ hu p ih hb).mono (by omega)
  | off =>
    rintro _ rfl _ _
    exact begins_of_eq rfl
  | @reject e mode path r r₁ o l p _ ih =>
    rintro _ rfl hr _
    obtain ⟨-, ho, hu, hx⟩ := Run.open_step hr o.fresh mode
    obtain ⟨new, ha, -⟩ := orderly_of_passes p ho hu
    have h₁ := ih _ ((regular_entityInquiry o.entity).bodies l) ho hu
    exact ((begins_open hh o.fresh h₁ hr (ha.examined _ hx)).strikes
      (r₁.strikes_exclude S.program e)).eq rfl rfl
  | @revoke e mode path path' r r₁ r₂ r₃ o l p _ _ hp l' p' _ ih ih' =>
    rintro _ rfl hr _
    exact ((begins_published hh o l p hp l' p' ih ih' hr).strikes
      (r₃.strikes_exclude S.program e)).eq rfl rfl
  | @grant e mode path path' r r₁ r₂ r₃ o l p _ _ hp l' p' _ ih ih' =>
    rintro _ rfl hr _
    exact (begins_published hh o l p hp l' p' ih ih' hr).same (r₃.same_follow e.followers r.cause)

/-- How often a matter begins while no matter is under way whose verdict can be
withdrawn. -/
theorem begins_of_moves (hh : S.Hosts m host w) {bs : List (EntityId × List Node)}
    (h : S.Moves bs r r') (hr : S.Settled r) :
  Begins m host w (toll m bs) r r' ∧ ∀ x ∈ r.verdicts.examined, x ∈ r'.verdicts.examined
  := by
  induction h with
  | same h =>
    refine ⟨(begins_of_eq rfl).same h, ?_⟩
    rw [h.examined]
    exact fun _ hx => hx
  | take => exact ⟨begins_of_eq rfl, fun _ hx => hx⟩
  | @pass scope path bs r r' hm hb p =>
    have hu := under_of_not_isRevocable hm r
    obtain ⟨new, ha, -⟩ := orderly_of_passes p hr.coherent hu
    exact ⟨bounded_of_passes hh p bs hb hr.coherent hu, ha.examined⟩
  | strike hs =>
    refine ⟨(begins_of_eq rfl).strikes hs, ?_⟩
    rw [hs.frame]
    exact fun _ hx => hx
  | trans h _ ih ih' =>
    obtain ⟨h₁, he₁⟩ := ih hr
    obtain ⟨h₂, he₂⟩ := ih' (settled_of_moves h hr)
    rw [toll_append]
    exact ⟨h₁.trans h₂ he₁ he₂, fun x hx => he₂ x (he₁ x hx)⟩

end

/-- A declaration is hosted by its own entity. -/
theorem hosts_declaration (S : Setting) (x : EntityId) :
  S.Hosts (.declaration x) x 1
  := by
  intro e
  rw [toll_declaration]
  simp only [Matter.declaration.injEq]
  omega

/-- The bodies in a package are among those that packages host. -/
theorem toll_ownBodies (x : EntityId) (e : Entity) :
  toll (.body x) (S.ownBodies e) = 0
    ∨ ∃ n ∈ Node.packagesOf S.program.units, n.declaresPackage e.name = true
      ∧ toll (.body x) (S.ownBodies e) = (Node.heldOf n.packageItems).count x
  := by
  rw [toll_body]
  unfold ownBodies
  split
  · split
    · next n hn =>
      right
      obtain ⟨hmem, hd⟩ := List.mem_filter.1 (List.mem_of_getLast? hn)
      exact ⟨n, hmem, hd, by rw [Node.nested_bodiesOf]⟩
    · exact Or.inl rfl
  · exact Or.inl rfl

/-- The package that hosts a body, and how often. -/
theorem hosts_body (S : Setting) (x : EntityId)
    (h : (Node.bodiedOf S.program.units).count x ≤ 1) :
  ∃ host w, S.Hosts (.body x) host w
    ∧ toll (.body x) (Node.bodiesOf (S.program.units.map Node.content)) + w ≤ 1
  := by
  have htotal := Node.count_units x S.program.units
  rw [toll_body, Node.nested_bodiesOf]
  by_cases hw : ∃ e : Entity, toll (.body x) (S.ownBodies e) ≠ 0
  · obtain ⟨e, he⟩ := hw
    obtain ⟨n, hn, hd, hc⟩ := (toll_ownBodies x e).resolve_left he
    have hle := Node.count_le_hosted x hn
    refine ⟨e.name, 1, fun e' => ?_, by omega⟩
    rw [if_neg (by simp)]
    obtain h₀ | ⟨n', hn', hd', hc'⟩ := toll_ownBodies (S := S) x e'
    · omega
    · have hle' := Node.count_le_hosted x hn'
      split
      · omega
      · next hne =>
        have hnn : n ≠ n' := by
          rintro rfl
          exact hne (Node.eq_of_declaresPackage hd' hd)
        have := Node.count_add_le_hosted x hn hn' hnn
        omega
  · push Not at hw
    refine ⟨x, 0, fun e => ?_, by omega⟩
    simp [hw e]

theorem rounds_le_one_of_hosts {r : Run} (h : S.wholeProgram {} = .ok () r) {m : Matter}
    {host : EntityId} {w : Nat} (hh : S.Hosts m host w)
    (hw : toll m (Node.bodiesOf (S.program.units.map Node.content)) + w ≤ 1) :
  r.rounds m ≤ 1
  := by
  obtain ⟨r₁, hp, -, rfl⟩ := proceeds_wholeProgram h
  change r₁.rounds m ≤ 1
  have hb := (begins_of_moves hh (moves_of_proceeds hp) settled_empty).1
  have h₀ : ({} : Run).rounds m = 0 := rfl
  unfold Begins at hb
  split at hb <;> omega

/-- No declaration begins twice. -/
theorem rounds_declaration {r : Run} (h : S.wholeProgram {} = .ok () r) (x : EntityId) :
  r.rounds (.declaration x) ≤ 1
  := by
  apply rounds_le_one_of_hosts h (S.hosts_declaration x)
  simp [toll_declaration]

/-- In a program where each entity has at most one body, nothing begins twice. -/
theorem rounds_le_one {r : Run} (hn : (Node.bodiedOf S.program.units).Nodup)
    (h : S.wholeProgram {} = .ok () r) {m : Matter} (hm : m.isRevocable) :
  r.rounds m ≤ 1
  := by
  cases m with
  | declaration x => exact rounds_declaration h x
  | body x =>
    obtain ⟨host, w, hh, hw⟩ := S.hosts_body x (List.nodup_iff_count.1 hn x)
    exact rounds_le_one_of_hosts h hh hw
  | aspects x => cases hm

end Setting

end Conformance
