import Conformance.Proofs.Reordering
import Conformance.Proofs.Whereabouts

/-!
# The index of packages

The declarations of packages are collected ahead of a run, by a traversal of its own
(`Node.packages`).  It goes wherever a node can stand in a program, so it misses no package
declaration that a run comes to.  The inquiry into a package goes through the declaration that
is found in the index: the items of the package are come to on each of its paths.  A run that
comes to the declaration of a package declares the package (`Announces`), so if the run succeeds
it examined the package and came to these items (`Handles`), unless the package is excluded on
purpose.
-/

namespace Conformance

namespace Node

theorem declaresPackage_iff {x : EntityId} {n : Node} :
  n.declaresPackage x = true ↔ n.package? = some x
  := by
  unfold declaresPackage package?
  generalize n.shape = shape
  cases shape <;> simp

theorem branchPackages_eq_packagesOf (bs : List (Branch Node)) :
  branchPackages bs = packagesOf (bs.flatMap Branch.body)
  := by
  induction bs with
  | nil => rfl
  | cons b bs ih =>
    rw [branchPackages, ih, List.flatMap_cons]
    simp only [Program.packagesOf_eq_flatMap, List.flatMap_append]

theorem caseBranchPackages_eq_packagesOf (bs : List (CaseBranch Node)) :
  caseBranchPackages bs = packagesOf (bs.flatMap CaseBranch.body)
  := by
  induction bs with
  | nil => rfl
  | cons b bs ih =>
    rw [caseBranchPackages, ih, List.flatMap_cons]
    simp only [Program.packagesOf_eq_flatMap, List.flatMap_append]

/-- The package declarations in a node are the node itself, if it is one, and those in its
constituents. -/
theorem packages_eq (n : Node) :
  n.packages = (n.package?.map fun _ => n).toList ++ packagesOf n.constituents
  := by
  obtain ⟨id, location, type, shape⟩ := n
  cases shape <;>
    simp [packages, constituents, package?, shape, Program.packagesOf_eq_flatMap,
      branchPackages_eq_packagesOf, caseBranchPackages_eq_packagesOf]

theorem mem_packages_self {n : Node} {x : EntityId} (h : n.package? = some x) :
  n ∈ n.packages
  := by simp [packages_eq, h]

theorem packages_subset_of_mem {n m : Node} (h : m ∈ n.constituents) :
  m.packages ⊆ n.packages
  := by
  rw [packages_eq n, Program.packagesOf_eq_flatMap]
  exact fun d hd => List.mem_append_right _ (List.mem_flatMap.2 ⟨m, h, hd⟩)

end Node

namespace Program

variable {p : Program} {n : Node} {x : EntityId}

/-- The package declarations in a node that stands in a program are collected. -/
theorem Stands.packages_subset {around : List Node} (h : p.Stands around n) :
  n.packages ⊆ Node.packagesOf p.units
  := by
  induction h with
  | unit hn =>
    rw [packagesOf_eq_flatMap]
    exact fun d hd => List.mem_flatMap.2 ⟨_, hn, hd⟩
  | inside _ hp ih => exact List.Subset.trans (Node.packages_subset_of_mem hp) ih

/-- The index has a declaration of each package that is declared in the program. -/
theorem Holds.exists_packageDeclaration (h : p.Holds n) (hx : n.package? = some x) :
  ∃ d, p.packageDeclaration? x = some d ∧ d.package? = some x ∧ p.Holds d
  := by
  obtain ⟨around, h⟩ := h
  have hn : n ∈ (Node.packagesOf p.units).filter (Node.declaresPackage x) :=
    List.mem_filter.2 ⟨h.packages_subset (Node.mem_packages_self hx), Node.declaresPackage_iff.2 hx⟩
  have hne := List.ne_nil_of_mem hn
  have hd := List.getLast?_eq_some_getLast hne
  have hm := List.mem_filter.1 (List.getLast_mem hne)
  exact ⟨_, hd, Node.declaresPackage_iff.1 hm.2, exists_stands_package hd⟩

end Program

/-- The node that a step comes to, if it is a declaration, a body or a statement. -/
def Step.item? : Step → Option Node
  | .visit .item n => some n
  | _ => none

theorem Step.item?_eq_some_iff {s : Step} {n : Node} :
  s.item? = some n ↔ s = .visit .item n
  := by
  cases s with
  | visit role m => cases role <;> simp [item?]
  | _ => simp [item?]

/-- What a step declares. -/
def Step.declared? : Step → Option EntityId
  | .declare id _ _ => some id
  | _ => none

/-- The entity that a course decides first. -/
def Course.decided? : Course → Option EntityId
  | .steps _ path => path.head?.bind Step.declared?
  | .decision id => some id

/-- A path declares each package as soon as it came to its declaration, also in the bodies on it. -/
def Announces : List Step → Prop
  | [] => True
  | .visit role n :: path =>
    (role = .item → ∀ x, n.package? = some x → path.head?.bind Step.declared? = some x)
      ∧ Announces path
  | .body _ _ inner :: path => inner.StaysIn (fun _ => True) ∧ Announces path
  | _ :: path => Announces path

theorem Inquiry.Leads.declared? {α : Type} {i : Inquiry α} {a : α} {path : List Step}
    {x : EntityId} (l : i.Leads path a) (h : i.declared? = some x) :
  path.head?.bind Step.declared? = some x
  := by
  cases l with
  | done => cases h
  | step t =>
    cases t with
    | declare => exact h
    | _ => cases h

/-- An inquiry that stays in what it starts from declares the packages on its paths. -/
theorem Inquiry.StaysIn.announces {α : Type} {P : Node → Prop} {i : Inquiry α} {a : α}
    {path : List Step} (h : i.StaysIn P) (l : i.Leads path a) :
  Announces path
  := by
  induction l with
  | done => trivial
  | step t l ih =>
    cases t with
    | visit => exact ⟨fun hr x hx => l.declared? ((h.1 hr).2 x hx), ih h.2⟩
    | body => exact ⟨h.1.mono fun _ _ => trivial, ih h.2⟩
    | consult b | ask b | look b => exact ih (h b)
    | _ => exact ih h

namespace Setting

open Inquiry

variable {S : Setting}

/-! ### The inquiry into a package -/

/-- The inquiry into a node comes to the node first. -/
theorem leads_item {around : Surroundings} {n : Node} {path : List Step}
    (l : (S.item around n).Leads path ()) :
  ∃ rest, path = .visit .item n :: rest
  := by
  obtain ⟨id, location, type, shape⟩ := n
  unfold item at l
  obtain ⟨rest, rfl, -⟩ := leads_come l
  exact ⟨rest, rfl⟩

/-- The inquiries into nodes come to each of them, in order. -/
theorem sublist_of_leads_items {around : Surroundings} {ns : List Node} {path : List Step}
    (l : (S.items around ns).Leads path ()) :
  ns.Sublist (path.filterMap Step.item?)
  := by
  induction ns generalizing path with
  | nil => exact List.nil_sublist _
  | cons n ns ih =>
    obtain ⟨p, q, rfl, hp, hq⟩ := leads_then_iff.1 l
    obtain ⟨p, rfl⟩ := leads_item hp
    refine List.Sublist.cons_cons n ?_
    rw [List.append_eq, List.filterMap_append]
    exact (ih hq).trans (List.sublist_append_right _ _)

/-- The inquiry into a package comes to the items of its declaration in the index. -/
theorem sublist_packageItems {e : Entity} {initialCondition : Option Node} {d : Node}
    {path : List Step} (hk : e.kind = .package initialCondition)
    (hd : S.program.packageDeclaration? e.name = some d)
    (l : (S.entityInquiry e).Leads path ()) :
  d.packageItems.Sublist (path.filterMap Step.item?)
  := by
  unfold entityInquiry packageInquiry at l
  rw [hk] at l
  simp only [hd] at l
  obtain ⟨p, q, rfl, hp, -⟩ := leads_then_iff.1 l
  rw [List.filterMap_append]
  exact (sublist_of_leads_items hp).trans (List.sublist_append_left _ _)

/-! ### Inquiries that were carried out -/

variable (S) in
/-- The inquiry into an entity was carried out to its end: what it comes to, on one of its
paths, was come to on behalf of the declaration of the entity. -/
def CarriedOut (r : Run) (x : EntityId) : Prop :=
  ∃ e path, S.program.entity x = .ok e ∧ (S.entityInquiry e).Leads path ()
    ∧ ∀ role n, .visit role n ∈ path → .visited (some (.declaration x)) role n ∈ r.journal

variable {r r₁ r' : Run}

theorem CarriedOut.mono {x : EntityId} (h : S.CarriedOut r x) (hj : r.journal ⊆ r'.journal) :
  S.CarriedOut r' x
  := by
  obtain ⟨e, path, he, l, hp⟩ := h
  exact ⟨e, path, he, l, fun role n hn => hj (hp role n hn)⟩

variable (S) in
/-- What is examined on the way from a run to another one is excluded on purpose, or the inquiry
into it was carried out.  A package whose declaration is come to on the way is examined. -/
structure Handles (r r' : Run) : Prop where
  journal : r.journal ⊆ r'.journal
  kept : ∀ x ∈ r.verdicts.examined, x ∈ r'.verdicts.examined
  examined : ∀ x ∈ r'.verdicts.examined,
    x ∈ r.verdicts.examined ∨ S.isOff x = .ok true ∨ S.CarriedOut r' x
  declared : ∀ n ∈ r'.walked,
    n ∈ r.walked ∨ ∀ x, n.package? = some x → x ∈ r'.verdicts.examined

theorem Handles.trans (h : S.Handles r r₁) (h' : S.Handles r₁ r') :
  S.Handles r r'
  where
    journal := List.Subset.trans h.journal h'.journal
    kept x hx := h'.kept x (h.kept x hx)
    examined x hx := by
      obtain hx | hx := h'.examined x hx
      · exact (h.examined x hx).imp_right fun hx => hx.imp_right fun hx => hx.mono h'.journal
      · exact Or.inr hx
    declared n hn := by
      obtain hn | hn := h'.declared n hn
      · exact (h.declared n hn).imp_right fun hn x hx => h'.kept x (hn x hx)
      · exact Or.inr hn

/-- A change that examines nothing and comes to no declaration, body or statement. -/
theorem handles_of_walked (hx : r'.verdicts.examined = r.verdicts.examined)
    (hj : r.journal ⊆ r'.journal) (hw : r'.walked = r.walked) :
  S.Handles r r'
  := ⟨hj, fun _ h => hx ▸ h, fun _ h => Or.inl (hx ▸ h), fun _ h => Or.inl (hw ▸ h)⟩

theorem handles_same (h : r.Same r') :
  S.Handles r r'
  := handles_of_walked h.examined (h.journal ▸ List.Subset.refl _)
    (congrArg (List.filterMap Event.item?) h.journal)

theorem handles_cause (r : Run) (cause : Option Site) :
  S.Handles r { r with cause }
  := handles_same (r.same_cause cause)

/-- A step that comes to no declaration, body or statement. -/
theorem handles_plain {scope : Scope} {s : Step} (h : S.Plain scope s r r')
    (hs : s.item? = none) :
  S.Handles r r'
  := by
  have hx := congrArg Register.examined (register_plain h)
  cases h with
  | @visit _ role n =>
    refine handles_of_walked hx (List.subset_cons_self _ _) (walked_eq_of_layout ?_)
    apply Run.layout_note
    cases role with
    | item => cases hs
    | _ => rfl
  | ask =>
    refine handles_of_walked hx (List.subset_cons_self _ _) (walked_eq_of_layout ?_)
    exact Run.layout_note rfl
  | look | hideView | postponeCompletion | postponeAspects | placeInLoop =>
    exact handles_of_walked hx (List.Subset.refl _) rfl
  | @find _ site finding =>
    obtain ⟨cause, reports, h⟩ := r.exists_find scope site finding
    rw [h]
    exact handles_of_walked rfl (List.Subset.refl _) rfl
  | relax h =>
    obtain ⟨relaxed, rfl⟩ := S.relax_eq_ok h
    exact handles_of_walked hx (List.Subset.refl _) rfl

theorem handles_rest (r : Run) (scope : Scope) (id : EntityId) (site : Site) :
  S.Handles r (r.rest scope id site)
  := by
  refine handles_of_walked (examined_rest r scope id site) ?_
    (walked_eq_of_layout (r.layout_rest scope id site))
  rw [journal_rest]
  exact List.subset_cons_self _ _

theorem handles_start (r : Run) (scope : Scope) (m : Matter) :
  S.Handles r (r.start scope m)
  := by
  refine handles_of_walked (congrArg Register.examined (r.register_start scope m)) ?_
    (walked_eq_of_layout (r.layout_start scope m))
  rw [r.journal_start]
  exact List.subset_cons_self _ _

theorem handles_concludeBody (r : Run) (e : Entity) :
  S.Handles r (r.concludeBody e)
  := by
  unfold Run.concludeBody
  split
  · exact handles_of_walked rfl (List.subset_cons_self _ _) rfl
  · exact handles_of_walked rfl (List.Subset.refl _) rfl

theorem handles_of_strikes {id : EntityId} (h : r.Strikes id r') :
  S.Handles r r'
  := by
  obtain ⟨new, hj, -⟩ := h.journal
  refine handles_of_walked (by rw [h.frame]) ?_ (walked_eq_of_layout h.layout)
  rw [hj]
  exact List.subset_append_right _ _

variable (S) in
/-- What a passage comes to is in the journal, what it decides first is examined, and what is
examined on the way is handled. -/
structure Chronicles (c : Course) (r r' : Run) : Prop where
  visited : ∀ role n, .visit role n ∈ c.path → .visited c.matter role n ∈ r'.journal
  decided : ∀ {x}, c.decided? = some x → x ∈ r'.verdicts.examined
  handles : S.Handles r r'

/-- A step other than a visit, and the steps after it. -/
theorem Chronicles.cons {scope : Scope} {s : Step} {path : List Step}
    (h : S.Chronicles (.steps scope path) r₁ r') (hx : S.Handles r r₁)
    (hs : ∀ role n, s ≠ .visit role n)
    (hd : ∀ {x}, s.declared? = some x → x ∈ r₁.verdicts.examined) :
  S.Chronicles (.steps scope (s :: path)) r r'
  where
    visited role n hn := h.visited role n (List.mem_of_ne_of_mem (hs role n).symm hn)
    decided hx := h.handles.kept _ (hd hx)
    handles := hx.trans h.handles

/-- A visit, and the steps after it. -/
theorem Chronicles.visit {scope : Scope} {role : Role} {n : Node} {path : List Step}
    (h : S.Chronicles (.steps scope path) (r.note (.visited scope.matter role n)) r')
    (ha : Announces (.visit role n :: path)) :
  S.Chronicles (.steps scope (.visit role n :: path)) r r'
  where
    visited role' m hm := by
      obtain hm | hm := List.mem_cons.1 hm
      · obtain ⟨rfl, rfl⟩ := Step.visit.inj hm
        exact h.handles.journal List.mem_cons_self
      · exact h.visited role' m hm
    decided := nofun
    handles := by
      obtain ⟨hd, -⟩ := ha
      cases role with
      | item =>
        refine ⟨List.Subset.trans (List.subset_cons_self _ _) h.handles.journal, h.handles.kept,
          h.handles.examined, fun m hm => ?_⟩
        obtain hm | hm := h.handles.declared m hm
        · obtain rfl | hm := List.mem_cons.1 hm
          · exact Or.inr fun x hx => h.decided (hd rfl x hx)
          · exact Or.inl hm
        · exact Or.inr hm
      | _ => exact (handles_plain .visit rfl).trans h.handles

/-- The inquiry into an entity. -/
theorem handles_opened {e : Entity} {mode : Option Mode × Option EntityId} {path : List Step}
    (o : S.Opens e mode r) (l : (S.entityInquiry e).Leads path ())
    (h : S.Chronicles (.steps (e.declarationScope mode) path) (r.open e mode) r') :
  S.Handles r r' ∧ e.name ∈ r'.verdicts.examined
  := by
  have hi : (r.open e mode).verdicts.examined = r.verdicts.examined.insert e.name :=
    congrArg Register.examined (r.register_open e mode)
  have hj := r.journal_open e mode
  have hl : (r.open e mode).layout = r.layout := (r.examine e.name).layout_start _ _
  have hx (x : EntityId) (hx : x = e.name ∨ x ∈ r.verdicts.examined) :
      x ∈ r'.verdicts.examined := h.handles.kept x (hi ▸ mem_insert_iff.2 hx)
  refine ⟨⟨?_, fun x h => hx x (Or.inr h), fun x hx => ?_, fun n hn => ?_⟩, hx _ (Or.inl rfl)⟩
  · exact List.Subset.trans (hj ▸ List.subset_cons_self _ _) h.handles.journal
  · obtain hx | hx := h.handles.examined x hx
    · obtain rfl | hx := mem_insert_iff.1 (hi ▸ hx)
      · exact Or.inr (Or.inr ⟨e, path, o.entity, l, h.visited⟩)
      · exact Or.inl hx
    · exact Or.inr hx
  · rw [← walked_eq_of_layout hl]
    exact h.handles.declared n hn

/-- The inquiry into an entity, and that into its predicate. -/
theorem handles_published {e : Entity} {mode : Option Mode × Option EntityId}
    {path path' : List Step} {r₂ : Run} (o : S.Opens e mode r)
    (l : (S.entityInquiry e).Leads path ())
    (h : S.Chronicles (.steps (e.declarationScope mode) path) (r.open e mode) r₁)
    (hp : S.publish e r₁ = .ok () r₂)
    (h' : S.Chronicles (.steps (e.declarationScope mode) path') r₂ r') :
  S.Handles r r' ∧ e.name ∈ r'.verdicts.examined
  := by
  obtain ⟨ho, hx⟩ := handles_opened o l h
  have hp := (handles_same (same_publish hp).1).trans h'.handles
  exact ⟨ho.trans hp, hp.kept _ hx⟩

theorem chronicles_of_passes {c : Course} (h : S.Passes c r r') (ha : Announces c.path) :
  S.Chronicles c r r'
  := by
  have decided {id : EntityId} {r r' : Run} (h : S.Handles r r')
      (hx : id ∈ r'.verdicts.examined) : S.Chronicles (.decision id) r r' :=
    ⟨fun _ _ hn => absurd hn List.not_mem_nil, fun h => Option.some.inj h ▸ hx, h⟩
  have excluded (e : Entity) (r r₀ : Run) :
      S.Handles r { r.exclude S.program e with cause := r₀.cause } :=
    (handles_of_strikes (r.strikes_exclude S.program e)).trans (handles_cause _ r₀.cause)
  have predicate (e : Entity) {path : List Step} (l : (predicateInquiry e).Leads path ()) :
      Announces path := (staysIn_predicateInquiry (P := fun _ => True) e).announces l
  induction h with
  | @nil scope r =>
    exact ⟨fun _ _ hn => absurd hn List.not_mem_nil, nofun, handles_same (.refl r)⟩
  | @plain scope s path r r₁ r' hp _ ih =>
    cases s with
    | visit role n =>
      cases hp
      exact (ih ha.2).visit ha
    | declare | body => cases hp
    | _ => exact (ih ha).cons (handles_plain hp rfl) nofun nofun
  | decide _ _ ihd ih =>
    exact (ih ha).cons (ihd trivial).handles nofun nofun
  | declare _ _ _ ihd ih =>
    exact (ih ha).cons (ihd trivial).handles nofun (ihd trivial).decided
  | bodyOff _ _ _ _ ihd ih =>
    exact (ih ha.2).cons (ihd trivial).handles nofun nofun
  | consult _ _ ihd ih =>
    exact (ih ha).cons ((ihd trivial).handles.trans (handles_rest _ _ _ _)) nofun nofun
  | declareResting _ _ _ _ ihd ih =>
    have h := ih ha
    refine ⟨fun role n hn => h.visited role n ?_, fun hx => ?_, ?_⟩
    · exact List.mem_cons_of_mem _ (List.mem_of_ne_of_mem (by simp) hn)
    · exact h.handles.kept _ ((ihd trivial).decided hx)
    · exact (ihd trivial).handles.trans h.handles
  | @bodyExcluded scope e mode inner path r r₁ r' _ _ _ ihd ih =>
    exact (ih ha.2).cons ((ihd trivial).handles.trans (handles_same (r₁.same_inheritCause e)))
      nofun nofun
  | @body scope e mode inner mode' path innerPath r r₁ r₂ r' _ _ _ _ l _ _ ihd ihw ih =>
    have hw := ((ihd trivial).handles.trans (handles_start r₁ _ _)).trans
      (ihw (ha.1.announces l)).handles
    have hc := (hw.trans (handles_concludeBody r₂ e)).trans (handles_cause _ r₁.cause)
    exact (ih ha.2).cons hc nofun nofun
  | @known id r hx => exact decided (handles_same (.refl r)) hx
  | @off e anchor r he _ hm =>
    refine decided ⟨List.Subset.refl _, fun x hx => mem_insert_iff.2 (Or.inr hx), fun x hx => ?_,
      fun n hn => Or.inl hn⟩ (mem_insert_iff.2 (Or.inl rfl))
    obtain rfl | hx := mem_insert_iff.1 hx
    · right
      left
      unfold isOff
      rw [hm]
      rfl
    · exact Or.inl hx
  | @reject e mode path r r₁ o l _ _ ih =>
    obtain ⟨ho, hx⟩ := handles_opened o l (ih ((staysIn_entityInquiry e).announces l))
    exact decided (ho.trans (excluded e r₁ r)) ((excluded e r₁ r).kept _ hx)
  | @revoke e mode path path' r r₁ r₂ r₃ o l _ _ _ hp l' _ _ ih ih' =>
    have h := ih ((staysIn_entityInquiry e).announces l)
    obtain ⟨ho, hx⟩ := handles_published o l h hp (ih' (predicate e l'))
    exact decided (ho.trans (excluded e r₃ r)) ((excluded e r₃ r).kept _ hx)
  | @grant e mode path path' r r₁ r₂ r₃ o l _ _ _ hp l' _ _ ih ih' =>
    have h := ih ((staysIn_entityInquiry e).announces l)
    obtain ⟨ho, hx⟩ := handles_published o l h hp (ih' (predicate e l'))
    exact decided (ho.trans (handles_of_walked rfl (List.Subset.refl _) rfl)) hx

theorem handles_of_stage {ns : List Node} (st : S.Stage ns r r') :
  S.Handles r r'
  := by
  have taken (t : Task) (b : Backlog) : S.Handles r (r.take t b) :=
    handles_of_walked rfl (List.subset_cons_self _ _) rfl
  -- Whatever holds of all nodes, an inquiry that stays in it declares what it comes to.
  have anywhere {i : Inquiry Unit} {path : List Step} (h : i.StaysIn fun _ => True)
      (l : i.Leads path ()) : Announces path := h.announces l
  cases st with
  | @context n path r r₁ l w =>
    have ha := anywhere (staysIn_contextItem n) l
    have hw := (handles_cause r none).trans (chronicles_of_passes w ha).handles
    exact hw.trans (handles_cause r₁ r.cause)
  | unit l w =>
    have ha := anywhere (staysIn_item (fun _ _ _ _ => trivial) trivial {}) l
    exact (chronicles_of_passes w ha).handles
  | declaration _ d => exact (taken _ _).trans (chronicles_of_passes d trivial).handles
  | aspectsOff | completionVoid => exact taken _ _
  | @aspects type anchor backlog e t mode attribution path r r₁ _ _ _ _ _ l w =>
    have ha := anywhere (S.confined_expressions t.aspects).staysIn l
    have hw := ((taken _ _).trans (handles_cause _ none)).trans (chronicles_of_passes w ha).handles
    refine hw.trans (Handles.trans ?_ (handles_cause _ r.cause))
    unfold Run.concludeAspects
    split <;> exact handles_of_walked rfl (List.Subset.refl _) rfl
  | completion _ _ _ d =>
    have hd := (taken _ _).trans (chronicles_of_passes d trivial).handles
    exact hd.trans (handles_of_walked rfl (List.Subset.refl _) rfl)
  | @completionFailed access type backlog cause r r₁ _ _ _ d =>
    have hd := (taken _ _).trans (chronicles_of_passes d trivial).handles
    obtain ⟨he, -⟩ | ⟨-, hx⟩ := r₁.excises_takeBack S.program access type cause
    · rw [he]
      exact hd
    · exact hd.trans (handles_of_strikes hx.strikes)

theorem handles_of_proceeds {ns : List Node} (p : S.Proceeds ns r r') :
  S.Handles r r'
  := by
  induction p with
  | @nil r => exact handles_same (.refl r)
  | cons st _ ih => exact (handles_of_stage st).trans ih

/-- What is examined in a run over the whole program that succeeds is excluded on purpose, or the
inquiry into it was carried out, and what the run comes to the declaration of is examined. -/
theorem handles_of_wholeProgram (h : S.wholeProgram r = .ok () r') :
  S.Handles r r'
  := by
  obtain ⟨_, r₁, hu, h⟩ := Act.bind_eq_ok.1 h
  obtain rfl := Act.rule_eq_ok.1 h
  exact (handles_of_proceeds (proceeds_units hu).1).trans
    (handles_of_walked rfl (List.Subset.refl _) rfl)

/-! ### The index covers the walk -/

/-- Wherever a run comes to the declaration of a package, whether the run succeeds or fails, the
index has a declaration of the package, which stands in the program.  The inquiry into the
package comes to all of its items, in order; so a run that succeeds examines the package, and
comes to all of the items on behalf of the package unless it is excluded on purpose. -/
theorem packages_indexed (S : Setting) (r₀ : Run) {n : Node} {x : EntityId}
    (hn : n ∈ (S.wholeProgram.after r₀).2.walked) (h₀ : n ∉ r₀.walked)
    (hx : n.package? = some x) :
  ∃ d, S.program.packageDeclaration? x = some d ∧ d.package? = some x ∧ S.program.Holds d
    ∧ (∀ e initialCondition path, e.name = x → e.kind = .package initialCondition →
      (S.entityInquiry e).Leads path () → d.packageItems.Sublist (path.filterMap Step.item?))
    ∧ ∀ r, S.wholeProgram r₀ = .ok () r →
      x ∈ r.verdicts.examined
        ∧ ∀ e initialCondition, S.program.entity x = .ok e → e.kind = .package initialCondition →
          x ∉ r₀.verdicts.examined → S.isOff x = .ok false →
            ∀ item ∈ d.packageItems, .visited (some (.declaration x)) .item item ∈ r.journal
  := by
  have hs : ∀ n ∈ (S.wholeProgram.after r₀).2.walked, n ∈ r₀.walked ∨ S.program.Holds n :=
    staysIn_wholeProgram (fun _ => Or.inr) r₀ fun _ => Or.inl
  obtain ⟨d, hd, hdx, hh⟩ := ((hs n hn).resolve_left h₀).exists_packageDeclaration hx
  refine ⟨d, hd, hdx, hh, ?_, ?_⟩
  · rintro e initialCondition path rfl hk l
    exact sublist_packageItems hk hd l
  · intro r h
    have hr := handles_of_wholeProgram h
    rw [Act.after_of_ok h] at hn
    have hm : x ∈ r.verdicts.examined := (hr.declared n hn).resolve_left h₀ x hx
    refine ⟨hm, fun e initialCondition he hk hm₀ ho item hi => ?_⟩
    obtain hm | hm | ⟨e', path, he', l, hp⟩ := hr.examined x hm
    · exact (hm₀ hm).elim
    · cases ho.symm.trans hm
    · obtain rfl := Except.ok.inj (he.symm.trans he')
      obtain rfl := S.program.name_eq_of_entity he
      obtain ⟨s, hs, hi⟩ := List.mem_filterMap.1 ((sublist_packageItems hk hd l).subset hi)
      rw [Step.item?_eq_some_iff.1 hi] at hs
      exact hp .item item hs

/-- A procedure whose body has a block with a package that declares a type. -/
def packagesSample : Setting :=
  (ofParts?
    [{ name := "M", kind := .subprogram { kind := .procedure } },
      { name := "Q", scope := some "M", kind := .package none },
      { name := "T", scope := some "Q", kind := .type { definition := .signed 0 9 } }]
    [.plain (.body .subprogram "M" none []
      [.plain (.block [.plain (.package "Q" [.plain (.declaration .type "T")] [])] [])])]).get
    (by decide +kernel)

theorem packages_indexed_packagesSample :
  let r := (packagesSample.wholeProgram.after {}).2
  packagesSample.wholeProgram {} = .ok () r ∧ ∃ n ∈ r.walked, n.package? = some "Q"
    ∧ "Q" ∈ r.verdicts.examined
    ∧ ∃ d, packagesSample.program.packageDeclaration? "Q" = some d
      ∧ packagesSample.program.Holds d ∧ d.packageItems.length = 1
      ∧ ∀ item ∈ d.packageItems, .visited (some (.declaration "Q")) .item item ∈ r.journal
  := by
  intro r
  have h : packagesSample.wholeProgram {} = .ok () r := Act.eq_ok_of_after (by decide +kernel)
  have hany : r.walked.any (·.package? == some "Q") := by decide +kernel
  obtain ⟨n, hn, hx⟩ := List.any_eq_true.1 hany
  rw [beq_iff_eq] at hx
  obtain ⟨d, hd, -, hh, -, hr⟩ := packages_indexed packagesSample {} hn List.not_mem_nil hx
  obtain ⟨hm, hv⟩ := hr r h
  have hlen : (packagesSample.program.packageDeclaration? "Q").map (·.packageItems.length)
      = some 1 := by decide +kernel
  refine ⟨h, n, hn, hx, hm, d, hd, hh, ?_, ?_⟩
  · rw [hd] at hlen
    exact Option.some.inj hlen
  · exact hv _ none rfl rfl Std.TreeSet.not_mem_emptyc (by decide +kernel)

end Setting

end Conformance
