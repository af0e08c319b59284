import Conformance.Proofs.Publication

/-!
# What is declared first

A matter leads to the declarations that it consults, and the declaration of a package to the
bodies that it holds.  `Setting.Involves` is this relation in a run, and `leading_of_passes` says
that whatever is examined while an entity is decided is reached from its declaration.  So an
entity whose declaration consulted another one is published after it, unless the declaration of
the other one leads back to it or has to wait: `Setting.Places` is the invariant, and
`dependencies_first` the result for a whole program.
-/

namespace Conformance

open Relation (ReflTransGen TransGen)

/-- The entities that the declaration of an entity consulted before the entity was published.
The predicate function of a type is consulted after that. -/
def Run.checked (r : Run) (e : Entity) : List EntityId :=
  if e.predicateFunction?.isSome then (r.consultations (.declaration e.name)).tail
  else r.consultations (.declaration e.name)

/-- The declaration or the body of an entity consulted another one. -/
def Run.Consults (r : Run) (a b : EntityId) : Prop :=
  b ∈ r.consultations (.declaration a) ++ r.consultations (.body a)

namespace Setting

variable (S : Setting)

/-- A matter leads to another one in a run.  The body of an entity is reached only from what
holds it. -/
inductive Involves (r : Run) : Matter → Matter → Prop
  | consults {m : Matter} {id : EntityId} (h : .consulted (some m) id ∈ r.journal) :
    Involves r m (.declaration id)
  /-- A package leads to what has a body in its declaration, and to the body. -/
  | holds {e : Entity} {m : Matter} (he : S.program.entity e.name = .ok e)
      (hb : m.entity ∈ Node.nested (S.ownBodies e)) (hm : m.isRevocable) :
    Involves r (.declaration e.name) m

/-- The matters that a course starts from: the matter under way, and those of the bodies that
are gone through. -/
def Origin (bs : List (EntityId × List Node)) : Course → Matter → Prop
  | .decision id, m => m = .declaration id
  | .steps scope _, m => scope.matter = some m ∨ m.entity ∈ Node.nested bs ∧ m.isRevocable

/-- A course within a matter whose verdict can be withdrawn.  What it decides without resting
on it is excluded from analysis. -/
def Inner : Course → Prop
  | .decision _ => True
  | .steps scope path => scope.matter.any Matter.isRevocable = true
    ∧ ∀ id, .decide id ∈ path → S.isOff id = .ok true

variable {S} {r r₁ r' : Run}

theorem Involves.mono {m m' : Matter} (h : S.Involves r m m') (hj : r.journal ⊆ r'.journal) :
  S.Involves r' m m'
  := by
  cases h with
  | consults h => exact .consults (hj h)
  | holds he hb hm => exact .holds he hb hm

theorem reaches_mono {m m' : Matter} (h : ReflTransGen (S.Involves r) m m')
    (hj : r.journal ⊆ r'.journal) :
  ReflTransGen (S.Involves r') m m'
  := ReflTransGen.mono (fun _ _ hab => hab.mono hj) _ _ h

theorem journal_of_passes {c : Course} (p : S.Passes c r r') (h : S.Steady c.matter r) :
  r.journal ⊆ r'.journal
  := by
  obtain ⟨new, ha, -⟩ := orderly_of_passes p h.coherent h.under
  rw [ha.journal]
  exact List.subset_append_right new r.journal

/-! ### What is examined on the way -/

/-- Nothing else is examined when the decision is about an entity that is excluded from
analysis. -/
theorem eq_of_meets {id y : EntityId} (d : S.Passes (.decision id) r r')
    (ho : S.isOff id = .ok true) (hy : r.Meets r' y) :
  y = id
  := by
  have analysed {e : Entity} {mode : Option Mode × Option EntityId} {r : Run}
      (o : S.Opens e mode r) (ho : S.isOff e.name = .ok true) : False := by
    rw [o.isOff] at ho
    cases ho
  cases d with
  | known => exact absurd hy.2 hy.1
  | off => exact (mem_insert_iff.1 hy.2).resolve_right hy.1
  | reject o => exact (analysed o ho).elim
  | revoke o => exact (analysed o ho).elim
  | grant o => exact (analysed o ho).elim

/-- After a step that consults an entity the journal says so. -/
theorem consulted_of_passes {scope : Scope} {id : EntityId} {site : Site} {b : Bool}
    {path : List Step} (hs : S.Steady scope.matter r)
    (p : S.Passes (.steps scope (.consult id site b :: path)) r r') :
  .consulted scope.matter id ∈ r'.journal
  := by
  cases p with
  | plain h => cases h
  | consult d rest =>
    obtain ⟨hs₁, hx⟩ := hs.decides d
    apply journal_of_passes rest (hs₁.rest hx site)
    rw [journal_rest]
    exact List.mem_cons_self

/-- What is examined on a passage is reached from where it starts. -/
def Leading (S : Setting) (c : Course) (r r' : Run) : Prop :=
  ∀ bs, Course.Bears S c bs → S.Inner c → S.Steady c.matter r →
    ∀ y, r.Meets r' y → S.isOff y = .ok false →
      ∃ m, Origin bs c m ∧ ReflTransGen (S.Involves r') m (.declaration y)

theorem Inner.tail {scope : Scope} {s : Step} {path : List Step}
    (h : S.Inner (.steps scope (s :: path))) :
  S.Inner (.steps scope path)
  := ⟨h.1, fun id hd => h.2 id (List.mem_cons_of_mem s hd)⟩

/-- What is examined during the decision of an entity that is consulted. -/
theorem reaches_consulted {scope : Scope} {id y : EntityId} {bs : List (EntityId × List Node)}
    {path : List Step} (hi : S.Inner (.steps scope path))
    (hc : .consulted scope.matter id ∈ r'.journal)
    (h : ReflTransGen (S.Involves r₁) (.declaration id) (.declaration y))
    (hj : r₁.journal ⊆ r'.journal) :
  ∃ m, Origin bs (.steps scope path) m ∧ ReflTransGen (S.Involves r') m (.declaration y)
  := by
  obtain ⟨m, hm, -⟩ := (Option.any_eq_true _ _).1 hi.1
  rw [hm] at hc
  exact ⟨m, Or.inl hm, (reaches_mono h hj).head (.consults hc)⟩

/-- What is examined during the decision of an entity with a body on the way. -/
theorem reaches_body {scope : Scope} {id y : EntityId} {bs : List (EntityId × List Node)}
    {path : List Step} (hb : id ∈ Node.nested bs)
    (h : ReflTransGen (S.Involves r₁) (.declaration id) (.declaration y))
    (hj : r₁.journal ⊆ r'.journal) :
  ∃ m, Origin bs (.steps scope path) m ∧ ReflTransGen (S.Involves r') m (.declaration y)
  := ⟨.declaration id, Or.inr ⟨hb, rfl⟩, reaches_mono h hj⟩

/-- The bodies on a course whose first step is a body. -/
theorem bears_cons {scope : Scope} {e : Entity} {mode : Option Mode} {inner : Inquiry Unit}
    {path : List Step} {bs : List (EntityId × List Node)}
    (h : Course.Bears S (.steps scope (.body e mode inner :: path)) bs) :
  ∃ ns cs, bs = (e.name, ns) :: cs ∧ inner = S.items e.inside ns
    ∧ Course.Bears S (.steps scope path) cs
  := by
  cases h with
  | @cons _ b _ cs hb h =>
    obtain ⟨id, ns⟩ := b
    obtain ⟨he, hi⟩ : S.program.entity id = .ok e ∧ inner = S.items e.inside ns := hb
    obtain rfl := S.program.name_eq_of_entity he
    exact ⟨ns, cs, rfl, hi, h⟩

/-- What is examined during the decision of an entity is reached from it, as far as the inquiry
into the entity has come. -/
theorem reaches_opened {e : Entity} {mode : Option Mode × Option EntityId} {path : List Step}
    {m : Option Matter} (o : S.Opens e mode r) (l : (S.entityInquiry e).Leads path ())
    (ih : S.Leading (.steps (e.declarationScope mode) path) (r.open e mode) r₁)
    (hs : S.Steady m r) {y : EntityId} (hy : r.Meets r₁ y) (ho : S.isOff y = .ok false) :
  ReflTransGen (S.Involves r₁) (.declaration e.name) (.declaration y)
  := by
  have hx : (r.open e mode).verdicts.examined = r.verdicts.examined.insert e.name :=
    congrArg Register.examined (r.register_open e mode)
  by_cases hye : y = e.name
  · rw [hye]
  · have hy' : (r.open e mode).Meets r₁ y := by
      refine ⟨?_, hy.2⟩
      rw [hx, mem_insert_iff]
      exact not_or.2 ⟨hye, hy.1⟩
    have hi := regular_entityInquiry o.entity
    have hin : S.Inner (.steps (e.declarationScope mode) path) :=
      ⟨rfl, fun id hd => hi.decided l hd rfl⟩
    obtain ⟨m, hm | ⟨hb, hm⟩, h⟩ := ih _ (hi.bodies l) hin (hs.open o) y hy' ho
    · obtain rfl := Option.some.inj hm
      exact h
    · exact h.head (.holds o.entity hb hm)

theorem reaches_published {e : Entity} {mode : Option Mode × Option EntityId}
    {path path' : List Step} {m : Option Matter} {r₂ r₃ : Run} (o : S.Opens e mode r)
    (l : (S.entityInquiry e).Leads path ())
    (w : S.Passes (.steps (e.declarationScope mode) path) (r.open e mode) r₁)
    (hp : S.publish e r₁ = .ok () r₂) (l' : (predicateInquiry e).Leads path' ())
    (w' : S.Passes (.steps (e.declarationScope mode) path') r₂ r₃)
    (ih : S.Leading (.steps (e.declarationScope mode) path) (r.open e mode) r₁)
    (ih' : S.Leading (.steps (e.declarationScope mode) path') r₂ r₃)
    (hs : S.Steady m r) {y : EntityId} (hy : r.Meets r₃ y) (ho : S.isOff y = .ok false) :
  ReflTransGen (S.Involves r₃) (.declaration e.name) (.declaration y)
  := by
  have hsame := (same_publish hp).1
  have hs₂ : S.Steady (Course.steps (e.declarationScope mode) path').matter r₂ :=
    ((hs.open o).passes w).publish o.isOff hp
  by_cases hy₁ : y ∈ r₁.verdicts.examined
  · refine reaches_mono (reaches_opened o l ih hs ⟨hy.1, hy₁⟩ ho) ?_
    rw [← hsame.journal]
    exact journal_of_passes w' hs₂
  · have hy₂ : r₂.Meets r₃ y := ⟨hsame.examined ▸ hy₁, hy.2⟩
    have hi : S.Regular { declared := some e.name } (fun _ => False) [] (predicateInquiry e) :=
      regular_predicateInquiry e
    have hin : S.Inner (.steps (e.declarationScope mode) path') :=
      ⟨rfl, fun id hd => hi.decided l' hd rfl⟩
    obtain ⟨m, hm | ⟨hb, -⟩, h⟩ := ih' _ (hi.bodies l') hin hs₂ y hy₂ ho
    · obtain rfl := Option.some.inj hm
      exact h
    · exact absurd hb List.not_mem_nil

/-- What is examined during the decision of an entity that is excluded in the end. -/
theorem reaches_excluded {e : Entity} {cause : Option Site} {y : EntityId}
    (hy : r.Meets { r₁.exclude S.program e with cause } y)
    (h : r.Meets r₁ y → ReflTransGen (S.Involves r₁) (.declaration e.name) (.declaration y)) :
  ReflTransGen (S.Involves { r₁.exclude S.program e with cause }) (.declaration e.name)
    (.declaration y)
  := by
  have hx := r₁.strikes_exclude S.program e
  obtain ⟨new, hj, -⟩ := hx.journal
  have hexamined := congrArg Verdicts.examined hx.frame
  refine reaches_mono (h ⟨hy.1, hexamined ▸ hy.2⟩) ?_
  change _ ⊆ (r₁.exclude S.program e).journal
  rw [hj]
  exact List.subset_append_right new r₁.journal

/-- What is examined while a body is gone through. -/
theorem reaches_inside {scope : Scope} {e : Entity} {mode : Option Mode × Option EntityId}
    {ns : List Node} {innerPath path : List Step} {cs : List (EntityId × List Node)}
    {m : Option Matter} {r₂ : Run} (l : (S.items e.inside ns).Leads innerPath ())
    (ih : S.Leading (.steps (e.bodyScope mode) innerPath)
      (r.start (e.bodyScope mode) (.body e.name)) r₂)
    (hs : S.Steady m r) (hx : e.name ∈ r.verdicts.examined) {y : EntityId}
    (hy : r.Meets r₂ y) (ho : S.isOff y = .ok false) (hj : r₂.journal ⊆ r'.journal) :
  ∃ m, Origin ((e.name, ns) :: cs) (.steps scope path) m
    ∧ ReflTransGen (S.Involves r') m (.declaration y)
  := by
  have hi := regular_insideItems (S := S) e ns (some e.name)
  have hin : S.Inner (.steps (e.bodyScope mode) innerPath) :=
    ⟨rfl, fun id hd => hi.decided l hd rfl⟩
  have hx₀ : (r.start (e.bodyScope mode) (.body e.name)).verdicts.examined
      = r.verdicts.examined := congrArg Register.examined (r.register_start _ _)
  obtain ⟨m, hm, h⟩ := ih _ (hi.bodies l) hin (hs.start hx mode) y ⟨hx₀ ▸ hy.1, hy.2⟩ ho
  refine ⟨m, Or.inr ?_, reaches_mono h hj⟩
  obtain hm | ⟨hb, hm⟩ := hm
  · obtain rfl := Option.some.inj hm
    exact ⟨List.mem_append_left _ List.mem_cons_self, rfl⟩
  · rw [Node.nested_bodiesOf] at hb
    exact ⟨List.mem_append_left _ (List.mem_cons_of_mem _ hb), hm⟩

theorem roster_concludeBody (r : Run) (e : Entity) :
  (r.concludeBody e).verdicts.roster = r.verdicts.roster
  := by
  unfold Run.concludeBody
  split <;> rfl

/-- What is examined during a decision within a matter is reached from the entity that is
decided. -/
theorem Leading.decides {id y : EntityId} {m : Option Matter} (h : S.Leading (.decision id) r r₁)
    (hs : S.Steady m r) (hy : r.Meets r₁ y) (ho : S.isOff y = .ok false) :
  ReflTransGen (S.Involves r₁) (.declaration id) (.declaration y)
  := by
  obtain ⟨_, rfl, hreach⟩ := h [] rfl trivial hs.apart y hy ho
  exact hreach

/-- Nothing that is analysed is examined when the decision is about an entity that is excluded
from analysis. -/
theorem not_mem_of_isOff {id y : EntityId} (d : S.Passes (.decision id) r r₁)
    (hid : S.isOff id = .ok true) (hy : y ∉ r.verdicts.examined) (ho : S.isOff y = .ok false) :
  y ∉ r₁.verdicts.examined
  := by
  intro hy₁
  rw [← eq_of_meets d hid ⟨hy, hy₁⟩, ho] at hid
  cases hid

/-- A body that comes first adds to where a course starts from. -/
theorem reaches_cons {scope : Scope} {s : Step} {path : List Step} {y : EntityId}
    {b : EntityId × List Node} {bs : List (EntityId × List Node)}
    (h : ∃ m, Origin bs (.steps scope path) m
      ∧ ReflTransGen (S.Involves r) m (.declaration y)) :
  ∃ m, Origin (b :: bs) (.steps scope (s :: path)) m
    ∧ ReflTransGen (S.Involves r) m (.declaration y)
  := by
  obtain ⟨m, hm, h⟩ := h
  exact ⟨m, hm.imp_right (And.imp_left (List.mem_append_right _)), h⟩

theorem leading_of_passes {c : Course} (h : S.Passes c r r') :
  S.Leading c r r'
  := by
  induction h with
  | nil | known => exact fun _ _ _ _ y hy _ => absurd hy.2 hy.1
  | @plain scope s path r r₁ r' hp p ih =>
    intro bs hb hi hs y hy ho
    have hx : r₁.verdicts.examined = r.verdicts.examined :=
      congrArg Register.examined (register_plain hp)
    have hb : Course.Bears S (.steps scope path) bs := by
      simpa only [Course.Bears, List.filterMap_cons, body?_of_plain hp] using hb
    exact ih bs hb hi.tail (hs.plain hp) y ⟨hx ▸ hy.1, hy.2⟩ ho
  | @decide scope id path r r₁ r' d p ihd ih =>
    intro bs hb hi hs y hy ho
    have hn := not_mem_of_isOff d (hi.2 id List.mem_cons_self) hy.1 ho
    exact ih bs hb hi.tail (hs.decides d).1 y ⟨hn, hy.2⟩ ho
  | @consult scope id site path r r₁ r' d p ihd ih =>
    intro bs hb hi hs y hy ho
    obtain ⟨hs₁, hx⟩ := hs.decides d
    by_cases hy₁ : y ∈ r₁.verdicts.examined
    · have hj := journal_of_passes p (hs₁.rest hx site)
      rw [journal_rest] at hj
      exact reaches_consulted hi (hj List.mem_cons_self) (ihd.decides hs ⟨hy.1, hy₁⟩ ho)
        fun _ hm => hj (List.mem_cons_of_mem _ hm)
    · have hy₂ : (r₁.rest scope id site).Meets r' y := by
        refine ⟨?_, hy.2⟩
        rwa [examined_rest]
      exact ih bs hb hi.tail (hs₁.rest hx site) y hy₂ ho
  | @declare scope id site path r r₁ r' d hd p ihd ih =>
    intro bs hb hi hs y hy ho
    have hoff : S.isOff id = .ok true := by
      obtain hm | ⟨-, hoff⟩ := hd
      · rw [hi.1] at hm
        cases hm
      · exact hoff
    have hn := not_mem_of_isOff d hoff hy.1 ho
    exact ih bs hb hi.tail (hs.decides d).1 y ⟨hn, hy.2⟩ ho
  | @declareResting scope id site b path r r₁ r' d hm hd p ihd ih =>
    intro bs hb hi hs y hy ho
    have hs₁ := (hs.decides d).1
    by_cases hy₁ : y ∈ r₁.verdicts.examined
    · exact reaches_consulted hi (consulted_of_passes hs₁ p) (ihd.decides hs ⟨hy.1, hy₁⟩ ho)
        (journal_of_passes p hs₁)
    · refine ih bs hb ⟨hi.1, fun id' hd' => ?_⟩ hs₁ y ⟨hy₁, hy.2⟩ ho
      exact hi.tail.2 id' (List.mem_of_ne_of_mem (by simp) hd')
  | @bodyExcluded scope e mode inner path r r₁ r' d ha p ihd ih =>
    intro bs hb hi hs y hy ho
    obtain ⟨ns, cs, rfl, -, hb⟩ := bears_cons hb
    have hs₁ := (hs.decides d).1.inheritCause e
    have hx := (r₁.same_inheritCause e).examined
    by_cases hy₁ : y ∈ r₁.verdicts.examined
    · have hj := journal_of_passes p hs₁
      exact reaches_body List.mem_cons_self (ihd.decides hs ⟨hy.1, hy₁⟩ ho) hj
    · exact reaches_cons (ih cs hb hi.tail hs₁ y ⟨hx ▸ hy₁, hy.2⟩ ho)
  | @bodyOff scope e mode inner anchor path r r₁ r' d ha hm p ihd ih =>
    intro bs hb hi hs y hy ho
    obtain ⟨ns, cs, rfl, -, hb⟩ := bears_cons hb
    have hs₁ := (hs.decides d).1
    by_cases hy₁ : y ∈ r₁.verdicts.examined
    · exact reaches_body List.mem_cons_self (ihd.decides hs ⟨hy.1, hy₁⟩ ho)
        (journal_of_passes p hs₁)
    · exact reaches_cons (ih cs hb hi.tail hs₁ y ⟨hy₁, hy.2⟩ ho)
  | @body scope e mode inner mode' path innerPath r r₁ r₂ r' d ha hm hn l w p ihd ihw ih =>
    intro bs hb hi hs y hy ho
    obtain ⟨ns, cs, rfl, rfl, hb'⟩ := bears_cons hb
    obtain ⟨hs₁, hx⟩ := hs.decides d
    have hs₂ := hs₁.body hx w r₁.cause
    have hj : r₂.journal ⊆ r'.journal := by
      obtain ⟨verdict, hv, -⟩ := r₂.journal_concludeBody e
      have hj := journal_of_passes p hs₂
      rw [hv] at hj
      exact List.Subset.trans (List.subset_append_right _ _) hj
    by_cases hy₂ : y ∈ r₂.verdicts.examined
    · by_cases hy₁ : y ∈ r₁.verdicts.examined
      · have hj₁ := journal_of_passes w (hs₁.start hx mode')
        rw [Run.journal_start] at hj₁
        exact reaches_body List.mem_cons_self (ihd.decides hs ⟨hy.1, hy₁⟩ ho)
          fun _ hm => hj (hj₁ (List.mem_cons_of_mem _ hm))
      · exact reaches_inside l ihw hs₁ hx ⟨hy₁, hy₂⟩ ho hj
    · have hx₂ : (r₂.concludeBody e).verdicts.examined = r₂.verdicts.examined := by
        unfold Run.concludeBody
        split <;> rfl
      exact reaches_cons (ih cs hb' hi.tail hs₂ y ⟨hx₂ ▸ hy₂, hy.2⟩ ho)
  | @off e anchor r he hf hm =>
    intro bs hb _ _ y hy _
    obtain rfl := (mem_insert_iff.1 hy.2).resolve_right hy.1
    exact ⟨_, rfl, .refl⟩
  | @reject e mode path r r₁ o l w hv ih =>
    intro bs hb _ hs y hy ho
    exact ⟨_, rfl, reaches_excluded hy fun hy₁ => reaches_opened o l ih hs hy₁ ho⟩
  | @revoke e mode path path' r r₁ r₂ r₃ o l w _ _ hp l' w' _ ih ih' =>
    intro bs hb _ hs y hy ho
    exact ⟨_, rfl, reaches_excluded hy fun hy₃ =>
      reaches_published o l w hp l' w' ih ih' hs hy₃ ho⟩
  | @grant e mode path path' r r₁ r₂ r₃ o l w _ _ hp l' w' _ ih ih' =>
    intro bs hb _ hs y hy ho
    have h := reaches_published o l w hp l' w' ih ih' hs hy ho
    exact ⟨_, rfl, reaches_mono h (List.Subset.refl _)⟩

/-! ### What is published before what -/

/-- What an entity consulted before another one was published is ahead of it, unless it is never
published, or is busy still, or its declaration leads to that of the other one. -/
def Behind (S : Setting) (busy : List EntityId) (r : Run) (x e : EntityId) : Prop :=
  S.Arrived r x e ∨ ¬ S.Publishes x ∨ x ∈ busy
    ∨ TransGen (S.Involves r) (.declaration x) (.declaration e)

/-- Entities in the line come after what their declarations consulted, apart from entities
that are busy. -/
def Places (S : Setting) (busy : List EntityId) (r : Run) : Prop :=
  ∀ e, S.program.entity e.name = .ok e → e.name ∈ r.verdicts.roster.line → e.name ∉ busy →
    ∀ x ∈ r.checked e, S.Behind busy r x e.name

variable {under busy : List EntityId}

theorem Behind.later {x e : EntityId} (h : S.Behind busy r x e) (hl : S.Lists under r r')
    (hj : r.journal ⊆ r'.journal) :
  S.Behind busy r' x e
  := by
  obtain h | h | h | h := h
  · exact Or.inl (hl.ahead x e h)
  · exact Or.inr (Or.inl h)
  · exact Or.inr (Or.inr (Or.inl h))
  · exact Or.inr (Or.inr (Or.inr (TransGen.mono (fun _ _ hab => hab.mono hj) _ _ h)))

theorem Behind.busier {x e : EntityId} (h : S.Behind busy r x e) (y : EntityId) :
  S.Behind (y :: busy) r x e
  := h.imp_right (Or.imp_right (Or.imp_left (List.mem_cons_of_mem y)))

theorem mem_checked {x : EntityId} {e : Entity} (h : x ∈ r.checked e) :
  .consulted (some (.declaration e.name)) x ∈ r.journal
  := by
  apply Run.mem_consultations.1
  unfold Run.checked at h
  split at h
  · exact List.mem_of_mem_tail h
  · exact h

theorem consultations_of_journal {m : Matter} {new : List Event}
    (hj : r'.journal = new ++ r.journal) (hn : ∀ event ∈ new, event.owner ≠ some m) :
  r'.consultations m = r.consultations m
  := by
  have hnil : new.filterMap (Event.consulted? m) = [] := by
    rw [List.filterMap_eq_nil_iff]
    intro event he
    have hne := hn event he
    unfold Event.consulted?
    split
    · rw [if_neg]
      rintro rfl
      exact hne rfl
    · rfl
  rw [Run.consultations, hj, List.filterMap_append, hnil, List.nil_append]
  rfl

/-- An entity that was examined consults nothing any more, unless its declaration is under
way. -/
theorem consultations_of_advances {m : Option Matter} {new : List Event} {z : EntityId}
    (ha : r.Advances m new r') (hz : z ∈ r.verdicts.examined)
    (hm : m ≠ some (.declaration z)) :
  r'.consultations (.declaration z) = r.consultations (.declaration z)
  := by
  apply consultations_of_journal ha.journal
  intro event he ho
  obtain h | h := ha.owned event he _ ho rfl
  · exact hm h
  · exact ha.began z hz h

theorem consultations_of_strikes {id : EntityId} (hx : r.Strikes id r') (m : Matter) :
  r'.consultations m = r.consultations m
  := by
  obtain ⟨new, hj, hn⟩ := hx.journal
  apply consultations_of_journal hj
  intro event he ho
  obtain ⟨x, cause, rfl⟩ := hn event he
  cases ho

/-- What happens without an entity being published leaves the others in their places. -/
theorem Places.later (h : S.Places busy r) (hl : S.Lists under r r')
    (hline : ∀ z ∈ r'.verdicts.roster.line, z ∉ busy → z ∈ r.verdicts.roster.line)
    (hj : r.journal ⊆ r'.journal)
    (hc : ∀ z ∈ r.verdicts.roster.line, z ∉ busy →
      r'.consultations (.declaration z) = r.consultations (.declaration z)) :
  S.Places busy r'
  := by
  intro e he hm hb x hx
  have hm₀ := hline _ hm hb
  refine (h e he hm₀ hb x ?_).later hl hj
  unfold Run.checked at hx ⊢
  rwa [hc _ hm₀ hb] at hx

theorem Places.busier (h : S.Places busy r) (y : EntityId) :
  S.Places (y :: busy) r
  := fun e he hm hb x hx =>
    (h e he hm (fun hb' => hb (List.mem_cons_of_mem y hb')) x hx).busier y

theorem Listing.examined {z : EntityId} (h : S.Listing under r) (hr : r.Coherent)
    (hz : z ∈ r.verdicts.roster.line) :
  z ∈ r.verdicts.examined
  := hr.mem_examined z ((h.mem_line z).1 hz).1

/-- A passage on which no entity is published. -/
theorem Places.advances {under' : List EntityId} {m : Option Matter} {new : List Event}
    (h : S.Places busy r) (hL : S.Listing under r) (hr : r.Coherent) (hl : S.Lists under' r r')
    (ha : r.Advances m new r') (hm : ∀ z, m = some (.declaration z) → z ∈ busy)
    (hline : r'.verdicts.roster = r.verdicts.roster) :
  S.Places busy r'
  := by
  apply h.later hl
  · rw [hline]
    exact fun _ hz _ => hz
  · rw [ha.journal]
    exact List.subset_append_right new r.journal
  · intro z hz hb
    exact consultations_of_advances ha (hL.examined hr hz) fun hm' => hb (hm z hm')

/-- Nothing happens that the order of declarations is about. -/
theorem Places.still {new : List Event} (h : S.Places busy r) (hl : S.Lists under r r')
    (hline : r'.verdicts.roster = r.verdicts.roster) (hj : r'.journal = new ++ r.journal)
    (hn : ∀ event ∈ new, event.owner = none) :
  S.Places busy r'
  := by
  apply h.later hl
  · rw [hline]
    exact fun _ hz _ => hz
  · rw [hj]
    exact List.subset_append_right new r.journal
  · exact fun z _ _ => consultations_of_journal hj fun event he => by simp [hn event he]

/-- The order of declarations while entities are under decision: what is in the line is in its
place, apart from the entities that are busy. -/
structure Placed (S : Setting) (under busy : List EntityId) (r : Run) : Prop where
  listing : S.Listing under r
  examined : ∀ x ∈ under, x ∈ r.verdicts.examined
  within : under ⊆ busy
  places : S.Places busy r

theorem Placed.lists (h : S.Placed under busy r) (hl : S.Lists under r r')
    (hp : S.Places busy r') :
  S.Placed under busy r'
  := ⟨hl.listing, fun x hx => hl.examined x (h.examined x hx), h.within, hp⟩

theorem Placed.advances {m : Option Matter} {new : List Event} (h : S.Placed under busy r)
    (hr : r.Coherent) (hl : S.Lists under r r') (ha : r.Advances m new r')
    (hm : ∀ z, m = some (.declaration z) → z ∈ busy)
    (hline : r'.verdicts.roster = r.verdicts.roster) :
  S.Placed under busy r'
  := h.lists hl (h.places.advances h.listing hr hl ha hm hline)

theorem Placed.still {new : List Event} (h : S.Placed under busy r) (hl : S.Lists under r r')
    (hline : r'.verdicts.roster = r.verdicts.roster) (hj : r'.journal = new ++ r.journal)
    (hn : ∀ event ∈ new, event.owner = none) :
  S.Placed under busy r'
  := h.lists hl (h.places.still hl hline hj hn)

/-- What holds of a passage in the way of places. -/
def Placing (S : Setting) (c : Course) (r r' : Run) : Prop :=
  ∀ under busy, S.Placed under busy r → S.Steady c.matter r →
    (∀ z, c.matter = some (.declaration z) → z ∈ busy) → S.Placed under busy r'

/-- When the decision of an entity ends, the entity is no longer busy: whatever was placed in
the meantime is reached from it. -/
theorem Places.settle {e : Entity} {m : Option Matter} (p : S.Passes (.decision e.name) r r')
    (hs : S.Steady m r) (hf : e.name ∉ r.verdicts.examined) (hL : S.Listing under r')
    (h : S.Places (e.name :: busy) r')
    (he : e.name ∈ r'.verdicts.roster.line →
      ∀ x ∈ r'.checked e, S.Behind (e.name :: busy) r' x e.name)
    (hentity : S.program.entity e.name = .ok e) :
  S.Places busy r'
  := by
  intro z hz hline hb x hx
  have hs' := (hs.decides p).1
  by_cases hze : z.name = e.name
  · obtain rfl : e = z := Except.ok.inj (hentity.symm.trans (hze ▸ hz))
    obtain h | h | h | h := he hline x hx
    · exact Or.inl h
    · exact Or.inr (Or.inl h)
    · obtain rfl | h := List.mem_cons.1 h
      · exact Or.inr (Or.inr (Or.inr (.single (.consults (mem_checked hx)))))
      · exact Or.inr (Or.inr (Or.inl h))
    · exact Or.inr (Or.inr (Or.inr h))
  · obtain h | h | h | h := h z hz hline (by simp [hze, hb]) x hx
    · exact Or.inl h
    · exact Or.inr (Or.inl h)
    · obtain rfl | h := List.mem_cons.1 h
      · have ha := ((hL.mem_line z.name).1 hline).1
        have hmeets : r.Meets r' z.name := by
          refine ⟨fun hzx => ?_, hs'.coherent.mem_examined _ ha⟩
          -- What consulted `e` before it was examined did not exist.
          obtain ⟨new, hadv, -⟩ := orderly_of_passes p hs.coherent (under_decision _ _)
          have hc := Run.mem_consultations.2 (mem_checked hx)
          rw [consultations_of_advances hadv hzx nofun] at hc
          exact hf (hs.coherent.examined_of_consulted _ _ (Run.mem_consultations.1 hc))
        obtain ⟨_, rfl, hreach⟩ := leading_of_passes p [] rfl trivial hs.apart _ hmeets
          (hs'.sorted.analysed z.name (Or.inl ha))
        obtain heq | hreach := Relation.reflTransGen_iff_eq_or_transGen.1 hreach
        · exact absurd (Matter.declaration.inj heq) hze
        · exact Or.inr (Or.inr (Or.inr hreach))
      · exact Or.inr (Or.inr (Or.inl h))
    · exact Or.inr (Or.inr (Or.inr h))

/-- What the inquiry into an entity comes to. -/
theorem placed_opened {e : Entity} {mode : Option Mode × Option EntityId} {path : List Step}
    {m : Option Matter} (o : S.Opens e mode r)
    (ih : S.Placing (.steps (e.declarationScope mode) path) (r.open e mode) r₁)
    (h : S.Placed under busy r) (hs : S.Steady m r) :
  S.Placed (e.name :: under) (e.name :: busy) r₁
  := by
  obtain ⟨ha, -, -, hx⟩ := Run.open_step hs.coherent o.fresh mode
  have hl := h.listing.open hs.coherent o
  have hline : (r.open e mode).verdicts.roster = r.verdicts.roster :=
    congrArg Register.roster (r.register_open e mode)
  refine ih _ _ ⟨hl.listing, ?_, List.cons_subset_cons _ h.within, ?_⟩ (hs.open o) ?_
  · intro x hm
    obtain rfl | hm := List.mem_cons.1 hm
    · exact hx
    · exact hl.examined x (h.examined x hm)
  · exact (h.places.busier e.name).advances h.listing hs.coherent hl ha nofun hline
  · rintro z ⟨⟩
    exact List.mem_cons_self

/-- An entity that is published comes after what its declaration consulted. -/
theorem behind_publish {e : Entity} {r₂ : Run} (hL : S.Listing (e.name :: under) r₁)
    (hub : under ⊆ busy) (hr : r₁.Coherent) (hl : S.Lists under r₁ r₂)
    (hp : ∀ x ∈ r₁.verdicts.roster.line, S.Arrived r₂ x e.name) {x : EntityId}
    (hx : x ∈ r₁.consultations (.declaration e.name)) :
  S.Behind (e.name :: busy) r₂ x e.name
  := by
  by_cases hm : x ∈ r₁.verdicts.roster.line
  · exact Or.inl (hp x hm)
  · have hexamined := hr.examined_of_consulted _ x (Run.mem_consultations.1 hx)
    rw [hL.mem_line x, not_and_or, not_and_or, not_not] at hm
    obtain ha | hpub | hu := hm
    · exact Or.inl (hl.ahead x e.name (.gone (Or.inl ⟨hexamined, ha⟩)))
    · exact Or.inr (Or.inl hpub)
    · exact Or.inr (Or.inr (Or.inl (List.cons_subset_cons _ hub hu)))

/-- What the declaration of an entity consulted before the predicate function. -/
theorem checked_of_predicate {e : Entity} {mode : Option Mode × Option EntityId}
    {path' : List Step} {m : Option Matter} {r₂ r₃ : Run}
    (l' : (predicateInquiry e).Leads path' ())
    (w' : S.Passes (.steps (e.declarationScope mode) path') r₂ r₃) (hs : S.Steady m r₂)
    (hx : e.name ∈ r₂.verdicts.examined) {x : EntityId} (hc : x ∈ r₃.checked e) :
  x ∈ r₂.consultations (.declaration e.name)
  := by
  unfold predicateInquiry at l'
  unfold Run.checked at hc
  cases hf : e.predicateFunction? with
  | none =>
    rw [hf] at l' hc
    obtain ⟨rfl, -⟩ := Inquiry.leads_pure.1 l'
    cases w'
    exact hc
  | some function =>
    rw [hf] at l' hc
    cases l' with
    | step t l' =>
      cases t with
      | consult b =>
        obtain ⟨rfl, -⟩ := Inquiry.leads_pure.1 l'
        cases w' with
        | plain h => cases h
        | @consult _ _ _ _ _ r₄ _ d w' =>
          cases w' with
          | nil =>
            obtain ⟨new, ha, -⟩ := orderly_of_passes d hs.coherent (under_decision _ _)
            rw [← consultations_of_advances ha hx nofun]
            have hj : (r₄.rest (e.declarationScope mode) function e.site).consultations
                (.declaration e.name)
                = function :: r₄.consultations (.declaration e.name) := by
              rw [Run.consultations, journal_rest]
              simp [Entity.declarationScope, Event.consulted?, Run.consultations]
            rw [hj] at hc
            exact hc

/-- What the inquiry into the predicate of an entity comes to once the entity is published. -/
theorem placed_published {e : Entity} {mode : Option Mode × Option EntityId}
    {path path' : List Step} {m : Option Matter} {r₂ r₃ : Run} (o : S.Opens e mode r)
    (w : S.Passes (.steps (e.declarationScope mode) path) (r.open e mode) r₁)
    (hp : S.publish e r₁ = .ok () r₂) (l' : (predicateInquiry e).Leads path' ())
    (w' : S.Passes (.steps (e.declarationScope mode) path') r₂ r₃)
    (ih : S.Placing (.steps (e.declarationScope mode) path) (r.open e mode) r₁)
    (ih' : S.Placing (.steps (e.declarationScope mode) path') r₂ r₃)
    (h : S.Placed under busy r) (hs : S.Steady m r) :
  S.Placed under (e.name :: busy) r₃ ∧ (e.name ∈ r₃.verdicts.roster.line →
    ∀ x ∈ r₃.checked e, S.Behind (e.name :: busy) r₃ x e.name)
  := by
  have h₁ := placed_opened o ih h hs
  have hs₁ := (hs.open o).passes w
  have ha := admitted_of_passes o w hs.coherent
  obtain ⟨hl₂, harrived⟩ :=
    h₁.listing.publish o.entity ha (fun hm => o.fresh (h.examined _ hm)) hp
  have hsame := (same_publish hp).1
  have hplaces : S.Places (e.name :: busy) r₂ := by
    apply h₁.places.later hl₂
    · intro z hz hb
      obtain ⟨hadmitted, hpub, hzu⟩ := (hl₂.listing.mem_line z).1 hz
      apply (h₁.listing.mem_line z).2
      exact ⟨hsame.admitted ▸ hadmitted, hpub, fun hm => hb (h₁.within hm)⟩
    · rw [hsame.journal]
      exact List.Subset.refl _
    · intro z _ _
      rw [Run.consultations, hsame.journal, Run.consultations]
  have h₂ : S.Placed under (e.name :: busy) r₂ :=
    ⟨hl₂.listing, fun x hx => hl₂.examined x (h₁.examined x (List.mem_cons_of_mem _ hx)),
      fun x hx => List.mem_cons_of_mem _ (h.within hx), hplaces⟩
  have hs₂ : S.Steady (Course.steps (e.declarationScope mode) path').matter r₂ :=
    hs₁.publish o.isOff hp
  have hl₃ := lists_of_passes w' under h₂.listing h₂.examined hs₂
  constructor
  · apply ih' _ _ h₂ hs₂
    rintro z ⟨⟩
    exact List.mem_cons_self
  · intro hline x hx
    have hpub := ((hl₃.listing.mem_line e.name).1 hline).2.1
    have hexamined : e.name ∈ r₂.verdicts.examined :=
      hs₂.coherent.mem_examined _ (hsame.admitted ▸ ha)
    have hx₁ := checked_of_predicate l' w' hs₂ hexamined hx
    rw [Run.consultations, hsame.journal] at hx₁
    have hb := behind_publish h₁.listing h.within hs₁.coherent hl₂
      (fun x hm => harrived x hm hpub) hx₁
    exact hb.later hl₃ (journal_of_passes w' hs₂)

/-- The exclusion of an entity leaves the others in their places. -/
theorem Places.excise {id : EntityId} {cause : Site} (h : S.Places busy r)
    (hL : S.Listing under r) (hr : r.Coherent) (hx : r.Excises id cause r') :
  S.Places busy r'
  := by
  obtain ⟨new, hj, -⟩ := hx.strikes.journal
  apply h.later (hL.excise hr hx)
  · intro z hz _
    obtain ⟨keep, hk, -⟩ := hx.writes.roster
    rw [hk] at hz
    exact (Roster.mem_line_restrict.1 hz).1
  · rw [hj]
    exact List.subset_append_right new r.journal
  · exact fun z _ _ => consultations_of_strikes hx.strikes _

/-- When an entity is excluded at the end of its decision, the others stay in their places. -/
theorem Placed.exclude {e : Entity} {m : Option Matter} (h : S.Placed under busy r)
    (hp : S.Places (e.name :: busy) r₁)
    (hL : S.Listing under r₁ ∨ S.Listing (e.name :: under) r₁)
    (hx : ∀ x ∈ under, x ∈ r₁.verdicts.examined) (hr₁ : r₁.Coherent)
    (p : S.Passes (.decision e.name) r { r₁.exclude S.program e with cause := r.cause })
    (hs : S.Steady m r) (hf : e.name ∉ r.verdicts.examined)
    (hentity : S.program.entity e.name = .ok e) :
  S.Placed under busy { r₁.exclude S.program e with cause := r.cause }
  := by
  have hexcises := r₁.excises_exclude S.program e
  have hl := Listing.exclude e hL hr₁ r.cause
  have h₂ : S.Places (e.name :: busy) (r₁.exclude S.program e) := by
    obtain hL | hL := hL
    · exact hp.excise hL hr₁ hexcises
    · exact hp.excise hL hr₁ hexcises
  have h₃ : S.Places (e.name :: busy) { r₁.exclude S.program e with cause := r.cause } :=
    h₂.still (Listing.same ⟨hl.listing.lined, hl.listing.mem_line⟩ rfl) rfl
      (List.nil_append _).symm (by simp)
  refine ⟨hl.listing, fun x hm => hl.examined x (hx x hm), h.within, ?_⟩
  apply h₃.settle p hs hf hl.listing _ hentity
  intro hline
  exact absurd ((hl.listing.mem_line _).1 hline).1 hexcises.strikes.gone

/-- A passage places what is published on it. -/
theorem placing_of_passes {c : Course} (h : S.Passes c r r') :
  S.Placing c r r'
  := by
  induction h with
  | nil | known => exact fun _ _ h _ _ => h
  | @plain scope s path r r₁ r' hp p ih =>
    intro under busy h hs hm
    have hg := register_plain hp
    obtain ⟨new, ha, -⟩ := plain_step hp hs.coherent hs.under
    have h₁ := h.advances hs.coherent (h.listing.same hg) ha hm (congrArg Register.roster hg)
    exact ih under busy h₁ (hs.plain hp) hm
  | decide d _ ihd ih | declare d _ _ ihd ih | declareResting d _ _ _ ihd ih
  | bodyOff d _ _ _ ihd ih =>
    intro under busy h hs hm
    exact ih under busy (ihd under busy h hs.apart nofun) (hs.decides d).1 hm
  | @consult scope id site path r r₁ r' d p ihd ih =>
    intro under busy h hs hm
    have h₁ := ihd under busy h hs.apart nofun
    obtain ⟨hs₁, hx⟩ := hs.decides d
    have hg := r₁.register_rest scope id site
    have ha := (Run.rest_step hs₁.coherent hs₁.under hx site).1
    have h₂ := h₁.advances hs₁.coherent (h₁.listing.same hg) ha hm (congrArg Register.roster hg)
    exact ih under busy h₂ (hs₁.rest hx site) hm
  | @bodyExcluded scope e mode inner path r r₁ r' d _ p ihd ih =>
    intro under busy h hs hm
    have h₁ := ihd under busy h hs.apart nofun
    have h₂ := h₁.still (h₁.listing.inheritCause e) (roster_inheritCause r₁ e)
      ((r₁.same_inheritCause e).journal.trans (List.nil_append _).symm) (by simp)
    exact ih under busy h₂ ((hs.decides d).1.inheritCause e) hm
  | @body scope e mode inner mode' path innerPath r r₁ r₂ r' d _ _ _ _ w p ihd ihw ih =>
    intro under busy h hs hm
    have h₁ := ihd under busy h hs.apart nofun
    obtain ⟨hs₁, hx⟩ := hs.decides d
    have hg := r₁.register_start (e.bodyScope mode') (.body e.name)
    have h₂ := h₁.advances hs₁.coherent (h₁.listing.same hg)
      (r₁.advances_start (e.bodyScope mode') e.name) nofun (congrArg Register.roster hg)
    have h₃ := ihw under busy h₂ (hs₁.start hx mode') (by rintro z ⟨⟩)
    obtain ⟨verdict, hj, hv⟩ := r₂.journal_concludeBody e
    have h₄ := h₃.still (h₃.listing.concludeBody e r₁.cause) (roster_concludeBody r₂ e) hj
      fun event he => by rw [hv event he]; rfl
    exact ih under busy h₄ (hs₁.body hx w r₁.cause) hm
  | @off e anchor r he hf hm =>
    intro under busy h hs _
    have hl : S.Lists under r (r.examine e.name) :=
      h.listing.stays (fun x hx => mem_insert_iff.2 (Or.inr hx)) rfl rfl
    exact h.advances hs.coherent hl Run.advances_examine nofun rfl
  | @reject e mode path r r₁ o l w hv ih =>
    intro under busy h hs _
    have h₁ := placed_opened o ih h hs
    exact h.exclude h₁.places (Or.inr h₁.listing)
      (fun x hx => h₁.examined x (List.mem_cons_of_mem _ hx)) ((hs.open o).passes w).coherent
      (.reject o l w hv) hs o.fresh o.entity
  | @revoke e mode path path' r r₁ r₂ r₃ o l w hv ha hp l' w' hv' ih ih' =>
    intro under busy h hs _
    have hs₂ : S.Steady (Course.steps (e.declarationScope mode) path').matter r₂ :=
      ((hs.open o).passes w).publish o.isOff hp
    obtain ⟨h₃, -⟩ := placed_published o w hp l' w' ih ih' h hs
    exact h.exclude h₃.places (Or.inl h₃.listing) h₃.examined (hs₂.passes w').coherent
      (.revoke o l w hv ha hp l' w' hv') hs o.fresh o.entity
  | @grant e mode path path' r r₁ r₂ r₃ o l w hv ha hp l' w' hv' ih ih' =>
    intro under busy h hs _
    obtain ⟨h₃, he⟩ := placed_published o w hp l' w' ih ih' h hs
    have hl₄ : S.Lists under r₃ { r₃.follow e.followers with cause := r.cause } :=
      h₃.listing.same rfl
    have h₄ := h₃.still hl₄ rfl (List.nil_append _).symm (by simp)
    refine ⟨h₄.listing, h₄.examined, h.within, ?_⟩
    apply h₄.places.settle (.grant o l w hv ha hp l' w' hv') hs o.fresh h₄.listing _ o.entity
    exact fun hline x hx => (he hline x hx).later hl₄ (List.Subset.refl _)

/-! ### Stages -/

theorem placed_empty :
  S.Placed [] [] {}
  := ⟨listing_empty, by simp, List.Subset.refl _, by simp [Places, Roster.line]⟩

theorem Placed.calm (h : S.Placed under busy r) (hc : r.Calm r') :
  S.Placed under busy r'
  := by
  obtain ⟨new, hj, hn⟩ := hc.journal
  have hl := h.listing.same hc.register
  refine h.lists hl (h.places.later hl ?_ ?_ ?_)
  · rw [show r'.verdicts.roster = r.verdicts.roster from congrArg Register.roster hc.register]
    exact fun _ hz _ => hz
  · rw [hj]
    exact List.subset_append_right new r.journal
  · intro z _ _
    apply consultations_of_journal hj
    intro event he ho
    obtain ⟨t, rfl⟩ := hn event he
    cases ho

theorem placed_of_stage {ns : List Node} (st : S.Stage ns r r') (h : S.Placed [] [] r)
    (hs : S.Steady none r) :
  S.Placed [] [] r'
  := by
  obtain ⟨c, r₁, r₂, hc₁, ho, hs₁, p, hc₂⟩ := st.parts hs
  have hm (z : EntityId) (hz : c.matter = some (.declaration z)) : z ∈ [] := by
    cases ho.matter _ hz
  have h₂ := placing_of_passes p [] [] (h.calm hc₁) hs₁ hm
  obtain hc₂ | ⟨access, type, cause, -, -, -, -, rfl⟩ := hc₂
  · exact h₂.calm hc₂
  · obtain ⟨he, -⟩ | ⟨-, hx⟩ := r₂.excises_takeBack S.program access type cause
    · rwa [he]
    · have hr₂ := (hs₁.passes p).coherent
      exact h₂.lists (h₂.listing.excise hr₂ hx) (h₂.places.excise h₂.listing hr₂ hx)

theorem placed_of_proceeds {ns : List Node} (p : S.Proceeds ns r r') (h : S.Placed [] [] r)
    (hs : S.Steady none r) :
  S.Placed [] [] r'
  := by
  induction p with
  | nil => exact h
  | cons st _ ih => exact ih (placed_of_stage st h hs) (hs.stage st)

/-! ### The order of a program -/

/-- In the final order, an entity comes before another one whose declaration consulted it before
that was published.  The declaration of the first entity must not lead back to that of the other
one.  If the first one awaits something, that has to come before the other one too; and if what
the other one awaits is something else that awaits it in turn, this has to come before it. -/
theorem dependencies_first {S : Setting} {r : Run} (h : S.wholeProgram {} = .ok () r)
    {e : Entity} {x : EntityId} (he : S.program.entity e.name = .ok e) (hx : x ∈ r.checked e)
    (hme : e.name ∈ r.verdicts.roster.entries) (hmx : x ∈ r.verdicts.roster.entries)
    (hn : ¬ TransGen (S.Involves r) (.declaration x) (.declaration e.name))
    (hp : ∀ p, S.Awaits x p → Precedes r.verdicts.roster.entries p e.name
      ∧ ∀ q, S.Awaits e.name q → TransGen S.Awaits q p →
        q = p ∨ Precedes r.verdicts.roster.entries q p) :
  Precedes r.verdicts.roster.entries x e.name
  := by
  obtain ⟨r₁, hproceeds, -, rfl⟩ := proceeds_wholeProgram h
  obtain ⟨hl, -, -, hplaces⟩ := placed_of_proceeds hproceeds placed_empty steady_empty
  have hentries : (r₁.rule fun v => { v with roster := v.roster.close }).verdicts.roster.entries
      = r₁.verdicts.roster.line := Roster.entries_close hl.lined.nodup_line
  rw [hentries] at hme hmx hp ⊢
  obtain ha | hpub | hb | hi := hplaces e he hme List.not_mem_nil x hx
  · exact ha.precedes_line hl.lined (fun y hy => hl.not_gone hy) hmx hme hp
  · exact absurd ((hl.mem_line x).1 hmx).2.1 hpub
  · exact absurd hb List.not_mem_nil
  · exact absurd (TransGen.mono (fun _ _ hab => hab.mono (List.Subset.refl _)) _ _ hi) hn

/-- A declaration that consults nothing and holds no bodies leads nowhere. -/
theorem not_leads {e : Entity} {m : Matter} (he : S.program.entity e.name = .ok e)
    (hc : r.consultations (.declaration e.name) = []) (ho : S.ownBodies e = []) :
  ¬ TransGen (S.Involves r) (.declaration e.name) m
  := by
  intro h
  obtain ⟨m', h, -⟩ := TransGen.head'_iff.1 h
  generalize hm : Matter.declaration e.name = m₀ at h
  cases h with
  | consults h =>
    rw [← hm, ← Run.mem_consultations, hc] at h
    cases h
  | @holds e' _ he' hb _ =>
    rw [← Matter.declaration.inj hm] at he'
    obtain rfl := Except.ok.inj (he.symm.trans he')
    rw [ho] at hb
    cases hb

/-- Consultations do not lead out of a list of entities that is closed under them. -/
theorem not_consults (ids : List EntityId) {a b : EntityId} (ha : a ∈ ids) (hb : b ∉ ids)
    (h : ∀ x ∈ ids, ∀ y ∈ r.consultations (.declaration x) ++ r.consultations (.body x), y ∈ ids) :
  ¬ TransGen r.Consults a b
  := by
  intro hab
  have closed (y : EntityId) (hy : TransGen r.Consults a y) : y ∈ ids := by
    induction hy with
    | single hay => exact h a ha _ hay
    | tail _ hxy ih => exact h _ ih _ hxy
  exact hb (closed b hab)

/-- A subtype of a full view, whose constraint calls a function. -/
def boundedSubtype : Entity :=
  { name := "S", kind := .type { definition := .subtype "F" [.plain (.call "G" [])] } }

/-- A private type, its full view, and a subtype whose constraint calls a function, in the body
of which the subtype is declared again. -/
def subtypeSample : Setting :=
  (ofParts?
    [{ name := "P", kind := .type { definition := .partialView (some "F") [] false } },
      { name := "F", kind := .type { definition := .signed 0 9 } },
      { name := "G", kind := .subprogram { kind := .function } }, boundedSubtype]
    [.plain (.declaration .type "P"), .plain (.declaration .type "S"),
      .plain (.body .subprogram "G" none [.plain (.declaration .type "S")] [])]).get
    (by decide +kernel)

theorem dependencies_first_subtypeSample :
  let r := (subtypeSample.wholeProgram.after {}).2
  subtypeSample.wholeProgram {} = .ok () r
    ∧ subtypeSample.Awaits "F" "P" ∧ Precedes r.verdicts.roster.entries "F" "S"
    ∧ "S" ∈ r.consultations (.body "G") ∧ Precedes r.verdicts.roster.entries "G" "S"
  := by
  have h : subtypeSample.wholeProgram {} = .ok () (subtypeSample.wholeProgram.after {}).2 :=
    Act.eq_ok_of_after (by decide +kernel)
  have hF : subtypeSample.Awaits "F" "P" := ⟨_, rfl, rfl, by decide⟩
  refine ⟨h, hF, ?_, by decide +kernel, ?_⟩
  · apply dependencies_first h (e := boundedSubtype)
    · rfl
    · decide +kernel
    · decide +kernel
    · decide +kernel
    · exact not_leads (e := { name := "F", kind := .type { definition := .signed 0 9 } }) rfl
        (by decide +kernel) rfl
    · intro p hp
      obtain rfl := awaits_unique _ _ _ hF hp
      refine ⟨by decide +kernel, ?_⟩
      rintro q ⟨e, he, hq, -⟩
      cases he
      cases hq
  · apply dependencies_first h (e := boundedSubtype)
    · rfl
    · decide +kernel
    · decide +kernel
    · decide +kernel
    · exact not_leads (e := { name := "G", kind := .subprogram { kind := .function } }) rfl
        (by decide +kernel) rfl
    · rintro p ⟨e, he, hp, -⟩
      cases he
      cases hp

/-- What a plain order would rule out: the run of the whole program lists two entities, the
declaration of one consulted the other one, no consultations lead back, and the other one does
not come first. -/
def Overtakes (a x : EntityId) : Prop :=
  let r := (S.wholeProgram.after {}).2
  S.wholeProgram {} = .ok () r ∧ x ∈ r.consultations (.declaration a)
    ∧ a ∈ r.verdicts.roster.entries ∧ x ∈ r.verdicts.roster.entries
    ∧ ¬ TransGen r.Consults x a ∧ ¬ Precedes r.verdicts.roster.entries x a

/-- A private type and its full view. -/
def partialSample : Setting :=
  (ofParts?
    [{ name := "P", kind := .type { definition := .partialView (some "F") [] false } },
      { name := "F", kind := .type { definition := .signed 0 9 } }]
    [.plain (.declaration .type "P")]).get (by decide +kernel)

/-- A private type, a full view that is a protected type, a function in the scope of the
private type, which is a full view itself, and a procedure of the protected type that calls the
function. -/
def scopesSample : Setting :=
  (ofParts?
    [{ name := "O", kind := .type { definition := .partialView (some "P") [] false } },
      { name := "P", kind := .type { definition := .partialView (some "F") [] false } },
      { name := "F", kind := .type { definition := .protectedUnit [] [] [] } },
      { name := "X", kind := .subprogram { kind := .function }, scope := some "P" },
      { name := "E", scope := some "F",
        kind := .subprogram { kind := .procedure, precondition := some (.plain (.call "X" [])) } }]
    [.plain (.declaration .type "F"), .plain (.declaration .type "P"),
      .plain (.declaration .subprogram "X"), .plain (.declaration .subprogram "E"),
      .plain (.declaration .type "O")]).get (by decide +kernel)

/-- A package with a body in its declaration that declares a subtype, whose constraint names
the package. -/
def holderSample : Setting :=
  (ofParts?
    [{ name := "K", kind := .package none },
      { name := "Q", kind := .subprogram { kind := .procedure } },
      { name := "B", kind := .type { definition := .signed 0 9 } },
      { name := "E", kind := .type { definition := .subtype "B" [.plain (.identifier "K")] } }]
    [.plain (.package "K" [.plain (.body .subprogram "Q" none
      [.plain (.declaration .type "E")] [])] [])]).get (by decide +kernel)

/-- A type with a predicate function. -/
def predicateSample : Setting :=
  (ofParts?
    [{ name := "T", kind := .type { definition := .signed 0 9, predicateFunction := some "F" } },
      { name := "F", kind := .subprogram { kind := .function } }]
    [.plain (.declaration .type "T")]).get (by decide +kernel)

/-- Not every dependency comes first.  It may wait for the entity that consulted it, or for
something else; a package comes after what is declared in its bodies, and a predicate function
after its type. -/
theorem dependency_follows_samples :
  partialSample.Overtakes "P" "F" ∧ scopesSample.Overtakes "E" "X"
    ∧ holderSample.Overtakes "E" "K" ∧ predicateSample.Overtakes "T" "F"
  := by
  refine ⟨⟨Act.eq_ok_of_after ?_, ?_, ?_, ?_, not_consults ["F"] ?_ ?_ ?_, ?_⟩,
    ⟨Act.eq_ok_of_after ?_, ?_, ?_, ?_, not_consults ["X", "P", "F"] ?_ ?_ ?_, ?_⟩,
    ⟨Act.eq_ok_of_after ?_, ?_, ?_, ?_, not_consults ["K"] ?_ ?_ ?_, ?_⟩,
    ⟨Act.eq_ok_of_after ?_, ?_, ?_, ?_, not_consults ["F"] ?_ ?_ ?_, ?_⟩⟩
  all_goals decide +kernel

end Setting

end Conformance
