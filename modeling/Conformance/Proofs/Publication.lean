import Conformance.Proofs.Steady

/-!
# What is published

`Setting.Listing` says that the line of the roster of a run are exactly the admitted entities
of the kinds that are published, apart from those that are being decided, and that none of them
is published before what it awaits.  `Setting.Lists` says in addition that a passage from one
run to another one keeps what is ahead of what.

`lists_of_passes` states this for all passages.  The order in which the declarations of a
program are published is the line in which a run ends: `entries_exact` says what is in it, and
`prerequisites_precede` where entities are that have a prerequisite.
-/

namespace Conformance

open Roster (Lined Ahead Grounded)

/-- An entity was examined and is not admitted. -/
def Run.Gone (r : Run) (x : EntityId) : Prop :=
  x ∈ r.verdicts.examined ∧ x ∉ r.verdicts.admitted

namespace Setting

variable (S : Setting)

/-- An entity is not published before another one. -/
def Awaits (x p : EntityId) : Prop :=
  ∃ e, S.program.entity x = .ok e ∧ S.prerequisite? e = .ok (some p) ∧ p ≠ x

/-- The program has an entity with this name, whose kind is published. -/
def Publishes (x : EntityId) : Prop :=
  ∃ e, S.program.entity x = .ok e ∧ e.isPublished = true

variable {S}

theorem awaits_unique (x p q : EntityId) (hp : S.Awaits x p) (hq : S.Awaits x q) :
  p = q
  := by
  obtain ⟨e, he, hp, -⟩ := hp
  obtain ⟨e', he', hq, -⟩ := hq
  obtain rfl := Except.ok.inj (he.symm.trans he')
  exact Option.some.inj (Except.ok.inj (hp.symm.trans hq))

theorem awaits_iff {e : Entity} {prerequisite : Option EntityId}
    (he : S.program.entity e.name = .ok e) (hp : S.prerequisite? e = .ok prerequisite)
    (p : EntityId) :
  S.Awaits e.name p ↔ prerequisite = some p ∧ p ≠ e.name
  := by
  constructor
  · rintro ⟨e', he', hp', hne⟩
    obtain rfl := Except.ok.inj (he.symm.trans he')
    exact ⟨Except.ok.inj (hp.symm.trans hp'), hne⟩
  · rintro ⟨rfl, hne⟩
    exact ⟨e, he, hp, hne⟩

theorem publishes_iff {e : Entity} (he : S.program.entity e.name = .ok e) :
  S.Publishes e.name ↔ e.isPublished = true
  := by
  constructor
  · rintro ⟨e', he', hp⟩
    obtain rfl := Except.ok.inj (he.symm.trans he')
    exact hp
  · exact fun hp => ⟨e, he, hp⟩

variable (S)

/-- The entities of a run in the order of declarations, apart from those under decision. -/
structure Listing (under : List EntityId) (r : Run) : Prop where
  lined : Lined S.Awaits r.Gone r.verdicts.roster []
  mem_line : ∀ x, x ∈ r.verdicts.roster.line ↔
    x ∈ r.verdicts.admitted ∧ S.Publishes x ∧ x ∉ under

/-- An entity was in the line of a run when another one arrived. -/
def Arrived (r : Run) (x e : EntityId) : Prop :=
  Ahead S.Awaits r.Gone r.verdicts.roster [] x e

/-- What holds of the line after a passage, and what was ahead of what stays so. -/
structure Lists (under : List EntityId) (r r' : Run) : Prop where
  listing : S.Listing under r'
  examined : ∀ x ∈ r.verdicts.examined, x ∈ r'.verdicts.examined
  ahead : ∀ x e, S.Arrived r x e → S.Arrived r' x e

variable {S} {under : List EntityId} {r r₁ r' : Run}

theorem Listing.refl (h : S.Listing under r) :
  S.Lists under r r
  := ⟨h, fun _ => id, fun _ _ => id⟩

theorem Lists.trans {under' : List EntityId} (h : S.Lists under' r r₁)
    (h' : S.Lists under r₁ r') :
  S.Lists under r r'
  where
    listing := h'.listing
    examined x hx := h'.examined x (h.examined x hx)
    ahead x e ha := h'.ahead x e (h.ahead x e ha)

/-! ### Single changes -/

/-- Nothing is admitted, and the order stays. -/
theorem Listing.stays (h : S.Listing under r)
    (hx : ∀ x ∈ r.verdicts.examined, x ∈ r'.verdicts.examined)
    (ha : r'.verdicts.admitted = r.verdicts.admitted)
    (hr : r'.verdicts.roster = r.verdicts.roster) :
  S.Lists under r r'
  := by
  have hg (x : EntityId) (hx' : r.Gone x) : r'.Gone x := ⟨hx x hx'.1, ha ▸ hx'.2⟩
  constructor
  · constructor
    · rw [hr]
      exact h.lined.mono hg
    · intro x
      rw [hr, ha]
      exact h.mem_line x
  · exact hx
  · intro x e hxe
    unfold Arrived
    rw [hr]
    exact hxe.mono hg

theorem Listing.same (h : S.Listing under r) (hr : r'.register = r.register) :
  S.Lists under r r'
  := by
  have hx : r'.verdicts.examined = r.verdicts.examined := congrArg Register.examined hr
  have ha : r'.verdicts.admitted = r.verdicts.admitted := congrArg Register.admitted hr
  have ho : r'.verdicts.roster = r.verdicts.roster := congrArg Register.roster hr
  exact h.stays (fun x hm => hx ▸ hm) ha ho

/-- An entity is admitted provisionally. -/
theorem Listing.open (h : S.Listing under r) (hr : r.Coherent) {e : Entity}
    {mode : Option Mode × Option EntityId} (o : S.Opens e mode r) :
  S.Lists (e.name :: under) r (r.open e mode)
  := by
  have hg := r.register_open e mode
  have hx : (r.open e mode).verdicts.examined = r.verdicts.examined.insert e.name :=
    congrArg Register.examined hg
  have ha : (r.open e mode).verdicts.admitted = r.verdicts.admitted.insert e.name :=
    congrArg Register.admitted hg
  have ho : (r.open e mode).verdicts.roster = r.verdicts.roster := congrArg Register.roster hg
  have gone (x : EntityId) (hm : r.Gone x) : (r.open e mode).Gone x := by
    constructor
    · rw [hx]
      exact mem_insert_iff.2 (Or.inr hm.1)
    · rw [ha, mem_insert_iff, not_or]
      refine ⟨?_, hm.2⟩
      rintro rfl
      exact o.fresh hm.1
  constructor
  · constructor
    · rw [ho]
      exact h.lined.mono gone
    · intro x
      rw [ho, ha, h.mem_line x, mem_insert_iff, List.mem_cons, not_or]
      by_cases he : x = e.name
      · subst he
        have hn : e.name ∉ r.verdicts.admitted := fun hm => o.fresh (hr.mem_examined _ hm)
        simp [hn]
      · simp [he]
  · intro x hm
    rw [hx]
    exact mem_insert_iff.2 (Or.inr hm)
  · intro x e' hxe
    unfold Arrived
    rw [ho]
    exact hxe.mono gone

/-- An entity is published that is no longer under decision. -/
theorem Listing.publish {e : Entity} (h : S.Listing (e.name :: under) r)
    (he : S.program.entity e.name = .ok e) (ha : e.name ∈ r.verdicts.admitted)
    (hu : e.name ∉ under) (hp : S.publish e r = .ok () r') :
  S.Lists under r r' ∧ ∀ x ∈ r.verdicts.roster.line, S.Publishes e.name → S.Arrived r' x e.name
  := by
  have hn : e.name ∉ r.verdicts.roster.line := fun hm =>
    ((h.mem_line e.name).1 hm).2.2 List.mem_cons_self
  unfold Setting.publish at hp
  split at hp
  · next hk =>
    obtain ⟨prerequisite, _, hl, hp⟩ := Act.bind_eq_ok.1 hp
    obtain ⟨hpre, rfl⟩ := Act.lift_eq_ok.1 hl
    obtain rfl := Act.rule_eq_ok.1 hp
    have hid := awaits_iff he hpre
    refine ⟨⟨⟨h.lined.publish awaits_unique hid, fun x => ?_⟩, fun _ => id, fun x e' hxe => ?_⟩,
      fun x hx _ => ?_⟩
    · change x ∈ (r.verdicts.roster.publish e.name prerequisite).line ↔ _
      rw [Roster.mem_line_publish, h.mem_line x, List.mem_cons, not_or]
      by_cases hxe : x = e.name
      · subst hxe
        have := (publishes_iff he).2 hk
        simp [Run.rule, Verdicts.publish, *]
      · simp [hxe, Run.rule, Verdicts.publish]
    · exact Ahead.publish awaits_unique h.lined hid (Or.inl hxe)
    · exact Ahead.publish awaits_unique h.lined hid (Or.inr ⟨hx, hn, rfl⟩)
  · next hk =>
    obtain ⟨-, rfl⟩ := Act.pure_eq_ok.1 hp
    refine ⟨⟨⟨h.lined, fun x => ?_⟩, fun _ => id, fun _ _ => id⟩, fun x _ hpub => ?_⟩
    · rw [h.mem_line x, List.mem_cons, not_or]
      by_cases hxe : x = e.name
      · subst hxe
        simp [publishes_iff he, hk]
      · simp [hxe]
    · exact absurd ((publishes_iff he).1 hpub) hk

/-- An entity is excluded, along with what rests on it. -/
theorem Listing.excise (h : S.Listing under r) (hr : r.Coherent) {id : EntityId} {cause : Site}
    (hx : r.Excises id cause r') :
  S.Lists under r r'
  := by
  obtain ⟨keep, hk, hkeep⟩ := hx.writes.roster
  have hex : r'.verdicts.examined = r.verdicts.examined := by rw [hx.strikes.frame]
  have gone (x : EntityId) (hg : r.Gone x) : r'.Gone x := by
    constructor
    · rw [hex]
      exact hg.1
    · exact fun hm => hg.2 (hx.strikes.admitted hm)
  have dropped (x : EntityId) (hm : x ∈ r.verdicts.roster.line) (hd : keep x = false) :
      r'.Gone x := by
    have ha := ((h.mem_line x).1 hm).1
    constructor
    · rw [hex]
      exact hr.mem_examined x ha
    · intro ha'
      rw [(hkeep x ha).2 ha'] at hd
      cases hd
  constructor
  · constructor
    · rw [hk]
      exact h.lined.restrict gone dropped
    · intro x
      rw [hk, Roster.mem_line_restrict, h.mem_line x]
      constructor
      · exact fun ⟨⟨ha, hp, hu⟩, hd⟩ => ⟨(hkeep x ha).1 hd, hp, hu⟩
      · intro ⟨ha', hp, hu⟩
        have ha := hx.strikes.admitted ha'
        exact ⟨⟨ha, hp, hu⟩, (hkeep x ha).2 ha'⟩
  · intro x hm
    rwa [hex]
  · intro x e hxe
    unfold Arrived
    rw [hk]
    exact hxe.restrict gone dropped

/-- An entity that is excluded is no longer under decision. -/
theorem Listing.release {x : EntityId} (h : S.Listing (x :: under) r)
    (hx : x ∉ r.verdicts.admitted) :
  S.Listing under r
  where
    lined := h.lined
    mem_line y := by
      rw [h.mem_line y, List.mem_cons, not_or]
      by_cases hy : y = x
      · subst hy
        simp [hx]
      · simp [hy]

/-! ### Passages -/

/-- What holds of a passage in the way of the order of declarations. -/
def Listed (S : Setting) (c : Course) (r r' : Run) : Prop :=
  ∀ under, S.Listing under r → (∀ x ∈ under, x ∈ r.verdicts.examined) → S.Steady c.matter r →
    S.Lists under r r'

/-- What the inquiry into an entity comes to. -/
theorem lists_opened {e : Entity} {mode : Option Mode × Option EntityId} {path : List Step}
    {m : Option Matter} (o : S.Opens e mode r)
    (ih : S.Listed (.steps (e.declarationScope mode) path) (r.open e mode) r₁)
    (h : S.Listing under r) (hu : ∀ x ∈ under, x ∈ r.verdicts.examined) (hr : S.Steady m r) :
  S.Lists (e.name :: under) r r₁
  := by
  obtain ⟨-, -, -, hx⟩ := Run.open_step hr.coherent o.fresh mode
  have h₁ := h.open hr.coherent o
  apply h₁.trans (ih (e.name :: under) h₁.listing _ (hr.open o))
  intro x hm
  obtain rfl | hm := List.mem_cons.1 hm
  · exact hx
  · exact h₁.examined x (hu x hm)

/-- What the inquiry into the predicate of an entity comes to once the entity is published. -/
theorem lists_published {e : Entity} {mode : Option Mode × Option EntityId}
    {path path' : List Step} {m : Option Matter} {r₂ r₃ : Run} (o : S.Opens e mode r)
    (w : S.Passes (.steps (e.declarationScope mode) path) (r.open e mode) r₁)
    (hp : S.publish e r₁ = .ok () r₂)
    (ih : S.Listed (.steps (e.declarationScope mode) path) (r.open e mode) r₁)
    (ih' : S.Listed (.steps (e.declarationScope mode) path') r₂ r₃)
    (h : S.Listing under r) (hu : ∀ x ∈ under, x ∈ r.verdicts.examined) (hr : S.Steady m r) :
  S.Lists under r r₃
  := by
  have h₁ := lists_opened o ih h hu hr
  have hs₂ := ((hr.open o).passes w).publish o.isOff hp
  have ha := admitted_of_passes o w hr.coherent
  obtain ⟨h₂, -⟩ := h₁.listing.publish o.entity ha (fun hm => o.fresh (hu _ hm)) hp
  have h₂ := h₁.trans h₂
  exact h₂.trans (ih' under h₂.listing (fun x hm => h₂.examined x (hu x hm)) hs₂)

/-- The verdict on a body leaves the order of declarations alone. -/
theorem Listing.concludeBody (h : S.Listing under r) (e : Entity) (cause : Option Site) :
  S.Lists under r { r.concludeBody e with cause }
  := by
  unfold Run.concludeBody
  split <;> exact h.stays (fun _ => id) rfl rfl

theorem roster_inheritCause (r : Run) (e : Entity) :
  (r.inheritCause e).verdicts.roster = r.verdicts.roster
  := by
  unfold Run.inheritCause Run.rule
  dsimp only
  split <;> rfl

theorem Listing.inheritCause (h : S.Listing under r) (e : Entity) :
  S.Lists under r (r.inheritCause e)
  := by
  have hs := r.same_inheritCause e
  exact h.stays (fun x hx => hs.examined ▸ hx) hs.admitted (roster_inheritCause r e)

/-- An entity that is excluded at the end of its decision. -/
theorem Listing.exclude (e : Entity) (h : S.Listing under r ∨ S.Listing (e.name :: under) r)
    (hr : r.Coherent) (cause : Option Site) :
  S.Lists under r { r.exclude S.program e with cause }
  := by
  have hx := r.excises_exclude S.program e
  have lists : S.Lists under r (r.exclude S.program e) := by
    obtain h | h := h
    · exact h.excise hr hx
    · have h' := h.excise hr hx
      exact ⟨h'.listing.release hx.strikes.gone, h'.examined, h'.ahead⟩
  exact lists.trans (lists.listing.same rfl)

/-- A passage keeps the order of declarations. -/
theorem lists_of_passes {c : Course} (h : S.Passes c r r') :
  S.Listed c r r'
  := by
  induction h with
  | nil | known => exact fun _ h _ _ => h.refl
  | plain hp _ ih =>
    intro under h hu hs
    have h₁ := h.same (register_plain hp)
    exact h₁.trans (ih under h₁.listing (fun x hx => h₁.examined x (hu x hx)) (hs.plain hp))
  | decide d _ ihd ih | declare d _ _ ihd ih | declareResting d _ _ _ ihd ih
  | bodyOff d _ _ _ ihd ih =>
    intro under h hu hs
    have h₁ := ihd under h hu hs.apart
    have hu₁ x hx := h₁.examined x (hu x hx)
    exact h₁.trans (ih under h₁.listing hu₁ (hs.decides d).1)
  | @consult scope id site path r r₁ r' d _ ihd ih =>
    intro under h hu hs
    have h₁ := ihd under h hu hs.apart
    obtain ⟨hs₁, hx⟩ := hs.decides d
    have h₂ := h₁.trans (h₁.listing.same (r₁.register_rest scope id site))
    have hu₂ x hx := h₂.examined x (hu x hx)
    exact h₂.trans (ih under h₂.listing hu₂ (hs₁.rest hx site))
  | @bodyExcluded scope e mode inner path r r₁ r' d _ _ ihd ih =>
    intro under h hu hs
    have h₁ := ihd under h hu hs.apart
    have h₂ := h₁.trans (h₁.listing.inheritCause e)
    have hu₂ x hx := h₂.examined x (hu x hx)
    exact h₂.trans (ih under h₂.listing hu₂ ((hs.decides d).1.inheritCause e))
  | @body scope e mode inner mode' path innerPath r r₁ r₂ r' d _ _ _ _ w _ ihd ihw ih =>
    intro under h hu hs
    have h₁ := ihd under h hu hs.apart
    obtain ⟨hs₁, hx⟩ := hs.decides d
    have h₂ := h₁.trans (h₁.listing.same (r₁.register_start (e.bodyScope mode') (.body e.name)))
    have hu₂ x hx := h₂.examined x (hu x hx)
    have h₃ := h₂.trans (ihw under h₂.listing hu₂ (hs₁.start hx mode'))
    have h₄ := h₃.trans (h₃.listing.concludeBody e r₁.cause)
    have hu₄ x hx := h₄.examined x (hu x hx)
    exact h₄.trans (ih under h₄.listing hu₄ (hs₁.body hx w r₁.cause))
  | @off e anchor r he hf hm =>
    intro under h _ _
    exact h.stays (fun x hx => mem_insert_iff.2 (Or.inr hx)) rfl rfl
  | @reject e mode path r r₁ o _ w _ ih =>
    intro under h hu hs
    have h₁ := lists_opened o ih h hu hs
    have hs₁ := (hs.open o).passes w
    exact h₁.trans (Listing.exclude e (Or.inr h₁.listing) hs₁.coherent r.cause)
  | @revoke e mode path path' r r₁ r₂ r₃ o _ w _ _ hp _ w' _ ih ih' =>
    intro under h hu hs
    have h₃ := lists_published o w hp ih ih' h hu hs
    have hs₂ : S.Steady (Course.steps (e.declarationScope mode) path').matter r₂ :=
      ((hs.open o).passes w).publish o.isOff hp
    exact h₃.trans (Listing.exclude e (Or.inl h₃.listing) (hs₂.passes w').coherent r.cause)
  | @grant e mode path path' r r₁ r₂ r₃ o _ w _ _ hp _ w' _ ih ih' =>
    intro under h hu hs
    have h₃ := lists_published o w hp ih ih' h hu hs
    exact h₃.trans (h₃.listing.same rfl)

/-! ### Stages -/

theorem listing_empty :
  S.Listing [] {}
  := ⟨Roster.lined_empty, by simp [Roster.line]⟩

/-- A stage of a run keeps the order of declarations. -/
theorem lists_of_stage {ns : List Node} (st : S.Stage ns r r') (h : S.Listing [] r)
    (hs : S.Steady none r) :
  S.Lists [] r r'
  := by
  obtain ⟨c, r₁, r₂, hc₁, -, hs₁, p, hc₂⟩ := st.parts hs
  have h₁ := h.same hc₁.register
  have h₂ := h₁.trans (lists_of_passes p [] h₁.listing (by simp) hs₁)
  obtain hc₂ | ⟨access, type, cause, -, -, -, -, rfl⟩ := hc₂
  · exact h₂.trans (h₂.listing.same hc₂.register)
  · obtain ⟨he, -⟩ | ⟨-, hx⟩ := r₂.excises_takeBack S.program access type cause
    · rwa [he]
    · exact h₂.trans (h₂.listing.excise (hs₁.passes p).coherent hx)

theorem lists_of_proceeds {ns : List Node} (p : S.Proceeds ns r r') (h : S.Listing [] r)
    (hs : S.Steady none r) :
  S.Lists [] r r'
  := by
  induction p with
  | nil => exact h.refl
  | cons st _ ih =>
    have h₁ := lists_of_stage st h hs
    exact h₁.trans (ih h₁.listing (hs.stage st))

/-- In the end the line is published. -/
theorem line_of_wholeProgram (h : S.wholeProgram {} = .ok () r) :
  ∃ r₁, r = (r₁.rule fun v => { v with roster := v.roster.close })
    ∧ S.Listing [] r₁ ∧ r₁.verdicts.roster.line = r.verdicts.roster.entries
  := by
  obtain ⟨r₁, hp, -, rfl⟩ := proceeds_wholeProgram h
  have hl := (lists_of_proceeds hp listing_empty steady_empty).listing
  exact ⟨r₁, rfl, hl, (Roster.entries_close hl.lined.nodup_line).symm⟩

/-- In the final order no entity occurs twice, and an entity occurs in it if and only if it is
admitted and entities of its kind are published. -/
theorem entries_exact {S : Setting} {r : Run} (h : S.wholeProgram {} = .ok () r) :
  r.verdicts.roster.entries.Nodup
    ∧ ∀ x, x ∈ r.verdicts.roster.entries ↔ x ∈ r.verdicts.admitted
      ∧ ∃ e, S.program.entity x = .ok e ∧ e.isPublished = true
  := by
  obtain ⟨r₁, rfl, hl, he⟩ := line_of_wholeProgram h
  rw [← he]
  refine ⟨hl.lined.nodup_line, fun x => ?_⟩
  rw [hl.mem_line x]
  simp [Run.rule, Publishes]

/-- A private type, its full view, which is a protected type, and an operation of that with a
parameter. -/
def viewsSample : Setting :=
  (ofParts?
    [{ name := "P", kind := .type { definition := .partialView (some "F") [] false } },
      { name := "F", kind := .type { definition := .protectedUnit [] [] ["O"] } },
      { name := "O", kind := .subprogram { kind := .procedure, parameters := ["X"] },
        scope := some "F" },
      { name := "X", kind := .parameter { type := "T" } },
      { name := "T", kind := .type { definition := .signed 0 9 } }]
    [.plain (.declaration .type "P")]).get (by decide +kernel)

theorem entries_exact_viewsSample :
  let r := (viewsSample.wholeProgram.after {}).2
  viewsSample.wholeProgram {} = .ok () r ∧ r.verdicts.roster.entries = ["P", "F", "T", "O"]
    ∧ "O" ∈ r.verdicts.admitted ∧ "X" ∈ r.verdicts.admitted
    ∧ "X" ∉ r.verdicts.roster.entries
  := by
  have h : viewsSample.wholeProgram {} = .ok () (viewsSample.wholeProgram.after {}).2 :=
    Act.eq_ok_of_after (by decide +kernel)
  have he : (viewsSample.wholeProgram.after {}).2.verdicts.roster.entries
      = ["P", "F", "T", "O"] := by decide +kernel
  obtain ⟨-, hm⟩ := entries_exact h
  refine ⟨h, he, ((hm "O").1 (by simp [he])).1, by decide +kernel, fun hx => ?_⟩
  obtain ⟨-, e, hentity, hp⟩ := (hm "X").1 hx
  cases hentity
  cases hp

/-! ### Prerequisites -/

theorem Listing.not_gone {x : EntityId} (h : S.Listing [] r) (hx : x ∈ r.verdicts.roster.line) :
  ¬ r.Gone x
  := fun hg => hg.2 ((h.mem_line x).1 hx).1

/-- In the final order, an entity comes after what it awaits if that is grounded. -/
theorem precedes_of_awaits (h : S.wholeProgram {} = .ok () r) {x p : EntityId}
    (hp : S.Awaits x p) (hx : x ∈ r.verdicts.roster.entries)
    (hm : p ∈ r.verdicts.roster.entries)
    (hg : Grounded S.Awaits r.verdicts.roster.entries p) :
  Precedes r.verdicts.roster.entries p x
  := by
  obtain ⟨r₁, -, hl, he⟩ := line_of_wholeProgram h
  rw [← he] at hx hm hg ⊢
  exact hl.lined.precedes_line awaits_unique hp hx hm (hl.not_gone hm) hg

/-- In the final order, a listed full view comes after its listed partial view, and a listed
subprogram after the listed concurrent type in whose scope it is declared.  This needs that
what comes first awaits nothing, or something that is listed in turn and awaits nothing, and
so on. -/
theorem prerequisites_precede {S : Setting} {r : Run} (h : S.wholeProgram {} = .ok () r) :
  (∀ full view t, S.program.typeFacet full = .ok t → S.program.partialView? full = some view →
      view ≠ full → full ∈ r.verdicts.roster.entries → view ∈ r.verdicts.roster.entries →
      Grounded S.Awaits r.verdicts.roster.entries view →
      Precedes r.verdicts.roster.entries view full)
    ∧ ∀ operation e f scope, S.program.entity operation = .ok e → e.kind = .subprogram f →
      e.scope = some scope → S.isConcurrentType scope = .ok true → scope ≠ operation →
      operation ∈ r.verdicts.roster.entries → scope ∈ r.verdicts.roster.entries →
      Grounded S.Awaits r.verdicts.roster.entries scope →
      Precedes r.verdicts.roster.entries scope operation
  := by
  constructor
  · intro full view t ht hv hne hx hm hg
    obtain ⟨e, he, hk⟩ := Program.typeFacet_eq_ok.1 ht
    obtain rfl := S.program.name_eq_of_entity he
    refine precedes_of_awaits h ⟨e, he, ?_, hne⟩ hx hm hg
    unfold prerequisite?
    rw [hk, hv]
    rfl
  · intro operation e f scope he hk hs hc hne hx hm hg
    refine precedes_of_awaits h ⟨e, he, ?_, hne⟩ hx hm hg
    unfold prerequisite?
    rw [hk, hs]
    exact Answer.bind_eq_ok.2 ⟨true, hc, rfl⟩

theorem prerequisites_precede_viewsSample :
  let r := (viewsSample.wholeProgram.after {}).2
  viewsSample.wholeProgram {} = .ok () r ∧ viewsSample.program.partialView? "F" = some "P"
    ∧ viewsSample.isConcurrentType "F" = .ok true
    ∧ Precedes r.verdicts.roster.entries "P" "F" ∧ Precedes r.verdicts.roster.entries "F" "O"
  := by
  have h : viewsSample.wholeProgram {} = .ok () (viewsSample.wholeProgram.after {}).2 :=
    Act.eq_ok_of_after (by decide +kernel)
  have hm : ∀ x ∈ ["P", "F", "O"],
      x ∈ (viewsSample.wholeProgram.after {}).2.verdicts.roster.entries := by decide +kernel
  have hv : viewsSample.program.partialView? "F" = some "P" := by decide +kernel
  have hc : viewsSample.isConcurrentType "F" = .ok true := by decide +kernel
  have hP : Grounded viewsSample.Awaits
      (viewsSample.wholeProgram.after {}).2.verdicts.roster.entries "P" := by
    apply Grounded.free
    rintro p ⟨e, he, hp, -⟩
    cases he
    cases hp
  have hF : Grounded viewsSample.Awaits
      (viewsSample.wholeProgram.after {}).2.verdicts.roster.entries "F" :=
    .behind ⟨_, rfl, rfl, by decide⟩ (hm "P" (by decide)) hP
  obtain ⟨hviews, hoperations⟩ := prerequisites_precede h
  refine ⟨h, hv, hc, ?_, ?_⟩
  · exact hviews "F" "P" _ rfl hv (by decide) (hm "F" (by decide)) (hm "P" (by decide)) hP
  · exact hoperations "O" _ _ "F" rfl rfl rfl hc (by decide) (hm "O" (by decide))
      (hm "F" (by decide)) hF

/-- A private type whose full view is private in turn, and its full view.  The first one is
never declared. -/
def strandedSample : Setting :=
  (ofParts?
    [{ name := "Q", kind := .type { definition := .partialView (some "P") [] false } },
      { name := "P", kind := .type { definition := .partialView (some "F") [] false } },
      { name := "F", kind := .type { definition := .signed 0 9 } }]
    [.plain (.declaration .type "P")]).get (by decide +kernel)

/-- A partial view that waits for what never arrives is published after its full view. -/
theorem view_follows_strandedSample :
  let r := (strandedSample.wholeProgram.after {}).2
  strandedSample.wholeProgram {} = .ok () r ∧ strandedSample.program.partialView? "F" = some "P"
    ∧ r.verdicts.roster.entries = ["F", "P"] ∧ ¬ Precedes r.verdicts.roster.entries "P" "F"
  := by
  refine ⟨Act.eq_ok_of_after (by decide +kernel), ?_, ?_, ?_⟩ <;> decide +kernel

end Setting

end Conformance
