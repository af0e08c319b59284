import Conformance.Proofs.Record

/-!
# Verdicts on bodies

A body that is analysed is judged when its inquiry ends: it is admitted, or a cause of its
exclusion is recorded.  `Setting.Judged` is what stays of this whatever comes after it: an
admitted body is lost without a cause only if its entity is excluded after that, which the
journal tells (`Lapses`).  `Setting.Judges` says that all bodies which inquiries came to on the
way are judged.

Where each entity has at most one body, no body is both admitted and excluded for a cause:
`Run.Single` is the invariant, and `Run.Traces` what a passage does for it.

`bodies_judged` is the result.
-/

namespace Conformance

open Relation (ReflTransGen)

/-- The body that an inquiry comes to by an event: its entity and a mode of its own. -/
def Event.bodyOf? : Event → Option (EntityId × Option Mode)
  | .visited _ role node => node.bodyOf? role
  | _ => none

/-- The bodies that inquiries came to, the latest first. -/
def Run.arrivals (r : Run) : List (EntityId × Option Mode) :=
  r.journal.filterMap Event.bodyOf?

/-- The body of an entity is admitted, and the entity is excluded for a cause after that, in
events of which the latest come first. -/
def Lapses (id : EntityId) (cause : Site) (events : List Event) : Prop :=
  ∃ later earlier, events = later ++ .excluded id cause :: earlier
    ∧ .admittedBody id ∈ earlier

theorem Lapses.append {id : EntityId} {cause : Site} {events : List Event}
    (h : Lapses id cause events) (new : List Event) :
  Lapses id cause (new ++ events)
  := by
  obtain ⟨later, earlier, rfl, hb⟩ := h
  exact ⟨new ++ later, earlier, (List.append_assoc _ _ _).symm, hb⟩

theorem lapses_of_log {id : EntityId} {cause : Site} {r : Run}
    (h : Lapses id cause r.register.log) :
  Lapses id cause r.journal
  := by
  obtain ⟨later, earlier, hl, hb⟩ := h
  obtain ⟨later, rest, hj, -, hrest⟩ := List.filter_eq_append_iff.1 hl
  obtain ⟨between, earlier, rfl, -, -, rfl⟩ := List.filter_eq_cons_iff.1 hrest
  exact ⟨later ++ between, earlier, by rw [hj, List.append_assoc], (List.mem_filter.1 hb).1⟩

/-- Whether an event is the admission of the body of an entity. -/
def Event.admitsBody (id : EntityId) : Event → Bool
  | .admittedBody x => x == id
  | _ => false

/-- Only a body that was admitted lapses. -/
theorem Lapses.any {id : EntityId} {cause : Site} {events : List Event}
    (h : Lapses id cause events) :
  events.any (Event.admitsBody id) = true
  := by
  obtain ⟨later, earlier, rfl, hb⟩ := h
  refine List.any_eq_true.2 ⟨_, List.mem_append_right _ (List.mem_cons_of_mem _ hb), ?_⟩
  simp [Event.admitsBody]

namespace Setting

variable {S : Setting}

/-- The body of an examined entity is admitted, or a cause of its exclusion is recorded, or it
was admitted and its entity was excluded after that. -/
def Judged (id : EntityId) (g : Register) : Prop :=
  id ∈ g.examined ∧ (id ∈ g.admittedBodies ∨ (g.bodyCauses[id]?).isSome = true
    ∨ ∃ cause, Lapses id cause g.log)

theorem bodyCauses_excludeBody (r : Run) (id : EntityId) (cause : Site) :
  (r.excludeBody id cause).verdicts.bodyCauses[id]? = some cause
  := Std.TreeMap.getElem?_insert_self

theorem judged_concludeBody {r : Run} {e : Entity} (h : e.name ∈ r.verdicts.examined)
    (cause : Option Site) :
  Judged e.name ({ r.concludeBody e with cause } : Run).register
  := by
  unfold Run.concludeBody
  split
  · exact ⟨h, Or.inl (mem_insert_iff.2 (Or.inl rfl))⟩
  · refine ⟨h, Or.inr (Or.inl ?_)⟩
    have hc := bodyCauses_excludeBody r e.name (r.cause.getD e.site)
    exact Option.isSome_iff_exists.2 ⟨_, hc⟩

/-- A cause that is recorded for a body stays. -/
theorem bodyCaused_of_turn {r r' : Run} (t : S.Turn r r') {id : EntityId}
    (h : (r.register.bodyCauses[id]?).isSome = true) :
  (r'.register.bodyCauses[id]?).isSome = true
  := by
  cases t with
  | same he => rwa [he]
  | @«open» e mode r o => rwa [r.register_open]
  | publish _ hp =>
    obtain ⟨roster, rfl⟩ := S.publish_eq_ok hp
    exact h
  | @excludeBody id' cause r =>
    have hi : (r.excludeBody id' cause).register.bodyCauses[id]?
        = if compare id' id = .eq then some cause else r.register.bodyCauses[id]? :=
      Std.TreeMap.getElem?_insert
    rw [hi]
    split
    · rfl
    · exact h
  | @excise id' cause r r' _ hx =>
    have hb : r'.register.bodyCauses[id]? = r.register.bodyCauses[id]?
        ∨ r'.register.bodyCauses[id]? = some cause :=
      (hx.writes.bodyCauses id).imp_right fun h => h.2.2
    obtain he | he := hb
    · rwa [he]
    · rw [he]
      rfl
  | _ => exact h

theorem examined_of_turn {r r' : Run} (t : S.Turn r r') {id : EntityId}
    (h : id ∈ r.register.examined) :
  id ∈ r'.register.examined
  := by
  cases t with
  | same he => rwa [he]
  | off => exact mem_insert_iff.2 (Or.inr h)
  | @«open» e mode r o =>
    rw [r.register_open]
    exact mem_insert_iff.2 (Or.inr h)
  | publish _ hp =>
    obtain ⟨roster, rfl⟩ := S.publish_eq_ok hp
    exact h
  | @excise id' cause r r' _ hs =>
    change id ∈ r'.verdicts.examined
    rw [hs.strikes.frame]
    exact h
  | admitBody | excludeBody | close => exact h

/-- What was noted of a body stays noted. -/
theorem log_of_turn {r r' : Run} (t : S.Turn r r') :
  ∃ new, r'.register.log = new ++ r.register.log
  := by
  cases t with
  | same he => exact ⟨[], by rw [he]; rfl⟩
  | @«open» e mode r o => exact ⟨[], by rw [r.register_open]; rfl⟩
  | publish _ hp =>
    obtain ⟨roster, rfl⟩ := S.publish_eq_ok hp
    exact ⟨[], rfl⟩
  | admitBody => exact ⟨[_], rfl⟩
  | excise _ hx =>
    obtain ⟨ids, hl, -⟩ := hx.log
    exact ⟨_, hl⟩
  | off | excludeBody | close => exact ⟨[], rfl⟩

/-- An admitted body that an exclusion takes along is excluded for a cause of its own, or it
lapses with its entity. -/
theorem Recorded.judged_of_excise {r r' : Run} {id x : EntityId} {cause : Site}
    (h : Recorded r.register) (hb : x ∈ r.verdicts.admittedBodies)
    (hx : r.Excises id cause r') :
  x ∈ r'.register.admittedBodies ∨ (r'.register.bodyCauses[x]?).isSome = true
    ∨ ∃ cause, Lapses x cause r'.register.log
  := by
  obtain ⟨ha, hm⟩ := h.bodies x hb
  obtain hb' | ha' | hc := hx.writes.bodies x hb
  · exact Or.inl hb'
  · obtain ⟨ids, hl, -, hids⟩ := hx.log
    obtain ⟨later, earlier, rfl⟩ := List.append_of_mem ((hids x).2 (Or.inr ⟨ha, ha'⟩))
    refine Or.inr (Or.inr ⟨cause, later.map (.excluded · cause),
      earlier.map (.excluded · cause) ++ r.register.log, by simp [hl], ?_⟩)
    exact List.mem_append_right _ hm
  · exact Or.inr (Or.inl (Option.isSome_iff_exists.2 ⟨cause, hc⟩))

/-- A body that is judged stays so. -/
theorem judged_of_turn {r r' : Run} (t : S.Turn r r') (h₀ : ReflTransGen S.Turn {} r)
    {id : EntityId} (h : Judged id r.register) :
  Judged id r'.register
  := by
  obtain ⟨hx, h⟩ := h
  refine ⟨examined_of_turn t hx, ?_⟩
  obtain h | h | ⟨cause, h⟩ := h
  · cases t with
    | same he =>
      rw [he]
      exact Or.inl h
    | @«open» e mode r o =>
      rw [r.register_open]
      exact Or.inl h
    | publish _ hp =>
      obtain ⟨roster, rfl⟩ := S.publish_eq_ok hp
      exact Or.inl h
    | admitBody => exact Or.inl (mem_insert_iff.2 (Or.inr h))
    | @excise id' cause r r' hid hx =>
      exact (recorded_of_turns h₀).judged_of_excise h hx
    | off | excludeBody | close => exact Or.inl h
  · exact Or.inr (Or.inl (bodyCaused_of_turn t h))
  · obtain ⟨new, hl⟩ := log_of_turn t
    exact Or.inr (Or.inr ⟨cause, hl ▸ h.append new⟩)

theorem judged_of_turns {r r' : Run} (ht : ReflTransGen S.Turn r r')
    (h₀ : ReflTransGen S.Turn {} r) {id : EntityId} (h : Judged id r.register) :
  Judged id r'.register
  := by
  induction ht with
  | refl => exact h
  | tail ht t ih => exact judged_of_turn t (h₀.trans ht) ih

/-! ### The bodies that inquiries come to -/

variable (S) in
/-- An inquiry comes to the body of an entity, and neither of them is excluded from
analysis. -/
def Arrives (id : EntityId) (event : Event) : Prop :=
  S.isOff id ≠ .ok true ∧ ∃ mode, event.bodyOf? = some (id, mode) ∧ mode ≠ some .off

variable (S) in
/-- The bodies that inquiries come to on the way are judged in the end. -/
structure Judges (r r' : Run) : Prop where
  turns : ReflTransGen S.Turn r r'
  judged : ReflTransGen S.Turn {} r → ∀ id event, S.Arrives id event → event ∈ r'.journal →
    event ∈ r.journal ∨ Judged id r'.register

theorem Judges.refl (r : Run) :
  S.Judges r r
  := ⟨.refl, fun _ _ _ _ => Or.inl⟩

theorem Judges.trans {r r₁ r' : Run} (h : S.Judges r r₁) (h' : S.Judges r₁ r') :
  S.Judges r r'
  := by
  refine ⟨h.turns.trans h'.turns, fun h₀ id event ha he => ?_⟩
  obtain he | hj := h'.judged (h₀.trans h.turns) id event ha he
  · obtain he | hj := h.judged h₀ id event ha he
    · exact Or.inl he
    · exact Or.inr (judged_of_turns h'.turns (h₀.trans h.turns) hj)
  · exact Or.inr hj

/-- What happens afterwards is no arrival. -/
theorem Judges.append {r r₁ r' : Run} (h : S.Judges r r₁) (ht : ReflTransGen S.Turn r₁ r')
    (new : List Event) (hj : r'.journal = new ++ r₁.journal)
    (hn : ∀ event ∈ new, event.bodyOf? = none) :
  S.Judges r r'
  := by
  refine h.trans ⟨ht, fun _ id event ha he => ?_⟩
  rw [hj, List.mem_append] at he
  obtain he | he := he
  · obtain ⟨-, mode, hb, -⟩ := ha
    rw [hn event he] at hb
    cases hb
  · exact Or.inl he

theorem Judges.excises {r r₁ r' : Run} {id : EntityId} {cause : Site} (h : S.Judges r r₁)
    (ha : id ∈ r₁.verdicts.admitted) (hx : r₁.Excises id cause r') :
  S.Judges r r'
  := by
  obtain ⟨new, hj, hn⟩ := hx.strikes.journal
  refine h.append (.single (.excise ha hx)) new hj fun event he => ?_
  obtain ⟨x, cause, rfl⟩ := hn event he
  rfl

/-- A plain step is an arrival, or none comes with it. -/
theorem judges_plain {scope : Scope} {s : Step} {r r' : Run} (h : S.Plain scope s r r') :
  (∃ role n, s = .visit role n ∧ r' = r.note (.visited scope.matter role n)) ∨ S.Judges r r'
  := by
  have ht : ReflTransGen S.Turn r r' := .single (.same (register_plain h))
  cases h with
  | visit => exact Or.inl ⟨_, _, rfl, rfl⟩
  | ask =>
    right
    exact (Judges.refl r).append ht [.asked scope.matter _] rfl (by simp [Event.bodyOf?])
  | @find r site finding =>
    have hj := (r.same_find scope site finding).journal
    exact Or.inr ((Judges.refl r).append ht [] hj (by simp))
  | relax h =>
    obtain ⟨relaxed, rfl⟩ := S.relax_eq_ok h
    exact Or.inr ((Judges.refl r).append ht [] rfl (by simp))
  | _ => exact Or.inr ((Judges.refl _).append ht [] rfl (by simp))

end Setting

/-- After a course comes to a body, the body is decided. -/
def Course.Heralding (c : Course) : Prop :=
  ∀ p q role n, c.path = p ++ .visit role n :: q → n.Heralds role q

theorem Course.Heralding.tail {scope : Scope} {s : Step} {path : List Step}
    (h : Course.Heralding (.steps scope (s :: path))) :
  Course.Heralding (.steps scope path)
  := fun p q role n hp => h (s :: p) q role n (congrArg (s :: ·) hp)

theorem Course.heralding_decision (id : EntityId) :
  Course.Heralding (.decision id)
  := fun p q role n hp => absurd hp (by simp [Course.path])

namespace Setting

variable {S : Setting}

theorem Regular.heralding {t : Topic} {known : EntityId → Prop}
    {bs : List (EntityId × List Node)} {i : Inquiry Unit} (h : S.Regular t known bs i)
    {path : List Step} (l : i.Leads path ()) (scope : Scope) :
  Course.Heralding (.steps scope path)
  := fun _ _ _ _ hp => h.heralds l hp

variable (S) in
/-- The bodies on a path that are not excluded from analysis are judged. -/
def Covered (path : List Step) (r : Run) : Prop :=
  ∀ e mode inner, .body e mode inner ∈ path → S.isOff e.name ≠ .ok true → mode ≠ some .off →
    Judged e.name r.register

/-- What holds of a passage in the way of judgements. -/
def Judging (S : Setting) (c : Course) (r r' : Run) : Prop :=
  Course.Proper S c → c.Heralding → S.Steady c.matter r →
    S.Judges r r' ∧ S.Covered c.path r'

/-- The first step of a path, and the others. -/
theorem judging_cons {scope : Scope} {s : Step} {path : List Step} {r r₁ r' : Run}
    (h₁ : S.Judges r r₁) (hb : ∀ e mode inner, s = .body e mode inner →
      S.isOff e.name ≠ .ok true → mode ≠ some .off → Judged e.name r₁.register)
    (ih : S.Judging (.steps scope path) r₁ r')
    (hp : Course.Proper S (.steps scope (s :: path)))
    (hh : Course.Heralding (.steps scope (s :: path))) (hs : S.Steady scope.matter r₁) :
  S.Judges r r' ∧ S.Covered (s :: path) r'
  := by
  obtain ⟨h₂, hj⟩ := ih hp.tail hh.tail hs
  refine ⟨h₁.trans h₂, ?_⟩
  intro e mode inner hm ho hn
  obtain rfl | hm := List.mem_cons.1 hm
  · exact judged_of_turns h₂.turns hs.reached (hb e mode inner rfl ho hn)
  · exact hj e mode inner hm ho hn

/-- A body is analysed unless it or its entity is excluded from analysis. -/
theorem bodyMode_ne_off {e : Entity} {mode : Option Mode} {anchor : Option EntityId}
    (ho : S.isOff e.name ≠ .ok true) (hn : mode ≠ some .off) :
  S.bodyMode e mode ≠ .ok (some .off, anchor)
  := by
  intro hm
  cases mode with
  | none =>
    apply ho
    unfold Setting.isOff
    rw [show S.modeOf e.name = .ok (some .off, anchor) from hm]
    rfl
  | some mode =>
    exact hn (Prod.mk.inj (Answer.pure_eq_ok.1 hm)).1

theorem covered_decision (id : EntityId) (r : Run) :
  S.Covered (Course.decision id).path r
  := fun _ _ _ h => absurd h List.not_mem_nil

/-- The inquiry into an entity. -/
theorem judges_opened {m : Option Matter} {e : Entity}
    {mode : Option Mode × Option EntityId} {path : List Step} {r r₁ : Run}
    (o : S.Opens e mode r) (l : (S.entityInquiry e).Leads path ())
    (ih : S.Judging (.steps (e.declarationScope mode) path) (r.open e mode) r₁)
    (hs : S.Steady m r) :
  S.Judges r r₁
  := by
  have hi := regular_entityInquiry o.entity
  have ho := hs.open o
  have hj : (r.open e mode).journal = [.began (.declaration e.name)] ++ r.journal :=
    (r.examine e.name).journal_start _ _
  have h₁ := (Judges.refl r).append (.single (.open o)) _ hj (by simp [Event.bodyOf?])
  exact h₁.trans (ih (hi.proper l _) (hi.heralding l _) ho).1

/-- What is published, up to the end of the inquiry into the predicate. -/
theorem judges_published {m : Option Matter} {e : Entity}
    {mode : Option Mode × Option EntityId} {path path' : List Step} {r r₁ r₂ r₃ : Run}
    (o : S.Opens e mode r) (l : (S.entityInquiry e).Leads path ())
    (w : S.Passes (.steps (e.declarationScope mode) path) (r.open e mode) r₁)
    (hp : S.publish e r₁ = .ok () r₂) (l' : (predicateInquiry e).Leads path' ())
    (w' : S.Passes (.steps (e.declarationScope mode) path') r₂ r₃)
    (ih : S.Judging (.steps (e.declarationScope mode) path) (r.open e mode) r₁)
    (ih' : S.Judging (.steps (e.declarationScope mode) path') r₂ r₃) (hs : S.Steady m r) :
  S.Judges r r₃ ∧ e.name ∈ r₃.verdicts.admitted
  := by
  have hi := regular_entityInquiry o.entity
  have hi' : S.Regular {} (fun _ => False) [] (predicateInquiry e) := regular_predicateInquiry e
  have hs₁ := (hs.open o).passes w
  have hs₂ := hs₁.publish o.isOff hp
  have h₁ := judges_opened o l ih hs
  have h₂ := h₁.append (.single (.publish o.isOff hp)) [] (same_publish hp).1.journal (by simp)
  refine ⟨h₂.trans (ih' (hi'.proper l' _) (hi'.heralding l' _) hs₂).1, ?_⟩
  obtain ⟨new, ha, -⟩ := orderly_of_passes w' hs₂.coherent hs₂.under
  apply ha.admitted
  rw [(same_publish hp).1.admitted]
  exact admitted_of_passes o w hs.coherent

/-- The inquiry into a body, and the verdict on it. -/
theorem judges_body {r₀ : Run} {m : Option Matter} {e : Entity}
    {mode' : Option Mode × Option EntityId} {inner : Inquiry Unit} {path : List Step} {r r₁ : Run}
    (hb : S.program.entity e.name = .ok e ∧ ∃ ns, inner = S.items e.inside ns)
    (l : inner.Leads path ())
    (w : S.Passes (.steps (e.bodyScope mode') path)
      (r.start (e.bodyScope mode') (.body e.name)) r₁)
    (ih : S.Judging (.steps (e.bodyScope mode') path)
      (r.start (e.bodyScope mode') (.body e.name)) r₁)
    (h : S.Judges r₀ r) (hs : S.Steady m r) (hx : e.name ∈ r.verdicts.examined)
    (cause : Option Site) :
  S.Judges r₀ { r₁.concludeBody e with cause }
    ∧ Judged e.name ({ r₁.concludeBody e with cause } : Run).register
  := by
  obtain ⟨-, ns, rfl⟩ := hb
  have hi := regular_bodyItems (S := S) e ns
  have hs₀ := hs.start hx mode'
  have h₀ : S.Judges r₀ (r.start (e.bodyScope mode') (.body e.name)) :=
    h.append (.single (.same (r.register_start _ _))) [.began (.body e.name)]
      (r.journal_start _ _) (by simp [Event.bodyOf?])
  have h₁ := h₀.trans (ih (hi.proper l _) (hi.heralding l _) hs₀).1
  obtain ⟨verdict, hj, hv⟩ := r₁.journal_concludeBody e
  refine ⟨h₁.append (turns_concludeBody r₁ e cause) verdict hj fun event he => ?_, ?_⟩
  · rw [hv event he]
    rfl
  apply judged_concludeBody
  obtain ⟨reporting, hv⟩ := r.verdicts_start (e.bodyScope mode') (.body e.name)
  obtain ⟨new, ha, -⟩ := orderly_of_passes w hs₀.coherent hs₀.under
  apply ha.examined
  rwa [hv]

/-- A passage judges the bodies that it comes to. -/
theorem judges_of_passes {c : Course} {r r' : Run} (h : S.Passes c r r') :
  S.Judging c r r'
  := by
  induction h with
  | nil => exact fun _ _ _ => ⟨.refl _, fun _ _ _ h => absurd h List.not_mem_nil⟩
  | known => exact fun _ _ _ => ⟨.refl _, covered_decision _ _⟩
  | @plain scope s path r r₁ r' h p ih =>
    intro hp hh hs
    have hs₁ := hs.plain h
    obtain ⟨role, n, rfl, rfl⟩ | h₁ := judges_plain h
    · -- The body that was come to is decided later on the path.
      obtain ⟨h₂, hc⟩ := ih hp.tail hh.tail hs₁
      have ht := turns_of_passes (.plain h p) hs.coherent hs.under
      refine ⟨⟨ht, fun _ id event ha he => ?_⟩, fun e mode inner hm =>
        hc e mode inner ((List.mem_cons.1 hm).resolve_left (nomatch ·))⟩
      obtain he | hj := h₂.judged hs₁.reached id event ha he
      · obtain rfl | he := List.mem_cons.1 he
        · obtain ⟨ho, mode, hb, hn⟩ := ha
          obtain ⟨e, inner, rfl, hm⟩ := hh [] path _ _ rfl id mode hb
          exact Or.inr (hc e mode inner hm ho hn)
        · exact Or.inl he
      · exact Or.inr hj
    · refine judging_cons h₁ ?_ ih hp hh hs₁
      rintro e mode inner rfl
      cases h
  | @decide scope id path r r₁ r' d _ ihd ih =>
    intro hp hh hs
    obtain ⟨h₁, -⟩ := ihd trivial (Course.heralding_decision id) hs.apart
    exact judging_cons h₁ (fun _ _ _ h => nomatch h) ih hp hh (hs.decides d).1
  | @declare scope id site path r r₁ r' d _ _ ihd ih =>
    intro hp hh hs
    obtain ⟨h₁, -⟩ := ihd trivial (Course.heralding_decision id) hs.apart
    exact judging_cons h₁ (fun _ _ _ h => nomatch h) ih hp hh (hs.decides d).1
  | @consult scope id site path r r₁ r' d _ ihd ih =>
    intro hp hh hs
    obtain ⟨h₁, -⟩ := ihd trivial (Course.heralding_decision id) hs.apart
    obtain ⟨hs₁, hx⟩ := hs.decides d
    have h₂ := h₁.append (.single (.same (r₁.register_rest scope id site)))
      [.consulted scope.matter id] (journal_rest r₁ scope id site) (by simp [Event.bodyOf?])
    exact judging_cons h₂ (fun _ _ _ h => nomatch h) ih hp hh (hs₁.rest hx site)
  | @declareResting scope id site b path r r₁ r' d _ _ _ ihd ih =>
    intro hp hh hs
    obtain ⟨h₁, -⟩ := ihd trivial (Course.heralding_decision id) hs.apart
    have hs₁ := (hs.decides d).1
    have hh' : Course.Heralding (.steps scope (.consult id site b :: path)) := by
      intro p q role n hq
      cases p with
      | nil => cases hq
      | cons _ p => exact hh.tail p q role n (List.cons.inj hq).2
    obtain ⟨h₂, hc⟩ := ih hp hh' hs₁
    refine ⟨h₁.trans h₂, ?_⟩
    intro e mode inner hm
    exact hc e mode inner (List.mem_cons_of_mem _ ((List.mem_cons.1 hm).resolve_left (nomatch ·)))
  | @bodyExcluded scope e mode inner path r r₁ r' d h _ ihd ih =>
    intro hp hh hs
    obtain ⟨h₁, -⟩ := ihd trivial (Course.heralding_decision _) hs.apart
    obtain ⟨hs₁, hx⟩ := hs.decides d
    have ht := turns_inheritCause (S := S) r₁ e
    have h₂ := h₁.append (.single ht) [] (r₁.same_inheritCause e).journal (by simp)
    refine judging_cons h₂ ?_ ih hp hh (hs₁.inheritCause e)
    rintro _ _ _ ⟨⟩ ho _
    obtain ⟨cause, hc⟩ := hs₁.caused hx h ho
    have hi : r₁.inheritCause e = r₁.excludeBody e.name cause := by
      simp only [Run.inheritCause, Run.excludeBody, Run.rule, hc]
    rw [hi]
    have hb := bodyCauses_excludeBody r₁ e.name cause
    exact ⟨hx, Or.inr (Or.inl (Option.isSome_iff_exists.2 ⟨cause, hb⟩))⟩
  | @bodyOff scope e mode inner anchor path r r₁ r' d _ hm _ ihd ih =>
    intro hp hh hs
    obtain ⟨h₁, -⟩ := ihd trivial (Course.heralding_decision _) hs.apart
    refine judging_cons h₁ ?_ ih hp hh (hs.decides d).1
    rintro _ _ _ ⟨⟩ ho hn
    exact (bodyMode_ne_off ho hn hm).elim
  | @body scope e mode inner mode' path innerPath r r₁ r₂ r' d _ _ _ l w _ ihd ihw ih =>
    intro hp hh hs
    obtain ⟨h₁, -⟩ := ihd trivial (Course.heralding_decision _) hs.apart
    obtain ⟨hs₁, hx⟩ := hs.decides d
    obtain ⟨h₂, hj⟩ := judges_body hp.body l w ihw h₁ hs₁ hx r₁.cause
    refine judging_cons h₂ ?_ ih hp hh (hs₁.body hx w r₁.cause)
    rintro _ _ _ ⟨⟩ _ _
    exact hj
  | @off e anchor r he hf hm =>
    exact fun _ _ _ => ⟨(Judges.refl r).append (.single (.off he hm)) [] rfl (by simp),
      covered_decision _ _⟩
  | @reject e mode path r r₁ o l w hv ih =>
    intro _ _ hs
    have h₁ := judges_opened o l ih hs
    have ha := admitted_of_passes o w hs.coherent
    have h₂ := h₁.excises ha (r₁.excises_exclude S.program e)
    exact ⟨h₂.append (.single (turn_cause _ _)) [] rfl (by simp), covered_decision _ _⟩
  | @revoke e mode path path' r r₁ r₂ r₃ o l w _ _ hp l' w' _ ih ih' =>
    intro _ _ hs
    obtain ⟨h₃, ha⟩ := judges_published o l w hp l' w' ih ih' hs
    have h₄ := h₃.excises ha (r₃.excises_exclude S.program e)
    exact ⟨h₄.append (.single (turn_cause _ _)) [] rfl (by simp), covered_decision _ _⟩
  | @grant e mode path path' r r₁ r₂ r₃ o l w _ _ hp l' w' _ ih ih' =>
    intro _ _ hs
    obtain ⟨h₃, -⟩ := judges_published o l w hp l' w' ih ih' hs
    exact ⟨h₃.append (.single (.same rfl)) [] rfl (by simp), covered_decision _ _⟩

end Setting

/-! ### One body for each entity -/

namespace Run

/-- The body of an entity is not both admitted and excluded for a cause, and no cause is
recorded before its inquiry begins, unless the entity is excluded. -/
structure Single (x : EntityId) (r : Run) : Prop where
  known : r.verdicts.bodyCauses[x]? ≠ none → x ∈ r.verdicts.examined
  fresh : x ∈ r.verdicts.admitted → r.rounds (.body x) = 0 → r.verdicts.bodyCauses[x]? = none
  apart : x ∈ r.verdicts.admittedBodies → r.verdicts.bodyCauses[x]? = none

/-- What a passage does to the body of an entity. -/
structure Traces (x : EntityId) (r r' : Run) : Prop where
  admitted : x ∈ r.verdicts.admitted → x ∈ r'.verdicts.admitted
  rounds : r.rounds (.body x) ≤ r'.rounds (.body x)
  bodies : x ∈ r'.verdicts.admittedBodies →
    x ∈ r.verdicts.admittedBodies ∨ r.rounds (.body x) < r'.rounds (.body x)
  /-- While the entity is admitted, a cause is recorded only if its body was admitted or is
  gone through on the way. -/
  causes : x ∈ r.verdicts.admitted → r'.verdicts.bodyCauses[x]? = r.verdicts.bodyCauses[x]?
    ∨ x ∈ r.verdicts.admittedBodies ∨ r.rounds (.body x) < r'.rounds (.body x)
  single : r'.rounds (.body x) ≤ 1 → Single x r → Single x r'

variable {x : EntityId} {r r₁ r' : Run}

theorem Traces.refl (x : EntityId) (r : Run) :
  Traces x r r
  := ⟨id, Nat.le_refl _, Or.inl, fun _ => Or.inl rfl, fun _ => id⟩

theorem Traces.trans (h : Traces x r r₁) (h' : Traces x r₁ r') :
  Traces x r r'
  where
    admitted := h'.admitted ∘ h.admitted
    rounds := Nat.le_trans h.rounds h'.rounds
    bodies hx := by
      obtain hx | hlt := h'.bodies hx
      · exact (h.bodies hx).imp_right fun hlt => Nat.lt_of_lt_of_le hlt h'.rounds
      · exact Or.inr (Nat.lt_of_le_of_lt h.rounds hlt)
    causes hx := by
      have later (hlt : r.rounds (.body x) < r₁.rounds (.body x)) :
          r.rounds (.body x) < r'.rounds (.body x) := Nat.lt_of_lt_of_le hlt h'.rounds
      obtain he | hb | hlt := h'.causes (h.admitted hx)
      · rw [he]
        exact (h.causes hx).imp_right (Or.imp_right later)
      · exact Or.inr ((h.bodies hb).imp_right later)
      · exact Or.inr (Or.inr (Nat.lt_of_le_of_lt h.rounds hlt))
    single hle hs := h'.single hle (h.single (Nat.le_trans h'.rounds hle) hs)

/-- A change that leaves the body of an entity alone. -/
theorem traces_of (he : x ∈ r.verdicts.examined → x ∈ r'.verdicts.examined)
    (ha : x ∈ r'.verdicts.admitted ↔ x ∈ r.verdicts.admitted)
    (hb : x ∈ r'.verdicts.admittedBodies ↔ x ∈ r.verdicts.admittedBodies)
    (hc : r'.verdicts.bodyCauses[x]? = r.verdicts.bodyCauses[x]?)
    (hr : r.rounds (.body x) ≤ r'.rounds (.body x)) :
  Traces x r r'
  where
    admitted := ha.2
    rounds := hr
    bodies := Or.inl ∘ hb.1
    causes _ := Or.inl hc
    single _ hs := by
      refine ⟨fun hn => he (hs.known (hc ▸ hn)), fun hx h₀ => ?_, fun hx => ?_⟩
      · rw [hc]
        exact hs.fresh (ha.1 hx) (by omega)
      · rw [hc]
        exact hs.apart (hb.1 hx)

theorem traces_of_register (hg : r'.register = r.register) {new : List Event}
    (hj : r'.journal = new ++ r.journal) :
  Traces x r r'
  := by
  have he : r'.verdicts.examined = r.verdicts.examined := congrArg Register.examined hg
  have ha : r'.verdicts.admitted = r.verdicts.admitted := congrArg Register.admitted hg
  have hb : r'.verdicts.admittedBodies = r.verdicts.admittedBodies :=
    congrArg Register.admittedBodies hg
  have hc : r'.verdicts.bodyCauses = r.verdicts.bodyCauses := congrArg Register.bodyCauses hg
  apply traces_of
  · rw [he]
    exact fun hx => hx
  · rw [ha]
  · rw [hb]
  · rw [hc]
  · exact rounds_le_of_journal hj _

theorem traces_of_calm (h : r.Calm r') :
  Traces x r r'
  := by
  obtain ⟨new, hj, -⟩ := h.journal
  exact traces_of_register h.register hj

/-- The body of an excluded entity is excluded for the same cause. -/
theorem traces_inheritCause (hr : r.Coherent) {e : Entity} (h : r.admits e.name = false)
    (he : e.name ∈ r.verdicts.examined) :
  Traces x r (r.inheritCause e)
  := by
  cases hc : r.verdicts.causes[e.name]? with
  | none =>
    have hi : r.inheritCause e = r := by simp only [inheritCause, rule, hc]
    rw [hi]
    exact .refl x r
  | some cause =>
    have hi : r.inheritCause e = r.excludeBody e.name cause := by
      simp only [inheritCause, excludeBody, rule, hc]
    rw [hi]
    by_cases hx : x = e.name
    · have ha : x ∉ r.verdicts.admitted := by
        rw [hx, ← Run.admits_iff]
        exact Bool.eq_false_iff.1 h
      have hb : x ∉ r.verdicts.admittedBodies := fun hb => ha (hr.mem_admitted x hb)
      exact ⟨id, Nat.le_refl _, Or.inl, fun ha' => absurd ha' ha, fun _ _ =>
        ⟨fun _ => hx ▸ he, fun ha' => absurd ha' ha, fun hb' => absurd hb' hb⟩⟩
    · exact traces_of id Iff.rfl Iff.rfl (getElem?_insert_of_ne hx) (Nat.le_refl _)

/-- The inquiry into an entity starts. -/
theorem traces_open {e : Entity} (h : e.name ∉ r.verdicts.examined)
    (mode : Option Mode × Option EntityId) :
  Traces x r (r.open e mode)
  := by
  have hg := r.register_open e mode
  have hj : (r.open e mode).journal = [.began (.declaration e.name)] ++ r.journal :=
    (r.examine e.name).journal_start _ _
  have he : (r.open e mode).verdicts.examined = r.verdicts.examined.insert e.name :=
    congrArg Register.examined hg
  have ha : (r.open e mode).verdicts.admitted = r.verdicts.admitted.insert e.name :=
    congrArg Register.admitted hg
  have hb : (r.open e mode).verdicts.admittedBodies = r.verdicts.admittedBodies :=
    congrArg Register.admittedBodies hg
  have hc : (r.open e mode).verdicts.bodyCauses = r.verdicts.bodyCauses :=
    congrArg Register.bodyCauses hg
  refine ⟨?_, rounds_le_of_journal hj _, ?_, fun _ => ?_, fun _ hs => ⟨?_, ?_, ?_⟩⟩
  · rw [ha]
    exact fun hx => mem_insert_iff.2 (Or.inr hx)
  · rw [hb]
    exact Or.inl
  · rw [hc]
    exact Or.inl rfl
  · rw [hc, he]
    exact fun hn => mem_insert_iff.2 (Or.inr (hs.known hn))
  · rw [ha, hc]
    intro hx h₀
    obtain rfl | hx := mem_insert_iff.1 hx
    · exact by_contra fun hn => h (hs.known hn)
    · exact hs.fresh hx (by have := rounds_le_of_journal hj (.body x); omega)
  · rw [hb, hc]
    exact hs.apart

/-- An exclusion keeps the bodies of entities apart. -/
theorem Single.excises {id : EntityId} {cause : Site} (h : Single x r) (hr : r.Coherent)
    (hx : r.Excises id cause r') :
  Single x r'
  := by
  have he : r'.verdicts.examined = r.verdicts.examined := by rw [hx.strikes.frame]
  obtain hc | ⟨hb, hb', hc⟩ := hx.writes.bodyCauses x
  · refine ⟨?_, fun ha h₀ => ?_, fun hb => ?_⟩
    · rw [hc, he]
      exact h.known
    · rw [hc]
      exact h.fresh (hx.strikes.admitted ha) ((hx.strikes.rounds_eq _).symm.trans h₀)
    · rw [hc]
      exact h.apart (hx.strikes.admittedBodies hb)
  · refine ⟨fun _ => ?_, fun ha h₀ => ?_, fun hb => absurd hb hb'⟩
    · rw [he]
      exact hr.mem_examined x (hr.mem_admitted x hb)
    · have := hr.rounds_pos (Verdicts.upholds_body.2 hb)
      rw [hx.strikes.rounds_eq] at h₀
      omega

/-- A passage that ends with an exclusion. -/
theorem Traces.excises {id : EntityId} {cause : Site} {m : Option Matter} {new : List Event}
    (h : Traces x r r₁) (hr : r₁.Coherent) (hx : r₁.Excises id cause r')
    (ha : r.Advances m new r') :
  Traces x r r'
  where
    admitted := ha.admitted x
    rounds := rounds_le_of_journal ha.journal _
    bodies hb := by
      rw [hx.strikes.rounds_eq]
      exact h.bodies (hx.strikes.admittedBodies hb)
    causes hadm := by
      rw [hx.strikes.rounds_eq]
      obtain hc | ⟨hb, -⟩ := hx.writes.bodyCauses x
      · rw [hc]
        exact h.causes hadm
      · exact Or.inr (h.bodies hb)
    single hle hs := by
      rw [hx.strikes.rounds_eq] at hle
      exact (h.single hle hs).excises hr hx

/-- The verdict on the body of another entity. -/
theorem traces_concludeBody {e : Entity} (h : x ≠ e.name) (cause : Option Site) :
  Traces x r { r.concludeBody e with cause }
  := by
  unfold concludeBody
  split
  · have hb : x ∈ r.verdicts.admittedBodies.insert e.name ↔ x ∈ r.verdicts.admittedBodies :=
      mem_insert_iff.trans (or_iff_right h)
    exact traces_of id Iff.rfl hb rfl (Nat.le_refl _)
  · exact traces_of id Iff.rfl Iff.rfl (getElem?_insert_of_ne h) (Nat.le_refl _)

/-- The body of an entity is gone through for the first time. -/
theorem Traces.concludeBody {e : Entity} (scope : Scope) (hr : r.Coherent)
    (ha : e.name ∈ r.verdicts.admitted)
    (h : Traces e.name (r.start scope (.body e.name)) r₁)
    (he : e.name ∈ r₁.verdicts.examined) (cause : Option Site) :
  Traces e.name r { r₁.concludeBody e with cause }
  := by
  obtain ⟨reporting, hv⟩ := r.verdicts_start scope (.body e.name)
  have hs := Setting.rounds_start r scope (.body e.name) (.body e.name)
  have hle := h.rounds
  rw [if_pos rfl] at hs
  have hj : ({ r₁.concludeBody e with cause } : Run).rounds (.body e.name)
      = r₁.rounds (.body e.name) := r₁.rounds_concludeBody e cause _
  have hlt : r.rounds (.body e.name)
      < ({ r₁.concludeBody e with cause } : Run).rounds (.body e.name) := by omega
  have ha₁ : e.name ∈ r₁.verdicts.admitted := by
    apply h.admitted
    rwa [hv]
  refine ⟨fun _ => ?_, Nat.le_of_lt hlt, fun _ => Or.inr hlt, fun _ => Or.inr (Or.inr hlt), ?_⟩
  · unfold Run.concludeBody
    split <;> exact ha₁
  · intro hle' hsingle
    have hc := hsingle.fresh ha (by omega)
    have hb : e.name ∉ (r.start scope (.body e.name)).verdicts.admittedBodies := by
      rw [hv]
      intro hb
      have := hr.rounds_pos (Verdicts.upholds_body.2 hb)
      omega
    have hc₁ : r₁.verdicts.bodyCauses[e.name]? = none := by
      obtain hc' | hb' | hlt' := h.causes (by rwa [hv])
      · rw [hc', hv]
        exact hc
      · exact (hb hb').elim
      · omega
    have hb₁ : e.name ∉ r₁.verdicts.admittedBodies := by
      intro hb'
      obtain hb' | hlt' := h.bodies hb'
      · exact hb hb'
      · omega
    have h₀ : ({ r₁.concludeBody e with cause } : Run).rounds (.body e.name) ≠ 0 := by omega
    refine ⟨?_, fun _ h₀' => absurd h₀' h₀, ?_⟩
    · unfold Run.concludeBody
      split <;> exact fun _ => he
    · unfold Run.concludeBody
      split
      · exact fun _ => hc₁
      · exact fun hb' => absurd hb' hb₁

end Run

namespace Setting

variable {S : Setting}

/-- The inquiry into a body, and the verdict on it. -/
theorem traces_body {m : Option Matter} {e : Entity} {mode' : Option Mode × Option EntityId}
    {path : List Step} {x : EntityId} {r r₁ : Run} (hs : S.Steady m r)
    (hx : e.name ∈ r.verdicts.examined) (ha : r.admits e.name = true)
    (w : S.Passes (.steps (e.bodyScope mode') path)
      (r.start (e.bodyScope mode') (.body e.name)) r₁)
    (ih : Run.Traces x (r.start (e.bodyScope mode') (.body e.name)) r₁) (cause : Option Site) :
  Run.Traces x r { r₁.concludeBody e with cause }
  := by
  by_cases he : x = e.name
  · subst he
    have hs₀ := hs.start hx mode'
    obtain ⟨reporting, hv⟩ := r.verdicts_start (e.bodyScope mode') (.body e.name)
    obtain ⟨new, hadv, -⟩ := orderly_of_passes w hs₀.coherent hs₀.under
    refine ih.concludeBody _ hs.coherent (Run.admits_iff.1 ha) ?_ cause
    apply hadv.examined
    rwa [hv]
  · have hj : (r.start (e.bodyScope mode') (.body e.name)).journal
        = [.began (.body e.name)] ++ r.journal := r.journal_start _ _
    have h₀ := Run.traces_of_register (x := x) (r.register_start (e.bodyScope mode') _) hj
    exact (h₀.trans ih).trans (Run.traces_concludeBody he cause)

/-- The inquiry into an entity that is published, and into its predicate. -/
theorem traces_published {e : Entity} {mode : Option Mode × Option EntityId} {x : EntityId}
    {r r₁ r₂ r₃ : Run} (o : S.Opens e mode r) (hp : S.publish e r₁ = .ok () r₂)
    (ih : Run.Traces x (r.open e mode) r₁) (ih' : Run.Traces x r₂ r₃) :
  Run.Traces x r r₃
  := by
  have h₁ := (Run.traces_open o.fresh mode).trans ih
  have h₂ : Run.Traces x r₁ r₂ := by
    obtain ⟨roster, rfl⟩ := S.publish_eq_ok hp
    exact Run.traces_of id Iff.rfl Iff.rfl rfl (Nat.le_refl _)
  exact (h₁.trans h₂).trans ih'

/-- An exclusion at the end of a decision. -/
theorem traces_excluded {e : Entity} {x : EntityId} {r r₁ : Run} {new : List Event}
    (h : Run.Traces x r r₁) (hr : r₁.Coherent)
    (ha : r.Advances none new { r₁.exclude S.program e with cause := r.cause }) :
  Run.Traces x r { r₁.exclude S.program e with cause := r.cause }
  := by
  have hs : Run.Same { r₁.exclude S.program e with cause := r.cause }
      (r₁.exclude S.program e) := ⟨rfl, rfl, rfl, rfl, rfl, .refl _⟩
  have hx := h.excises hr (r₁.excises_exclude S.program e) (ha.same hs)
  exact hx.trans (Run.traces_of_register rfl (List.nil_append _).symm)

/-- What a passage does to the body of an entity. -/
theorem traces_of_passes {c : Course} {r r' : Run} (h : S.Passes c r r') :
  S.Steady c.matter r → ∀ x, Run.Traces x r r'
  := by
  induction h with
  | nil | known => exact fun _ x => .refl x _
  | @plain scope s path r r₁ r' h p ih =>
    intro hs x
    obtain ⟨new, ha, -⟩ := plain_step h hs.coherent hs.under
    exact (Run.traces_of_register (register_plain h) ha.journal).trans (ih (hs.plain h) x)
  | decide d _ ihd ih | declare d _ _ ihd ih | declareResting d _ _ _ ihd ih
  | bodyOff d _ _ _ ihd ih =>
    intro hs x
    exact (ihd hs.apart x).trans (ih (hs.decides d).1 x)
  | @consult scope id site path r r₁ r' d _ ihd ih =>
    intro hs x
    obtain ⟨hs₁, hx⟩ := hs.decides d
    have hj : (r₁.rest scope id site).journal = [.consulted scope.matter id] ++ r₁.journal :=
      journal_rest r₁ scope id site
    have h₂ := Run.traces_of_register (x := x) (r₁.register_rest scope id site) hj
    exact ((ihd hs.apart x).trans h₂).trans (ih (hs₁.rest hx site) x)
  | @bodyExcluded scope e mode inner path r r₁ r' d h _ ihd ih =>
    intro hs x
    obtain ⟨hs₁, hx⟩ := hs.decides d
    have h₂ := Run.traces_inheritCause (x := x) hs₁.coherent h hx
    exact ((ihd hs.apart x).trans h₂).trans (ih (hs₁.inheritCause e) x)
  | @body scope e mode inner mode' path innerPath r r₁ r₂ r' d ha _ _ l w _ ihd ihw ih =>
    intro hs x
    obtain ⟨hs₁, hx⟩ := hs.decides d
    have h₂ := traces_body hs₁ hx ha w (ihw (hs₁.start hx mode') x) r₁.cause
    exact ((ihd hs.apart x).trans h₂).trans (ih (hs₁.body hx w r₁.cause) x)
  | @off e anchor r _ _ _ =>
    intro _ x
    exact Run.traces_of (fun hx => mem_insert_iff.2 (Or.inr hx)) Iff.rfl Iff.rfl rfl
      (Nat.le_refl _)
  | @reject e mode path r r₁ o l w hv ih =>
    intro hs x
    obtain ⟨new, ha, -⟩ := orderly_of_passes (.reject o l w hv) hs.coherent hs.under
    have h₁ := (Run.traces_open o.fresh mode).trans (ih (hs.open o) x)
    exact traces_excluded h₁ ((hs.open o).passes w).coherent ha
  | @revoke e mode path path' r r₁ r₂ r₃ o l w hv h hp l' w' hv' ih ih' =>
    intro hs x
    obtain ⟨new, ha, -⟩ :=
      orderly_of_passes (.revoke o l w hv h hp l' w' hv') hs.coherent hs.under
    have hs₂ : S.Steady (Course.steps (e.declarationScope mode) path').matter r₂ :=
      ((hs.open o).passes w).publish o.isOff hp
    have h₃ := traces_published o hp (ih (hs.open o) x) (ih' hs₂ x)
    exact traces_excluded h₃ (hs₂.passes w').coherent ha
  | @grant e mode path path' r r₁ r₂ r₃ o l w _ _ hp l' w' _ ih ih' =>
    intro hs x
    have hs₂ := ((hs.open o).passes w).publish o.isOff hp
    have h₃ := traces_published o hp (ih (hs.open o) x) (ih' hs₂ x)
    exact h₃.trans (Run.traces_of_register rfl (List.nil_append _).symm)

/-! ### Stages -/

theorem Lawful.heralding {c : Course} (h : S.Lawful c) :
  c.Heralding
  := by
  cases c with
  | decision id => exact Course.heralding_decision id
  | steps scope path =>
    obtain ⟨t, known, bs, i, hi, l⟩ := h
    exact hi.heralding l scope

theorem Judges.calm {r r₁ r' : Run} (h : S.Judges r r₁) (hc : r₁.Calm r') :
  S.Judges r r'
  := by
  obtain ⟨new, hj, hn⟩ := hc.journal
  refine h.append (.single (.same hc.register)) new hj fun event he => ?_
  obtain ⟨t, rfl⟩ := hn event he
  rfl

/-- A stage judges the bodies that it comes to. -/
theorem judges_of_stage {ns : List Node} {r r' : Run} (st : S.Stage ns r r')
    (h : S.Steady none r) :
  S.Judges r r'
  := by
  obtain ⟨c, r₁, r₂, hc₁, hl, h₁, p, hc₂⟩ := st.parts h
  have hp := (judges_of_passes p hl.lawful.proper hl.lawful.heralding h₁).1
  have hj := ((Judges.refl r).calm hc₁).trans hp
  obtain hc₂ | ⟨access, type, cause, -, -, -, -, rfl⟩ := hc₂
  · exact hj.calm hc₂
  · obtain ⟨he, -⟩ | ⟨ha, hx⟩ := r₂.excises_takeBack S.program access type cause
    · rwa [he]
    · exact hj.excises ha hx

/-- A stage keeps the bodies of entities apart. -/
theorem single_of_stage {ns : List Node} {r r' : Run} (st : S.Stage ns r r')
    (h : S.Steady none r) (x : EntityId) :
  r.rounds (.body x) ≤ r'.rounds (.body x)
    ∧ (r'.rounds (.body x) ≤ 1 → Run.Single x r → Run.Single x r')
  := by
  obtain ⟨c, r₁, r₂, hc₁, -, h₁, p, hc₂⟩ := st.parts h
  have ht := (Run.traces_of_calm hc₁).trans (traces_of_passes p h₁ x)
  obtain hc₂ | ⟨access, type, cause, -, -, -, -, rfl⟩ := hc₂
  · have ht := ht.trans (Run.traces_of_calm hc₂)
    exact ⟨ht.rounds, ht.single⟩
  · obtain ⟨he, -⟩ | ⟨-, hx⟩ := r₂.excises_takeBack S.program access type cause
    · rw [he]
      exact ⟨ht.rounds, ht.single⟩
    · rw [hx.strikes.rounds_eq]
      exact ⟨ht.rounds, fun hle hs => (ht.single hle hs).excises (h₁.passes p).coherent hx⟩

/-- A run in stages judges the bodies that it comes to, and keeps them apart if no body is
gone through twice. -/
theorem judges_of_proceeds {ns : List Node} {r r' : Run} (p : S.Proceeds ns r r')
    (h : S.Steady none r) :
  S.Judges r r' ∧ ∀ x, r.rounds (.body x) ≤ r'.rounds (.body x)
    ∧ (r'.rounds (.body x) ≤ 1 → Run.Single x r → Run.Single x r')
  := by
  induction p with
  | nil => exact ⟨.refl _, fun _ => ⟨Nat.le_refl _, fun _ => id⟩⟩
  | @cons ns ms r r₁ r' st p ih =>
    obtain ⟨h₂, hs₂⟩ := ih (h.stage st)
    refine ⟨(judges_of_stage st h).trans h₂, ?_⟩
    intro x
    obtain ⟨hle₁, h₁⟩ := single_of_stage st h x
    obtain ⟨hle₂, h₂⟩ := hs₂ x
    exact ⟨Nat.le_trans hle₁ hle₂, fun hle hs => h₂ hle (h₁ (Nat.le_trans hle₂ hle) hs)⟩

/-- In a program where each entity has at most one body, no body is admitted and has a cause
recorded for it.  Whenever an inquiry comes to a body, and neither the body nor its entity is
excluded from analysis, the body is admitted in the end, or a cause is recorded for it, or the
journal of the run shows that it was admitted and its entity excluded after that, which leaves
it without a verdict. -/
theorem bodies_judged {S : Setting} (hn : (Node.bodiedOf S.program.units).Nodup) {r : Run}
    (h : S.wholeProgram {} = .ok () r) :
  (∀ id ∈ r.verdicts.admittedBodies, r.verdicts.bodyCauses[id]? = none)
    ∧ (∀ id mode, (id, mode) ∈ r.arrivals → S.isOff id ≠ .ok true → mode ≠ some .off →
      id ∈ r.verdicts.admittedBodies ∨ (r.verdicts.bodyCauses[id]?).isSome = true
        ∨ ∃ cause, r.verdicts.causes[id]? = some cause ∧ Lapses id cause r.journal)
    ∧ ∀ id cause, Lapses id cause r.journal → id ∉ r.verdicts.admittedBodies
  := by
  obtain ⟨r₁, hp, -, rfl⟩ := proceeds_wholeProgram h
  obtain ⟨hj, hs⟩ := judges_of_proceeds hp steady_empty
  have hrec := recorded_of_turns hj.turns
  have caused {id : EntityId} {cause : Site} (hl : Lapses id cause r₁.journal) :
      r₁.verdicts.causes[id]? = some cause := by
    obtain ⟨later, earlier, hl, -⟩ := hl
    refine (hrec.excluded id cause).1 (Run.mem_log_iff.2 ⟨?_, rfl⟩)
    rw [hl]
    exact List.mem_append_right _ List.mem_cons_self
  refine ⟨fun id hb => ?_, fun id mode hm ho hn => ?_, fun id cause hl hb => ?_⟩
  · have hle : r₁.rounds (.body id) ≤ 1 := rounds_le_one hn h rfl
    exact ((hs id).2 hle (by constructor <;> simp)).apart hb
  · obtain ⟨event, he, hb⟩ := List.mem_filterMap.1 hm
    have ha : S.Arrives id event := ⟨ho, mode, hb, hn⟩
    obtain he | ⟨-, hjudged⟩ := hj.judged .refl id event ha he
    · cases he
    · refine hjudged.imp_right (Or.imp_right ?_)
      rintro ⟨cause, hl⟩
      exact ⟨cause, caused (lapses_of_log hl), lapses_of_log hl⟩
  · have hc := (sorted_of_turns hj.turns sorted_empty).causes_eq_none (hrec.bodies id hb).1
    rw [show r₁.register.causes[id]? = some cause from caused hl] at hc
    cases hc

/-! ### A procedure that is withdrawn after its body was admitted -/

/-- A procedure with a parameter of an access type to a type that is never completed, a
procedure with a parameter of the type itself, and one without parameters, each with a
body. -/
def bodiesSample : Setting :=
  (ofParts?
    [{ name := "I", kind := .type { definition := .incomplete none } },
      { name := "A", kind := .type { definition := .access { designated := "I" } } },
      { name := "X", kind := .parameter { type := "A" } },
      { name := "P", kind := .subprogram { kind := .procedure, parameters := ["X"] } },
      { name := "Y", kind := .parameter { type := "I" } },
      { name := "Q", kind := .subprogram { kind := .procedure, parameters := ["Y"] } },
      { name := "R", kind := .subprogram { kind := .procedure } }]
    [.plain (.body .subprogram "P" none [] []), .plain (.body .subprogram "Q" none [] []),
      .plain (.body .subprogram "R" none [] [])]).get
    (by decide +kernel)

theorem bodies_judged_bodiesSample :
  let r := (bodiesSample.wholeProgram.after {}).2
  (Node.bodiedOf bodiesSample.program.units).Nodup ∧ bodiesSample.wholeProgram {} = .ok () r
    ∧ "R" ∈ r.verdicts.admittedBodies ∧ r.verdicts.bodyCauses["R"]? = none
    ∧ ("Q", none) ∈ r.arrivals ∧ (r.verdicts.bodyCauses["Q"]?).isSome = true
    ∧ ("P", none) ∈ r.arrivals ∧ (∃ cause, Lapses "P" cause r.journal)
    ∧ "P" ∉ r.verdicts.admittedBodies
  := by
  have hn : (Node.bodiedOf bodiesSample.program.units).Nodup := by decide +kernel
  have h : bodiesSample.wholeProgram {} = .ok () (bodiesSample.wholeProgram.after {}).2 :=
    Act.eq_ok_of_after (by decide +kernel)
  have hR : "R" ∈ (bodiesSample.wholeProgram.after {}).2.verdicts.admittedBodies := by
    decide +kernel
  have hQ : ("Q", none) ∈ (bodiesSample.wholeProgram.after {}).2.arrivals := by decide +kernel
  have hP : ("P", none) ∈ (bodiesSample.wholeProgram.after {}).2.arrivals := by decide +kernel
  obtain ⟨hapart, hjudged, hlapsed⟩ := bodies_judged hn h
  have hQ' : (bodiesSample.wholeProgram.after {}).2.verdicts.bodyCauses["Q"]?.isSome = true := by
    obtain ha | hc | ⟨cause, -, hl⟩ := hjudged "Q" none hQ (by decide +kernel) (by decide)
    · exact absurd ha (by decide +kernel)
    · exact hc
    · exact absurd hl.any (by decide +kernel)
  have hP' : ∃ cause, Lapses "P" cause (bodiesSample.wholeProgram.after {}).2.journal := by
    obtain ha | hc | ⟨cause, -, hl⟩ := hjudged "P" none hP (by decide +kernel) (by decide)
    · exact absurd ha (by decide +kernel)
    · exact absurd hc (by decide +kernel)
    · exact ⟨cause, hl⟩
  obtain ⟨cause, hl⟩ := hP'
  exact ⟨hn, h, hR, hapart "R" hR, hQ, hQ', hP, ⟨cause, hl⟩, hlapsed "P" cause hl⟩

/-- The procedure whose parameter is withdrawn late: its body was admitted, and in the end it
is neither admitted nor is a cause recorded for it. -/
theorem bodyCause_missing_bodiesSample :
  let r := (bodiesSample.wholeProgram.after {}).2
  (Node.bodiedOf bodiesSample.program.units).Nodup ∧ bodiesSample.wholeProgram {} = .ok () r
    ∧ ("P", none) ∈ r.arrivals ∧ bodiesSample.isOff "P" = .ok false
    ∧ "P" ∉ r.verdicts.admittedBodies ∧ r.verdicts.bodyCauses["P"]? = none
  := by
  refine ⟨by decide +kernel, Act.eq_ok_of_after (by decide +kernel), ?_, ?_, ?_, ?_⟩
    <;> decide +kernel

end Setting

end Conformance
