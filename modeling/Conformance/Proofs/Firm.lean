import Conformance.Proofs.Steady

/-!
# Firm sets of entities

A set of entities is firm if each of its members has a favourable path on which it rests on
other members only, and all its questions are answered with yes.  Whatever the order is in
which a run comes to the members of a firm set, it admits them: no step of theirs violates
anything as long as the members that were examined before are admitted, and nothing outside of
the set takes them along when it is excluded.

`admitted_of_firm` is the result.  It says nothing about the order of decisions, since firm sets
are about the inquiries only.
-/

namespace Conformance

namespace Setting

open Inquiry

variable (S : Setting)

/-- What the steps of a member of a firm set are like: they rest on members, and all questions
are answered with yes. -/
def Confirms (A : EntityId → Prop) : Step → Prop
  | .consult id _ _ | .declare id _ (some _) => A id
  | .declare id _ none => S.isOff id = .ok true
  | .ask _ admitted => admitted = true
  | _ => True

/-- A set of entities that support each other. -/
structure Firm (A : EntityId → Prop) : Prop where
  analysed : ∀ x, A x → S.isOff x = .ok false
  designated : ∀ access id, A access → S.designated access = .ok id → A id
  supported : ∀ e, S.program.entity e.name = .ok e → A e.name →
    ∃ path, (do S.entityInquiry e; predicateInquiry e : Inquiry Unit).Favours path ()
      ∧ ∀ s ∈ path, S.Confirms A s

/-- A step that violates a matter only if it rests on an entity of the set which is excluded. -/
def IsSafe (A : EntityId → Prop) : Step → Prop
  | .consult id _ _ => A id
  | .declare id _ (some _) => A id ∨ S.isOff id = .ok true
  | .find _ finding => finding.violates = false
  | _ => True

/-- A path whose steps are safe, as long as nothing was violated before. -/
def Safe (A : EntityId → Prop) : List Step → Prop
  | [] => True
  | s :: path => S.IsSafe A s ∧ (s.isClean → Safe A path)

/-- A course that is safe if it is about a member of the set. -/
def Course.Safe (A : EntityId → Prop) : Course → Prop
  | .decision _ => True
  | .steps scope path => ∀ x, scope.matter = some (.declaration x) → A x → S.Safe A path

end Setting

namespace Run

/-- The examined members of a set are admitted, and rest on members only. -/
structure Backs (r : Run) (A : EntityId → Prop) : Prop where
  admitted : ∀ x ∈ r.verdicts.examined, A x → x ∈ r.verdicts.admitted
  dependents : ∀ x y, .declaration y ∈ r.verdicts.dependentsOf x → A y → A x

variable {A : EntityId → Prop} {r r' : Run}

theorem Backs.keeps (h : r.Backs A) (he : r'.verdicts.examined = r.verdicts.examined)
    (ha : r'.verdicts.admitted = r.verdicts.admitted)
    (hd : r'.verdicts.dependents = r.verdicts.dependents) :
  r'.Backs A
  := by
  constructor
  · rw [he, ha]
    exact h.admitted
  · intro x y hy
    rw [Verdicts.dependentsOf, hd] at hy
    exact h.dependents x y hy

theorem Backs.same (h : r.Backs A) (hs : r.Same r') :
  r'.Backs A
  := h.keeps hs.examined hs.admitted hs.dependents

theorem Backs.start (h : r.Backs A) (scope : Scope) (m : Matter) :
  (r.start scope m).Backs A
  := by
  obtain ⟨reporting, hv⟩ := r.verdicts_start scope m
  apply h.keeps <;> rw [hv]

theorem Backs.concludeBody (h : r.Backs A) (e : Entity) (cause : Option Site) :
  Run.Backs { r.concludeBody e with cause } A
  := by
  unfold Run.concludeBody
  split <;> exact h.keeps rfl rfl rfl

theorem Backs.admits (h : r.Backs A) {x : EntityId} (hx : x ∈ r.verdicts.examined) (hA : A x) :
  r.admits x = true
  := Run.admits_iff.2 (h.admitted x hx hA)

theorem Backs.rest (h : r.Backs A) {scope : Scope} {id : EntityId}
    (hs : ∀ x, scope.matter = some (.declaration x) → A x → A id) (site : Site) :
  (r.rest scope id site).Backs A
  := by
  have hg := r.register_rest scope id site
  have he : (r.rest scope id site).verdicts.examined = r.verdicts.examined :=
    congrArg Register.examined hg
  have ha : (r.rest scope id site).verdicts.admitted = r.verdicts.admitted :=
    congrArg Register.admitted hg
  constructor
  · rw [he, ha]
    exact h.admitted
  · intro x y hy hA
    unfold Run.rest at hy
    split at hy
    · split at hy
      · exact h.dependents x y hy hA
      · next m hm =>
        obtain hy | ⟨rfl, rfl, -, -⟩ := Verdicts.mem_dependentsOf_depend.1 hy
        · exact h.dependents x y hy hA
        · exact hs y hm hA
    · rw [(Run.same_findExcluded _ _ _ _).dependentsOf] at hy
      exact h.dependents x y hy hA

/-- Striking out an entity outside of a set, along with what rests on it, leaves the set
alone. -/
theorem Backs.strikes (h : r.Backs A) {id : EntityId} (hs : r.Strikes id r') (hid : ¬ A id) :
  r'.Backs A
  := by
  have hit (x : EntityId) (hx : r.verdicts.Hit [id] x) : ¬ A x := by
    induction hx with
    | first hc hd _ =>
      obtain rfl := List.mem_singleton.1 hc
      exact fun hA => hid (h.dependents _ _ hd hA)
    | next _ hd _ ih => exact fun hA => ih (h.dependents _ _ hd hA)
  constructor
  · intro x hx hA
    rw [hs.frame] at hx
    by_contra hn
    obtain rfl | hx := hs.hit x ⟨h.admitted x hx hA, hn⟩
    · exact hid hA
    · exact hit x hx hA
  · exact fun x y hy => h.dependents x y (hs.dependents x _ hy)

/-- What a passage does for a set while a matter is under way: its examined members stay
admitted, and the matter is not violated if it is about a member. -/
structure Bears (A : EntityId → Prop) (m : Option Matter) (r r' : Run) : Prop where
  backs : r'.Backs A
  cause : ∀ x, m = some (.declaration x) → A x → r.cause = none → r'.cause = none

variable {m : Option Matter} {r₁ : Run}

theorem Bears.trans (h : Bears A m r r₁) (h' : Bears A m r₁ r') :
  Bears A m r r'
  := ⟨h'.backs, fun x hx hA hc => h'.cause x hx hA (h.cause x hx hA hc)⟩

theorem Bears.after (h : Bears A m r₁ r') (hc : r₁.cause = r.cause) :
  Bears A m r r'
  := ⟨h.backs, fun x hx hA hn => h.cause x hx hA (hc.trans hn)⟩

theorem bears_of_cause (hc : r'.cause = r.cause) (h : r'.Backs A) :
  Bears A m r r'
  := ⟨h, fun _ _ _ hn => hc.trans hn⟩

theorem Backs.open (h : r.Backs A) (e : Entity) (mode : Option Mode × Option EntityId) :
  (r.open e mode).Backs A
  := by
  obtain ⟨reporting, hv⟩ := r.verdicts_open e mode
  constructor <;> simp only [hv]
  · intro x hx hA
    obtain rfl | hx := mem_insert_iff.1 hx
    · exact mem_insert_iff.2 (Or.inl rfl)
    · exact mem_insert_iff.2 (Or.inr (h.admitted x hx hA))
  · exact h.dependents

end Run

namespace Setting

open Inquiry

variable {S : Setting} {A : EntityId → Prop}

/-! ### Paths of the members -/

theorem safe_append {p q : List Step} :
  S.Safe A (p ++ q) ↔ S.Safe A p ∧ ((∀ s ∈ p, s.isClean) → S.Safe A q)
  := by
  induction p with
  | nil => simp [Safe]
  | cons s p ih =>
    simp only [List.cons_append, Safe, ih, List.forall_mem_cons, imp_and, and_imp, and_assoc]

/-- Two plain steps of one inquiry are the same. -/
theorem takes_unique {α : Type} {i j k : Inquiry α} {s s' : Step} (hs : s.isPlain)
    (h : i.Takes s j) (h' : i.Takes s' k) :
  s = s' ∧ j = k
  := by
  cases h <;> cases h' <;> first | exact ⟨rfl, rfl⟩ | cases hs

/-- A plain inquiry has one path. -/
theorem leads_unique {α : Type} {i : Inquiry α} (hi : i.IsPlain) {p q : List Step} {a b : α}
    (h : i.Leads p a) (h' : i.Leads q b) :
  p = q ∧ a = b
  := by
  induction h generalizing q with
  | done =>
    cases h' with
    | done => exact ⟨rfl, rfl⟩
    | step t _ => cases t
  | step t _ ih =>
    cases h' with
    | done => cases t
    | step t' l' =>
      obtain ⟨hs, hj⟩ := hi.takes t
      obtain ⟨rfl, rfl⟩ := takes_unique hs t t'
      obtain ⟨rfl, rfl⟩ := ih hj l'
      exact ⟨rfl, rfl⟩

/-- The steps of a plain inquiry with a favourable path are safe. -/
theorem safe_of_plain {α : Type} {i : Inquiry α} (hi : i.IsPlain) {p q : List Step} {a b : α}
    (h : i.Favours p a) (h' : i.Leads q b) :
  S.Safe A q ∧ a = b
  := by
  obtain ⟨rfl, rfl⟩ := leads_unique hi h.leads h'
  refine ⟨?_, rfl⟩
  have hp := (hi.of_leads h').1
  have hc := h.clean
  clear h h' hi
  induction p with
  | nil => trivial
  | cons s p ih =>
    rw [List.forall_mem_cons] at hp hc
    refine ⟨?_, fun _ => ih hp.2 hc.2⟩
    obtain ⟨hs, -⟩ := hp
    obtain ⟨hc, -⟩ := hc
    cases s with
    | find site finding => simpa [Step.isClean, IsSafe] using hc
    | consult | declare => cases hs
    | _ => trivial

/-- If one path of an inquiry confirms a set, then all its paths are safe, and it is done with
the same value on all its clean paths. -/
theorem Regular.safe {α : Type} {t : Topic} {known : EntityId → Prop}
    {bs : List (EntityId × List Node)} {i : Inquiry α} (h : S.Regular t known bs i)
    (ht : ∀ access id, t.declared = some access → S.designated access = .ok id → A id)
    {p q : List Step} {a b : α} (hp : i.Favours p a) (hc : ∀ s ∈ p, S.Confirms A s)
    (l : i.Leads q b) :
  S.Safe A q ∧ ((∀ s ∈ q, s.isClean) → a = b)
  := by
  induction h generalizing p q with
  | plain h =>
    obtain ⟨hs, he⟩ := safe_of_plain h hp l
    exact ⟨hs, fun _ => he⟩
  | bind _ _ ih ih' =>
    obtain ⟨p₁, c, p₂, rfl, hp₁, hp₂⟩ := favours_bind_iff.1 hp
    obtain ⟨q₁, d, q₂, rfl, hq₁, hq₂⟩ := leads_bind_iff.1 l
    rw [List.forall_mem_append] at hc
    obtain ⟨hs, he⟩ := ih hp₁ hc.1 hq₁
    have hrest (hq : ∀ s ∈ q₁, s.isClean) := by
      obtain rfl := he hq
      exact ih' c q₁ hq₁ hp₂ hc.2 hq₂
    refine ⟨safe_append.2 ⟨hs, fun hq => (hrest hq).1⟩, fun hq => ?_⟩
    rw [List.forall_mem_append] at hq
    exact (hrest hq.1).2 hq.2
  | consult id site f =>
    obtain ⟨s, j, rest, rfl, tp, hs, hp⟩ := (favours_step_iff (by simp)).1 hp
    cases tp with
    | consult c =>
      obtain ⟨rfl, rfl⟩ := favours_done.1 hp
      cases l with
      | step tq l =>
        cases tq with
        | consult d =>
          obtain ⟨rfl, rfl⟩ := leads_pure.1 l
          refine ⟨⟨hc _ List.mem_cons_self, fun _ => trivial⟩, fun hq => ?_⟩
          obtain rfl : c = true := hs
          obtain rfl : d = true := hq _ List.mem_cons_self
          rfl
  | declare id site =>
    obtain ⟨s, j, rest, rfl, tp, hs, hp⟩ := (favours_step_iff (by simp)).1 hp
    cases tp with
    | declare c =>
      have hc := hc _ List.mem_cons_self
      cases l with
      | step tq l =>
        cases tq with
        | declare d =>
          obtain ⟨rfl, -⟩ := leads_pure.1 l
          refine ⟨⟨?_, fun _ => trivial⟩, fun _ => rfl⟩
          cases d with
          | none => trivial
          | some d =>
            cases c with
            | none => exact Or.inr hc
            | some c => exact Or.inl hc
  | decide id h =>
    cases l with
    | step tq l =>
      cases tq
      obtain ⟨rfl, -⟩ := leads_pure.1 l
      exact ⟨⟨trivial, fun _ => trivial⟩, fun _ => rfl⟩
  | designate site hd h =>
    cases leads_designate l with
    | rests b => exact ⟨⟨trivial, fun _ => ⟨ht _ _ hd h, fun _ => trivial⟩⟩, fun _ => rfl⟩
    | later => exact ⟨⟨trivial, fun _ => ⟨trivial, fun _ => trivial⟩⟩, fun _ => rfl⟩
  | given _ h =>
    refine ⟨?_, fun _ => rfl⟩
    obtain rfl | ⟨q', rfl, lq⟩ := leads_given l
    · exact ⟨trivial, fun _ => trivial⟩
    · refine ⟨trivial, fun _ => ?_⟩
      obtain rfl | ⟨p', rfl, lp⟩ := leads_given hp.leads
      · cases hc _ List.mem_cons_self
      · exact (safe_of_plain h ⟨lp, fun s hs => hp.clean s (List.mem_cons_of_mem _ hs)⟩ lq).1
  | body h =>
    cases l with
    | step tq l =>
      cases tq
      obtain ⟨rfl, -⟩ := leads_pure.1 l
      exact ⟨⟨trivial, fun _ => trivial⟩, fun _ => rfl⟩
  | visit role n _ _ _ ih =>
    obtain ⟨p', rfl, lp⟩ := leads_come hp.leads
    obtain ⟨q', rfl, lq⟩ := leads_come l
    rw [List.forall_mem_cons] at hc
    have hp' : Favours _ p' _ := ⟨lp, fun s hs => hp.clean s (List.mem_cons_of_mem _ hs)⟩
    obtain ⟨hs, he⟩ := ih hp' hc.2 lq
    exact ⟨⟨trivial, fun _ => hs⟩, fun hq => he fun s hs => hq s (List.mem_cons_of_mem _ hs)⟩

/-- The steps of the two parts of the inquiry into a member are safe. -/
theorem Firm.safe (h : S.Firm A) {e : Entity} (he : S.program.entity e.name = .ok e)
    (mode : Option Mode × Option EntityId) :
  (∀ path, (S.entityInquiry e).Leads path () →
      Course.Safe S A (.steps (e.declarationScope mode) path))
    ∧ ∀ path, (predicateInquiry e).Leads path () →
      Course.Safe S A (.steps (e.declarationScope mode) path)
  := by
  have parts (hA : A e.name) : ∃ p q, (S.entityInquiry e).Favours p ()
      ∧ (predicateInquiry e).Favours q () ∧ (∀ s ∈ p, S.Confirms A s)
      ∧ ∀ s ∈ q, S.Confirms A s := by
    obtain ⟨_, hp, hc⟩ := h.supported e he hA
    obtain ⟨p, ⟨⟩, q, rfl, hp, hq⟩ := favours_bind_iff.1 hp
    rw [List.forall_mem_append] at hc
    exact ⟨p, q, hp, hq, hc⟩
  constructor
  · rintro path l x ⟨⟩ hA
    obtain ⟨p, q, hp, -, hc, -⟩ := parts hA
    refine ((regular_entityInquiry he).safe ?_ hp hc l).1
    rintro access id ⟨⟩ hd
    exact h.designated _ id hA hd
  · rintro path l x ⟨⟩ hA
    obtain ⟨p, q, -, hq, -, hc⟩ := parts hA
    have hr : S.Regular {} (fun _ => False) [] (predicateInquiry e) := regular_predicateInquiry e
    exact (hr.safe nofun hq hc l).1

/-! ### Passages -/

theorem Course.Safe.head {scope : Scope} {s : Step} {path : List Step}
    (h : Course.Safe S A (.steps scope (s :: path))) {x : EntityId}
    (hx : scope.matter = some (.declaration x)) (hA : A x) :
  S.IsSafe A s
  := (h x hx hA).1

theorem Course.Safe.tail {scope : Scope} {s : Step} {path : List Step}
    (h : Course.Safe S A (.steps scope (s :: path)))
    (hs : ∀ x, scope.matter = some (.declaration x) → A x → s.isClean) :
  Course.Safe S A (.steps scope path)
  := fun x hx hA => (h x hx hA).2 (hs x hx hA)

/-- What a step that decides no entity does for a set. -/
theorem bears_plain {scope : Scope} {s : Step} {r r' : Run} (hp : S.Plain scope s r r')
    (h : r.Backs A)
    (hs : ∀ x, scope.matter = some (.declaration x) → A x → S.IsSafe A s) :
  Run.Bears A scope.matter r r'
    ∧ ∀ x, scope.matter = some (.declaration x) → A x → s.isClean
  := by
  cases hp with
  | @find r site finding =>
    refine ⟨⟨h.same (r.same_find scope site finding), fun x hx hA hc => ?_⟩, fun x hx hA => ?_⟩
    · cases finding with
      | warning w =>
        simp only [Run.find]
        split <;> exact hc
      | _ => cases hs x hx hA
    · have hv : finding.violates = false := hs x hx hA
      simp [Step.isClean, hv]
  | relax hr =>
    obtain ⟨relaxed, rfl⟩ := S.relax_eq_ok hr
    exact ⟨Run.bears_of_cause rfl (h.keeps rfl rfl rfl), fun _ _ _ => rfl⟩
  | _ => exact ⟨Run.bears_of_cause rfl (h.keeps rfl rfl rfl), fun _ _ _ => rfl⟩

/-- What is known of a passage for a firm set. -/
def Backing (S : Setting) (A : EntityId → Prop) (c : Course) (r r' : Run) : Prop :=
  Course.Safe S A c → S.Steady c.matter r → r.Backs A → Run.Bears A c.matter r r'

/-- What the inquiry into an entity comes to. -/
theorem bears_opened (hA : S.Firm A) {e : Entity} {mode : Option Mode × Option EntityId}
    {path : List Step} {r r₁ : Run} {m : Option Matter} (o : S.Opens e mode r)
    (l : (S.entityInquiry e).Leads path ())
    (ih : S.Backing A (.steps (e.declarationScope mode) path) (r.open e mode) r₁)
    (h : S.Steady m r) (hb : r.Backs A) :
  r₁.Backs A ∧ (A e.name → r₁.cause = none)
  := by
  have h₁ := ih ((hA.safe o.entity mode).1 path l) (h.open o) (hb.open e mode)
  refine ⟨h₁.backs, fun hx => h₁.cause e.name rfl hx ?_⟩
  simp only [Run.open, Run.enroll, Run.rule, Run.start]
  split <;> rfl

/-- What the inquiry into the predicate of an entity comes to. -/
theorem bears_published (hA : S.Firm A) {e : Entity}
    {mode : Option Mode × Option EntityId} {path path' : List Step} {r r₁ r₂ r₃ : Run}
    {m : Option Matter} (o : S.Opens e mode r) (l : (S.entityInquiry e).Leads path ())
    (w : S.Passes (.steps (e.declarationScope mode) path) (r.open e mode) r₁)
    (hp : S.publish e r₁ = .ok () r₂) (l' : (predicateInquiry e).Leads path' ())
    (ih : S.Backing A (.steps (e.declarationScope mode) path) (r.open e mode) r₁)
    (ih' : S.Backing A (.steps (e.declarationScope mode) path') r₂ r₃)
    (h : S.Steady m r) (hb : r.Backs A) :
  r₃.Backs A ∧ (A e.name → r₃.cause = none)
  := by
  obtain ⟨hb₁, hc₁⟩ := bears_opened hA o l ih h hb
  obtain ⟨hs, hc⟩ := same_publish hp
  have h₂ := ((h.open o).passes w).publish o.isOff hp
  have h₃ := ih' ((hA.safe o.entity mode).2 path' l') h₂ (hb₁.same hs)
  exact ⟨h₃.backs, fun hx => h₃.cause e.name rfl hx (hc.trans (hc₁ hx))⟩

/-- Whatever a run comes to, the members of a firm set that it examined stay admitted. -/
theorem backing_of_passes (hA : S.Firm A) {c : Course} {r r' : Run} (h : S.Passes c r r') :
  S.Backing A c r r'
  := by
  induction h with
  | nil | known => exact fun _ _ hb => Run.bears_of_cause rfl hb
  | plain hp _ ih =>
    intro hs h hb
    obtain ⟨h₁, hc⟩ := bears_plain hp hb fun x hx hA => hs.head hx hA
    exact h₁.trans (ih (hs.tail hc) (h.plain hp) h₁.backs)
  | decide d _ ihd ih =>
    intro hs h hb
    have hb₁ := (ihd trivial h.apart hb).backs
    exact (ih (hs.tail fun _ _ _ => rfl) (h.decides d).1 hb₁).after (Passes.cause_eq S d)
  | @consult scope id site path r r₁ r' d _ ihd ih =>
    intro hs h hb
    have hb₁ := (ihd trivial h.apart hb).backs
    obtain ⟨h₁, hx⟩ := h.decides d
    have hid (x : EntityId) (hm : scope.matter = some (.declaration x)) (hx : A x) : A id :=
      hs.head hm hx
    have ha (x : EntityId) (hm : scope.matter = some (.declaration x)) (hA : A x) :
        r₁.admits id = true := hb₁.admits hx (hid x hm hA)
    have hb₂ := hb₁.rest hid site
    have h₂ : Run.Bears A scope.matter r (r₁.rest scope id site) := by
      refine ⟨hb₂, fun x hm hA hc => ?_⟩
      rw [cause_rest_of_admits (ha x hm hA), Passes.cause_eq S d, hc]
    exact h₂.trans (ih (hs.tail ha) (h₁.rest hx site) hb₂)
  | declare d _ _ ihd ih =>
    intro hs h hb
    have hb₁ := (ihd trivial h.apart hb).backs
    exact (ih (hs.tail fun _ _ _ => rfl) (h.decides d).1 hb₁).after (Passes.cause_eq S d)
  | @declareResting scope id site b path r r₁ r' d _ hd _ ihd ih =>
    intro hs h hb
    have hb₁ := (ihd trivial h.apart hb).backs
    obtain ⟨h₁, hx⟩ := h.decides d
    have hs₁ : Course.Safe S A (.steps scope (.consult id site b :: path)) := by
      intro x hm hA
      obtain ⟨hid, hrest⟩ := hs x hm hA
      refine ⟨hid.resolve_right fun ho => ?_, hrest⟩
      obtain ha | ho' := hd
      · have ha := h₁.sorted.analysed id (Or.inl (Run.admits_iff.1 ha))
        cases ha.symm.trans ho
      · cases ho'.symm.trans ho
    exact (ih hs₁ h₁ hb₁).after (Passes.cause_eq S d)
  | @bodyExcluded scope e mode inner path r r₁ r' d _ _ ihd ih =>
    intro hs h hb
    have hb₁ := (ihd trivial h.apart hb).backs.same (r₁.same_inheritCause e)
    have hc : r₁.cause = r.cause := Passes.cause_eq S d
    exact (ih (hs.tail fun _ _ _ => rfl) ((h.decides d).1.inheritCause e) hb₁).after hc
  | bodyOff d _ _ _ ihd ih =>
    intro hs h hb
    have hb₁ := (ihd trivial h.apart hb).backs
    exact (ih (hs.tail fun _ _ _ => rfl) (h.decides d).1 hb₁).after (Passes.cause_eq S d)
  | @body scope e mode inner mode' path innerPath r r₁ r₂ r' d _ _ _ _ w _ ihd ihw ih =>
    intro hs h hb
    have hb₁ := (ihd trivial h.apart hb).backs
    obtain ⟨h₁, hx⟩ := h.decides d
    -- No verdict on an entity hangs on the body, so its steps need not be safe.
    have hb₂ := (ihw nofun (h₁.start hx mode') (hb₁.start _ _)).backs
    have hc : r₁.cause = r.cause := Passes.cause_eq S d
    have h₂ := ih (hs.tail fun _ _ _ => rfl) (h₁.body hx w r₁.cause) (hb₂.concludeBody e _)
    exact h₂.after hc
  | @off e anchor r _ _ hm =>
    intro _ _ hb
    refine Run.bears_of_cause rfl ⟨fun x hx hxA => ?_, hb.dependents⟩
    obtain rfl | hx := mem_insert_iff.1 hx
    · have ho := hA.analysed _ hxA
      rw [Setting.isOff, hm] at ho
      cases ho
    · exact hb.admitted x hx hxA
  | @reject e mode path r r₁ o l w hv ih =>
    intro _ h hb
    obtain ⟨hb₁, hc₁⟩ := bears_opened hA o l ih h hb
    have ha : r₁.admits e.name = true :=
      Run.admits_iff.2 (admitted_of_passes o w h.coherent)
    have hv' := hv.resolve_right (by simp [ha])
    have hn (hx : A e.name) : False := by simp [Run.violated, hc₁ hx] at hv'
    have hb₂ := hb₁.strikes (r₁.strikes_exclude S.program e) hn
    exact Run.bears_of_cause rfl (hb₂.keeps rfl rfl rfl)
  | @revoke e mode path path' r r₁ r₂ r₃ o l w _ _ hp l' w' hv ih ih' =>
    intro _ h hb
    obtain ⟨hb₃, hc₃⟩ := bears_published hA o l w hp l' ih ih' h hb
    have hn (hx : A e.name) : False := by simp [Run.violated, hc₃ hx] at hv
    have hb₄ := hb₃.strikes (r₃.strikes_exclude S.program e) hn
    exact Run.bears_of_cause rfl (hb₄.keeps rfl rfl rfl)
  | @grant e mode path path' r r₁ r₂ r₃ o l w _ _ hp l' w' _ ih ih' =>
    intro _ h hb
    obtain ⟨hb₃, -⟩ := bears_published hA o l w hp l' ih ih' h hb
    exact Run.bears_of_cause rfl (hb₃.keeps rfl rfl rfl)

/-! ### Stages -/

theorem backs_of_calm {r r' : Run} (h : r.Backs A) (hc : r.Calm r') :
  r'.Backs A
  := h.keeps (congrArg Register.examined hc.register) (congrArg Register.admitted hc.register)
    hc.dependents

/-- An access type of a firm set is never taken back, since what it designates is admitted. -/
theorem backs_of_stage (hA : S.Firm A) {ns : List Node} {r r' : Run} (st : S.Stage ns r r')
    (h : S.Steady none r) (hb : r.Backs A) :
  r'.Backs A
  := by
  obtain ⟨c, r₁, r₂, hc₁, ho, h₁, p, hc₂⟩ := st.parts h
  have hs : Course.Safe S A c := by
    cases c with
    | decision => trivial
    | steps scope path => exact fun x hx => nomatch ho.matter _ hx
  have hb₂ := (backing_of_passes hA p hs h₁ (backs_of_calm hb hc₁)).backs
  obtain hc₂ | ⟨access, type, cause, hd, hx, ht, -, rfl⟩ := hc₂
  · exact backs_of_calm hb₂ hc₂
  · have hn (ha : A access) : False := by
      rw [hb₂.admits hx (hA.designated access type ha hd)] at ht
      cases ht
    obtain ⟨he, -⟩ | ⟨-, hx⟩ := r₂.excises_takeBack S.program access type cause
    · rwa [he]
    · exact hb₂.strikes hx.strikes hn

theorem backs_of_proceeds (hA : S.Firm A) {ns : List Node} {r r' : Run}
    (p : S.Proceeds ns r r') (h : S.Steady none r) (hb : r.Backs A) :
  r'.Backs A
  := by
  induction p with
  | nil => exact hb
  | cons st _ ih => exact ih (h.stage st) (backs_of_stage hA st h hb)

/-- The members of a firm set that a run over the program examines are admitted. -/
theorem admitted_of_firm (hA : S.Firm A) {r : Run} (h : S.wholeProgram {} = .ok () r)
    {x : EntityId} (hx : x ∈ r.verdicts.examined) (hxA : A x) :
  x ∈ r.verdicts.admitted
  := by
  obtain ⟨r₁, hp, -, rfl⟩ := proceeds_wholeProgram h
  have hb : ({} : Run).Backs A := ⟨by simp, by simp [Verdicts.dependentsOf]⟩
  exact (backs_of_proceeds hA hp steady_empty hb).admitted x hx hxA

end Setting

end Conformance
