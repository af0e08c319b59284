import Conformance.Proofs.Retention
import Conformance.Proofs.Record

/-!
# What explains an exclusion

A report is primary if it is about a breach of a rule where it is found, or about a construct
that is not handled.  Where everything is analysed and reported, each recorded cause is the
site of a primary report: a cause is either found where a report is made, or inherited from
an entity that was excluded for a recorded cause.  `Run.Accounts` is what a passage does
for this.

`exclusions_explained` is the result.
-/

namespace Conformance

open Relation (ReflTransGen)

/-- Whether a report is about more than the exclusion of something else, and no warning. -/
def Report.isPrimary (report : Report) : Bool :=
  report.finding.violates && !report.finding.isInherited

namespace Run

/-- A primary report was made at a site. -/
def Explains (r : Run) (site : Site) : Prop :=
  ∃ report ∈ r.reports.toList, report.site = site ∧ report.isPrimary = true

/-- All recorded causes are explained. -/
structure Explained (r : Run) : Prop where
  causes : ∀ (id : EntityId) cause, r.verdicts.causes[id]? = some cause → r.Explains cause
  bodyCauses : ∀ (id : EntityId) cause,
    r.verdicts.bodyCauses[id]? = some cause → r.Explains cause

/-- What a passage does for explanations, where `reporting` says that the findings of the
matter under way are reported. -/
structure Accounts (reporting : Prop) (r r' : Run) : Prop where
  reports : r.reports.toList ⊆ r'.reports.toList
  explained : r'.Explained
  cause : reporting → (∀ cause, r.cause = some cause → r.Explains cause) →
    ∀ cause, r'.cause = some cause → r'.Explains cause

theorem Explains.mono {r r' : Run} {site : Site} (h : r.Explains site)
    (hr : r.reports.toList ⊆ r'.reports.toList) :
  r'.Explains site
  := by
  obtain ⟨report, hm, hs⟩ := h
  exact ⟨report, hr hm, hs⟩

variable {reporting reporting' : Prop} {r r₁ r' : Run}

theorem Accounts.refl (h : r.Explained) :
  r.Accounts reporting r
  := ⟨List.Subset.refl _, h, fun _ => id⟩

theorem Accounts.trans (h : r.Accounts reporting r₁) (h' : r₁.Accounts reporting r') :
  r.Accounts reporting r'
  where
    reports := List.Subset.trans h.reports h'.reports
    explained := h'.explained
    cause hq hc := h'.cause hq (h.cause hq hc)

theorem Accounts.mono (h : r.Accounts reporting r') (hq : reporting' → reporting) :
  r.Accounts reporting' r'
  := ⟨h.reports, h.explained, fun hq' => h.cause (hq hq')⟩

/-- A decision accounts for causes in any case. -/
theorem Accounts.always (h : r.Accounts (true = true) r') :
  r.Accounts reporting r'
  := h.mono fun _ => rfl

/-- Where no cause is recorded, it is enough to account for the reports and the violation of
the matter under way. -/
theorem accounts_of_register (h : r.Explained) (hg : r'.register = r.register)
    (hr : r.reports.toList ⊆ r'.reports.toList)
    (hc : reporting → (∀ cause, r.cause = some cause → r.Explains cause) →
      ∀ cause, r'.cause = some cause → r'.Explains cause) :
  r.Accounts reporting r'
  where
    reports := hr
    explained := by
      have hb : r'.verdicts.bodyCauses = r.verdicts.bodyCauses :=
        congrArg Register.bodyCauses hg
      have ha : r'.verdicts.causes = r.verdicts.causes := congrArg Register.causes hg
      constructor
      · rw [ha]
        exact fun id cause hi => (h.causes id cause hi).mono hr
      · rw [hb]
        exact fun id cause hi => (h.bodyCauses id cause hi).mono hr
    cause := hc

theorem Explained.calm (h : r.Explained) (hc : r.Calm r') :
  r'.Explained
  := by
  have hr : r.reports.toList ⊆ r'.reports.toList := by
    rw [hc.reports]
    exact List.Subset.refl _
  have ha : r.Accounts False r' := accounts_of_register h hc.register hr fun hf => hf.elim
  exact ha.explained

/-- A matter of its own: the violation of the enclosing one is as before when it ends. -/
theorem Accounts.restore {cause : Option Site} (hr : r.reports.toList ⊆ r'.reports.toList)
    (h : r'.Explained) (hc : cause = r.cause) :
  r.Accounts reporting { r' with cause }
  where
    reports := hr
    explained := ⟨h.causes, h.bodyCauses⟩
    cause _ hs c hc' := by
      change cause = some c at hc'
      rw [hc] at hc'
      exact (hs c hc').mono hr

theorem mem_reports_of_push {a : Array Report} {report x : Report} :
  x ∈ (a.push report).toList ↔ x ∈ a.toList ∨ x = report
  := by simp

theorem reports_report (r : Run) (scope : Scope) (report : Report) :
  r.reports.toList ⊆ (r.report scope report).reports.toList
  := by
  unfold Run.report
  split
  · exact fun x hx => mem_reports_of_push.2 (Or.inl hx)
  · exact List.Subset.refl _

/-- The violation after a finding is explained, if findings are reported. -/
theorem explains_flag {scope : Scope} (hq : scope.reports = true) {site : Site}
    {report : Report} (hs : report.site = site) (hp : report.isPrimary = true)
    (hc : ∀ cause, r.cause = some cause → r.Explains cause) (cause : Site)
    (h : ((r.flag site).report scope report).cause = some cause) :
  ((r.flag site).report scope report).Explains cause
  := by
  have hr := (r.flag site).reports_report scope report
  have he : ((r.flag site).report scope report).cause = (r.flag site).cause := by
    unfold Run.report
    split <;> rfl
  rw [he] at h
  cases hr' : r.cause with
  | none =>
    obtain rfl : site = cause := by simpa [flag, hr'] using h
    refine ⟨report, ?_, hs, hp⟩
    unfold Run.report
    rw [if_pos hq]
    exact mem_reports_of_push.2 (Or.inr rfl)
  | some c =>
    obtain rfl : c = cause := by simpa [flag, hr'] using h
    exact (hc c hr').mono hr

/-- A warning is reported at most, and violates nothing. -/
theorem accounts_warning (h : r.Explained) (scope : Scope) (site : Site) (w : Warning) :
  r.Accounts reporting (r.find scope site (.warning w))
  := by
  simp only [find]
  split
  · refine accounts_of_register h rfl ?_ ?_
    · exact fun x hx => mem_reports_of_push.2 (Or.inl hx)
    · intro _ hc cause hc'
      exact (hc cause hc').mono fun x hx => mem_reports_of_push.2 (Or.inl hx)
  · exact .refl h

theorem accounts_find (h : r.Explained) (scope : Scope) (site : Site) {finding : Finding}
    (hf : finding.isInherited = false) :
  r.Accounts (scope.reports = true) (r.find scope site finding)
  := by
  have hg := r.register_find scope site finding
  cases finding with
  | violation v =>
    have hp (rootCause : Option Site) :
        (⟨site, .violation v, rootCause⟩ : Report).isPrimary = true := by
      rw [Report.isPrimary, hf]
      rfl
    exact accounts_of_register h hg ((r.flag site).reports_report scope _) fun hq hc =>
      explains_flag hq rfl (hp _) hc
  | unsupported feature =>
    exact accounts_of_register h hg ((r.flag site).reports_report scope _) fun hq hc =>
      explains_flag hq rfl rfl hc
  | warning w => exact accounts_warning h scope site w

/-- A consultation inherits the cause of an entity that is excluded. -/
theorem accounts_rest (h : r.Explained) (scope : Scope) {id : EntityId} (site : Site)
    (hx : r.admits id = false → ∃ cause, r.verdicts.causes[id]? = some cause) :
  r.Accounts reporting (r.rest scope id site)
  := by
  have hg := r.register_rest scope id site
  unfold rest at hg ⊢
  split at hg
  · next ha =>
    rw [if_pos ha]
    cases hm : scope.matter with
    | none =>
      rw [hm] at hg
      exact accounts_of_register h hg (List.Subset.refl _) fun _ hc => hc
    | some m =>
      rw [hm] at hg
      exact accounts_of_register h hg (List.Subset.refl _) fun _ hc => hc
  · next ha =>
    rw [if_neg ha]
    obtain ⟨cause, hcause⟩ := hx (Bool.eq_false_iff.2 ha)
    have hr := ((r.note (.consulted scope.matter id)).flag cause).reports_report scope
      ⟨site, .violation (.entityExcluded id), scope.attribution.or cause⟩
    have he : (r.note (.consulted scope.matter id)).findExcluded scope site id
        = ((r.note (.consulted scope.matter id)).flag cause).report scope
          ⟨site, .violation (.entityExcluded id), scope.attribution.or cause⟩ := by
      unfold findExcluded
      have hn : (r.note (.consulted scope.matter id)).verdicts.causes[id]? = some cause := hcause
      rw [hn]
      rfl
    rw [he] at hg ⊢
    apply accounts_of_register h hg hr
    intro _ hc c hc'
    have hf : (((r.note (.consulted scope.matter id)).flag cause).report scope
        ⟨site, .violation (.entityExcluded id), scope.attribution.or cause⟩).cause
        = r.cause.or (some cause) := by
      unfold Run.report
      split <;> rfl
    rw [hf] at hc'
    cases hr' : r.cause with
    | none =>
      obtain rfl : cause = c := by simpa [hr'] using hc'
      exact (h.causes id cause hcause).mono hr
    | some c' =>
      obtain rfl : c' = c := by simpa [hr'] using hc'
      exact (hc c' hr').mono hr

/-- An exclusion for a cause that is explained. -/
theorem Excises.explained {id : EntityId} {cause : Site} (hx : r.Excises id cause r')
    (h : r.Explained) (hc : r.Explains cause) :
  r'.Explained
  := by
  have hr := hx.writes.reports
  constructor
  · intro x c hxc
    by_cases hl : x = id ∨ r.Loses r' x
    · rw [hx.causes_of_lost x hl] at hxc
      obtain rfl := Option.some.inj hxc
      exact hc.mono hr
    · rw [not_or] at hl
      rw [hx.causes_of_kept x hl.1 hl.2] at hxc
      exact (h.causes x c hxc).mono hr
  · intro x c hxc
    obtain he | ⟨-, -, he⟩ := hx.writes.bodyCauses x
    · rw [he] at hxc
      exact (h.bodyCauses x c hxc).mono hr
    · rw [he] at hxc
      obtain rfl := Option.some.inj hxc
      exact hc.mono hr

/-- A body that is excluded for a cause that is explained. -/
theorem Explained.excludeBody {id : EntityId} {cause : Site} (h : r.Explained)
    (hc : r.Explains cause) :
  (r.excludeBody id cause).Explained
  where
    causes x c hx := h.causes x c hx
    bodyCauses x c hx := by
      by_cases he : x = id
      · subst he
        have hi : (r.excludeBody x cause).verdicts.bodyCauses[x]? = some cause :=
          Std.TreeMap.getElem?_insert_self
        rw [hi] at hx
        obtain rfl := Option.some.inj hx
        exact hc
      · have hi : (r.excludeBody id cause).verdicts.bodyCauses[x]?
            = r.verdicts.bodyCauses[x]? := getElem?_insert_of_ne he
        rw [hi] at hx
        exact h.bodyCauses x c hx

/-- The body of an excluded entity is excluded for the same cause. -/
theorem Explained.inheritCause (h : r.Explained) (e : Entity) :
  (r.inheritCause e).Explained
  := by
  cases hc : r.verdicts.causes[e.name]? with
  | none =>
    have he : r.inheritCause e = r := by simp only [Run.inheritCause, rule, hc]
    rwa [he]
  | some cause =>
    have he : r.inheritCause e = r.excludeBody e.name cause := by
      simp only [Run.inheritCause, Run.excludeBody, rule, hc]
    rw [he]
    exact h.excludeBody (h.causes e.name cause hc)

/-- The verdict on a body whose violation is explained. -/
theorem Explained.concludeBody (h : r.Explained) {e : Entity} (ha : r.admits e.name = true)
    (hc : ∀ cause, r.cause = some cause → r.Explains cause) :
  (r.concludeBody e).Explained ∧ (r.concludeBody e).reports = r.reports
  := by
  unfold Run.concludeBody
  rw [ha, Bool.and_true]
  cases hv : r.cause with
  | none =>
    have hb : (!r.violated) = true := by simp [violated, hv]
    rw [if_pos hb]
    exact ⟨⟨h.causes, h.bodyCauses⟩, rfl⟩
  | some cause =>
    have hb : ¬ (!r.violated) = true := by simp [violated, hv]
    rw [if_neg hb]
    exact ⟨h.excludeBody (hc cause hv), rfl⟩

/-- An entity that is excluded for a violation that is explained. -/
theorem accounts_exclude (p : Program) (e : Entity) (hr : r.reports.toList ⊆ r₁.reports.toList)
    (h : r₁.Explained) (hv : r₁.violated = true)
    (hc : ∀ cause, r₁.cause = some cause → r₁.Explains cause) :
  r.Accounts reporting { r₁.exclude p e with cause := r.cause }
  := by
  have hx := r₁.excises_exclude p e
  obtain ⟨cause, hcause⟩ := Option.isSome_iff_exists.1 hv
  rw [hcause, Option.getD_some] at hx
  exact .restore (List.Subset.trans hr hx.writes.reports) (hx.explained h (hc cause hcause)) rfl

/-- The inquiry into a matter starts without a violation. -/
theorem Explained.start (h : r.Explained) (scope : Scope) (m : Matter) :
  (r.start scope m).Explained ∧ (r.start scope m).reports = r.reports
    ∧ (r.start scope m).cause = none
  := by
  unfold Run.start
  split <;> exact ⟨⟨h.causes, h.bodyCauses⟩, rfl, rfl⟩

end Run

namespace Setting

variable (S : Setting)

/-- Whatever has no mode of its own is analysed and reported, and no entity is excluded from
analysis. -/
structure Vigilant : Prop where
  default : S.policy.defaultMode = some .on
  modes : ∀ id e, S.program.entity id = .ok e → e.mode ≠ some .off

variable {S}

theorem vigilant_iff :
  S.Vigilant ↔ S.policy.defaultMode = some .on
    ∧ ∀ p ∈ S.program.entities.toList, p.2.mode ≠ some .off
  := by
  have entity (id : EntityId) (e : Entity) :
      S.program.entity id = .ok e ↔ (id, e) ∈ S.program.entities.toList := by
    rw [Std.TreeMap.mem_toList_iff_getElem?_eq_some]
    unfold Program.entity Program.get?
    split <;> simp_all
  constructor
  · exact fun h => ⟨h.default, fun p hp => h.modes p.1 p.2 ((entity p.1 p.2).2 hp)⟩
  · exact fun h => ⟨h.1, fun id e he => h.2 (id, e) ((entity id e).1 he)⟩

instance : Decidable S.Vigilant := decidable_of_iff _ vigilant_iff.symm

theorem Vigilant.modeFrom (hS : S.Vigilant) {origin : EntityId} {steps : Nat} {id : EntityId}
    {mode : Option Mode × Option EntityId} (h : S.modeFrom origin steps id = .ok mode) :
  mode.1 = some .on
  := by
  induction steps generalizing id with
  | zero =>
    rw [Setting.modeFrom] at h
    obtain ⟨e, he, h⟩ := Answer.bind_eq_ok.1 h
    cases hm : e.mode with
    | none =>
      simp only [hm] at h
      cases h
    | some m =>
      simp only [hm] at h
      obtain rfl := Answer.pure_eq_ok.1 h
      cases m with
      | on => rfl
      | off => exact absurd hm (hS.modes id e he)
  | succ steps ih =>
    rw [Setting.modeFrom] at h
    obtain ⟨e, he, h⟩ := Answer.bind_eq_ok.1 h
    cases hm : e.mode with
    | none =>
      cases hs : e.scope with
      | none =>
        simp only [hm, hs] at h
        obtain rfl := Answer.pure_eq_ok.1 h
        exact hS.default
      | some scope =>
        simp only [hm, hs] at h
        exact ih h
    | some m =>
      simp only [hm] at h
      obtain rfl := Answer.pure_eq_ok.1 h
      cases m with
      | on => rfl
      | off => exact absurd hm (hS.modes id e he)

theorem Vigilant.modeOf (hS : S.Vigilant) {id : EntityId}
    {mode : Option Mode × Option EntityId} (h : S.modeOf id = .ok mode) :
  mode.1 = some .on
  := hS.modeFrom h

theorem Vigilant.isOff (hS : S.Vigilant) (id : EntityId) :
  S.isOff id ≠ .ok true
  := by
  intro h
  obtain ⟨mode, hm, h⟩ := Answer.bind_eq_ok.1 h
  have := hS.modeOf hm
  obtain h := Answer.pure_eq_ok.1 h
  rw [this] at h
  cases h

/-- The mode of a body, unless the body is not analysed. -/
theorem Vigilant.bodyMode (hS : S.Vigilant) {e : Entity} {mode : Option Mode}
    {mode' : Option Mode × Option EntityId} (h : S.bodyMode e mode = .ok mode')
    (hn : mode'.1 ≠ some .off) :
  mode'.1 = some .on
  := by
  cases mode with
  | none => exact hS.modeOf h
  | some m =>
    obtain rfl := Answer.pure_eq_ok.1 h
    cases m with
    | on => rfl
    | off => exact absurd rfl hn

end Setting

/-- Nothing that is found on a course is the exclusion of something else. -/
def Course.Original (c : Course) : Prop :=
  ∀ site finding, .find site finding ∈ c.path → finding.isInherited = false

theorem Course.original_decision (id : EntityId) :
  Course.Original (.decision id)
  := fun _ _ hs => absurd hs List.not_mem_nil

theorem Course.Original.tail {scope : Scope} {s : Step} {path : List Step}
    (h : Course.Original (.steps scope (s :: path))) :
  Course.Original (.steps scope path)
  := fun site finding hs => h site finding (List.mem_cons_of_mem _ hs)

/-- Whether what is found on a course is reported. -/
def Course.reports : Course → Bool
  | .decision _ => true
  | .steps scope _ => scope.reports

namespace Setting

variable {S : Setting}

theorem Regular.original {t : Topic} {known : EntityId → Prop}
    {bs : List (EntityId × List Node)} {i : Inquiry Unit} (h : S.Regular t known bs i)
    {path : List Step} (l : i.Leads path ()) (scope : Scope) :
  Course.Original (.steps scope path)
  := fun _ _ hs => h.findings l hs

theorem accounts_plain {scope : Scope} {s : Step} {r r' : Run} (h : S.Plain scope s r r')
    (hr : r.Explained) (hs : ∀ site finding, s = .find site finding →
      finding.isInherited = false) :
  r.Accounts (scope.reports = true) r'
  := by
  cases h with
  | find => exact Run.accounts_find hr scope _ (hs _ _ rfl)
  | relax h =>
    obtain ⟨relaxed, rfl⟩ := S.relax_eq_ok h
    exact Run.accounts_of_register hr rfl (List.Subset.refl _) fun _ hc => hc
  | _ => exact Run.accounts_of_register hr rfl (List.Subset.refl _) fun _ hc => hc

/-- What holds of a passage in the way of explanations. -/
def Accounting (S : Setting) (c : Course) (r r' : Run) : Prop :=
  Course.Proper S c → c.Original → S.Steady c.matter r → r.Explained →
    r.Accounts (c.reports = true) r'

theorem Vigilant.reports (hS : S.Vigilant) {e : Entity}
    {mode : Option Mode × Option EntityId} {r : Run} (o : S.Opens e mode r) :
  (e.declarationScope mode).reports = true
  := by
  have hm := hS.modeOf o.modeOf
  simp [Entity.declarationScope, Scope.reports, hm]

/-- The inquiry into an entity starts without a violation. -/
theorem explained_open {r : Run} (h : r.Explained) (e : Entity)
    (mode : Option Mode × Option EntityId) :
  (r.open e mode).Explained ∧ r.reports.toList ⊆ (r.open e mode).reports.toList
    ∧ (r.open e mode).cause = none
  := by
  have hx : (r.examine e.name).Explained := ⟨h.causes, h.bodyCauses⟩
  obtain ⟨hs, hr, hc⟩ := hx.start (e.declarationScope mode) (.declaration e.name)
  refine ⟨⟨hs.causes, hs.bodyCauses⟩, ?_, hc⟩
  change _ ⊆ ((r.examine e.name).start (e.declarationScope mode)
    (.declaration e.name)).reports.toList
  rw [hr]
  exact List.Subset.refl _

/-- What the inquiry into an entity comes to. -/
theorem accounts_opened (hS : S.Vigilant) {e : Entity}
    {mode : Option Mode × Option EntityId} {path : List Step} {r r₁ : Run}
    {m : Option Matter} (o : S.Opens e mode r) (l : (S.entityInquiry e).Leads path ())
    (ih : S.Accounting (.steps (e.declarationScope mode) path) (r.open e mode) r₁)
    (h : S.Steady m r) (hr : r.Explained) :
  r₁.Explained ∧ r.reports.toList ⊆ r₁.reports.toList
    ∧ ∀ cause, r₁.cause = some cause → r₁.Explains cause
  := by
  obtain ⟨ho, hre, hc⟩ := explained_open hr e mode
  have hi := regular_entityInquiry o.entity
  have ha := ih (hi.proper l _) (hi.original l _) (h.open o) ho
  exact ⟨ha.explained, List.Subset.trans hre ha.reports, ha.cause (hS.reports o) (by simp [hc])⟩

/-- What the inquiry into the predicate of an entity comes to. -/
theorem accounts_published (hS : S.Vigilant) {e : Entity}
    {mode : Option Mode × Option EntityId} {path path' : List Step} {r r₁ r₂ r₃ : Run}
    {m : Option Matter} (o : S.Opens e mode r) (l : (S.entityInquiry e).Leads path ())
    (w : S.Passes (.steps (e.declarationScope mode) path) (r.open e mode) r₁)
    (hp : S.publish e r₁ = .ok () r₂) (l' : (predicateInquiry e).Leads path' ())
    (ih : S.Accounting (.steps (e.declarationScope mode) path) (r.open e mode) r₁)
    (ih' : S.Accounting (.steps (e.declarationScope mode) path') r₂ r₃)
    (h : S.Steady m r) (hr : r.Explained) :
  r₃.Explained ∧ r.reports.toList ⊆ r₃.reports.toList
    ∧ ∀ cause, r₃.cause = some cause → r₃.Explains cause
  := by
  obtain ⟨hx, hre, hc⟩ := accounts_opened hS o l ih h hr
  have h₂ := ((h.open o).passes w).publish o.isOff hp
  obtain ⟨roster, rfl⟩ := S.publish_eq_ok hp
  have hi : S.Regular {} (fun _ => False) [] (predicateInquiry e) := regular_predicateInquiry e
  have ha := ih' (hi.proper l' _) (hi.original l' _) h₂ ⟨hx.causes, hx.bodyCauses⟩
  exact ⟨ha.explained, List.Subset.trans hre ha.reports, ha.cause (hS.reports o) hc⟩

/-- The inquiry into a body, and the verdict on it. -/
theorem accounts_body (hS : S.Vigilant) {e : Entity} {mode : Option Mode}
    {mode' : Option Mode × Option EntityId} {inner : Inquiry Unit} {path : List Step}
    {reporting : Prop} {m : Option Matter} {r r₁ : Run}
    (hm : S.bodyMode e mode = .ok mode') (hn : mode'.1 ≠ some .off)
    (hb : S.program.entity e.name = .ok e ∧ ∃ ns, inner = S.items e.inside ns)
    (l : inner.Leads path ())
    (w : S.Passes (.steps (e.bodyScope mode') path)
      (r.start (e.bodyScope mode') (.body e.name)) r₁)
    (ih : S.Accounting (.steps (e.bodyScope mode') path)
      (r.start (e.bodyScope mode') (.body e.name)) r₁)
    (h : S.Steady m r) (hx : e.name ∈ r.verdicts.examined) (ha : r.admits e.name = true)
    (hr : r.Explained) :
  r.Accounts reporting { r₁.concludeBody e with cause := r.cause }
  := by
  obtain ⟨-, ns, rfl⟩ := hb
  obtain ⟨hx₀, hre, hc⟩ := hr.start (e.bodyScope mode') (.body e.name)
  have hi := regular_bodyItems (S := S) e ns
  have hs := h.start hx mode'
  have h₁ := ih (hi.proper l _) (hi.original l _) hs hx₀
  have hq : (e.bodyScope mode').reports = true := by
    simp [Entity.bodyScope, Scope.reports, hS.bodyMode hm hn]
  have ha₁ : r₁.admits e.name = true := by
    obtain ⟨reporting, hv⟩ := r.verdicts_start (e.bodyScope mode') (.body e.name)
    apply Run.admits_iff.2
    apply hs.admitted w
    rw [hv]
    exact Run.admits_iff.1 ha
  obtain ⟨hx₁, hre₁⟩ := h₁.explained.concludeBody ha₁ (h₁.cause hq (by simp [hc]))
  refine .restore ?_ hx₁ rfl
  rw [hre₁, ← hre]
  exact h₁.reports

/-- A passage accounts for what is excluded on the way. -/
theorem accounts_of_passes (hS : S.Vigilant) {c : Course} {r r' : Run}
    (h : S.Passes c r r') :
  S.Accounting c r r'
  := by
  induction h with
  | nil | known => exact fun _ _ _ => .refl
  | plain hp _ ih =>
    intro hb ho h hr
    have h₁ := accounts_plain hp hr fun site finding hs => ho site finding (hs ▸ List.mem_cons_self)
    exact h₁.trans (ih hb.tail ho.tail (h.plain hp) h₁.explained)
  | decide d _ ihd ih | declare d _ _ ihd ih | bodyOff d _ _ _ ihd ih =>
    intro hb ho h hr
    have h₁ := ihd trivial (Course.original_decision _) h.apart hr
    exact h₁.always.trans (ih hb.tail ho.tail (h.decides d).1 h₁.explained)
  | @consult scope id site path r r₁ r' d _ ihd ih =>
    intro hb ho h hr
    have h₁ := ihd trivial (Course.original_decision _) h.apart hr
    obtain ⟨hs, hx⟩ := h.decides d
    have h₂ : r₁.Accounts (scope.reports = true) (r₁.rest scope id site) :=
      Run.accounts_rest h₁.explained scope site fun ha => hs.caused hx ha (hS.isOff id)
    exact (h₁.always.trans h₂).trans (ih hb.tail ho.tail (hs.rest hx site) h₂.explained)
  | declareResting d _ _ _ ihd ih =>
    intro hb ho h hr
    have h₁ := ihd trivial (Course.original_decision _) h.apart hr
    refine h₁.always.trans (ih hb ?_ (h.decides d).1 h₁.explained)
    intro site finding hs
    obtain hs | hs := List.mem_cons.1 hs
    · cases hs
    · exact ho.tail site finding hs
  | @bodyExcluded scope e mode inner path r r₁ r' d _ _ ihd ih =>
    intro hb ho h hr
    have h₁ := ihd trivial (Course.original_decision _) h.apart hr
    have hx := h₁.explained.inheritCause e
    have h₂ : r₁.Accounts (scope.reports = true) (r₁.inheritCause e) :=
      ⟨List.Subset.refl _, hx, fun _ hc => hc⟩
    exact (h₁.always.trans h₂).trans (ih hb.tail ho.tail ((h.decides d).1.inheritCause e) hx)
  | @body scope e mode inner mode' path innerPath r r₁ r₂ r' d ha hm hn l w _ ihd ihw ih =>
    intro hb ho h hr
    have h₁ := ihd trivial (Course.original_decision _) h.apart hr
    obtain ⟨hs, hx⟩ := h.decides d
    have h₂ : r₁.Accounts (scope.reports = true) { r₂.concludeBody e with cause := r₁.cause } :=
      accounts_body hS hm hn hb.body l w ihw hs hx ha h₁.explained
    exact (h₁.always.trans h₂).trans (ih hb.tail ho.tail (hs.body hx w r₁.cause) h₂.explained)
  | off he _ hm => exact (hS.isOff _ (by rw [Setting.isOff, hm]; rfl)).elim
  | @reject e mode path r r₁ o l w hv ih =>
    intro _ _ hr hx
    obtain ⟨h₁, hre, hc⟩ := accounts_opened hS o l ih hr hx
    have ha : r₁.admits e.name = true :=
      Run.admits_iff.2 (admitted_of_passes o w hr.coherent)
    have hv' := hv.resolve_right (by simp [ha])
    exact Run.accounts_exclude S.program e hre h₁ hv' hc
  | @revoke e mode path path' r r₁ r₂ r₃ o l w _ _ hp l' w' hv ih ih' =>
    intro _ _ hr hx
    obtain ⟨h₃, hre, hc⟩ := accounts_published hS o l w hp l' ih ih' hr hx
    exact Run.accounts_exclude S.program e hre h₃ hv hc
  | @grant e mode path path' r r₁ r₂ r₃ o l w _ _ hp l' w' _ ih ih' =>
    intro _ _ hr hx
    obtain ⟨h₃, hre, -⟩ := accounts_published hS o l w hp l' ih ih' hr hx
    exact .restore hre ⟨h₃.causes, h₃.bodyCauses⟩ rfl

/-! ### Stages -/

theorem Lawful.original {c : Course} (h : S.Lawful c) :
  c.Original
  := by
  cases c with
  | decision id => exact Course.original_decision id
  | steps scope path =>
    obtain ⟨t, known, bs, i, hi, l⟩ := h
    exact hi.original l scope

/-- A stage of a run accounts for what is excluded. -/
theorem explained_of_stage (hS : S.Vigilant) {ns : List Node} {r r' : Run}
    (st : S.Stage ns r r') (h : S.Steady none r) (hr : r.Explained) :
  r'.Explained
  := by
  obtain ⟨c, r₁, r₂, hc₁, hl, h₁, p, hc₂⟩ := st.parts h
  have ha := accounts_of_passes hS p hl.lawful.proper hl.lawful.original h₁ (hr.calm hc₁)
  obtain hc₂ | ⟨access, type, cause, -, hx, ht, hcause, rfl⟩ := hc₂
  · exact ha.explained.calm hc₂
  · obtain ⟨cause', hc⟩ := (h₁.passes p).caused hx ht (hS.isOff type)
    obtain rfl : cause' = cause := by
      unfold causeOf at hcause
      rw [hc] at hcause
      exact Answer.pure_eq_ok.1 hcause
    obtain ⟨he, -⟩ | ⟨-, hx⟩ := r₂.excises_takeBack S.program access type cause'
    · rw [he]
      exact ha.explained
    · exact hx.explained ha.explained (ha.explained.causes type cause' hc)

theorem explained_of_proceeds (hS : S.Vigilant) {ns : List Node} {r r' : Run}
    (p : S.Proceeds ns r r') (h : S.Steady none r) (hr : r.Explained) :
  r'.Explained
  := by
  induction p with
  | nil => exact hr
  | cons st _ ih => exact ih (h.stage st) (explained_of_stage hS st h hr)

/-- What is recorded as the cause of an entity stays, whatever turns come after it. -/
theorem Sorted.cause_kept {r r' : Run} (h : S.Sorted r.register)
    (ht : ReflTransGen S.Turn r r') {x : EntityId} {cause : Site}
    (hc : r.verdicts.causes[x]? = some cause) :
  r'.verdicts.causes[x]? = some cause
  := by
  have hs : (r.verdicts.causes[x]?).isSome = true := by rw [hc]; rfl
  obtain ⟨hx, ha⟩ := h.caused x hs
  exact (barred_of_turns ht ⟨hx, ha, hc⟩).2.2

/-- A turn that records a cause finds an admitted entity without one, and no turn that comes
after it writes the entry again. -/
theorem Sorted.written_once {r r₁ r' : Run} (h : S.Sorted r.register) (t : S.Turn r r₁)
    (ht : ReflTransGen S.Turn r₁ r') {x : EntityId}
    (hx : r₁.verdicts.causes[x]? ≠ r.verdicts.causes[x]?) :
  x ∈ r.verdicts.admitted ∧ r.verdicts.causes[x]? = none
    ∧ r'.verdicts.causes[x]? = r₁.verdicts.causes[x]?
  := by
  have hn : r.verdicts.causes[x]? = none := by
    by_contra hc
    obtain ⟨cause, hc⟩ := Option.ne_none_iff_exists'.1 hc
    exact hx ((h.cause_kept (.single t) hc).trans hc.symm)
  refine ⟨?_, hn, ?_⟩
  · cases t with
    | same he => exact absurd (congrArg (fun g => g.causes[x]?) he) hx
    | publish _ hp =>
      obtain ⟨roster, rfl⟩ := S.publish_eq_ok hp
      exact absurd rfl hx
    | @«open» e mode r o =>
      exact absurd (congrArg (fun g => g.causes[x]?) (r.register_open e mode)) hx
    | @excise id cause r r₁ hid hs =>
      by_contra ha
      apply hx
      apply hs.causes_of_kept
      · rintro rfl
        exact ha hid
      · exact fun hl => ha hl.1
    | _ => exact absurd rfl hx
  · obtain ⟨cause, hc⟩ := Option.ne_none_iff_exists'.1 (hn ▸ hx)
    rw [hc]
    exact (sorted_of_turn t h).cause_kept ht hc

/-- In a run over a program in which everything is analysed and reported, each recorded cause
of an entity or of a body is the site of a primary report.  The run is a chain of turns, on
which each entry is written once: the journal of the run notes one exclusion for each entity
that has a cause, with that cause, and an entry stays between the acts of a session and from
one moment of an act to the next.  If no breach of a rule and no construct that is not handled
is reported, every examined entity is admitted. -/
theorem exclusions_explained {S : Setting} (hS : S.Vigilant) {r : Run}
    (h : S.wholeProgram {} = .ok () r) :
  (∀ (id : EntityId) cause, r.verdicts.causes[id]? = some cause → r.Explains cause)
    ∧ (∀ (id : EntityId) cause, r.verdicts.bodyCauses[id]? = some cause → r.Explains cause)
    ∧ (ReflTransGen S.Turn {} r ∧ ∀ r₁ r₂ r₃, ReflTransGen S.Turn {} r₁ → S.Turn r₁ r₂ →
      ReflTransGen S.Turn r₂ r₃ → ∀ id : EntityId,
        r₂.verdicts.causes[id]? ≠ r₁.verdicts.causes[id]? → id ∈ r₁.verdicts.admitted
          ∧ r₁.verdicts.causes[id]? = none
          ∧ r₃.verdicts.causes[id]? = r₂.verdicts.causes[id]?)
    ∧ (r.exclusions.Nodup ∧ ∀ (id : EntityId) cause, .excluded id cause ∈ r.journal
      ↔ r.verdicts.causes[id]? = some cause)
    ∧ (∀ r₁, S.Rested {} r₁ → ∀ r₂, S.Arises r₁ r₂ → ∀ (id : EntityId) cause,
      r₁.verdicts.causes[id]? = some cause → r₂.verdicts.causes[id]? = some cause)
    ∧ (∀ M, S.Reached {} M → ∀ M', ReflTransGen S.Goes M M' → ∀ (id : EntityId) cause,
      M.run.verdicts.causes[id]? = some cause → M'.run.verdicts.causes[id]? = some cause)
    ∧ ((∀ report ∈ r.reports.toList, report.isWarning = true) →
      ∀ id ∈ r.verdicts.examined, id ∈ r.verdicts.admitted)
  := by
  obtain ⟨hnoted, hrested, hreached⟩ := @causes_written_once S
  have ha : S.Arises {} r := by
    have hr := (Rested.start : S.Rested {} {}).wholeProgram
    rw [Act.after_of_ok h] at hr
    exact Or.inl hr
  have hnoted := hnoted r ha
  obtain ⟨r₁, hp, -, rfl⟩ := proceeds_wholeProgram h
  obtain ⟨ht, hr⟩ := turns_of_proceeds hp Run.coherent_empty
  have hx := explained_of_proceeds hS hp steady_empty (by constructor <;> simp)
  have hs : S.Steady none r₁ := steady_empty.turns ht hr (by simp [Run.Under])
  refine ⟨hx.causes, hx.bodyCauses, ⟨ht.tail .close, ?_⟩, hnoted, hrested, hreached, ?_⟩
  · intro r₁ r₂ r₃ h₁ t h₂ id hne
    exact (sorted_of_turns h₁ sorted_empty).written_once t h₂ hne
  · intro hw id hid
    by_contra ha
    have ha : r₁.admits id = false := Bool.eq_false_iff.2 (ha ∘ Run.admits_iff.1)
    obtain ⟨cause, hc⟩ := hs.caused hid ha (hS.isOff id)
    obtain ⟨report, hm, -, hpr⟩ := hx.causes id cause hc
    have hw' := hw report hm
    unfold Report.isWarning at hw'
    unfold Report.isPrimary at hpr
    split at hw'
    · next he => simp [he, Finding.violates] at hpr
    · cases hw'

/-! ### A type that is never completed, and a harmless one -/

/-- An access type to a type that is never completed, a procedure with a parameter of it, and
a procedure with a parameter of the type itself. -/
def vigilantSample : Setting :=
  { (ofParts?
      [{ name := "I", kind := .type { definition := .incomplete none } },
        { name := "A", kind := .type { definition := .access { designated := "I" } } },
        { name := "X", kind := .parameter { type := "A" } },
        { name := "P", kind := .subprogram { kind := .procedure, parameters := ["X"] } },
        { name := "Y", kind := .parameter { type := "I" } },
        { name := "Q", kind := .subprogram { kind := .procedure, parameters := ["Y"] } }]
      [.plain (.declaration .subprogram "P"), .plain (.body .subprogram "Q" none [] [])]).get
      (by decide +kernel) with
    policy := { defaultMode := some .on } }

/-- A type that is in the subset. -/
def harmlessSample : Setting :=
  { (ofParts? [{ name := "T", kind := .type { definition := .signed 0 9 } }]
      [.plain (.declaration .type "T")]).get (by decide +kernel) with
    policy := { defaultMode := some .on } }

theorem exclusions_explained_vigilantSample :
  let r := (vigilantSample.wholeProgram.after {}).2
  vigilantSample.Vigilant ∧ vigilantSample.wholeProgram {} = .ok () r
    ∧ r.verdicts.causes["P"]? = some (.entity "I" {})
    ∧ r.verdicts.bodyCauses["Q"]? = some (.entity "I" {}) ∧ r.Explains (.entity "I" {})
    ∧ .excluded "P" (.entity "I" {}) ∈ r.journal
    ∧ harmlessSample.Vigilant
    ∧ "T" ∈ (harmlessSample.wholeProgram.after {}).2.verdicts.admitted
  := by
  have hS : vigilantSample.Vigilant := by decide +kernel
  have h : vigilantSample.wholeProgram {} = .ok () (vigilantSample.wholeProgram.after {}).2 :=
    Act.eq_ok_of_after (by decide +kernel)
  have hP : (vigilantSample.wholeProgram.after {}).2.verdicts.causes["P"]?
      = some (.entity "I" {}) := by decide +kernel
  have hb : (vigilantSample.wholeProgram.after {}).2.verdicts.bodyCauses["Q"]?
      = some (.entity "I" {}) := by decide +kernel
  have hS' : harmlessSample.Vigilant := by decide +kernel
  have h' : harmlessSample.wholeProgram {} = .ok () (harmlessSample.wholeProgram.after {}).2 :=
    Act.eq_ok_of_after (by decide +kernel)
  obtain ⟨-, hbodies, -, ⟨-, hnoted⟩, -⟩ := exclusions_explained hS h
  obtain ⟨-, -, -, -, -, -, hall⟩ := exclusions_explained hS' h'
  refine ⟨hS, h, hP, hb, hbodies _ _ hb, (hnoted _ _).2 hP, hS', ?_⟩
  exact hall (by decide +kernel) "T" (by decide +kernel)

end Setting

end Conformance
