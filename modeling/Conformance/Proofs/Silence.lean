import Conformance.Proofs.Act
import Conformance.Proofs.Mirror
import Conformance.Proofs.Reordering

/-!
# Reports change no verdict

The same run, once where entities without a mode are reported on and once where they are not.
A run is quieter than another one if it reports some of what the other one does, all warnings
among them, and otherwise came to the same.  What two runs do in the same situation keeps one
of them quieter: mode and reports lead to no verdict.

`outcome_unreported` is the result.
-/

namespace Conformance

/-- A mode under which as much is analysed, and no more is reported, as under another one. -/
inductive Softer : Option Mode → Option Mode → Prop
  | refl (mode : Option Mode) : Softer mode mode
  | unreported : Softer none (some .on)

/-- Scopes that differ in the mode only. -/
structure Scope.Quieter (s s' : Scope) : Prop where
  mode : Softer s.mode s'.mode
  rest : s' = { s with mode := s'.mode }

namespace Run

/-- The run with other matters whose findings are reported, and other reports. -/
def amplify (r : Run) (reporting : Matters) (reports : Array Report) : Run :=
  { r with verdicts := { r.verdicts with reporting }, reports }

/-- A run that came to the same as another one, except that the other one reports more. -/
inductive Quieter (r : Run) : Run → Prop
  | amplify {reporting : Matters} {reports : Array Report}
      (reporting_le : ∀ m, r.verdicts.reporting.contains m → reporting.contains m)
      (reports_le : r.reports.toList.Sublist reports.toList)
      (warnings : r.reports.toList.filter Report.isWarning
        = reports.toList.filter Report.isWarning) :
      Quieter r (r.amplify reporting reports)

namespace Quieter

variable {r r' : Run}

/-- A change that reads and writes neither reports nor what is reported. -/
theorem map (h : r.Quieter r') (f : Run → Run)
    (hf : ∀ reporting reports, f (r.amplify reporting reports) = (f r).amplify reporting reports) :
  (f r).Quieter (f r')
  := by
  cases h with
  | @amplify reporting reports hm hr hw =>
    have hown : f r = (f r).amplify r.verdicts.reporting r.reports := hf _ _
    have hreporting : (f r).verdicts.reporting = r.verdicts.reporting := by rw [hown]; rfl
    have hreports : (f r).reports = r.reports := by rw [hown]; rfl
    rw [hf]
    exact amplify (by rwa [hreporting]) (by rwa [hreports]) (by rwa [hreports])

theorem rule (h : r.Quieter r') (f : Verdicts → Verdicts)
    (hf : ∀ v reporting, f { v with reporting } = { f v with reporting }) :
  (r.rule f).Quieter (r'.rule f)
  := by
  refine h.map (·.rule f) fun reporting reports => ?_
  unfold Run.rule Run.amplify
  rw [hf]

theorem withCause (h : r.Quieter r') (cause : Option Site) :
  Quieter { r with cause } { r' with cause }
  := h.map (fun r => { r with cause }) fun _ _ => rfl

/-- The other run reports more. -/
theorem push (h : r.Quieter r') {report : Report} (hw : report.isWarning = false) :
  r.Quieter { r' with reports := r'.reports.push report }
  := by
  cases h with
  | amplify hm hr hw' =>
    refine @amplify _ _ (Array.push _ report) hm ?_ ?_
    · rw [Array.toList_push]
      exact hr.trans (List.sublist_append_left _ _)
    · simp [Run.amplify, hw', hw]

/-- Both runs report the same. -/
theorem push_both (h : r.Quieter r') (report : Report) :
  Quieter { r with reports := r.reports.push report }
    { r' with reports := r'.reports.push report }
  := by
  cases h with
  | @amplify reporting reports hm hr hw =>
    refine @amplify _ _ (reports.push report) hm ?_ ?_
    · rw [Array.toList_push, Array.toList_push]
      exact hr.append_right _
    · rw [Array.toList_push, Array.toList_push, List.filter_append, List.filter_append, hw]

/-- The other run reports the findings of a further matter. -/
theorem insert (h : r.Quieter r') (m : Matter) :
  r.Quieter (r'.rule fun v => { v with reporting := v.reporting.insert m })
  := by
  cases h with
  | amplify hm hr hw =>
    refine @amplify _ (Std.TreeSet.insert _ m) _ (fun m' hm' => ?_) hr hw
    exact Std.TreeSet.mem_insert.2 (Or.inr (hm m' hm'))

/-- Both runs report the findings of a further matter. -/
theorem insert_both (h : r.Quieter r') (m : Matter) :
  (r.rule fun v => { v with reporting := v.reporting.insert m }).Quieter
    (r'.rule fun v => { v with reporting := v.reporting.insert m })
  := by
  cases h with
  | @amplify reporting reports hm hr hw =>
    refine @amplify _ (reporting.insert m) _ (fun m' hm' => ?_) hr hw
    exact Std.TreeSet.mem_insert.2 ((Std.TreeSet.mem_insert.1 hm').imp_right (hm m'))

theorem admits (h : r.Quieter r') (id : EntityId) :
  r'.admits id = r.admits id
  := by
  cases h
  rfl

theorem report {s s' : Scope} (h : r.Quieter r') (hs : s.Quieter s') {report : Report}
    (hw : report.isWarning = false) :
  (r.report s report).Quieter (r'.report s' report)
  := by
  have hm := hs.mode
  unfold Run.report Scope.reports
  generalize s.mode = m, s'.mode = m' at hm ⊢
  cases hm with
  | refl =>
    split
    · exact h.push_both report
    · exact h
  | unreported => exact h.push hw

theorem find {s s' : Scope} (h : r.Quieter r') (hs : s.Quieter s') (site : Site)
    (finding : Finding) :
  (r.find s site finding).Quieter (r'.find s' site finding)
  := by
  have hflag : (r.flag site).Quieter (r'.flag site) := h.map (·.flag site) fun _ _ => rfl
  have ha : s'.attribution = s.attribution := by rw [hs.rest]
  cases finding with
  | violation v =>
    rw [Run.find, Run.find, ha]
    exact hflag.report hs rfl
  | unsupported feature => exact hflag.report hs rfl
  | warning w =>
    have hm := hs.mode
    have hw : s'.warns = s.warns := by
      unfold Scope.warns
      generalize s.mode = m, s'.mode = m' at hm ⊢
      cases hm <;> rfl
    rw [Run.find, Run.find, hw]
    split
    · exact h.push_both _
    · exact h

theorem findExcluded {s s' : Scope} (h : r.Quieter r') (hs : s.Quieter s') (site : Site)
    (id : EntityId) :
  (r.findExcluded s site id).Quieter (r'.findExcluded s' site id)
  := by
  have hc : r'.verdicts.causes = r.verdicts.causes := by cases h; rfl
  have ha : s'.attribution = s.attribution := by rw [hs.rest]
  rw [Run.findExcluded, Run.findExcluded, hc, ha]
  exact (h.map (·.flag _) fun _ _ => rfl).report hs rfl

/-! ### Exclusion after the fact -/

theorem reportDependence (h : r.Quieter r') (p : Program) (m : Matter) (excluded : EntityId)
    (cause : Site) :
  (r.reportDependence p m excluded cause).Quieter (r'.reportDependence p m excluded cause)
  := by
  have hm (hr : r.verdicts.reporting.contains m) : r'.verdicts.reporting.contains m := by
    cases h with
    | amplify hm => exact hm m hr
  unfold Run.reportDependence
  by_cases hr : r.verdicts.reporting.contains m
  · rw [if_pos hr, if_pos (hm hr)]
    exact h.push_both _
  · rw [if_neg hr]
    split
    · exact h.push rfl
    · exact h

theorem withdraw (h : r.Quieter r') (p : Program) (excluded : EntityId) (cause : Site)
    (m : Matter) :
  (r.withdraw p excluded cause m).1.Quieter (r'.withdraw p excluded cause m).1
    ∧ (r'.withdraw p excluded cause m).2 = (r.withdraw p excluded cause m).2
  := by
  have hu : r'.verdicts.upholds m = r.verdicts.upholds m := by
    cases h
    cases m <;> rfl
  unfold Run.withdraw
  rw [hu]
  split
  · refine ⟨reportDependence ?_ p m excluded cause, rfl⟩
    exact h.map (·.overturn cause m) fun _ _ => by cases m <;> rfl
  · exact ⟨h, rfl⟩

theorem withdrawAll (h : r.Quieter r') (p : Program) (excluded : EntityId) (cause : Site)
    (ms : List Matter) :
  (r.withdrawAll p excluded cause ms).1.Quieter (r'.withdrawAll p excluded cause ms).1
    ∧ (r'.withdrawAll p excluded cause ms).2 = (r.withdrawAll p excluded cause ms).2
  := by
  induction ms generalizing r r' with
  | nil => exact ⟨h, rfl⟩
  | cons m ms ih =>
    obtain ⟨hm, hb⟩ := h.withdraw p excluded cause m
    obtain ⟨hms, hids⟩ := ih hm
    cases m with
    | declaration id =>
      refine ⟨hms, ?_⟩
      simp only [Run.withdrawAll, hb, hids]
    | body | aspects => exact ⟨hms, hids⟩

theorem cascade (h : r.Quieter r') (p : Program) (cause : Site) (work : List EntityId) :
  (r.cascade p cause work).Quieter (r'.cascade p cause work)
  := by
  induction r, work using Run.cascade.induct p cause generalizing r' with
  | case1 r => simpa [Run.cascade] using h
  | case2 =>
    rename_i r current rest dependents step ih
    have hd : r'.verdicts.dependentsOf current = r.verdicts.dependentsOf current := by
      cases h
      rfl
    have hf : (r.rule fun v => v.forget current).Quieter (r'.rule fun v => v.forget current) :=
      h.rule (·.forget current) fun _ _ => rfl
    obtain ⟨hs, hids⟩ := hf.withdrawAll p current cause dependents
    rw [Run.cascade, Run.cascade, hd, hids]
    exact ih hs

theorem exclude (h : r.Quieter r') (p : Program) (e : Entity) :
  (r.exclude p e).Quieter (r'.exclude p e)
  := by
  have hc : r'.cause = r.cause := by cases h; rfl
  unfold Run.exclude
  rw [hc]
  apply cascade
  exact h.map (·.overturn _ (.declaration e.name)) fun _ _ => rfl

end Quieter

end Run

/-! ## Acts -/

namespace Act

variable {α β : Type}

/-- Two results that differ only in that the second run reports more. -/
inductive Echoes : EStateM.Result Fault Run α → EStateM.Result Fault Run α → Prop
  | ok (a : α) {r r' : Run} (h : r.Quieter r') : Echoes (.ok a r) (.ok a r')
  | error (fault : Fault) {r r' : Run} (h : r.Quieter r') :
      Echoes (.error fault r) (.error fault r')

/-- Two acts come to the same in the same situation, except that the second one reports
more. -/
def Quieter (act act' : Act α) : Prop :=
  ∀ r r', r.Quieter r' → Echoes (act r) (act' r')

variable {act act' : Act α} {f f' : α → Act β}

theorem Quieter.bind (h : act.Quieter act') (hf : ∀ a, (f a).Quieter (f' a)) :
  (act >>= f).Quieter (act' >>= f')
  := by
  intro r r' hr
  change Echoes (EStateM.bind act f r) (EStateM.bind act' f' r')
  unfold EStateM.bind
  have he := h r r' hr
  generalize act r = x, act' r' = x' at he ⊢
  cases he with
  | ok a hr' => exact hf a _ _ hr'
  | error fault hr' => exact .error fault hr'

theorem quieter_pure (a : α) :
  (pure a : Act α).Quieter (pure a)
  := fun _ _ hr => .ok a hr

theorem quieter_throw (fault : Fault) :
  (throw fault : Act α).Quieter (throw fault)
  := fun _ _ hr => .error fault hr

theorem quieter_lift (x : Answer α) :
  (liftM x : Act α).Quieter (liftM x)
  := by
  cases x with
  | ok a => exact quieter_pure a
  | error fault => exact quieter_throw fault

theorem Quieter.afresh (h : act.Quieter act') :
  act.afresh.Quieter act'.afresh
  := by
  intro r r' hr
  have hc : r'.cause = r.cause := by cases hr; rfl
  unfold Act.afresh
  rw [hc]
  have he := h _ _ (hr.withCause none)
  generalize act { r with cause := none } = x, act' { r' with cause := none } = x' at he ⊢
  cases he with
  | ok a hr' => exact .ok a (hr'.withCause r.cause)
  | error fault hr' => exact .error fault (hr'.withCause r.cause)

theorem quieter_get_bind {f f' : Run → Act β} (h : ∀ r r', r.Quieter r' → (f r).Quieter (f' r')) :
  (get >>= f).Quieter (get >>= f')
  := fun r r' hr => h r r' hr r r' hr

theorem quieter_modify {f f' : Run → Run} (h : ∀ r r', r.Quieter r' → (f r).Quieter (f' r')) :
  (modify f : Act Unit).Quieter (modify f')
  := fun r r' hr => .ok () (h r r' hr)

theorem quieter_rule {f : Verdicts → Verdicts}
    (h : ∀ v reporting, f { v with reporting } = { f v with reporting }) :
  (rule f).Quieter (rule f)
  := by
  apply quieter_modify
  intro r r' hr
  exact hr.rule f h

theorem quieter_note (e : Event) :
  (modify (·.note e) : Act Unit).Quieter (modify (·.note e))
  := quieter_modify fun _ _ hr => hr.map (·.note e) fun _ _ => rfl

theorem quieter_admits_bind {id : EntityId} {f f' : Bool → Act β}
    (h : ∀ b, (f b).Quieter (f' b)) :
  (admits id >>= f).Quieter (admits id >>= f')
  := by
  refine Quieter.bind ?_ h
  intro r r' hr
  change Echoes (.ok (r.admits id) r) (.ok (r'.admits id) r')
  rw [hr.admits]
  exact .ok _ hr

theorem quieter_forM {ids : List β} {f f' : β → Act Unit} (h : ∀ a, (f a).Quieter (f' a)) :
  (ids.forM f).Quieter (ids.forM f')
  := by
  induction ids with
  | nil => exact quieter_pure ()
  | cons id ids ih => exact (h id).bind fun _ => ih

end Act

namespace Setting

open Act

/-! ### Modes -/

/-- Two answers about modes of which the first one is softer. -/
inductive Softens {α : Type} : Answer (Option Mode × α) → Answer (Option Mode × α) → Prop
  | ok {mode mode' : Option Mode} (h : Softer mode mode') (a : α) :
      Softens (.ok (mode, a)) (.ok (mode', a))
  | error (fault : Fault) : Softens (.error fault) (.error fault)

theorem Softens.bind {α β : Type} {x x' : Answer (Option Mode × α)}
    {f f' : Option Mode × α → Act β} (h : Softens x x')
    (hf : ∀ mode mode' a, Softer mode mode' → (f (mode, a)).Quieter (f' (mode', a))) :
  Act.Quieter (liftM x >>= f) (liftM x' >>= f')
  := by
  cases h with
  | ok h a => exact fun r r' hr => hf _ _ a h r r' hr
  | error fault => exact fun r r' hr => .error fault hr

/-- Under a softer mode, what is excluded from analysis is the same. -/
theorem eq_off_of_softer {mode mode' : Option Mode} (h : Softer mode mode') :
  (mode' == some .off) = (mode == some .off)
  := by cases h <;> rfl

/-- A setting under another default mode. -/
abbrev under (S : Setting) (mode : S.Alternative) : Setting := S.recast S.program.units mode

variable {S : Setting} {mode : S.Alternative} (hS : Softer S.policy.defaultMode mode.mode)

include hS

theorem softens_modeOf (id : EntityId) :
  Softens (S.modeOf id) ((S.under mode).modeOf id)
  := by
  rw [modeOf_recast]
  cases h : S.modeOf id with
  | error fault => exact .error fault
  | ok result =>
    obtain ⟨m, anchor⟩ := result
    cases anchor with
    | some anchor => exact .ok (.refl m) _
    | none =>
      obtain rfl := modeFrom_eq_none h
      exact .ok hS none

theorem softens_bodyMode (e : Entity) (explicit : Option Mode) :
  Softens (S.bodyMode e explicit) ((S.under mode).bodyMode e explicit)
  := by
  cases explicit with
  | some m => exact .ok (.refl _) _
  | none => exact softens_modeOf hS e.name

theorem softens_aspectsMode (e : Entity) (anchor : Option EntityId) :
  Softens (S.aspectsMode e anchor) ((S.under mode).aspectsMode e anchor)
  := by
  cases anchor with
  | none => exact .ok (.refl _) _
  | some anchor =>
    have h := softens_modeOf hS anchor
    simp only [aspectsMode, recast_program, Program.entity_withUnits]
    cases S.program.entity anchor with
    | error fault => exact .error fault
    | ok carrier =>
      change Softens (S.modeOf anchor >>= _) ((S.under mode).modeOf anchor >>= _)
      generalize S.modeOf anchor = x, (S.under mode).modeOf anchor = x' at h ⊢
      cases h with
      | ok h a => exact .ok h _
      | error fault => exact .error fault

/-! ### Walks -/

variable {decide decide' : EntityId → Act Unit} (hd : ∀ id, (decide id).Quieter (decide' id))

omit hS in
theorem quieter_relaxAll (steps : Nat) (work : List (EntityId × Bool)) :
  (S.relaxAll steps work).Quieter ((S.under mode).relaxAll steps work)
  := by
  have hv {r r' : Run} (h : r.Quieter r') (core : EntityId) (own : Bool) :
      r'.verdicts.improvesRelaxed core own = r.verdicts.improvesRelaxed core own := by
    cases h
    rfl
  induction steps, work using relaxAll_induction with
  | nil steps =>
    rw [relaxAll_nil, relaxAll_nil]
    exact quieter_pure ()
  | cons steps core own rest ih ih' =>
    rw [relaxAll_cons, relaxAll_cons]
    refine quieter_get_bind fun r r' h => ?_
    rw [hv h]
    split
    · cases steps with
      | zero => exact quieter_throw _
      | succ n =>
        rw [relaxedParts_recast]
        exact (quieter_rule fun _ _ => rfl).bind fun _ => (quieter_lift _).bind fun _ =>
          ih' n (Nat.lt_succ_self n) _
    · exact ih

omit hS in
theorem quieter_relax (type : EntityId) :
  (S.relax type).Quieter ((S.under mode).relax type)
  := by
  simp only [relax, relaxAs, coreName, core_recast]
  exact (quieter_lift _).bind fun core => quieter_relaxAll _ _

include hd

omit hS in
theorem quieter_consult {scope scope' : Scope} (hs : scope.Quieter scope') (id : EntityId)
    (site : Site) :
  (consult decide scope id site).Quieter (consult decide' scope' id site)
  := by
  have hm : scope'.matter = scope.matter := by rw [hs.rest]
  unfold consult
  rw [hm]
  refine (hd id).bind fun _ => (quieter_note _).bind fun _ => quieter_admits_bind fun b => ?_
  cases b with
  | true =>
    cases scope.matter with
    | none => exact quieter_pure true
    | some m =>
      refine (quieter_rule fun v reporting => ?_).bind fun _ => quieter_pure true
      unfold Verdicts.depend
      split <;> rfl
  | false =>
    exact (quieter_modify fun _ _ hr => hr.findExcluded hs site id).bind fun _ => quieter_pure false

omit hS in
theorem quieter_declare {scope scope' : Scope} (hs : scope.Quieter scope') (id : EntityId)
    (site : Site) :
  (S.declare decide scope id site).Quieter ((S.under mode).declare decide' scope' id site)
  := by
  have hm : scope'.matter = scope.matter := by rw [hs.rest]
  simp only [declare, hm, isOff_recast]
  have hc := (quieter_consult hd hs id site).bind fun _ => quieter_pure ()
  refine (hd id).bind fun _ => ?_
  split
  · refine quieter_admits_bind fun b => ?_
    split
    · exact hc
    · refine (quieter_lift _).bind fun off => (quieter_pure (!off)).bind fun counts => ?_
      split
      · exact hc
      · exact quieter_pure ()
  · exact quieter_pure ()

omit hS hd in
theorem quieter_begin {scope scope' : Scope} (hs : scope.Quieter scope') (m : Matter) :
  (begin scope m).Quieter (begin scope' m)
  := by
  apply (quieter_note _).bind
  intro _ r r' hr
  have hm := hs.mode
  unfold Scope.reports
  generalize scope.mode = reported, scope'.mode = reported' at hm ⊢
  cases hm with
  | refl =>
    split
    · exact .ok () (hr.insert_both m)
    · exact .ok () hr
  | unreported => exact .ok () (hr.insert m)

omit hS hd in
theorem quieter_concludeBody (e : Entity) :
  (concludeBody e).Quieter (concludeBody e)
  := by
  refine quieter_modify fun r r' hr => ?_
  have hv : r'.violated = r.violated := by cases hr; rfl
  have hc : r'.cause = r.cause := by cases hr; rfl
  simp only [hv, hr.admits, hc]
  split
  · exact (hr.rule _ fun _ _ => rfl).map (·.note _) fun _ _ => rfl
  · exact hr.rule _ fun _ _ => rfl

theorem quieter_decideBody (e : Entity) (explicit : Option Mode) {inner inner' : Scope → Act Unit}
    (hi : ∀ scope scope' : Scope, scope.Quieter scope' → (inner scope).Quieter (inner' scope')) :
  (S.decideBody decide e explicit inner).Quieter
    ((S.under mode).decideBody decide' e explicit inner')
  := by
  unfold decideBody
  refine (hd _).bind fun _ => quieter_admits_bind fun b => ?_
  cases b with
  | true =>
    refine (softens_bodyMode hS e explicit).bind fun m m' anchor h => ?_
    have hs : Scope.Quieter ⟨some (.body e.name), m, anchor, none⟩
        ⟨some (.body e.name), m', anchor, none⟩ := ⟨h, rfl⟩
    simp only [eq_off_of_softer h]
    split
    · exact quieter_pure ()
    · apply Quieter.afresh
      exact (quieter_begin hs _).bind fun _ => (hi _ _ hs).bind fun _ => quieter_concludeBody e
  | false =>
    refine quieter_rule fun v reporting => ?_
    simp only
    split <;> rfl

theorem quieter_walk {α : Type} {scope scope' : Scope} (hs : scope.Quieter scope')
    (i : Inquiry α) :
  (S.walk decide scope i).Quieter ((S.under mode).walk decide' scope' i)
  := by
  have hm : scope'.matter = scope.matter := by rw [hs.rest]
  induction i generalizing scope scope' with
  | done a => exact quieter_pure a
  | fail fault => exact quieter_throw fault
  | visit role node next ih =>
    simp only [walk, hm]
    exact (quieter_note _).bind fun _ => ih hs hm
  | consult id site next ih =>
    exact (quieter_consult hd hs id site).bind fun b => ih b hs hm
  | declare id site next ih => exact (quieter_declare hd hs id site).bind fun _ => ih hs hm
  | decide id next ih => exact (hd id).bind fun _ => ih hs hm
  | isAdmitted id next ih =>
    simp only [walk, hm]
    exact (quieter_note _).bind fun _ => quieter_admits_bind fun b => ih b hs hm
  | isExamined id next ih =>
    refine quieter_get_bind fun r r' h => ?_
    have he : r'.verdicts.examined = r.verdicts.examined := by cases h; rfl
    rw [he]
    exact ih _ hs hm
  | find site finding next ih =>
    exact (quieter_modify fun _ _ hr => hr.find hs site finding).bind fun _ => ih hs hm
  | relax type next ih => exact (quieter_relax type).bind fun _ => ih hs hm
  | postponeAspects type next ih =>
    have ha : scope'.anchor = scope.anchor := by rw [hs.rest]
    simp only [walk, ha]
    exact (quieter_rule fun _ _ => rfl).bind fun _ => ih hs hm
  | hideView id next ih | postponeCompletion id next ih | placeInLoop id loop next ih =>
    exact (quieter_rule fun _ _ => rfl).bind fun _ => ih hs hm
  | body e explicit inner next ihi ih =>
    refine (quieter_decideBody hS hd e explicit fun scope scope' hs => ?_).bind fun _ => ih hs hm
    exact ihi hs (by rw [hs.rest])

/-! ### Decisions and service -/

omit hS hd in
theorem quieter_exclude (e : Entity) :
  (S.exclude e).Quieter ((S.under mode).exclude e)
  := quieter_modify fun _ _ hr => hr.exclude S.program e

omit hS hd in
theorem quieter_publish (e : Entity) :
  (S.publish e).Quieter ((S.under mode).publish e)
  := by
  simp only [publish, prerequisite?_recast]
  split
  · exact (quieter_lift _).bind fun prerequisite => quieter_rule fun _ _ => rfl
  · exact quieter_pure ()

omit hS in
theorem quieter_grant {scope scope' : Scope} (hs : scope.Quieter scope') (e : Entity) :
  (S.grant decide scope e).Quieter ((S.under mode).grant decide' scope' e)
  := by
  have hf : (e.followers.forM fun id => postpone (.declaration id)).Quieter
      (e.followers.forM fun id => postpone (.declaration id)) :=
    quieter_forM fun id => quieter_rule fun _ _ => rfl
  refine (quieter_publish e).bind fun _ => ?_
  cases e.predicateFunction? with
  | none => exact hf
  | some function =>
    refine (quieter_consult hd hs function e.site).bind fun kept => ?_
    cases kept with
    | true => exact hf
    | false => exact quieter_exclude e

omit hS in
theorem quieter_conclude {scope scope' : Scope} (hs : scope.Quieter scope') (e : Entity) :
  (S.conclude decide scope e).Quieter ((S.under mode).conclude decide' scope' e)
  := by
  refine quieter_get_bind fun r r' hr => ?_
  have hv : r'.violated = r.violated := by cases hr; rfl
  rw [hv, hr.admits]
  split
  · exact quieter_exclude e
  · exact quieter_grant hd hs e

theorem quieter_examine (e : Entity) :
  (S.examine decide e).Quieter ((S.under mode).examine decide' e)
  := by
  have hi : (S.under mode).entityInquiry e = S.entityInquiry e := entityInquiry_recast _ _ _ rfl
  unfold examine
  rw [hi]
  refine (quieter_rule fun _ _ => rfl).bind fun _ => ?_
  refine (softens_modeOf hS e.name).bind fun m m' anchor h => ?_
  have hs : Scope.Quieter ⟨some (.declaration e.name), m, anchor, none⟩
      ⟨some (.declaration e.name), m', anchor, none⟩ := ⟨h, rfl⟩
  simp only [eq_off_of_softer h]
  split
  · exact quieter_pure ()
  · apply Quieter.afresh
    refine (quieter_begin hs _).bind fun _ => (quieter_rule fun _ _ => rfl).bind fun _ => ?_
    exact (quieter_walk hS hd hs _).bind fun _ => quieter_conclude hd hs e

omit hd

theorem quieter_decideWithin (levels : Nat) (id : EntityId) :
  (S.decideWithin levels id).Quieter ((S.under mode).decideWithin levels id)
  := by
  induction levels generalizing id with
  | zero =>
    unfold decideWithin
    refine quieter_get_bind fun r r' hr => ?_
    have he : r'.verdicts.examined = r.verdicts.examined := by cases hr; rfl
    rw [he]
    split
    · exact quieter_pure ()
    · exact (quieter_lift _).bind fun e => quieter_throw _
  | succ levels ih =>
    unfold decideWithin
    refine quieter_get_bind fun r r' hr => ?_
    have he : r'.verdicts.examined = r.verdicts.examined := by cases hr; rfl
    rw [he]
    split
    · exact quieter_pure ()
    · exact (quieter_lift _).bind fun e => quieter_examine hS ih e

theorem quieter_decide (id : EntityId) :
  (S.decide id).Quieter ((S.under mode).decide id)
  := quieter_decideWithin hS _ id

theorem quieter_serveAspects (type : EntityId) (anchor : Option EntityId) :
  (S.serveAspects type anchor).Quieter ((S.under mode).serveAspects type anchor)
  := by
  refine (quieter_lift _).bind fun e => (quieter_lift _).bind fun t => ?_
  refine (softens_aspectsMode hS e anchor).bind fun m m' attribution h => ?_
  have hs : Scope.Quieter ⟨some (.aspects type), m, anchor, some attribution⟩
      ⟨some (.aspects type), m', anchor, some attribution⟩ := ⟨h, rfl⟩
  have hi : (S.under mode).aspectsInquiry t = S.aspectsInquiry t := S.expressions_recast _ _ _
  simp only [eq_off_of_softer h, hi]
  split
  · exact quieter_pure ()
  · apply Quieter.afresh
    refine (quieter_walk hS (quieter_decide hS) hs _).bind fun _ => quieter_modify fun r r' hr => ?_
    have hv : r'.violated = r.violated := by cases hr; rfl
    rw [hv]
    split
    · exact hr.rule _ fun _ _ => rfl
    · exact hr

omit hS in
theorem quieter_takeBack (access designated : EntityId) (cause : Site) :
  (S.takeBack access designated cause).Quieter ((S.under mode).takeBack access designated cause)
  := by
  refine quieter_modify fun r r' hr => ?_
  obtain ⟨hw, hc⟩ := hr.withdraw S.program designated cause (.declaration access)
  change Run.Quieter (if (r.withdraw S.program designated cause (.declaration access)).2 then _
    else _) (if (r'.withdraw S.program designated cause (.declaration access)).2 then _ else _)
  rw [hc]
  split
  · exact hw.cascade S.program cause [access]
  · exact hw

theorem quieter_serveCompletion (access : EntityId) :
  (S.serveCompletion access).Quieter ((S.under mode).serveCompletion access)
  := by
  refine (quieter_lift _).bind fun type => quieter_admits_bind fun admitted => ?_
  split
  · refine (quieter_decide hS type).bind fun _ => quieter_admits_bind fun kept => ?_
    split
    · exact quieter_rule fun _ _ => rfl
    · refine quieter_get_bind fun r r' hr => ?_
      have hc : (S.under mode).causeOf r'.verdicts type = S.causeOf r.verdicts type := by
        cases hr
        rfl
      rw [hc]
      exact (quieter_lift _).bind fun cause => quieter_takeBack access type cause
  · exact quieter_pure ()

theorem quieter_serve (task : Task) :
  (S.serve task).Quieter ((S.under mode).serve task)
  := by
  cases task with
  | declaration id => exact quieter_decide hS id
  | aspects type anchor => exact quieter_serveAspects hS type anchor
  | completion access => exact quieter_serveCompletion hS access

theorem quieter_drainWithin (steps : Nat) :
  (S.drainWithin steps).Quieter ((S.under mode).drainWithin steps)
  := by
  induction steps with
  | zero =>
    unfold drainWithin
    refine quieter_get_bind fun r r' hr => ?_
    have hb : r'.verdicts.backlog = r.verdicts.backlog := by cases hr; rfl
    rw [hb]
    split
    · exact quieter_pure ()
    · exact quieter_throw _
  | succ steps ih =>
    unfold drainWithin
    refine quieter_get_bind fun r r' hr => ?_
    have hb : r'.verdicts.backlog = r.verdicts.backlog := by cases hr; rfl
    rw [hb]
    split
    · exact quieter_pure ()
    · refine (quieter_rule fun _ _ => rfl).bind fun _ => (quieter_note _).bind fun _ => ?_
      exact (quieter_serve hS _).bind fun _ => ih

theorem quieter_walkOutside (i : Inquiry Unit) :
  (S.walkOutside i).Quieter ((S.under mode).walkOutside i)
  := quieter_walk hS (quieter_decide hS) ⟨.refl none, rfl⟩ i

theorem quieter_unit (n : Node) :
  (S.unit n).Quieter ((S.under mode).unit n)
  := by
  have hc (item : Node) : (S.under mode).contextItem item = S.contextItem item := by
    simp only [contextItem, pragma_recast]
  simp only [unit, item_recast, hc]
  split
  · refine (quieter_forM fun item => ?_).bind fun _ => quieter_walkOutside hS _
    exact (quieter_walkOutside hS _).afresh
  · exact quieter_walkOutside hS _

theorem quieter_wholeProgram :
  S.wholeProgram.Quieter (S.under mode).wholeProgram
  := by
  have hu : (S.under mode).program.units = S.program.units := rfl
  unfold wholeProgram
  rw [hu]
  refine (quieter_forM fun n => ?_).bind fun _ => quieter_rule fun _ _ => rfl
  exact (quieter_unit hS n).bind fun _ => quieter_drainWithin hS _

omit hS in
/-- Reports change no verdict.  Where the default mode is to report and where there is none, the
outcome of a program is the same, or the same fault; and without a default mode some of the
same reports are made, all warnings among them. -/
theorem outcome_unreported (p : Program) (policy : Policy) :
  let unreported := outcome ⟨p, { policy with defaultMode := none }⟩
  let reported := outcome ⟨p, { policy with defaultMode := some .on }⟩
  unreported.1 = reported.1 ∧ unreported.2.toList.Sublist reported.2.toList
    ∧ unreported.2.toList.filter Report.isWarning = reported.2.toList.filter Report.isWarning
  := by
  let S : Setting := ⟨p, { policy with defaultMode := none }⟩
  let T : Setting := ⟨p, { policy with defaultMode := some .on }⟩
  have h : Echoes (S.wholeProgram {}) (T.wholeProgram {}) :=
    @quieter_wholeProgram S ⟨some .on, rfl⟩ .unreported {} {}
      (.amplify (fun _ h => h) (List.Sublist.refl _) rfl)
  change (S.outcome).1 = (T.outcome).1 ∧ (S.outcome).2.toList.Sublist (T.outcome).2.toList
    ∧ (S.outcome).2.toList.filter _ = (T.outcome).2.toList.filter _
  rw [outcome_eq, outcome_eq]
  unfold after
  generalize S.wholeProgram {} = x, T.wholeProgram {} = x' at h ⊢
  cases h with
  | ok _ hr | error fault hr =>
    cases hr with
    | amplify _ hs hw => exact ⟨rfl, hs, hw⟩

end Setting

end Conformance
