import Conformance.Proofs.Roster
import Conformance.Proofs.Withdrawal

/-!
# The extent of a cascade

`Cascades` says which verdicts a cascade may take back and which it must.  Here a cascade is
followed loss by loss: `Run.Unwinds` says what a list of losses changes, each of them a verdict
that was favourable and the entity whose exclusion takes it along.  A cascade serves the
excluded entity and the entities that it hits, each of them once, so it ends also where
entities depend on each other, and which entities it hits determines all that it takes back,
writes and reports: that is `Run.Extent`.
-/

namespace Conformance

namespace Verdicts

/-! ### Verdicts that are taken back -/

/-- What changes when the verdicts on the matters `lost` are taken back one after another, and
what consulted the entities `served` is forgotten. -/
structure Unwinds (cause : Site) (v : Verdicts) (served : List EntityId) (lost : List Matter)
    (v' : Verdicts) : Prop where
  nodup : lost.Nodup
  upheld : ∀ m ∈ lost, v.upholds m
  mem_admitted : ∀ x, x ∈ v'.admitted ↔ x ∈ v.admitted ∧ .declaration x ∉ lost
  mem_admittedBodies : ∀ x, x ∈ v'.admittedBodies
    ↔ x ∈ v.admittedBodies ∧ .body x ∉ lost ∧ .declaration x ∉ lost
  roster : v'.roster = v.roster.restrict fun x => decide (.declaration x ∉ lost)
  bodyCauses : ∀ x, v'.bodyCauses[x]? = if .body x ∈ lost then some cause else v.bodyCauses[x]?
  dependents : ∀ y, v'.dependents[y]? = if y ∈ served then none else v.dependents[y]?
  reporting : v'.reporting = v.reporting

section

variable {cause : Site} {v v₁ v' : Verdicts} {id y : EntityId} {served served' : List EntityId}
  {lost lost' : List Matter} {m : Matter}

theorem unwinds_refl (cause : Site) (v : Verdicts) :
  v.Unwinds cause [] [] v
  := by constructor <;> simp

theorem Unwinds.upholds (h : v.Unwinds cause served lost v') (hm : v'.upholds m) :
  v.upholds m
  := by
  cases m with
  | declaration x =>
    rw [upholds_declaration] at hm ⊢
    exact ((h.mem_admitted x).1 hm).1
  | body x =>
    rw [upholds_body] at hm ⊢
    exact ((h.mem_admittedBodies x).1 hm).1
  | aspects x => simp at hm

theorem Unwinds.not_upholds (h : v.Unwinds cause served lost v') (hm : m ∈ lost) :
  ¬ v'.upholds m
  := by
  intro hu
  cases m with
  | declaration x =>
    rw [upholds_declaration] at hu
    exact ((h.mem_admitted x).1 hu).2 hm
  | body x =>
    rw [upholds_body] at hu
    exact ((h.mem_admittedBodies x).1 hu).2.1 hm
  | aspects x => simp at hu

theorem Unwinds.mem_dependentsOf (h : v.Unwinds cause served lost v') :
  m ∈ v'.dependentsOf y ↔ y ∉ served ∧ m ∈ v.dependentsOf y
  := by
  simp only [dependentsOf, Std.TreeMap.getD_eq_getD_getElem?, h.dependents]
  by_cases hy : y ∈ served
  · simp [hy]
  · simp [hy]

/-- What was taken back is not favourable any more, so it is not taken back again. -/
theorem Unwinds.trans (h : v.Unwinds cause served lost v₁)
    (h' : v₁.Unwinds cause served' lost' v') :
  v.Unwinds cause (served ++ served') (lost ++ lost') v'
  where
    nodup := List.nodup_append'.2
      ⟨h.nodup, h'.nodup, fun m hm hm' => h.not_upholds hm (h'.upheld m hm')⟩
    upheld m hm := by
      obtain hm | hm := List.mem_append.1 hm
      · exact h.upheld m hm
      · exact h.upholds (h'.upheld m hm)
    mem_admitted x := by
      rw [h'.mem_admitted, h.mem_admitted, List.mem_append]
      tauto
    mem_admittedBodies x := by
      rw [h'.mem_admittedBodies, h.mem_admittedBodies, List.mem_append, List.mem_append]
      tauto
    roster := by
      rw [h'.roster, h.roster, Roster.restrict_restrict]
      congr 1
      funext x
      rw [← Bool.decide_and, decide_eq_decide, List.mem_append]
      tauto
    bodyCauses x := by
      rw [h'.bodyCauses, h.bodyCauses]
      by_cases hx : .body x ∈ lost' <;> simp [hx]
    dependents y := by
      rw [h'.dependents, h.dependents]
      by_cases hy : y ∈ served' <;> simp [hy]
    reporting := h'.reporting.trans h.reporting

theorem unwinds_forget (cause : Site) (v : Verdicts) (id : EntityId) :
  v.Unwinds cause [id] [] (v.forget id)
  where
    nodup := List.nodup_nil
    upheld := by simp
    mem_admitted := by simp [forget]
    mem_admittedBodies := by simp [forget]
    roster := by simp [forget]
    bodyCauses := by simp [forget]
    dependents y := by
      simp only [forget, List.mem_singleton]
      by_cases hy : y = id
      · simp [hy]
      · rw [if_neg hy, Std.TreeMap.getElem?_erase, if_neg]
        rw [Std.LawfulEqCmp.compare_eq_iff_eq]
        exact Ne.symm hy
    reporting := rfl

theorem unwinds_expel (cause : Site) (h : id ∈ v.admitted) :
  v.Unwinds cause [] [.declaration id] (v.expel id cause)
  where
    nodup := List.nodup_singleton _
    upheld := by simpa using h
    mem_admitted x := by
      simp only [expel, mem_erase_iff, List.mem_singleton, Matter.declaration.injEq]
      exact and_comm
    mem_admittedBodies x := by
      simp only [expel, mem_erase_iff, List.mem_singleton, Matter.declaration.injEq,
        reduceCtorEq, not_false_eq_true, true_and]
      exact and_comm
    roster := by
      have he (x : EntityId) : (x != id) = decide (Matter.declaration x ∉ [.declaration id]) := by
        rw [Bool.eq_iff_iff]
        simp
      simp only [expel, Roster.retire, Roster.restrict, he]
    bodyCauses := by simp [expel]
    dependents := by simp [expel]
    reporting := rfl

theorem unwinds_expelBody (cause : Site) (h : id ∈ v.admittedBodies) :
  v.Unwinds cause [] [.body id] (v.expelBody id cause)
  where
    nodup := List.nodup_singleton _
    upheld := by simpa using h
    mem_admitted := by simp [expelBody]
    mem_admittedBodies x := by
      simp only [expelBody, mem_erase_iff, List.mem_singleton, Matter.body.injEq, reduceCtorEq,
        not_false_eq_true, and_true]
      exact and_comm
    roster := by simp [expelBody]
    bodyCauses x := by
      simp only [expelBody, List.mem_singleton, Matter.body.injEq]
      by_cases hx : x = id
      · simp [hx]
      · rw [if_neg hx, getElem?_insert_of_ne hx]
    dependents := by simp [expelBody]
    reporting := rfl

end

end Verdicts

/-! ### Losses -/

/-- A verdict that is taken back, along with the entity whose exclusion takes it along. -/
structure Loss where
  matter : Matter
  reason : EntityId

/-- The report about a verdict that is taken back. -/
def Loss.report (l : Loss) (p : Program) (cause : Site) : Report :=
  ⟨.entity l.matter.entity (((p.get? l.matter.entity).map (·.location)).getD {}),
    .violation (.dependsOnExcluded l.reason), some cause⟩

/-- The matters of losses. -/
def matters (lost : List Loss) : List Matter := lost.map (·.matter)

theorem matters_append (lost lost' : List Loss) :
  matters (lost ++ lost') = matters lost ++ matters lost'
  := List.map_append

/-- The entity that a matter is the declaration of. -/
def Matter.declared : Matter → Option EntityId
  | .declaration id => some id
  | _ => none

theorem Matter.mem_declared {m : Matter} {x : EntityId} :
  x ∈ m.declared ↔ m = .declaration x
  := by cases m <;> simp [declared]

namespace Run

/-- What the losses `lost` change, and what they report, where what consulted the entities
`served` is forgotten. -/
structure Unwinds (p : Program) (cause : Site) (r : Run) (served : List EntityId)
    (lost : List Loss) (r' : Run) : Prop where
  verdicts : r.verdicts.Unwinds cause served (matters lost) r'.verdicts
  reports : r'.reports.toList = r.reports.toList
    ++ (lost.filter fun l => r.verdicts.reporting.contains l.matter).map (·.report p cause)

section

variable {p : Program} {cause : Site} {r r₁ r' : Run} {excluded : EntityId} {m : Matter}
  {served served' : List EntityId} {lost lost' : List Loss}

theorem unwinds_refl (p : Program) (cause : Site) (r : Run) :
  r.Unwinds p cause [] [] r
  := ⟨Verdicts.unwinds_refl cause r.verdicts, by simp⟩

theorem Unwinds.trans (h : r.Unwinds p cause served lost r₁)
    (h' : r₁.Unwinds p cause served' lost' r') :
  r.Unwinds p cause (served ++ served') (lost ++ lost') r'
  where
    verdicts := by
      rw [matters_append]
      exact h.verdicts.trans h'.verdicts
    reports := by
      rw [h'.reports, h.reports, h.verdicts.reporting]
      simp

theorem reports_reportDependence (r : Run) (p : Program) (m : Matter) (excluded : EntityId)
    (cause : Site) :
  (r.reportDependence p m excluded cause).reports.toList = r.reports.toList
    ++ ([⟨m, excluded⟩].filter fun l : Loss => r.verdicts.reporting.contains l.matter).map
      (·.report p cause)
  := by
  unfold reportDependence
  by_cases h : r.verdicts.reporting.contains m = true
  · simp [h, Loss.report]
  · simp [h]

/-- A favourable verdict is taken back. -/
theorem unwinds_withdraw (p : Program) (cause : Site) (excluded : EntityId)
    (h : r.verdicts.upholds m) :
  r.Unwinds p cause [] [⟨m, excluded⟩] (r.withdraw p excluded cause m).1
  := by
  have hr : (r.withdraw p excluded cause m).1
      = (r.overturn cause m).reportDependence p m excluded cause := by
    simp [withdraw, h]
  have hv : r.verdicts.Unwinds cause [] [m] (r.verdicts.overturn cause m) := by
    cases m with
    | declaration id => exact Verdicts.unwinds_expel cause (Verdicts.upholds_declaration.1 h)
    | body id => exact Verdicts.unwinds_expelBody cause (Verdicts.upholds_body.1 h)
    | aspects id => simp at h
  constructor
  · rw [hr, verdicts_reportDependence, verdicts_overturn]
    exact hv
  · have he : (r.overturn cause m).reports = r.reports := by cases m <;> rfl
    rw [hr, reports_reportDependence, verdicts_overturn, hv.reporting, he]

/-- The verdicts on several matters are taken back as far as they are favourable. -/
theorem unwinds_withdrawAll (r : Run) (p : Program) (excluded : EntityId) (cause : Site)
    (ms : List Matter) :
  ∃ lost, r.Unwinds p cause [] lost (r.withdrawAll p excluded cause ms).1
    ∧ (∀ l ∈ lost, l.matter ∈ ms ∧ l.reason = excluded)
    ∧ (r.withdrawAll p excluded cause ms).2 = (matters lost).filterMap Matter.declared
  := by
  induction ms generalizing r with
  | nil => exact ⟨[], unwinds_refl p cause r, by simp, rfl⟩
  | cons m ms ih =>
    obtain ⟨lost, hu, hl, hd⟩ := ih (r.withdraw p excluded cause m).1
    have hl' (l : Loss) (h : l ∈ lost) : l.matter ∈ m :: ms ∧ l.reason = excluded :=
      ⟨List.mem_cons_of_mem m (hl l h).1, (hl l h).2⟩
    have hstep : (r.withdrawAll p excluded cause (m :: ms)).1
        = ((r.withdraw p excluded cause m).1.withdrawAll p excluded cause ms).1 := by
      cases m <;> rfl
    rw [hstep]
    by_cases h : r.verdicts.upholds m
    · refine ⟨⟨m, excluded⟩ :: lost, (unwinds_withdraw p cause excluded h).trans hu, ?_, ?_⟩
      · intro l hl
        obtain rfl | hl := List.mem_cons.1 hl
        · exact ⟨List.mem_cons_self, rfl⟩
        · exact hl' l hl
      · have hc : (r.withdraw p excluded cause m).2 = true := by simp [withdraw, h]
        have hm : matters (⟨m, excluded⟩ :: lost) = m :: matters lost := rfl
        rw [hm, List.filterMap_cons]
        cases m <;> simp [withdrawAll, hc, hd, Matter.declared]
    · have hr : r.withdraw p excluded cause m = (r, false) := by simp [withdraw, h]
      rw [hr] at hu hd ⊢
      refine ⟨lost, hu, hl', ?_⟩
      cases m <;> simp [withdrawAll, hr, hd]

/-- The run after what consulted an excluded entity is taken back. -/
def forsake (p : Program) (cause : Site) (r : Run) (id : EntityId) : Run :=
  ((r.rule fun v => v.forget id).withdrawAll p id cause (r.verdicts.dependentsOf id).toList).1

/-- Each declaration is taken back once. -/
theorem Unwinds.nodup_declared (h : r.Unwinds p cause served lost r') :
  ((matters lost).filterMap Matter.declared).Nodup
  := by
  refine h.verdicts.nodup.filterMap fun m m' x hx hx' => ?_
  rw [Matter.mem_declared.1 hx, Matter.mem_declared.1 hx']

/-- What is taken back for one excluded entity: the verdicts on what consulted it, each for that
entity, among them the declarations of the entities that are to be served next. -/
theorem unwinds_round (r : Run) (p : Program) (cause : Site) (current : EntityId) :
  ∃ lost, r.Unwinds p cause [current] lost (forsake p cause r current)
    ∧ (∀ l ∈ lost, l.reason = current ∧ l.matter ∈ r.verdicts.dependentsOf current)
    ∧ ((r.rule fun v => v.forget current).withdrawAll p current cause
        (r.verdicts.dependentsOf current).toList).2 = (matters lost).filterMap Matter.declared
  := by
  obtain ⟨lost, hu, hl, hd⟩ :=
    (r.rule fun v => v.forget current).unwinds_withdrawAll p current cause
      (r.verdicts.dependentsOf current).toList
  have hforget : r.Unwinds p cause [current] [] (r.rule fun v => v.forget current) :=
    ⟨Verdicts.unwinds_forget cause r.verdicts current, by simp [rule]⟩
  refine ⟨lost, hforget.trans hu, fun l hl' => ?_, hd⟩
  obtain ⟨hm, he⟩ := hl l hl'
  exact ⟨he, Std.TreeSet.mem_toList.1 hm⟩

theorem mem_declared_matters {x : EntityId} :
  x ∈ (matters lost).filterMap Matter.declared ↔ .declaration x ∈ matters lost
  := by
  rw [List.mem_filterMap]
  constructor
  · rintro ⟨m, hm, hx⟩
    rwa [← Matter.mem_declared.1 hx]
  · exact fun hm => ⟨_, hm, rfl⟩

/-- The entities that wait after a round are pairwise distinct, and none of them is admitted:
those that waited before were not, and those that are hit no longer are. -/
theorem Unwinds.waiting (h : r.Unwinds p cause served lost r₁) {rest : List EntityId}
    (hn : rest.Nodup) (hw : ∀ x ∈ rest, x ∉ r.verdicts.admitted) :
  (((matters lost).filterMap Matter.declared).reverse ++ rest).Nodup
    ∧ ∀ x ∈ ((matters lost).filterMap Matter.declared).reverse ++ rest,
        x ∉ r₁.verdicts.admitted
  := by
  constructor
  · refine List.nodup_append'.2 ⟨List.nodup_reverse.2 h.nodup_declared, hn, fun x hx hx' => ?_⟩
    have hd := mem_declared_matters.1 (List.mem_reverse.1 hx)
    exact hw x hx' (Verdicts.upholds_declaration.1 (h.verdicts.upheld _ hd))
  · intro x hx hx'
    obtain ⟨ha, hnot⟩ := (h.verdicts.mem_admitted x).1 hx'
    obtain hx | hx := List.mem_append.1 hx
    · exact hnot (mem_declared_matters.1 (List.mem_reverse.1 hx))
    · exact hw x hx ha

/-- A cascade serves the entities it starts from and those whose declarations it takes back,
each of them once.  None of the entities that wait is admitted, so none is hit again. -/
theorem unwinds_cascade (r : Run) (p : Program) (cause : Site) (work : List EntityId)
    (hn : work.Nodup) (hw : ∀ x ∈ work, x ∉ r.verdicts.admitted) :
  ∃ served lost, r.Unwinds p cause served lost (r.cascade p cause work)
    ∧ r.cascade p cause work = served.foldl (forsake p cause) r
    ∧ served.Nodup
    ∧ (∀ x, x ∈ served ↔ x ∈ work ∨ .declaration x ∈ matters lost)
    ∧ (∀ l ∈ lost, l.reason ∈ served ∧ l.matter ∈ r.verdicts.dependentsOf l.reason)
  := by
  fun_induction cascade p cause r work with
  | case1 r =>
    exact ⟨[], [], unwinds_refl p cause r, rfl, List.nodup_nil, by simp [matters], by simp⟩
  | case2 r current rest dependents step ih =>
    obtain ⟨lost, hu, hl, hd⟩ := r.unwinds_round p cause current
    obtain ⟨hm, hrest⟩ := List.nodup_cons.1 hn
    obtain ⟨hcurrent, hw⟩ := List.forall_mem_cons.1 hw
    have hwaiting := hu.waiting hrest hw
    have he : step.2 = (matters lost).filterMap Matter.declared := hd
    rw [← he] at hwaiting
    obtain ⟨served, lost', hu', hfold, hserved, hmem, hreason⟩ := ih hwaiting.1 hwaiting.2
    have hmem (x : EntityId) : x ∈ served
        ↔ (.declaration x ∈ matters lost ∨ x ∈ rest) ∨ .declaration x ∈ matters lost' := by
      rw [hmem, List.mem_append, List.mem_reverse, he, mem_declared_matters]
    -- What the cascade starts from is not admitted, so it is not taken back.
    have hout : current ∉ served := by
      rw [hmem]
      rintro ((hx | hx) | hx)
      · exact hcurrent (Verdicts.upholds_declaration.1 (hu.verdicts.upheld _ hx))
      · exact hm hx
      · have hx := hu.verdicts.upholds (hu'.verdicts.upheld _ hx)
        exact hcurrent (Verdicts.upholds_declaration.1 hx)
    refine ⟨current :: served, lost ++ lost', hu.trans hu', hfold,
      List.nodup_cons.2 ⟨hout, hserved⟩, fun x => ?_, fun l hl' => ?_⟩
    · rw [List.mem_cons, hmem, List.mem_cons, matters_append, List.mem_append]
      tauto
    · obtain hl' | hl' := List.mem_append.1 hl'
      · obtain ⟨hreason, hdep⟩ := hl l hl'
        rw [hreason]
        exact ⟨List.mem_cons_self, hdep⟩
      · obtain ⟨hs, hdep⟩ := hreason l hl'
        exact ⟨List.mem_cons_of_mem _ hs, (hu.verdicts.mem_dependentsOf.1 hdep).2⟩

/-! ### What a cascade changes -/

theorem Unwinds.loses_iff (h : r.Unwinds p cause served lost r') {x : EntityId} :
  r.Loses r' x ↔ .declaration x ∈ matters lost
  := by
  constructor
  · rintro ⟨ha, hn⟩
    by_contra hd
    exact hn ((h.verdicts.mem_admitted x).2 ⟨ha, hd⟩)
  · intro hd
    refine ⟨Verdicts.upholds_declaration.1 (h.verdicts.upheld _ hd), fun ha => ?_⟩
    exact ((h.verdicts.mem_admitted x).1 ha).2 hd

/-- A cascade takes back what it hits. -/
theorem Cascades.loses_iff {work : List EntityId} (h : r.Cascades work cause r')
    {x : EntityId} :
  r.Loses r' x ↔ r.verdicts.Hit work x
  := by
  constructor
  · exact h.hit x
  · -- Each step from what is excluded leads to what is taken back.
    intro hx
    induction hx with
    | first ho hd ha =>
      exact ⟨ha, fun ha' => h.lost _ _ (Or.inl ho) hd (Verdicts.upholds_declaration.2 ha')⟩
    | next _ hd ha ih =>
      exact ⟨ha, fun ha' => h.lost _ _ (Or.inr ih) hd (Verdicts.upholds_declaration.2 ha')⟩

/-- A cascade leaves a body alone if neither its entity is hit nor the body rests on what is. -/
theorem Cascades.mem_admittedBodies_iff {work : List EntityId} (h : r.Cascades work cause r')
    (hu : r.Unwinds p cause served lost r')
    (hreason : ∀ l ∈ lost, (l.reason ∈ work ∨ r.verdicts.Hit work l.reason)
      ∧ l.matter ∈ r.verdicts.dependentsOf l.reason) {x : EntityId} :
  x ∈ r'.verdicts.admittedBodies
    ↔ x ∈ r.verdicts.admittedBodies ∧ ¬ r.verdicts.Hit work x
      ∧ ¬ ∃ y, (y ∈ work ∨ r.verdicts.Hit work y) ∧ .body x ∈ r.verdicts.dependentsOf y
  := by
  have hb := hu.verdicts.mem_admittedBodies x
  rw [← hu.loses_iff, h.loses_iff] at hb
  constructor
  · intro hx
    obtain ⟨hadm, -, hn⟩ := hb.1 hx
    refine ⟨hadm, hn, ?_⟩
    rintro ⟨y, hy, hd⟩
    rw [← h.loses_iff] at hy
    exact h.lost y _ hy hd (Verdicts.upholds_body.2 hx)
  · rintro ⟨hadm, hn, hrests⟩
    refine hb.2 ⟨hadm, fun hx => ?_, hn⟩
    obtain ⟨l, hl, he⟩ := List.mem_map.1 hx
    obtain ⟨hy, hd⟩ := hreason l hl
    exact hrests ⟨l.reason, hy, he ▸ hd⟩

end

/-- What the exclusion of the entity `id` takes along: the declarations of the entities that
are hit from it, and the bodies of these and those that rest on it or on an entity that is
hit. -/
structure Extent (p : Program) (cause : Site) (r : Run) (id : EntityId) (r' : Run) : Prop where
  /-- The excluded entity and the entities that are hit are served, each of them once. -/
  served : ∃ served : List EntityId, served.Nodup
    ∧ (∀ x, x ∈ served ↔ x = id ∨ r.verdicts.Hit [id] x)
    ∧ r' = served.foldl (forsake p cause) r
  hit_admitted : ∀ x, r.verdicts.Hit [id] x → x ∈ r.verdicts.admitted
  mem_admitted : ∀ x, x ∈ r'.verdicts.admitted
    ↔ x ∈ r.verdicts.admitted ∧ ¬ r.verdicts.Hit [id] x
  mem_admittedBodies : ∀ x, x ∈ r'.verdicts.admittedBodies
    ↔ x ∈ r.verdicts.admittedBodies ∧ ¬ r.verdicts.Hit [id] x
      ∧ ¬ ∃ y, (y = id ∨ r.verdicts.Hit [id] y) ∧ .body x ∈ r.verdicts.dependentsOf y
  /-- What is hit leaves the order of publication, and the others keep their places. -/
  roster : ∃ keep : EntityId → Bool, (∀ x, keep x = true ↔ ¬ r.verdicts.Hit [id] x)
    ∧ r'.verdicts.roster = r.verdicts.roster.restrict keep
  line_of_hit : ∀ x, r.verdicts.Hit [id] x → x ∉ r'.verdicts.roster.line
  causes_of_hit : ∀ x, r.verdicts.Hit [id] x → r'.verdicts.causes[x]? = some cause
  causes_of_not_hit : ∀ x, ¬ r.verdicts.Hit [id] x →
    r'.verdicts.causes[x]? = r.verdicts.causes[x]?
  /-- A body that is taken back without its declaration is excluded for the cause. -/
  bodyCauses_of_lost : ∀ x ∈ r.verdicts.admittedBodies, x ∉ r'.verdicts.admittedBodies →
    ¬ r.verdicts.Hit [id] x → r'.verdicts.bodyCauses[x]? = some cause
  bodyCauses_of_hit : ∀ x, r.verdicts.Hit [id] x →
    r'.verdicts.bodyCauses[x]? = r.verdicts.bodyCauses[x]?
      ∨ r'.verdicts.bodyCauses[x]? = some cause
  bodyCauses_of_kept : ∀ x, (x ∈ r.verdicts.admittedBodies → x ∈ r'.verdicts.admittedBodies) →
    r'.verdicts.bodyCauses[x]? = r.verdicts.bodyCauses[x]?
  dependents_of_served : ∀ y, y = id ∨ r.verdicts.Hit [id] y → r'.verdicts.dependents[y]? = none
  dependents_of_not_served : ∀ y, ¬ (y = id ∨ r.verdicts.Hit [id] y) →
    r'.verdicts.dependents[y]? = r.verdicts.dependents[y]?
  /-- Other verdicts are as before. -/
  frame : r'.verdicts = { r.verdicts with
    admitted := r'.verdicts.admitted
    admittedBodies := r'.verdicts.admittedBodies
    roster := r'.verdicts.roster
    causes := r'.verdicts.causes
    bodyCauses := r'.verdicts.bodyCauses
    dependents := r'.verdicts.dependents }
  /-- Each declaration that is hit is noted once. -/
  journal : ∃ ids : List EntityId, r'.journal = ids.map (.excluded · cause) ++ r.journal
    ∧ ids.Nodup ∧ ∀ x, x ∈ ids ↔ r.verdicts.Hit [id] x
  cause_eq : r'.cause = r.cause
  /-- Each declaration that is hit and each body that rests on what is excluded is lost once,
  for an entity that it rests on, and is reported if its findings are. -/
  reports : ∃ lost : List Loss, (matters lost).Nodup
    ∧ (∀ x, .declaration x ∈ matters lost ↔ r.verdicts.Hit [id] x)
    ∧ (∀ x, .body x ∈ matters lost → x ∈ r.verdicts.admittedBodies)
    ∧ (∀ x ∈ r.verdicts.admittedBodies, x ∉ r'.verdicts.admittedBodies →
        .body x ∈ matters lost ∨ r.verdicts.Hit [id] x)
    ∧ (∀ l ∈ lost, (l.reason = id ∨ r.verdicts.Hit [id] l.reason)
        ∧ l.matter ∈ r.verdicts.dependentsOf l.reason)
    ∧ r'.reports.toList = r.reports.toList
      ++ (lost.filter fun l => r.verdicts.reporting.contains l.matter).map (·.report p cause)

/-- What a cascade takes back is what it hits, whatever depends on what. -/
theorem cascade_exact {r : Run} {id : EntityId} (h : id ∉ r.verdicts.admitted) (p : Program)
    (cause : Site) :
  r.Extent p cause id (r.cascade p cause [id])
  := by
  obtain ⟨served, lost, hu, hfold, hnodup, hserved, hreason⟩ :=
    r.unwinds_cascade p cause [id] (List.nodup_singleton id) (by simpa using h)
  have hc := r.cascades_cascade p cause [id]
  have hit (x : EntityId) : .declaration x ∈ matters lost ↔ r.verdicts.Hit [id] x :=
    hu.loses_iff.symm.trans hc.loses_iff
  have mem_served (x : EntityId) : x ∈ served ↔ x = id ∨ r.verdicts.Hit [id] x := by
    rw [hserved, hit, List.mem_singleton]
  have body_lost (x : EntityId) (hx : .body x ∈ matters lost) :
      x ∈ r.verdicts.admittedBodies := Verdicts.upholds_body.1 (hu.verdicts.upheld _ hx)
  have reason (l : Loss) (hl : l ∈ lost) : (l.reason = id ∨ r.verdicts.Hit [id] l.reason)
      ∧ l.matter ∈ r.verdicts.dependentsOf l.reason :=
    (hreason l hl).imp_left (mem_served l.reason).1
  constructor
  case served => exact ⟨served, hnodup, mem_served, hfold⟩
  case hit_admitted => exact fun x hx => (hc.loses_iff.2 hx).1
  case mem_admitted =>
    intro x
    rw [hu.verdicts.mem_admitted, hit]
  case mem_admittedBodies =>
    intro x
    have hb := hc.mem_admittedBodies_iff hu (x := x) (by simpa using reason)
    simpa using hb
  case roster => exact ⟨_, fun x => by rw [decide_eq_true_iff, hit], hu.verdicts.roster⟩
  case line_of_hit =>
    intro x hx
    rw [hu.verdicts.roster, Roster.mem_line_restrict, decide_eq_true_iff, hit]
    exact fun hl => hl.2 hx
  case causes_of_hit => exact fun x hx => hc.causes_of_lost x (hc.loses_iff.2 hx)
  case causes_of_not_hit =>
    exact fun x hx => hc.causes_of_kept x fun hl => hx (hc.loses_iff.1 hl)
  case bodyCauses_of_lost =>
    intro x hb hn hh
    rw [hu.verdicts.bodyCauses, if_pos]
    by_contra hx
    exact hn ((hu.verdicts.mem_admittedBodies x).2 ⟨hb, hx, fun hd => hh ((hit x).1 hd)⟩)
  case bodyCauses_of_hit =>
    intro x _
    rw [hu.verdicts.bodyCauses]
    split
    · exact Or.inr rfl
    · exact Or.inl rfl
  case bodyCauses_of_kept =>
    intro x hx
    rw [hu.verdicts.bodyCauses, if_neg]
    exact fun hl => ((hu.verdicts.mem_admittedBodies x).1 (hx (body_lost x hl))).2.1 hl
  case dependents_of_served =>
    intro y hy
    rw [hu.verdicts.dependents, if_pos ((mem_served y).2 hy)]
  case dependents_of_not_served =>
    intro y hy
    rw [hu.verdicts.dependents, if_neg fun hs => hy ((mem_served y).1 hs)]
  case frame => exact hc.frame
  case journal =>
    obtain ⟨ids, hj, hd, hn⟩ := hc.notes
    exact ⟨ids, hj, hd, fun x => (hn x).trans hc.loses_iff⟩
  case cause_eq => exact hc.cause_eq
  case reports =>
    refine ⟨lost, hu.verdicts.nodup, hit, body_lost, fun x hb hn => ?_, reason, hu.reports⟩
    by_contra hx
    rw [not_or, ← hit] at hx
    exact hn ((hu.verdicts.mem_admittedBodies x).2 ⟨hb, hx⟩)

/-- Declarations that rest on each other and on the excluded entity `X`, over several ways, and
bodies of which one rests on what is hit while its entity does not. -/
def cycleSample : Run where
  verdicts :=
    { admitted := .ofList ["A", "B", "C", "D"]
      admittedBodies := .ofList ["A", "C", "D"]
      dependents := .ofList [("X", ({.declaration "A"} : Matters)),
        ("A", {.declaration "B", .declaration "C", .body "D"}),
        ("B", {.declaration "C", .body "A"}),
        ("C", {.declaration "A", .body "C", .body "D"})]
      reporting := {.declaration "C", .body "D"}
      roster := ⟨["A", "B", "D", "C"], []⟩ }

theorem cascade_exact_cycleSample :
  "X" ∉ cycleSample.verdicts.admitted
    ∧ cycleSample.Extent ⟨[], ∅, 0, Program.isKeyed_empty⟩ (.entity "X" {}) "X"
      (cycleSample.cascade ⟨[], ∅, 0, Program.isKeyed_empty⟩ (.entity "X" {}) ["X"])
  := ⟨by decide +kernel, cascade_exact (by decide +kernel) _ _⟩

example :
  let r := cycleSample.cascade ⟨[], ∅, 0, Program.isKeyed_empty⟩ (.entity "X" {}) ["X"]
  r.verdicts.roster.entries = ["D"] ∧ r.verdicts.admittedBodies.isEmpty ∧ r.reports.size = 2
  := by decide +kernel

end Run

end Conformance
