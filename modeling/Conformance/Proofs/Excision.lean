import Conformance.Proofs.Roster
import Conformance.Proofs.Stage
import Conformance.Proofs.Withdrawal

/-!
# What an exclusion writes

`Strikes` says which verdicts an exclusion takes back.  `Run.Excises` says in addition what
is written about them: which causes are recorded, what leaves the order of declarations,
and that no report is lost.
-/

namespace Conformance

namespace Run

/-- What holds of a run and stays when verdicts are taken back holds after a cascade. -/
theorem cascade_induction {P : Run → Prop} {p : Program} {cause : Site}
    (hf : ∀ r id, P r → P (r.rule fun v => v.forget id))
    (hw : ∀ r excluded m, P r → P (r.withdraw p excluded cause m).1) {r : Run}
    {work : List EntityId} (h : P r) :
  P (r.cascade p cause work)
  := by
  have all (r : Run) (excluded : EntityId) (ms : List Matter) (h : P r) :
      P (r.withdrawAll p excluded cause ms).1 := by
    induction ms generalizing r with
    | nil => exact h
    | cons m ms ih =>
      have := ih _ (hw r excluded m h)
      cases m <;> exact this
  fun_induction cascade p cause r work with
  | case1 r => exact h
  | case2 r current rest dependents step ih => exact ih (all _ _ _ (hf _ _ h))

/-- What taking back verdicts for a cause writes. -/
structure Writes (cause : Site) (r r' : Run) : Prop where
  upholds : ∀ m, r'.verdicts.upholds m → r.verdicts.upholds m
  /-- The body of an entity is excluded for the cause, if it was admitted and the entity
  stays. -/
  bodies : ∀ x ∈ r.verdicts.admittedBodies, x ∈ r'.verdicts.admittedBodies
    ∨ x ∉ r'.verdicts.admitted ∨ r'.verdicts.bodyCauses[x]? = some cause
  bodyCauses : ∀ x, r'.verdicts.bodyCauses[x]? = r.verdicts.bodyCauses[x]?
    ∨ x ∈ r.verdicts.admittedBodies ∧ x ∉ r'.verdicts.admittedBodies
      ∧ r'.verdicts.bodyCauses[x]? = some cause
  /-- What is struck out leaves the order of declarations. -/
  roster : ∃ keep : EntityId → Bool, r'.verdicts.roster = r.verdicts.roster.restrict keep
    ∧ ∀ x ∈ r.verdicts.admitted, keep x = true ↔ x ∈ r'.verdicts.admitted
  reports : r.reports.toList ⊆ r'.reports.toList

theorem Writes.refl (cause : Site) (r : Run) :
  r.Writes cause r
  where
    upholds _ := id
    bodies _ := Or.inl
    bodyCauses _ := Or.inl rfl
    roster := ⟨fun _ => true, by simp, by simp⟩
    reports := List.Subset.refl _

theorem Writes.trans {cause : Site} {r r₁ r' : Run} (h : r.Writes cause r₁)
    (h' : r₁.Writes cause r') :
  r.Writes cause r'
  := by
  have kept (x : EntityId) (hx : r₁.verdicts.bodyCauses[x]? = some cause) :
      r'.verdicts.bodyCauses[x]? = some cause := by
    obtain he | ⟨-, -, he⟩ := h'.bodyCauses x
    · rw [he, hx]
    · exact he
  have admittedBodies (x : EntityId) (hx : x ∈ r'.verdicts.admittedBodies) :
      x ∈ r₁.verdicts.admittedBodies :=
    Verdicts.upholds_body.1 (h'.upholds _ (Verdicts.upholds_body.2 hx))
  constructor
  case upholds => exact fun m hm => h.upholds m (h'.upholds m hm)
  case bodies =>
    intro x hx
    obtain hx₁ | hx₁ | hx₁ := h.bodies x hx
    · exact h'.bodies x hx₁
    · right; left
      intro hx'
      apply hx₁
      exact Verdicts.upholds_declaration.1 (h'.upholds _ (Verdicts.upholds_declaration.2 hx'))
    · exact Or.inr (Or.inr (kept x hx₁))
  case bodyCauses =>
    intro x
    obtain he | ⟨hx, hx', he⟩ := h.bodyCauses x
    · obtain he' | ⟨hx, hx', he'⟩ := h'.bodyCauses x
      · exact Or.inl (he'.trans he)
      · right
        exact ⟨Verdicts.upholds_body.1 (h.upholds _ (Verdicts.upholds_body.2 hx)), hx', he'⟩
    · exact Or.inr ⟨hx, fun hb => hx' (admittedBodies x hb), kept x he⟩
  case roster =>
    obtain ⟨keep, hk, hx⟩ := h.roster
    obtain ⟨keep', hk', hx'⟩ := h'.roster
    use fun x => keep' x && keep x
    constructor
    · rw [hk', hk, Roster.restrict_restrict]
    · intro x ha
      have hle (hm : x ∈ r'.verdicts.admitted) : x ∈ r₁.verdicts.admitted :=
        Verdicts.upholds_declaration.1 (h'.upholds _ (Verdicts.upholds_declaration.2 hm))
      rw [Bool.and_eq_true, hx x ha]
      constructor
      · exact fun ⟨hm', hm⟩ => (hx' x hm).1 hm'
      · exact fun hm => ⟨(hx' x (hle hm)).2 hm, hle hm⟩
  case reports => exact List.Subset.trans h.reports h'.reports

/-- Striking out a declaration. -/
theorem writes_expel (r : Run) (id : EntityId) (cause : Site) :
  r.Writes cause (r.overturn cause (.declaration id))
  where
    upholds m hm := by
      cases m with
      | declaration x =>
        rw [Verdicts.upholds_declaration] at hm ⊢
        exact (mem_erase_iff.1 hm).2
      | body x =>
        rw [Verdicts.upholds_body] at hm ⊢
        exact (mem_erase_iff.1 hm).2
      | aspects x => exact hm
    bodies x hx := by
      by_cases he : x = id
      · right; left
        exact fun hx' => (mem_erase_iff.1 hx').1 he
      · exact Or.inl (mem_erase_iff.2 ⟨he, hx⟩)
    bodyCauses _ := Or.inl rfl
    roster := by
      refine ⟨(· != id), rfl, fun x hx => ?_⟩
      change (x != id) = true ↔ x ∈ r.verdicts.admitted.erase id
      rw [mem_erase_iff, bne_iff_ne]
      exact ⟨fun hne => ⟨hne, hx⟩, fun h => h.1⟩
    reports := List.Subset.refl _

/-- Striking out a body. -/
theorem writes_expelBody {r : Run} {id : EntityId} (cause : Site)
    (h : id ∈ r.verdicts.admittedBodies) :
  r.Writes cause (r.overturn cause (.body id))
  where
    upholds m hm := by
      cases m with
      | body x =>
        rw [Verdicts.upholds_body] at hm ⊢
        exact (mem_erase_iff.1 hm).2
      | _ => exact hm
    bodies x hx := by
      by_cases he : x = id
      · subst he
        exact Or.inr (Or.inr Std.TreeMap.getElem?_insert_self)
      · exact Or.inl (mem_erase_iff.2 ⟨he, hx⟩)
    bodyCauses x := by
      by_cases he : x = id
      · subst he
        right
        exact ⟨h, fun hx => (mem_erase_iff.1 hx).1 rfl, Std.TreeMap.getElem?_insert_self⟩
      · exact Or.inl (getElem?_insert_of_ne he)
    roster :=
      ⟨fun _ => true, by simp [verdicts_overturn, Verdicts.overturn, Verdicts.expelBody]⟩
    reports := List.Subset.refl _

theorem writes_reportDependence (r : Run) (p : Program) (m : Matter) (excluded : EntityId)
    (cause : Site) :
  r.Writes cause (r.reportDependence p m excluded cause)
  := by
  have hv := r.verdicts_reportDependence p m excluded cause
  constructor <;> try rw [hv]
  · exact fun _ => id
  · exact fun _ => Or.inl
  · exact fun _ => Or.inl rfl
  · exact ⟨fun _ => true, by simp⟩
  · unfold reportDependence
    split
    · simp
    · exact List.Subset.refl _

theorem writes_withdraw (r : Run) (p : Program) (excluded : EntityId) (cause : Site)
    (m : Matter) :
  r.Writes cause (r.withdraw p excluded cause m).1
  := by
  unfold withdraw
  split
  · next h =>
    refine Writes.trans ?_ (writes_reportDependence _ p m excluded cause)
    cases m with
    | declaration id => exact r.writes_expel id cause
    | body id => exact writes_expelBody cause (Verdicts.upholds_body.1 h)
    | aspects id => cases h
  · exact .refl cause r

theorem writes_cascade (r : Run) (p : Program) (cause : Site) (work : List EntityId) :
  r.Writes cause (r.cascade p cause work)
  := by
  apply cascade_induction
  · intro r' id h
    apply h.trans
    constructor
    case upholds => exact fun m hm => by cases m <;> exact hm
    case bodies => exact fun _ => Or.inl
    case bodyCauses => exact fun _ => Or.inl rfl
    case roster => exact ⟨fun _ => true, by simp [rule, Verdicts.forget]⟩
    case reports => exact List.Subset.refl _
  · exact fun r' excluded m h => h.trans (r'.writes_withdraw p excluded cause m)
  · exact .refl cause r

/-! ### Whole exclusions -/

/-- What changes when an entity is excluded for a cause, along with everything that rests
on it. -/
structure Excises (r : Run) (id : EntityId) (cause : Site) (r' : Run) : Prop where
  strikes : r.Strikes id r'
  writes : r.Writes cause r'
  causes_of_lost : ∀ x, x = id ∨ r.Loses r' x → r'.verdicts.causes[x]? = some cause
  causes_of_kept : ∀ x, x ≠ id → ¬ r.Loses r' x →
    r'.verdicts.causes[x]? = r.verdicts.causes[x]?
  /-- What is excluded is noted, once for each entity. -/
  notes : ∃ ids : List EntityId, r'.journal = ids.map (.excluded · cause) ++ r.journal
    ∧ ids.Nodup ∧ ∀ x, x ∈ ids ↔ x = id ∨ r.Loses r' x

/-- Striking out an entity and cascading from it. -/
theorem excises_cascade {r r₁ : Run} {p : Program} {id : EntityId} {cause : Site}
    (hv : r₁.verdicts = r.verdicts.expel id cause)
    (hj : r₁.journal = .excluded id cause :: r.journal)
    (he : r₁.cause = r.cause) (hr : r.reports.toList ⊆ r₁.reports.toList) :
  r.Excises id cause (r₁.cascade p cause [id])
  := by
  have hc := r₁.cascades_cascade p cause [id]
  have hw := r₁.writes_cascade p cause [id]
  generalize r₁.cascade p cause [id] = r' at hc hw ⊢
  have admitted (x : EntityId) :
      x ∈ r₁.verdicts.admitted ↔ x ≠ id ∧ x ∈ r.verdicts.admitted := by
    rw [hv]
    exact mem_erase_iff
  constructor
  · exact hc.strikes [.excluded id cause] hj (by simp) he (by rw [hv]; rfl)
  · have hs : r.Writes cause r₁ := by
      obtain ⟨h₁, h₂, h₃, h₄, -⟩ := r.writes_expel id cause
      constructor <;> try rw [hv]
      · exact h₁
      · exact h₂
      · exact h₃
      · exact h₄
      · exact hr
    exact hs.trans hw
  · intro x hx
    by_cases hid : x = id
    · subst hid
      rw [hc.causes_of_kept x fun hl => ((admitted x).1 hl.1).1 rfl, hv]
      exact Std.TreeMap.getElem?_insert_self
    · obtain ⟨ha, hn⟩ := hx.resolve_left hid
      exact hc.causes_of_lost x ⟨(admitted x).2 ⟨hid, ha⟩, hn⟩
  · intro x hid hx
    rw [hc.causes_of_kept x fun hl => hx ⟨((admitted x).1 hl.1).2, hl.2⟩, hv]
    exact getElem?_insert_of_ne hid
  · obtain ⟨ids, hj', hd, hn⟩ := hc.notes
    refine ⟨ids ++ [id], by simp [hj', hj], ?_, fun x => ?_⟩
    · refine List.nodup_append.2 ⟨hd, by simp, fun x hx y hy he => ?_⟩
      rw [List.mem_singleton.1 hy] at he
      exact ((admitted x).1 ((hn x).1 hx).1).1 he
    · rw [List.mem_append, List.mem_singleton, hn]
      unfold Loses
      rw [admitted]
      tauto

theorem excises_exclude (r : Run) (p : Program) (e : Entity) :
  r.Excises e.name (r.cause.getD e.site) (r.exclude p e)
  := excises_cascade rfl rfl rfl (List.Subset.refl _)

/-- An access type that is taken back is excluded, unless it is excluded already. -/
theorem excises_takeBack (r : Run) (p : Program) (access type : EntityId) (cause : Site) :
  (r.takeBack p access type cause = r ∧ access ∉ r.verdicts.admitted)
    ∨ access ∈ r.verdicts.admitted
      ∧ r.Excises access cause (r.takeBack p access type cause)
  := by
  unfold takeBack withdraw
  split
  · next hu =>
    right
    refine ⟨Verdicts.upholds_declaration.1 hu, ?_⟩
    have hw := (r.overturn cause (.declaration access)).writes_reportDependence
      p (.declaration access) type cause
    apply excises_cascade
    · rw [verdicts_reportDependence, verdicts_overturn]
      rfl
    · unfold reportDependence
      split <;> rfl
    · unfold reportDependence
      split <;> rfl
    · exact hw.reports
  · next hu => exact Or.inl ⟨rfl, fun hx => hu (Verdicts.upholds_declaration.2 hx)⟩

end Run

end Conformance
