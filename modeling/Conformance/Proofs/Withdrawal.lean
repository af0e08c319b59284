import Conformance.Proofs.Verdicts

/-!
# What an exclusion takes along

`Withdraws` says what taking back the verdicts on a list of matters changes, and
`Cascades` what a whole cascade changes: the verdicts it takes back are those of entities
that are hit, that is, reached over dependents which are admitted, and it leaves no
verdict that rests on an entity it took back.
-/

namespace Conformance

namespace Verdicts

@[simp]
theorem upholds_declaration {v : Verdicts} {id : EntityId} :
  v.upholds (.declaration id) = true ↔ id ∈ v.admitted
  := Std.TreeSet.contains_iff_mem

@[simp]
theorem upholds_body {v : Verdicts} {id : EntityId} :
  v.upholds (.body id) = true ↔ id ∈ v.admittedBodies
  := Std.TreeSet.contains_iff_mem

@[simp]
theorem upholds_aspects {v : Verdicts} {id : EntityId} :
  v.upholds (.aspects id) = false
  := rfl

/-- The entities that are reached from the given ones over dependents which are
admitted. -/
inductive Hit (v : Verdicts) (origins : List EntityId) : EntityId → Prop where
  | first {c x : EntityId} (hc : c ∈ origins) (hd : .declaration x ∈ v.dependentsOf c)
      (hx : x ∈ v.admitted) : Hit v origins x
  | next {c x : EntityId} (hc : Hit v origins c) (hd : .declaration x ∈ v.dependentsOf c)
      (hx : x ∈ v.admitted) : Hit v origins x

/-- What is hit with fewer dependents and fewer admitted entities is hit, if one starts
from entities that are hit. -/
theorem Hit.mono {v v' : Verdicts} {origins origins' : List EntityId} {x : EntityId}
    (h : v'.Hit origins' x) (ho : ∀ c ∈ origins', c ∈ origins ∨ v.Hit origins c)
    (hd : ∀ c m, m ∈ v'.dependentsOf c → m ∈ v.dependentsOf c)
    (ha : ∀ c, c ∈ v'.admitted → c ∈ v.admitted) :
  v.Hit origins x
  := by
  induction h with
  | first hc hdc hx =>
    obtain hc | hc := ho _ hc
    · exact .first hc (hd _ _ hdc) (ha _ hx)
    · exact .next hc (hd _ _ hdc) (ha _ hx)
  | next _ hdc hx ih => exact .next ih (hd _ _ hdc) (ha _ hx)

end Verdicts

namespace Run

/-- Whether an entity that was admitted in `r` is admitted in `r'` no more. -/
def Loses (r r' : Run) (id : EntityId) : Prop :=
  id ∈ r.verdicts.admitted ∧ id ∉ r'.verdicts.admitted

/-- What is lost for a cause is noted, once for each entity. -/
def Notes (r : Run) (cause : Site) (r' : Run) : Prop :=
  ∃ ids : List EntityId, r'.journal = ids.map (.excluded · cause) ++ r.journal ∧ ids.Nodup
    ∧ ∀ x, x ∈ ids ↔ r.Loses r' x

theorem Notes.same {r r' : Run} (cause : Site) (hj : r'.journal = r.journal)
    (ha : ∀ x, x ∈ r.verdicts.admitted → x ∈ r'.verdicts.admitted) :
  r.Notes cause r'
  := by
  refine ⟨[], hj, List.nodup_nil, fun x => ?_⟩
  exact iff_of_false List.not_mem_nil fun h => h.2 (ha x h.1)

/-- What is lost is lost on the first part of the way or on the second, and on one of them
only. -/
theorem Notes.trans {cause : Site} {r r₁ r' : Run} (h : r.Notes cause r₁)
    (h' : r₁.Notes cause r') (ha : ∀ x, x ∈ r₁.verdicts.admitted → x ∈ r.verdicts.admitted)
    (ha' : ∀ x, x ∈ r'.verdicts.admitted → x ∈ r₁.verdicts.admitted) :
  r.Notes cause r'
  := by
  obtain ⟨ids, hj, hd, hn⟩ := h
  obtain ⟨ids', hj', hd', hn'⟩ := h'
  refine ⟨ids' ++ ids, by simp [hj', hj], ?_, fun x => ?_⟩
  · refine List.nodup_append.2 ⟨hd', hd, fun x hx y hy he => ?_⟩
    exact ((hn y).1 hy).2 (he ▸ ((hn' x).1 hx).1)
  · rw [List.mem_append, hn, hn']
    unfold Loses
    have := ha x
    have := ha' x
    tauto

/-! ### Single steps -/

/-- What changes when the verdicts on the matters `ms` are taken back. -/
structure Withdraws (r : Run) (ms : List Matter) (cause : Site) (r' : Run) : Prop where
  notes : r.Notes cause r'
  cause_eq : r'.cause = r.cause
  /-- Other verdicts are as before. -/
  frame : r'.verdicts = { r.verdicts with
    admitted := r'.verdicts.admitted
    admittedBodies := r'.verdicts.admittedBodies
    roster := r'.verdicts.roster
    causes := r'.verdicts.causes
    bodyCauses := r'.verdicts.bodyCauses }
  mem_admitted : ∀ x, x ∈ r'.verdicts.admitted
    ↔ x ∈ r.verdicts.admitted ∧ .declaration x ∉ ms
  mem_admittedBodies : ∀ x, x ∈ r'.verdicts.admittedBodies
    ↔ x ∈ r.verdicts.admittedBodies ∧ .body x ∉ ms
      ∧ ¬ (x ∈ r.verdicts.admitted ∧ .declaration x ∈ ms)
  causes_of_mem : ∀ x, x ∈ r.verdicts.admitted → .declaration x ∈ ms →
    r'.verdicts.causes[x]? = some cause
  causes_of_not_mem : ∀ x, ¬ (x ∈ r.verdicts.admitted ∧ .declaration x ∈ ms) →
    r'.verdicts.causes[x]? = r.verdicts.causes[x]?

theorem Withdraws.nil (r : Run) (cause : Site) :
  r.Withdraws [] cause r
  where
    notes := .same cause rfl fun _ hx => hx
    cause_eq := rfl
    frame := rfl
    mem_admitted := by simp
    mem_admittedBodies := by simp
    causes_of_mem := by simp
    causes_of_not_mem := by simp

/-- Taking back the verdicts on a matter and then on others. -/
theorem Withdraws.cons {r r₁ r₂ : Run} {m : Matter} {ms : List Matter} {cause : Site}
    (h : r.Withdraws [m] cause r₁) (h' : r₁.Withdraws ms cause r₂) :
  r.Withdraws (m :: ms) cause r₂
  where
    notes := h.notes.trans h'.notes (fun x hx => ((h.mem_admitted x).1 hx).1)
      fun x hx => ((h'.mem_admitted x).1 hx).1
    cause_eq := h'.cause_eq.trans h.cause_eq
    frame := by rw [h'.frame, h.frame]
    mem_admitted x := by
      rw [h'.mem_admitted, h.mem_admitted]
      simp only [List.mem_cons, List.not_mem_nil, or_false, not_or]
      tauto
    mem_admittedBodies x := by
      rw [h'.mem_admittedBodies, h.mem_admittedBodies, h.mem_admitted]
      simp only [List.mem_cons, List.not_mem_nil, or_false, not_or]
      tauto
    causes_of_mem x hx hm := by
      by_cases hms : .declaration x ∈ ms ∧ x ∈ r₁.verdicts.admitted
      · exact h'.causes_of_mem x hms.2 hms.1
      · rw [h'.causes_of_not_mem x (fun hc => hms ⟨hc.2, hc.1⟩)]
        apply h.causes_of_mem x hx
        by_contra hne
        apply hms
        rw [List.mem_cons] at hm
        rw [List.mem_singleton] at hne
        exact ⟨hm.resolve_left hne, (h.mem_admitted x).2 ⟨hx, by simpa using hne⟩⟩
    causes_of_not_mem x hx := by
      rw [h'.causes_of_not_mem, h.causes_of_not_mem]
      · rintro ⟨ha, hm⟩
        exact hx ⟨ha, List.mem_cons.2 (Or.inl (List.mem_singleton.1 hm))⟩
      · rintro ⟨ha, hm⟩
        exact hx ⟨((h.mem_admitted x).1 ha).1, List.mem_cons_of_mem m hm⟩

theorem Withdraws.upholds {r r' : Run} {ms : List Matter} {cause : Site}
    (h : r.Withdraws ms cause r') {m : Matter} (hm : r'.verdicts.upholds m) :
  r.verdicts.upholds m ∧ m ∉ ms
  := by
  cases m with
  | declaration id =>
    rw [Verdicts.upholds_declaration] at hm ⊢
    exact (h.mem_admitted id).1 hm
  | body id =>
    rw [Verdicts.upholds_body] at hm ⊢
    obtain ⟨hb, hms, -⟩ := (h.mem_admittedBodies id).1 hm
    exact ⟨hb, hms⟩
  | aspects id => simp at hm

/-- Striking out a declaration that is admitted. -/
theorem withdraws_expel {r : Run} {id : EntityId} (cause : Site)
    (h : id ∈ r.verdicts.admitted) :
  r.Withdraws [.declaration id] cause (r.overturn cause (.declaration id))
  where
    notes := by
      refine ⟨[id], rfl, by simp, fun x => ?_⟩
      rw [List.mem_singleton]
      constructor
      · rintro rfl
        exact ⟨h, fun hm => (mem_erase_iff.1 hm).1 rfl⟩
      · exact fun ⟨hx, hn⟩ => by_contra fun he => hn (mem_erase_iff.2 ⟨he, hx⟩)
    cause_eq := rfl
    frame := rfl
    mem_admitted x := by
      simp only [verdicts_overturn, Verdicts.overturn, Verdicts.expel, mem_erase_iff,
        List.mem_singleton, Matter.declaration.injEq]
      tauto
    mem_admittedBodies x := by
      simp only [verdicts_overturn, Verdicts.overturn, Verdicts.expel, mem_erase_iff,
        List.mem_singleton, Matter.declaration.injEq, reduceCtorEq, not_false_eq_true, true_and]
      constructor
      · rintro ⟨hne, hb⟩
        exact ⟨hb, fun hc => hne hc.2⟩
      · rintro ⟨hb, hn⟩
        exact ⟨fun hc => hn ⟨hc ▸ h, hc⟩, hb⟩
    causes_of_mem x hx hm := by
      rw [List.mem_singleton, Matter.declaration.injEq] at hm
      subst hm
      apply Std.TreeMap.getElem?_insert_self
    causes_of_not_mem x hx := by
      apply getElem?_insert_of_ne
      rintro rfl
      exact hx ⟨h, List.mem_singleton_self _⟩

/-- Striking out a body that is admitted. -/
theorem withdraws_expelBody (r : Run) (id : EntityId) (cause : Site) :
  r.Withdraws [.body id] cause (r.overturn cause (.body id))
  where
    notes := .same cause rfl fun _ hx => hx
    cause_eq := rfl
    frame := rfl
    mem_admitted := by simp [verdicts_overturn, Verdicts.overturn, Verdicts.expelBody]
    mem_admittedBodies x := by
      simp only [verdicts_overturn, Verdicts.overturn, Verdicts.expelBody, mem_erase_iff, List.mem_singleton,
        Matter.body.injEq, reduceCtorEq, and_false, not_false_eq_true, and_true]
      tauto
    causes_of_mem x hx hm := by simp at hm
    causes_of_not_mem x hx := by rfl

/-- Where the verdict on a matter is not favourable, nothing is taken back. -/
theorem withdraws_self {r : Run} {m : Matter} (cause : Site)
    (h : ¬ r.verdicts.upholds m) :
  r.Withdraws [m] cause r
  where
    notes := .same cause rfl fun _ hx => hx
    cause_eq := rfl
    frame := rfl
    mem_admitted := by
      rintro x
      constructor
      · intro hx
        refine ⟨hx, fun hm => h ?_⟩
        rw [← List.mem_singleton.1 hm]
        exact Verdicts.upholds_declaration.2 hx
      · exact And.left
    mem_admittedBodies x := by
      constructor
      · intro hx
        refine ⟨hx, fun hm => h ?_, fun hm => h ?_⟩
        · rw [← List.mem_singleton.1 hm]
          exact Verdicts.upholds_body.2 hx
        · rw [← List.mem_singleton.1 hm.2]
          exact Verdicts.upholds_declaration.2 hm.1
      · exact And.left
    causes_of_mem x hx hm := by
      rw [← List.mem_singleton.1 hm] at h
      exact absurd (Verdicts.upholds_declaration.2 hx) h
    causes_of_not_mem x hx := by rfl

/-- A report changes no verdict. -/
theorem Withdraws.report {r r' : Run} {ms : List Matter} {cause : Site}
    (h : r.Withdraws ms cause r') (p : Program) (m : Matter) (excluded : EntityId) :
  r.Withdraws ms cause (r'.reportDependence p m excluded cause)
  := by
  unfold reportDependence
  split
  · exact ⟨h.notes, h.cause_eq, h.frame, h.mem_admitted, h.mem_admittedBodies,
      h.causes_of_mem, h.causes_of_not_mem⟩
  · exact h

theorem withdraws_withdraw (r : Run) (p : Program) (excluded : EntityId) (cause : Site)
    (m : Matter) :
  r.Withdraws [m] cause (r.withdraw p excluded cause m).1
  := by
  unfold withdraw
  split
  · next h =>
    apply Withdraws.report
    cases m with
    | declaration id => exact withdraws_expel cause (Verdicts.upholds_declaration.1 h)
    | body id => exact withdraws_expelBody r id cause
    | aspects id => simp at h
  · next h => exact withdraws_self cause h

theorem withdraws_withdrawAll (r : Run) (p : Program) (excluded : EntityId) (cause : Site)
    (ms : List Matter) :
  r.Withdraws ms cause (r.withdrawAll p excluded cause ms).1
  := by
  induction ms generalizing r with
  | nil => apply Withdraws.nil
  | cons m ms ih =>
    have h := (r.withdraws_withdraw p excluded cause m).cons (ih _)
    cases m <;> exact h

/-- The entities among the matters whose verdicts are taken back that were admitted. -/
theorem mem_hit_iff (r : Run) (p : Program) (excluded : EntityId) (cause : Site)
    (ms : List Matter) (x : EntityId) :
  x ∈ (r.withdrawAll p excluded cause ms).2
    ↔ .declaration x ∈ ms ∧ x ∈ r.verdicts.admitted
  := by
  induction ms generalizing r with
  | nil => simp [withdrawAll]
  | cons m ms ih =>
    have h := (r.withdraws_withdraw p excluded cause m).mem_admitted x
    have hc : (r.withdraw p excluded cause m).2 = r.verdicts.upholds m := by
      unfold withdraw
      split <;> simp_all
    cases m with
    | declaration id =>
      have hu := @Verdicts.upholds_declaration r.verdicts id
      simp only [withdrawAll, hc]
      grind
    | body id => simp only [withdrawAll]; grind
    | aspects id => simp only [withdrawAll]; grind

/-! ### Cascades -/

/-- What changes when everything that rests on the entities `work` is taken back. -/
structure Cascades (r : Run) (work : List EntityId) (cause : Site) (r' : Run) : Prop where
  notes : r.Notes cause r'
  cause_eq : r'.cause = r.cause
  /-- Other verdicts are as before. -/
  frame : r'.verdicts = { r.verdicts with
    admitted := r'.verdicts.admitted
    admittedBodies := r'.verdicts.admittedBodies
    roster := r'.verdicts.roster
    causes := r'.verdicts.causes
    bodyCauses := r'.verdicts.bodyCauses
    dependents := r'.verdicts.dependents }
  upholds : ∀ m, r'.verdicts.upholds m → r.verdicts.upholds m
  /-- What is taken back is hit. -/
  hit : ∀ x, r.Loses r' x → r.verdicts.Hit work x
  /-- Nothing that is upheld rests on what is taken back. -/
  lost : ∀ x m, x ∈ work ∨ r.Loses r' x → m ∈ r.verdicts.dependentsOf x →
    ¬ r'.verdicts.upholds m
  lost_body : ∀ x, r.Loses r' x → x ∉ r'.verdicts.admittedBodies
  dependents : ∀ x m, m ∈ r'.verdicts.dependentsOf x → m ∈ r.verdicts.dependentsOf x
  dependents_of_kept : ∀ x m, x ∉ work → ¬ r.Loses r' x →
    m ∈ r.verdicts.dependentsOf x → m ∈ r'.verdicts.dependentsOf x
  causes_of_lost : ∀ x, r.Loses r' x → r'.verdicts.causes[x]? = some cause
  causes_of_kept : ∀ x, ¬ r.Loses r' x → r'.verdicts.causes[x]? = r.verdicts.causes[x]?

theorem Cascades.nil (r : Run) (cause : Site) :
  r.Cascades [] cause r
  := by
  have h (x : EntityId) : ¬ r.Loses r x := fun hx => hx.2 hx.1
  constructor
  case notes => exact .same cause rfl fun _ hx => hx
  all_goals simp [h]

/-- A cascade after the dependents of one entity were taken back. -/
theorem Cascades.cons {r r₁ r' : Run} {current : EntityId} {rest hit : List EntityId}
    {cause : Site}
    (h : (r.rule fun v => v.forget current).Withdraws
      (r.verdicts.dependentsOf current).toList cause r₁)
    (hh : ∀ x, x ∈ hit
      ↔ .declaration x ∈ r.verdicts.dependentsOf current ∧ x ∈ r.verdicts.admitted)
    (hc : r₁.Cascades (hit ++ rest) cause r') :
  r.Cascades (current :: rest) cause r'
  := by
  have mem_toList (m : Matter) : m ∈ (r.verdicts.dependentsOf current).toList
      ↔ m ∈ r.verdicts.dependentsOf current := Std.TreeSet.mem_toList
  have dependents₁ (x : EntityId) (m : Matter) : m ∈ r₁.verdicts.dependentsOf x
      ↔ x ≠ current ∧ m ∈ r.verdicts.dependentsOf x := by
    rw [← Verdicts.mem_dependentsOf_forget, h.frame]
    rfl
  have admitted₁ (x : EntityId) : x ∈ r₁.verdicts.admitted
      ↔ x ∈ r.verdicts.admitted ∧ x ∉ hit := by
    rw [h.mem_admitted, mem_toList, hh]
    change x ∈ r.verdicts.admitted ∧ _ ↔ _
    tauto
  have loses₁ (x : EntityId) : r.Loses r' x
      ↔ x ∈ hit ∧ x ∉ r'.verdicts.admitted ∨ r₁.Loses r' x := by
    unfold Loses
    rw [admitted₁, hh]
    tauto
  have lost₁ (x : EntityId) (hx : x ∈ hit) : x ∉ r'.verdicts.admitted := by
    intro hx'
    have := Verdicts.upholds_declaration.1
      (hc.upholds (.declaration x) (Verdicts.upholds_declaration.2 hx'))
    exact ((admitted₁ x).1 this).2 hx
  have upholds₁ (m : Matter) (hm : r'.verdicts.upholds m) :
      r.verdicts.upholds m ∧ m ∉ r.verdicts.dependentsOf current := by
    rw [← mem_toList]
    exact h.upholds (hc.upholds m hm)
  have hit₁ (x : EntityId) (hx : x ∈ hit) : r.verdicts.Hit (current :: rest) x :=
    .first List.mem_cons_self ((hh x).1 hx).1 ((hh x).1 hx).2
  constructor
  case notes =>
    apply h.notes.trans hc.notes
    · exact fun x hx => ((h.mem_admitted x).1 hx).1
    · intro x hx
      exact Verdicts.upholds_declaration.1 (hc.upholds _ (Verdicts.upholds_declaration.2 hx))
  case cause_eq => exact hc.cause_eq.trans h.cause_eq
  case frame =>
    rw [hc.frame, h.frame]
    rfl
  case upholds =>
    intro m hm
    exact (upholds₁ m hm).1
  case hit =>
    intro x hx
    obtain ⟨hx, -⟩ | hx := (loses₁ x).1 hx
    · exact hit₁ x hx
    · refine (hc.hit x hx).mono (fun c hc' => ?_) (fun c m hm => ((dependents₁ c m).1 hm).2)
        (fun c hc' => ((admitted₁ c).1 hc').1)
      obtain hc' | hc' := List.mem_append.1 hc'
      · exact Or.inr (hit₁ c hc')
      · exact Or.inl (List.mem_cons_of_mem _ hc')
  case lost =>
    intro x m hx hm
    by_cases e : x = current
    · subst e
      exact fun hu => (upholds₁ m hu).2 hm
    · apply hc.lost x m ?_ ((dependents₁ x m).2 ⟨e, hm⟩)
      rw [loses₁, List.mem_cons] at hx
      rw [List.mem_append]
      tauto
  case lost_body =>
    intro x hx
    obtain ⟨hx, -⟩ | hx := (loses₁ x).1 hx
    · intro hb
      have hb := Verdicts.upholds_body.1
        (hc.upholds (.body x) (Verdicts.upholds_body.2 hb))
      obtain ⟨-, -, hn⟩ := (h.mem_admittedBodies x).1 hb
      exact hn ⟨((hh x).1 hx).2, (mem_toList _).2 ((hh x).1 hx).1⟩
    · exact hc.lost_body x hx
  case dependents =>
    intro x m hm
    exact ((dependents₁ x m).1 (hc.dependents x m hm)).2
  case dependents_of_kept =>
    intro x m hx hl hm
    rw [List.mem_cons, not_or] at hx
    apply hc.dependents_of_kept x m ?_ ?_ ((dependents₁ x m).2 ⟨hx.1, hm⟩)
    · rw [List.mem_append, not_or]
      exact ⟨fun hx' => hl ((loses₁ x).2 (Or.inl ⟨hx', lost₁ x hx'⟩)), hx.2⟩
    · exact fun hl' => hl ((loses₁ x).2 (Or.inr hl'))
  case causes_of_lost =>
    intro x hx
    obtain ⟨hx, -⟩ | hx := (loses₁ x).1 hx
    · rw [hc.causes_of_kept]
      · exact h.causes_of_mem x ((hh x).1 hx).2 ((mem_toList _).2 ((hh x).1 hx).1)
      · exact fun hl => ((admitted₁ x).1 hl.1).2 hx
    · exact hc.causes_of_lost x hx
  case causes_of_kept =>
    intro x hx
    rw [hc.causes_of_kept x (fun hl => hx ((loses₁ x).2 (Or.inr hl)))]
    apply h.causes_of_not_mem x
    rintro ⟨ha, hd⟩
    have hx' := (hh x).2 ⟨(mem_toList _).1 hd, ha⟩
    exact hx ((loses₁ x).2 (Or.inl ⟨hx', lost₁ x hx'⟩))

theorem cascades_cascade (r : Run) (p : Program) (cause : Site) (work : List EntityId) :
  r.Cascades work cause (r.cascade p cause work)
  := by
  fun_induction cascade p cause r work with
  | case1 r => apply Cascades.nil
  | case2 r current rest dependents step ih =>
    apply Cascades.cons _ (fun x => ?_) ih
    · apply withdraws_withdrawAll
    · rw [List.mem_reverse, mem_hit_iff, Std.TreeSet.mem_toList]
      rfl

/-! ### Exclusions -/

/-- What changes when an entity is struck out along with everything that rests on it. -/
structure Strikes (r : Run) (id : EntityId) (r' : Run) : Prop where
  journal : ∃ new, r'.journal = new ++ r.journal ∧ ∀ e ∈ new, ∃ x cause, e = .excluded x cause
  cause_eq : r'.cause = r.cause
  /-- Other verdicts are as before. -/
  frame : r'.verdicts = { r.verdicts with
    admitted := r'.verdicts.admitted
    admittedBodies := r'.verdicts.admittedBodies
    roster := r'.verdicts.roster
    causes := r'.verdicts.causes
    bodyCauses := r'.verdicts.bodyCauses
    dependents := r'.verdicts.dependents }
  gone : id ∉ r'.verdicts.admitted
  gone_body : id ∉ r'.verdicts.admittedBodies
  upholds : ∀ m, r'.verdicts.upholds m → r.verdicts.upholds m
  /-- What is taken back is the entity or hit from it. -/
  hit : ∀ x, r.Loses r' x → x = id ∨ r.verdicts.Hit [id] x
  /-- Nothing that is upheld rests on what is taken back. -/
  lost : ∀ x m, x = id ∨ r.Loses r' x → m ∈ r.verdicts.dependentsOf x →
    ¬ r'.verdicts.upholds m
  lost_body : ∀ x, r.Loses r' x → x ∉ r'.verdicts.admittedBodies
  dependents : ∀ x m, m ∈ r'.verdicts.dependentsOf x → m ∈ r.verdicts.dependentsOf x
  dependents_of_kept : ∀ x m, x ≠ id → ¬ r.Loses r' x →
    m ∈ r.verdicts.dependentsOf x → m ∈ r'.verdicts.dependentsOf x

/-- Striking out an entity and cascading from it. -/
theorem Cascades.strikes {r r₁ r' : Run} {id : EntityId} {cause : Site} (new : List Event)
    (hc : r₁.Cascades [id] cause r') (hj : r₁.journal = new ++ r.journal)
    (hn : ∀ e ∈ new, ∃ x cause, e = .excluded x cause) (he : r₁.cause = r.cause)
    (hf : r₁.verdicts = { r.verdicts with
      admitted := r.verdicts.admitted.erase id
      admittedBodies := r.verdicts.admittedBodies.erase id
      roster := r₁.verdicts.roster
      causes := r₁.verdicts.causes }) :
  r.Strikes id r'
  := by
  have admitted (x : EntityId) :
      x ∈ r₁.verdicts.admitted ↔ x ≠ id ∧ x ∈ r.verdicts.admitted := by
    rw [hf]
    exact mem_erase_iff
  have admittedBodies (x : EntityId) :
      x ∈ r₁.verdicts.admittedBodies ↔ x ≠ id ∧ x ∈ r.verdicts.admittedBodies := by
    rw [hf]
    exact mem_erase_iff
  have dependentsOf (x : EntityId) : r₁.verdicts.dependentsOf x = r.verdicts.dependentsOf x := by
    rw [hf]
    rfl
  have loses (x : EntityId) (hl : r.Loses r' x) : x = id ∨ r₁.Loses r' x := by
    by_cases hx : x = id
    · exact Or.inl hx
    · exact Or.inr ⟨(admitted x).2 ⟨hx, hl.1⟩, hl.2⟩
  have gone : id ∉ r'.verdicts.admitted := by
    intro h
    have h := hc.upholds _ (Verdicts.upholds_declaration.2 h)
    exact ((admitted id).1 (Verdicts.upholds_declaration.1 h)).1 rfl
  have gone_body : id ∉ r'.verdicts.admittedBodies := by
    intro h
    have h := hc.upholds _ (Verdicts.upholds_body.2 h)
    exact ((admittedBodies id).1 (Verdicts.upholds_body.1 h)).1 rfl
  constructor
  case journal =>
    obtain ⟨ids, hj', -⟩ := hc.notes
    refine ⟨ids.map (.excluded · cause) ++ new, by rw [hj', hj, List.append_assoc],
      fun e he => ?_⟩
    obtain he | he := List.mem_append.1 he
    · obtain ⟨x, -, rfl⟩ := List.mem_map.1 he
      exact ⟨x, cause, rfl⟩
    · exact hn e he
  case cause_eq => exact hc.cause_eq.trans he
  case frame => rw [hc.frame, hf]
  case gone => exact gone
  case gone_body => exact gone_body
  case upholds =>
    intro m hm
    have hm := hc.upholds m hm
    cases m with
    | declaration x =>
      rw [Verdicts.upholds_declaration] at hm ⊢
      exact ((admitted x).1 hm).2
    | body x =>
      rw [Verdicts.upholds_body] at hm ⊢
      exact ((admittedBodies x).1 hm).2
    | aspects x => simp at hm
  case hit =>
    intro x hx
    obtain hx | hx := loses x hx
    · exact Or.inl hx
    · right
      apply (hc.hit x hx).mono (fun c => Or.inl)
      · intro c m hm
        rwa [dependentsOf] at hm
      · exact fun c h => ((admitted c).1 h).2
  case lost =>
    intro x m hx hm
    apply hc.lost x m
    · rw [List.mem_singleton]
      obtain hx | hx := hx
      · exact Or.inl hx
      · exact loses x hx
    · rwa [dependentsOf]
  case lost_body =>
    intro x hx
    obtain rfl | hx := loses x hx
    · exact gone_body
    · exact hc.lost_body x hx
  case dependents =>
    intro x m hm
    rw [← dependentsOf]
    exact hc.dependents x m hm
  case dependents_of_kept =>
    intro x m hx hl hm
    apply hc.dependents_of_kept x m (by simpa using hx)
    · exact fun hl' => hl ⟨((admitted x).1 hl'.1).2, hl'.2⟩
    · rwa [dependentsOf]

theorem strikes_exclude (r : Run) (p : Program) (e : Entity) :
  r.Strikes e.name (r.exclude p e)
  := by
  have hc := cascades_cascade (r.overturn (r.cause.getD e.site) (.declaration e.name)) p
    (r.cause.getD e.site) [e.name]
  apply Cascades.strikes [.excluded e.name (r.cause.getD e.site)] hc
  · rfl
  · simp
  · rfl
  · rfl

/-- What happened before and is no exclusion is what happened afterwards. -/
theorem Strikes.mem_journal {r r' : Run} {id : EntityId} (h : r.Strikes id r') {e : Event}
    (he : ∀ x cause, e ≠ .excluded x cause) :
  e ∈ r'.journal ↔ e ∈ r.journal
  := by
  obtain ⟨new, hj, hn⟩ := h.journal
  rw [hj, List.mem_append]
  refine or_iff_right fun hm => ?_
  obtain ⟨x, cause, rfl⟩ := hn e hm
  exact he x cause rfl

theorem Strikes.admitted {r r' : Run} {id x : EntityId} (h : r.Strikes id r')
    (hx : x ∈ r'.verdicts.admitted) :
  x ∈ r.verdicts.admitted
  := Verdicts.upholds_declaration.1 (h.upholds _ (Verdicts.upholds_declaration.2 hx))

theorem Strikes.admittedBodies {r r' : Run} {id x : EntityId} (h : r.Strikes id r')
    (hx : x ∈ r'.verdicts.admittedBodies) :
  x ∈ r.verdicts.admittedBodies
  := Verdicts.upholds_body.1 (h.upholds _ (Verdicts.upholds_body.2 hx))

end Run

end Conformance
