import Conformance.Proofs.Passage
import Conformance.Proofs.Postponement
import Conformance.Proofs.Withdrawal

/-!
# What a decision leaves alone

`Run.Coherent` is the invariant of runs: how the sets of verdicts, the dependents and the
journal fit together.  `Run.Advances` says what the passage from one run to another
leaves alone.  Whatever is decided within a matter leaves all entities admitted that were
admitted before, since a cascade only hits entities that were examined after the entity it
starts from.

`orderly_of_passes` states both for all passages.
-/

namespace Conformance

/-- The matter whose inquiry an event belongs to. -/
def Event.owner : Event → Option Matter
  | .consulted m _ | .asked m _ | .visited m _ _ => m
  | _ => none

namespace Run

/-- The parts of a run fit together. -/
structure Coherent (r : Run) : Prop where
  mem_examined : ∀ x ∈ r.verdicts.admitted, x ∈ r.verdicts.examined
  mem_admitted : ∀ x ∈ r.verdicts.admittedBodies, x ∈ r.verdicts.admitted
  began_of_upholds : ∀ m, r.verdicts.upholds m → .began m ∈ r.journal
  examined_of_began : ∀ x, .began (.declaration x) ∈ r.journal → x ∈ r.verdicts.examined
  examined_of_consulted : ∀ m x, .consulted m x ∈ r.journal → x ∈ r.verdicts.examined
  began_of_owner : ∀ e ∈ r.journal, ∀ m, e.owner = some m → m.isRevocable →
    .began m ∈ r.journal
  consulted_of_dependent : ∀ x m, m ∈ r.verdicts.dependentsOf x →
    .consulted (some m) x ∈ r.journal

/-- What a passage from `r` to `r'` leaves alone, where `new` is what happens on it and `m`
is the matter under way. -/
structure Advances (m : Option Matter) (new : List Event) (r r' : Run) : Prop where
  journal : r'.journal = new ++ r.journal
  examined : ∀ x ∈ r.verdicts.examined, x ∈ r'.verdicts.examined
  admitted : ∀ x ∈ r.verdicts.admitted, x ∈ r'.verdicts.admitted
  /-- What is admitted was admitted before or is examined on the way. -/
  fresh : ∀ x ∈ r'.verdicts.admitted, x ∈ r.verdicts.admitted ∨ x ∉ r.verdicts.examined
  bodies : ∀ x ∈ r'.verdicts.admittedBodies,
    x ∈ r.verdicts.admittedBodies ∨ .began (.body x) ∈ new
  dependents : ∀ x ∈ r.verdicts.admitted, ∀ m' ∈ r.verdicts.dependentsOf x,
    m' ∈ r'.verdicts.dependentsOf x
  began : ∀ x ∈ r.verdicts.examined, .began (.declaration x) ∉ new
  /-- What happens belongs to the matter under way or to one that begins on the way. -/
  owned : ∀ e ∈ new, ∀ m', e.owner = some m' → m'.isRevocable → m = some m' ∨ .began m' ∈ new
  backlog : r.verdicts.backlog.Grows r'.verdicts.backlog

/-- The parts of two runs that the invariant is about are the same. -/
structure Same (r r' : Run) : Prop where
  journal : r'.journal = r.journal
  examined : r'.verdicts.examined = r.verdicts.examined
  admitted : r'.verdicts.admitted = r.verdicts.admitted
  admittedBodies : r'.verdicts.admittedBodies = r.verdicts.admittedBodies
  dependents : r'.verdicts.dependents = r.verdicts.dependents
  backlog : r.verdicts.backlog.Grows r'.verdicts.backlog

theorem Same.dependentsOf {r r' : Run} (h : r.Same r') (x : EntityId) :
  r'.verdicts.dependentsOf x = r.verdicts.dependentsOf x
  := by rw [Verdicts.dependentsOf, h.dependents]; rfl

theorem Same.upholds {r r' : Run} (h : r.Same r') (m : Matter) :
  r'.verdicts.upholds m = r.verdicts.upholds m
  := by
  cases m with
  | declaration id => simp only [Verdicts.upholds, h.admitted]
  | body id => simp only [Verdicts.upholds, h.admittedBodies]
  | aspects id => rfl

theorem Same.coherent {r r' : Run} (h : r.Same r') (hr : r.Coherent) :
  r'.Coherent
  where
    mem_examined := by
      rw [h.admitted, h.examined]
      exact hr.mem_examined
    mem_admitted := by
      rw [h.admittedBodies, h.admitted]
      exact hr.mem_admitted
    began_of_upholds m hm := by
      rw [h.upholds] at hm
      rw [h.journal]
      exact hr.began_of_upholds m hm
    examined_of_began := by
      rw [h.journal, h.examined]
      exact hr.examined_of_began
    examined_of_consulted := by
      rw [h.journal, h.examined]
      exact hr.examined_of_consulted
    began_of_owner := by
      rw [h.journal]
      exact hr.began_of_owner
    consulted_of_dependent x m hm := by
      rw [h.dependentsOf] at hm
      rw [h.journal]
      exact hr.consulted_of_dependent x m hm

theorem Same.advances {r r' : Run} (h : r.Same r') (m : Option Matter) :
  r.Advances m [] r'
  where
    journal := h.journal
    examined := by
      rw [h.examined]
      exact fun _ => id
    admitted := by
      rw [h.admitted]
      exact fun _ => id
    fresh := by
      rw [h.admitted]
      exact fun _ => Or.inl
    bodies := by
      rw [h.admittedBodies]
      exact fun _ => Or.inl
    dependents x _ m' hm := by rwa [h.dependentsOf]
    began := by simp
    owned := by simp
    backlog := h.backlog

theorem Same.refl (r : Run) :
  r.Same r
  := ⟨rfl, rfl, rfl, rfl, rfl, .refl _⟩

/-- The parts that the invariant is about do not tell whether a matter is violated. -/
theorem same_cause (r : Run) (cause : Option Site) :
  r.Same { r with cause }
  := ⟨rfl, rfl, rfl, rfl, rfl, .refl _⟩

namespace Advances

variable {m m' : Option Matter} {new new' : List Event} {r r₁ r' : Run}

/-- Two passages one after the other, where the matter of the second one is that of the
first one or begins in it. -/
theorem trans (h : r.Advances m new r₁) (h' : r₁.Advances m' new' r')
    (hm : ∀ m₀, m' = some m₀ → m = some m₀ ∨ .began m₀ ∈ new) :
  r.Advances m (new' ++ new) r'
  where
    journal := by rw [h'.journal, h.journal, List.append_assoc]
    examined x hx := h'.examined x (h.examined x hx)
    admitted x hx := h'.admitted x (h.admitted x hx)
    fresh x hx := by
      obtain hx | hx := h'.fresh x hx
      · exact h.fresh x hx
      · exact Or.inr fun hx' => hx (h.examined x hx')
    bodies x hx := by
      obtain hx | hx := h'.bodies x hx
      · obtain hx | hx := h.bodies x hx
        · exact Or.inl hx
        · exact Or.inr (List.mem_append_right _ hx)
      · exact Or.inr (List.mem_append_left _ hx)
    dependents x hx m₀ hm₀ := h'.dependents x (h.admitted x hx) m₀ (h.dependents x hx m₀ hm₀)
    began x hx hb := by
      obtain hb | hb := List.mem_append.1 hb
      · exact h'.began x (h.examined x hx) hb
      · exact h.began x hx hb
    owned e he m₀ ho hr := by
      obtain he | he := List.mem_append.1 he
      · obtain h₀ | h₀ := h'.owned e he m₀ ho hr
        · obtain h₀ | h₀ := hm m₀ h₀
          · exact Or.inl h₀
          · exact Or.inr (List.mem_append_right _ h₀)
        · exact Or.inr (List.mem_append_left _ h₀)
      · obtain h₀ | h₀ := h.owned e he m₀ ho hr
        · exact Or.inl h₀
        · exact Or.inr (List.mem_append_right _ h₀)
    backlog := h.backlog.trans h'.backlog

/-- Two passages one after the other within the same matter. -/
theorem append (h : r.Advances m new r₁) (h' : r₁.Advances m new' r') :
  r.Advances m (new' ++ new) r'
  := h.trans h' fun _ => Or.inl

/-- What a passage without a matter leaves alone, a passage within a matter does. -/
theorem within (h : r.Advances none new r') (m : Option Matter) :
  r.Advances m new r'
  where
    journal := h.journal
    examined := h.examined
    admitted := h.admitted
    fresh := h.fresh
    bodies := h.bodies
    dependents := h.dependents
    began := h.began
    owned e he m₀ ho hr := by
      obtain h₀ | h₀ := h.owned e he m₀ ho hr
      · cases h₀
      · exact Or.inr h₀
    backlog := h.backlog

/-- A passage to a run that is the same as another one in what the invariant is about. -/
theorem same (h : r.Advances m new r₁) (h' : r₁.Same r') :
  r.Advances m new r'
  := by
  have := h.append (h'.advances m)
  rwa [List.nil_append] at this

end Advances

/-! ### Single changes -/

theorem Coherent.note {r : Run} (h : r.Coherent) {e : Event}
    (hb : ∀ m, e = .began m → False) (hc : ∀ m x, e = .consulted m x → x ∈ r.verdicts.examined)
    (ho : ∀ m, e.owner = some m → m.isRevocable → .began m ∈ r.journal) :
  (r.note e).Coherent
  := by
  have mem_note (e' : Event) : e' ∈ (r.note e).journal ↔ e' = e ∨ e' ∈ r.journal :=
    List.mem_cons
  constructor
  case mem_examined => exact h.mem_examined
  case mem_admitted => exact h.mem_admitted
  case began_of_upholds => exact fun m hm => (mem_note _).2 (Or.inr (h.began_of_upholds m hm))
  case examined_of_began =>
    intro x hx
    obtain hx | hx := (mem_note _).1 hx
    · exact (hb _ hx.symm).elim
    · exact h.examined_of_began x hx
  case examined_of_consulted =>
    intro m x hx
    obtain hx | hx := (mem_note _).1 hx
    · exact hc m x hx.symm
    · exact h.examined_of_consulted m x hx
  case began_of_owner =>
    intro e' he' m hm hr
    obtain rfl | he' := (mem_note _).1 he'
    · exact (mem_note _).2 (Or.inr (ho m hm hr))
    · exact (mem_note _).2 (Or.inr (h.began_of_owner e' he' m hm hr))
  case consulted_of_dependent =>
    exact fun x m hm => (mem_note _).2 (Or.inr (h.consulted_of_dependent x m hm))

theorem advances_note (r : Run) {e : Event} (hb : ∀ m, e = .began m → False)
    (m : Option Matter) (ho : e.owner = none ∨ e.owner = m) :
  r.Advances m [e] (r.note e)
  where
    journal := rfl
    examined _ := id
    admitted _ := id
    fresh _ := Or.inl
    bodies _ := Or.inl
    dependents _ _ _ := id
    began x _ hx := hb _ (List.mem_singleton.1 hx).symm
    owned e' he' m' hm' _ := by
      rw [List.mem_singleton.1 he'] at hm'
      rw [hm'] at ho
      obtain ho | ho := ho
      · cases ho
      · exact Or.inl ho.symm
    backlog := .refl _

/-- The parts of the run after a favourable consultation. -/
theorem Coherent.depend {r : Run} (h : r.Coherent) {x : EntityId} {m : Matter}
    (hm : .consulted (some m) x ∈ r.journal) :
  (r.rule fun v => v.depend x m).Coherent
  where
    mem_examined := by simpa [rule] using h.mem_examined
    mem_admitted := by simpa [rule] using h.mem_admitted
    began_of_upholds m' hm' := by
      apply h.began_of_upholds m'
      cases m' <;> simp_all [rule]
    examined_of_began := by simpa [rule] using h.examined_of_began
    examined_of_consulted := by simpa [rule] using h.examined_of_consulted
    began_of_owner := h.began_of_owner
    consulted_of_dependent y m' hm' := by
      obtain hm' | ⟨rfl, rfl, -⟩ := Verdicts.mem_dependentsOf_depend.1 hm'
      · exact h.consulted_of_dependent y m' hm'
      · exact hm

theorem advances_depend (r : Run) (x : EntityId) (m : Matter) (m' : Option Matter) :
  r.Advances m' [] (r.rule fun v => v.depend x m)
  where
    journal := rfl
    examined := by simp [rule]
    admitted := by simp [rule]
    fresh y hy := by
      left
      simpa [rule] using hy
    bodies y hy := by
      left
      simpa [rule] using hy
    dependents y _ m₀ hm₀ := Verdicts.mem_dependentsOf_depend.2 (Or.inl hm₀)
    began := by simp
    owned := by simp
    backlog := by
      simp only [rule, Verdicts.backlog_depend]
      rfl

theorem same_findExcluded (r : Run) (scope : Scope) (site : Site) (id : EntityId) :
  r.Same (r.findExcluded scope site id)
  := by
  obtain ⟨cause, reports, h⟩ := r.exists_findExcluded scope site id
  rw [h]
  constructor <;> rfl

theorem same_find (r : Run) (scope : Scope) (site : Site) (finding : Finding) :
  r.Same (r.find scope site finding)
  := by
  obtain ⟨cause, reports, h⟩ := r.exists_find scope site finding
  rw [h]
  constructor <;> rfl

theorem same_inheritCause (r : Run) (e : Entity) :
  r.Same (r.inheritCause e)
  := by
  obtain ⟨bodyCauses, h⟩ := r.exists_inheritCause e
  rw [h]
  constructor <;> rfl

theorem same_postpone (r : Run) (t : Task) :
  r.Same (r.rule fun v => { v with backlog := v.backlog.push t })
  := ⟨rfl, rfl, rfl, rfl, rfl, r.verdicts.backlog.grows_push t⟩

theorem same_follow (r : Run) (ids : List EntityId) (cause : Option Site) :
  r.Same { r.follow ids with cause }
  where
    journal := rfl
    examined := rfl
    admitted := rfl
    admittedBodies := rfl
    dependents := rfl
    backlog := by
      have h := r.verdicts.backlog.grows_pushAll (ids.map .declaration)
      rwa [List.foldl_map] at h

/-- The matter under way has begun, if its verdict can be withdrawn. -/
def Under (r : Run) (m : Option Matter) : Prop :=
  ∀ m₀, m = some m₀ → m₀.isRevocable → .began m₀ ∈ r.journal

theorem Under.after {r r' : Run} {m m' : Option Matter} {new : List Event}
    (h : r.Under m) (ha : r.Advances m' new r') :
  r'.Under m
  := by
  intro m₀ hm hr
  rw [ha.journal]
  exact List.mem_append_right _ (h m₀ hm hr)

theorem rest_step {r : Run} (h : r.Coherent) {scope : Scope} (hu : r.Under scope.matter)
    {id : EntityId} (hx : id ∈ r.verdicts.examined) (site : Site) :
  r.Advances scope.matter [.consulted scope.matter id] (r.rest scope id site)
    ∧ (r.rest scope id site).Coherent
  := by
  have hn : (r.note (.consulted scope.matter id)).Coherent := by
    apply h.note
    · simp
    · rintro m x ⟨⟩
      exact hx
    · exact hu
  have ha : r.Advances scope.matter [.consulted scope.matter id]
      (r.note (.consulted scope.matter id)) := r.advances_note (by simp) _ (Or.inr rfl)
  unfold rest
  split
  · cases hm : scope.matter with
    | none =>
      rw [hm] at hn ha
      exact ⟨ha, hn⟩
    | some m =>
      rw [hm] at hn ha
      exact ⟨ha.append (advances_depend _ id m _), hn.depend List.mem_cons_self⟩
  · have hs := same_findExcluded (r.note (.consulted scope.matter id)) scope site id
    exact ⟨ha.same hs, hs.coherent hn⟩

theorem journal_start (r : Run) (scope : Scope) (m : Matter) :
  (r.start scope m).journal = .began m :: r.journal
  := by
  obtain ⟨reporting, h⟩ := r.exists_start scope m
  rw [h]

theorem journal_concludeBody (r : Run) (e : Entity) :
  ∃ new, (r.concludeBody e).journal = new ++ r.journal
    ∧ ∀ event ∈ new, event = .admittedBody e.name
  := by
  unfold concludeBody
  split
  · exact ⟨[.admittedBody e.name], rfl, by simp⟩
  · exact ⟨[], rfl, by simp⟩

/-- The verdict on a body is all that happens at the end of its inquiry. -/
theorem mem_journal_concludeBody {r : Run} {e : Entity} {event : Event}
    (h : event ≠ .admittedBody e.name) :
  event ∈ (r.concludeBody e).journal ↔ event ∈ r.journal
  := by
  obtain ⟨new, hj, hn⟩ := r.journal_concludeBody e
  rw [hj, List.mem_append]
  exact or_iff_right fun hm => h (hn event hm)

theorem verdicts_start (r : Run) (scope : Scope) (m : Matter) :
  ∃ reporting, (r.start scope m).verdicts = { r.verdicts with reporting }
  := by
  obtain ⟨reporting, h⟩ := r.exists_start scope m
  exact ⟨reporting, by rw [h]⟩

/-- A matter begins whose entity has been examined. -/
theorem Coherent.start {r : Run} (h : r.Coherent) (scope : Scope) {m : Matter}
    (hm : m.entity ∈ r.verdicts.examined) :
  (r.start scope m).Coherent
  := by
  obtain ⟨reporting, hv⟩ := r.verdicts_start scope m
  constructor
  case mem_examined =>
    rw [hv]
    exact h.mem_examined
  case mem_admitted =>
    rw [hv]
    exact h.mem_admitted
  case began_of_upholds =>
    intro m' hm'
    rw [hv] at hm'
    rw [journal_start]
    exact List.mem_cons_of_mem _ (h.began_of_upholds m' (by cases m' <;> exact hm'))
  case examined_of_began =>
    intro x hx
    rw [journal_start, List.mem_cons, Event.began.injEq] at hx
    rw [hv]
    obtain rfl | hx := hx
    · exact hm
    · exact h.examined_of_began x hx
  case examined_of_consulted =>
    intro m' x hx
    rw [journal_start, List.mem_cons] at hx
    rw [hv]
    exact h.examined_of_consulted m' x (hx.resolve_left (by simp))
  case began_of_owner =>
    intro e he m' ho hr
    rw [journal_start, List.mem_cons] at he ⊢
    obtain rfl | he := he
    · cases ho
    · exact Or.inr (h.began_of_owner e he m' ho hr)
  case consulted_of_dependent =>
    intro x m' hm'
    rw [hv] at hm'
    rw [journal_start]
    exact List.mem_cons_of_mem _ (h.consulted_of_dependent x m' hm')

theorem under_start (r : Run) (scope : Scope) (m : Matter) :
  (r.start scope m).Under (some m)
  := by
  rintro _ ⟨⟩ -
  rw [journal_start]
  exact List.mem_cons_self

theorem Coherent.examine {r : Run} (h : r.Coherent) (x : EntityId) :
  (r.examine x).Coherent
  := by
  have he (y : EntityId) (hy : y ∈ r.verdicts.examined) :
      y ∈ (r.examine x).verdicts.examined := mem_insert_iff.2 (Or.inr hy)
  constructor
  case mem_examined => exact fun y hy => he y (h.mem_examined y hy)
  case mem_admitted => exact h.mem_admitted
  case began_of_upholds => exact h.began_of_upholds
  case examined_of_began => exact fun y hy => he y (h.examined_of_began y hy)
  case examined_of_consulted => exact fun m y hy => he y (h.examined_of_consulted m y hy)
  case began_of_owner => exact h.began_of_owner
  case consulted_of_dependent => exact h.consulted_of_dependent

theorem advances_examine {r : Run} {x : EntityId} :
  r.Advances none [] (r.examine x)
  where
    journal := rfl
    examined y hy := mem_insert_iff.2 (Or.inr hy)
    admitted _ := id
    fresh _ := Or.inl
    bodies _ := Or.inl
    dependents _ _ _ := id
    began := by simp
    owned := by simp
    backlog := .refl _

/-- An entity is admitted provisionally whose declaration has begun. -/
theorem Coherent.enroll {r : Run} (h : r.Coherent) {x : EntityId}
    (hx : x ∈ r.verdicts.examined) (hb : .began (.declaration x) ∈ r.journal) :
  (r.enroll x).Coherent
  where
    mem_examined y hy := by
      obtain rfl | hy := mem_insert_iff.1 hy
      · exact hx
      · exact h.mem_examined y hy
    mem_admitted y hy := mem_insert_iff.2 (Or.inr (h.mem_admitted y hy))
    began_of_upholds m hm := by
      cases m with
      | declaration y =>
        obtain rfl | hy := mem_insert_iff.1 (Verdicts.upholds_declaration.1 hm)
        · exact hb
        · exact h.began_of_upholds _ (Verdicts.upholds_declaration.2 hy)
      | body y => exact h.began_of_upholds (.body y) hm
      | aspects y => simp at hm
    examined_of_began := h.examined_of_began
    examined_of_consulted := h.examined_of_consulted
    began_of_owner := h.began_of_owner
    consulted_of_dependent := h.consulted_of_dependent

theorem journal_open (r : Run) (e : Entity) (mode : Option Mode × Option EntityId) :
  (r.open e mode).journal = .began (.declaration e.name) :: r.journal
  := (r.examine e.name).journal_start _ _

theorem verdicts_open (r : Run) (e : Entity) (mode : Option Mode × Option EntityId) :
  ∃ reporting, (r.open e mode).verdicts = { r.verdicts with
    examined := r.verdicts.examined.insert e.name
    admitted := r.verdicts.admitted.insert e.name
    reporting }
  := by
  obtain ⟨reporting, hv⟩ :=
    (r.examine e.name).verdicts_start (e.declarationScope mode) (.declaration e.name)
  use reporting
  simp only [Run.open, enroll, rule, hv]
  rfl

/-- The inquiry into an entity starts that was not examined before. -/
theorem advances_open {r : Run} {e : Entity} (hf : e.name ∉ r.verdicts.examined)
    (mode : Option Mode × Option EntityId) :
  r.Advances none [.began (.declaration e.name)] (r.open e mode)
  := by
  obtain ⟨reporting, hv⟩ := r.verdicts_open e mode
  constructor
  case journal => exact r.journal_open e mode
  case examined =>
    rw [hv]
    exact fun x hx => mem_insert_iff.2 (Or.inr hx)
  case admitted =>
    rw [hv]
    exact fun x hx => mem_insert_iff.2 (Or.inr hx)
  case fresh =>
    intro x hx
    rw [hv] at hx
    obtain rfl | hx := mem_insert_iff.1 hx
    · exact Or.inr hf
    · exact Or.inl hx
  case bodies =>
    rw [hv]
    exact fun _ => Or.inl
  case dependents =>
    intro x _ m hm
    rw [hv]
    exact hm
  case began =>
    intro x hx hb
    rw [List.mem_singleton, Event.began.injEq, Matter.declaration.injEq] at hb
    exact hf (hb ▸ hx)
  case owned =>
    intro e' he' m' ho
    rw [List.mem_singleton.1 he'] at ho
    cases ho
  case backlog => rw [hv]

/-- The run in which the inquiry into an entity starts that was not examined before. -/
theorem open_step {r : Run} (h : r.Coherent) {e : Entity}
    (hf : e.name ∉ r.verdicts.examined) (mode : Option Mode × Option EntityId) :
  r.Advances none [.began (.declaration e.name)] (r.open e mode)
    ∧ (r.open e mode).Coherent
    ∧ (r.open e mode).Under (some (.declaration e.name))
    ∧ e.name ∈ (r.open e mode).verdicts.examined
  := by
  have hx : e.name ∈ (r.examine e.name).verdicts.examined := mem_insert_iff.2 (Or.inl rfl)
  have hs := (h.examine e.name).start (e.declarationScope mode) (m := .declaration e.name) hx
  have hu := (r.examine e.name).under_start (e.declarationScope mode) (.declaration e.name)
  have hb := hu _ rfl rfl
  obtain ⟨reporting, hv⟩ := r.verdicts_open e mode
  refine ⟨advances_open hf mode, hs.enroll (hs.examined_of_began _ hb) hb, hu, ?_⟩
  rw [hv]
  exact mem_insert_iff.2 (Or.inl rfl)

/-! ### Exclusions -/

theorem Coherent.strikes {r r' : Run} {id : EntityId} (h : r.Coherent)
    (hs : r.Strikes id r') :
  r'.Coherent
  := by
  have he : r'.verdicts.examined = r.verdicts.examined := by rw [hs.frame]
  constructor
  case mem_examined =>
    rw [he]
    exact fun x hx => h.mem_examined x (hs.admitted hx)
  case mem_admitted =>
    intro x hx
    by_contra hx'
    exact hs.lost_body x ⟨h.mem_admitted x (hs.admittedBodies hx), hx'⟩ hx
  case began_of_upholds =>
    intro m hm
    rw [hs.mem_journal (by simp)]
    exact h.began_of_upholds m (hs.upholds m hm)
  case examined_of_began =>
    intro x hx
    rw [hs.mem_journal (by simp)] at hx
    rw [he]
    exact h.examined_of_began x hx
  case examined_of_consulted =>
    intro m x hx
    rw [hs.mem_journal (by simp)] at hx
    rw [he]
    exact h.examined_of_consulted m x hx
  case began_of_owner =>
    intro e he' m ho hr
    rw [hs.mem_journal (by rintro x cause rfl; cases ho)] at he'
    rw [hs.mem_journal (by simp)]
    exact h.began_of_owner e he' m ho hr
  case consulted_of_dependent =>
    intro x m hm
    rw [hs.mem_journal (by simp)]
    exact h.consulted_of_dependent x m (hs.dependents x m hm)

/-- What is hit from an entity that was not examined in `r` was not examined in `r`. -/
theorem not_mem_examined_of_hit {r r₁ : Run} {new : List Event} (h : r.Coherent)
    (ha : r.Advances none new r₁) (h₁ : r₁.Coherent) {origin x : EntityId}
    (ho : origin ∉ r.verdicts.examined) (hx : r₁.verdicts.Hit [origin] x) :
  x ∉ r.verdicts.examined
  := by
  have step {c y : EntityId} (hc : c ∉ r.verdicts.examined)
      (hy : .declaration y ∈ r₁.verdicts.dependentsOf c) : y ∉ r.verdicts.examined := by
    intro hy'
    have hj := h₁.consulted_of_dependent c _ hy
    rw [ha.journal, List.mem_append] at hj
    obtain hj | hj := hj
    · obtain h₀ | h₀ := ha.owned _ hj _ rfl rfl
      · cases h₀
      · exact ha.began y hy' h₀
    · exact hc (h.examined_of_consulted _ c hj)
  induction hx with
  | first hc hy _ =>
    rw [List.mem_singleton] at hc
    subst hc
    exact step ho hy
  | next _ hy _ ih => exact step ih hy

/-- The exclusion of an entity at the end of its decision leaves alone what was examined
before it. -/
theorem strikes_step {r r₁ r' : Run} {new : List Event} {id : EntityId} (h : r.Coherent)
    (ha : r.Advances none new r₁) (h₁ : r₁.Coherent) (hf : id ∉ r.verdicts.examined)
    (hs : r₁.Strikes id r') :
  ∃ new, r.Advances none new r'
  := by
  have kept {x : EntityId} (hx : x ∈ r₁.verdicts.admitted)
      (hx' : x ∈ r.verdicts.examined) : x ∈ r'.verdicts.admitted := by
    by_contra hl
    obtain rfl | hit := hs.hit x ⟨hx, hl⟩
    · exact hf hx'
    · exact not_mem_examined_of_hit h ha h₁ hf hit hx'
  obtain ⟨new', hj, hn⟩ := hs.journal
  have not_new {e : Event} (he : ∀ x cause, e ≠ .excluded x cause) : e ∉ new' := by
    intro hm
    obtain ⟨x, cause, rfl⟩ := hn e hm
    exact he x cause rfl
  refine ⟨new' ++ new, ?_⟩
  constructor
  case journal => rw [hj, ha.journal, List.append_assoc]
  case examined =>
    rw [hs.frame]
    exact ha.examined
  case admitted => exact fun x hx => kept (ha.admitted x hx) (h.mem_examined x hx)
  case fresh => exact fun x hx => ha.fresh x (hs.admitted hx)
  case bodies =>
    intro x hx
    obtain hx | hx := ha.bodies x (hs.admittedBodies hx)
    · exact Or.inl hx
    · exact Or.inr (List.mem_append_right _ hx)
  case dependents =>
    intro x hx m hm
    have hxe := h.mem_examined x hx
    apply hs.dependents_of_kept
    · rintro rfl
      exact hf hxe
    · exact fun hl => hl.2 (kept (ha.admitted x hx) hxe)
    · exact ha.dependents x hx m hm
  case began =>
    intro x hx hb
    obtain hb | hb := List.mem_append.1 hb
    · exact not_new (by simp) hb
    · exact ha.began x hx hb
  case owned =>
    intro e he m ho hr
    obtain he | he := List.mem_append.1 he
    · obtain ⟨x, cause, rfl⟩ := hn e he
      cases ho
    · obtain h₀ | h₀ := ha.owned e he m ho hr
      · exact Or.inl h₀
      · exact Or.inr (List.mem_append_right _ h₀)
  case backlog =>
    rw [hs.frame]
    exact ha.backlog

/-! ### Bodies -/

theorem concludeBody_step {r : Run} (h : r.Coherent) {e : Entity}
    (hb : .began (.body e.name) ∈ r.journal) :
  (r.concludeBody e).Coherent
  := by
  unfold concludeBody
  split
  · next hc =>
    rw [Bool.and_eq_true] at hc
    have ha : e.name ∈ r.verdicts.admitted := hc.2
    refine Coherent.note ?_ (by simp) (by simp) (by simp [Event.owner])
    constructor
    case mem_examined => exact h.mem_examined
    case mem_admitted =>
      intro x hx
      obtain rfl | hx := mem_insert_iff.1 hx
      · exact ha
      · exact h.mem_admitted x hx
    case began_of_upholds =>
      intro m hm
      cases m with
      | declaration x => exact h.began_of_upholds _ hm
      | body x =>
        obtain rfl | hx := mem_insert_iff.1 (Verdicts.upholds_body.1 hm)
        · exact hb
        · exact h.began_of_upholds _ (Verdicts.upholds_body.2 hx)
      | aspects x => simp at hm
    case examined_of_began => exact h.examined_of_began
    case examined_of_consulted => exact h.examined_of_consulted
    case began_of_owner => exact h.began_of_owner
    case consulted_of_dependent => exact h.consulted_of_dependent
  · exact Same.coherent (r := r) ⟨rfl, rfl, rfl, rfl, rfl, .refl _⟩ h

theorem advances_concludeBody {r r₁ : Run} {m : Option Matter} {new : List Event}
    (h : r.Advances m new r₁) {e : Entity} (hb : .began (.body e.name) ∈ new) :
  ∃ verdict, r.Advances m (verdict ++ new) (r₁.concludeBody e)
  := by
  unfold concludeBody
  split
  · refine ⟨[.admittedBody e.name], Advances.append ?_
      (advances_note _ (by simp) m (Or.inl rfl))⟩
    constructor
    case journal => exact h.journal
    case examined => exact h.examined
    case admitted => exact h.admitted
    case fresh => exact h.fresh
    case bodies =>
      intro x hx
      obtain rfl | hx := mem_insert_iff.1 hx
      · exact Or.inr hb
      · exact h.bodies x hx
    case dependents => exact h.dependents
    case began => exact h.began
    case owned => exact h.owned
    case backlog => exact h.backlog
  · exact ⟨[], h.same ⟨rfl, rfl, rfl, rfl, rfl, .refl _⟩⟩

/-- A matter that is a body begins. -/
theorem advances_start (r : Run) (scope : Scope) (x : EntityId) :
  r.Advances none [.began (.body x)] (r.start scope (.body x))
  := by
  obtain ⟨reporting, hv⟩ := r.verdicts_start scope (.body x)
  constructor
  case journal => apply journal_start
  case examined =>
    rw [hv]
    exact fun _ => id
  case admitted =>
    rw [hv]
    exact fun _ => id
  case fresh =>
    rw [hv]
    exact fun _ => Or.inl
  case bodies =>
    rw [hv]
    exact fun _ => Or.inl
  case dependents =>
    rw [hv]
    exact fun _ _ _ => id
  case began => simp
  case owned =>
    intro e he m ho
    rw [List.mem_singleton.1 he] at ho
    cases ho
  case backlog => rw [hv]

end Run

/-! ### Passages -/

/-- The matter under way on a course. -/
def Course.matter : Course → Option Matter
  | .steps scope _ => scope.matter
  | .decision _ => none

namespace Setting

variable {S : Setting}

theorem under_decision (r : Run) (id : EntityId) :
  r.Under (Course.decision id).matter
  := by
  rintro m ⟨⟩

theorem plain_step {scope : Scope} {s : Step} {r r' : Run} (h : S.Plain scope s r r')
    (hr : r.Coherent) (hu : r.Under scope.matter) :
  ∃ new, r.Advances scope.matter new r' ∧ r'.Coherent
  := by
  have same (hs : r.Same r') : ∃ new, r.Advances scope.matter new r' ∧ r'.Coherent :=
    ⟨[], hs.advances _, hs.coherent hr⟩
  cases h with
  | visit =>
    refine ⟨_, r.advances_note (by simp) _ (Or.inr rfl), hr.note (by simp) (by simp) hu⟩
  | ask =>
    refine ⟨_, r.advances_note (by simp) _ (Or.inr rfl), hr.note (by simp) (by simp) hu⟩
  | find => exact same (r.same_find _ _ _)
  | relax h =>
    obtain ⟨relaxed, rfl⟩ := S.relax_eq_ok h
    exact same ⟨rfl, rfl, rfl, rfl, rfl, .refl _⟩
  | postponeCompletion => exact same (r.same_postpone _)
  | postponeAspects => exact same (r.same_postpone _)
  | _ => exact same ⟨rfl, rfl, rfl, rfl, rfl, .refl _⟩

/-- What a passage from a coherent run leaves alone, as far as it is known of the passages
that it consists of. -/
def Orderly (c : Course) (r r' : Run) : Prop :=
  r.Coherent → r.Under c.matter →
    ∃ new, r.Advances c.matter new r' ∧ r'.Coherent
      ∧ ∀ id, c = .decision id → id ∈ r'.verdicts.examined

theorem decided {e : Entity} {mode : Option Mode × Option EntityId} {path : List Step}
    {r r₁ : Run} (h : Orderly (.steps (e.declarationScope mode) path) (r.open e mode) r₁)
    (hr : r.Coherent) (hf : e.name ∉ r.verdicts.examined) :
  ∃ new, r.Advances none new r₁ ∧ r₁.Coherent ∧ e.name ∈ r₁.verdicts.examined
  := by
  obtain ⟨ha, ho, hu, hx⟩ := Run.open_step hr hf mode
  obtain ⟨new, ha₁, hr₁, -⟩ := h ho hu
  refine ⟨_, ha.trans ha₁ ?_, hr₁, ha₁.examined _ hx⟩
  simp [Course.matter, Entity.declarationScope]

/-- The publication of an entity changes nothing that the invariant is about. -/
theorem same_publish {e : Entity} {r r' : Run} (h : S.publish e r = .ok () r') :
  r.Same r' ∧ r'.cause = r.cause
  := by
  obtain ⟨roster, rfl⟩ := S.publish_eq_ok h
  exact ⟨⟨rfl, rfl, rfl, rfl, rfl, .refl _⟩, rfl⟩

theorem decided_twice {e : Entity} {mode : Option Mode × Option EntityId}
    {path path' : List Step} {r r₁ r₂ r₃ : Run}
    (h : Orderly (.steps (e.declarationScope mode) path) (r.open e mode) r₁)
    (hp : S.publish e r₁ = .ok () r₂)
    (h' : Orderly (.steps (e.declarationScope mode) path') r₂ r₃)
    (hr : r.Coherent) (hf : e.name ∉ r.verdicts.examined) :
  ∃ new, r.Advances none new r₃ ∧ r₃.Coherent ∧ e.name ∈ r₃.verdicts.examined
  := by
  obtain ⟨ha, ho, hu, hx⟩ := Run.open_step hr hf mode
  obtain ⟨new, ha₁, hr₁, -⟩ := h ho hu
  have hs := (same_publish hp).1
  obtain ⟨new', ha₂, hr₂, -⟩ := h' (hs.coherent hr₁) (hu.after (ha₁.same hs))
  have ha' := (ha₁.same hs).append ha₂
  refine ⟨_, ha.trans ha' ?_, hr₂, ha'.examined _ hx⟩
  simp [Course.matter, Entity.declarationScope]

theorem body_step {e : Entity} {mode : Option Mode × Option EntityId} {path : List Step}
    {r r₁ : Run}
    (h : Orderly (.steps (e.bodyScope mode) path) (r.start (e.bodyScope mode) (.body e.name)) r₁)
    (hr : r.Coherent) (hx : e.name ∈ r.verdicts.examined) (cause : Option Site) :
  ∃ new, r.Advances none new { r₁.concludeBody e with cause }
    ∧ Run.Coherent { r₁.concludeBody e with cause } ∧ .began (.body e.name) ∈ new
  := by
  have ha := r.advances_start (e.bodyScope mode) e.name
  obtain ⟨new, ha₁, hr₁, -⟩ := h (hr.start _ hx) (r.under_start _ _)
  have hb : .began (.body e.name) ∈ new ++ [.began (.body e.name)] :=
    List.mem_append_right _ List.mem_cons_self
  have ha₂ : r.Advances none (new ++ [.began (.body e.name)]) r₁ := by
    apply ha.trans ha₁
    simp [Course.matter, Entity.bodyScope]
  have hj : .began (.body e.name) ∈ r₁.journal := by
    rw [ha₂.journal]
    exact List.mem_append_left _ hb
  have hs := (r₁.concludeBody e).same_cause cause
  obtain ⟨verdict, ha₃⟩ := Run.advances_concludeBody ha₂ hb
  exact ⟨_, ha₃.same hs, hs.coherent (Run.concludeBody_step hr₁ hj),
    List.mem_append_right _ hb⟩

/-- What a passage leaves alone. -/
theorem orderly_of_passes {c : Course} {r r' : Run} (h : S.Passes c r r') :
  Orderly c r r'
  := by
  induction h with
  | nil =>
    intro hr _
    exact ⟨[], (Run.Same.refl _).advances _, hr, by simp⟩
  | plain h _ ih =>
    intro hr hu
    obtain ⟨new, ha, hr₁⟩ := plain_step h hr hu
    obtain ⟨new', ha', hr', -⟩ := ih hr₁ (hu.after ha)
    exact ⟨_, ha.append ha', hr', by simp⟩
  | decide _ _ ihd ih =>
    intro hr hu
    obtain ⟨new, ha, hr₁, -⟩ := ihd hr (under_decision _ _)
    obtain ⟨new', ha', hr', -⟩ := ih hr₁ (hu.after ha)
    exact ⟨_, (ha.within _).append ha', hr', by simp⟩
  | consult _ _ ihd ih =>
    intro hr hu
    obtain ⟨new, ha, hr₁, hx⟩ := ihd hr (under_decision _ _)
    obtain ⟨ha₂, hr₂⟩ := Run.rest_step hr₁ (hu.after ha) (hx _ rfl) _
    obtain ⟨new', ha', hr', -⟩ := ih hr₂ ((hu.after ha).after ha₂)
    exact ⟨_, ((ha.within _).append ha₂).append ha', hr', by simp⟩
  | declare _ _ _ ihd ih =>
    intro hr hu
    obtain ⟨new, ha, hr₁, -⟩ := ihd hr (under_decision _ _)
    obtain ⟨new', ha', hr', -⟩ := ih hr₁ (hu.after ha)
    exact ⟨_, (ha.within _).append ha', hr', by simp⟩
  | declareResting _ _ _ _ ihd ih =>
    intro hr hu
    obtain ⟨new, ha, hr₁, -⟩ := ihd hr (under_decision _ _)
    obtain ⟨new', ha', hr', -⟩ := ih hr₁ (hu.after ha)
    exact ⟨_, (ha.within _).append ha', hr', by simp⟩
  | @bodyExcluded scope e mode inner path r r₁ r' _ _ _ ihd ih =>
    intro hr hu
    obtain ⟨new, ha, hr₁, -⟩ := ihd hr (under_decision _ _)
    have hs := r₁.same_inheritCause e
    obtain ⟨new', ha', hr', -⟩ := ih (hs.coherent hr₁) (hu.after (ha.same hs))
    exact ⟨_, ((ha.within _).same hs).append ha', hr', by simp⟩
  | bodyOff _ _ _ _ ihd ih =>
    intro hr hu
    obtain ⟨new, ha, hr₁, -⟩ := ihd hr (under_decision _ _)
    obtain ⟨new', ha', hr', -⟩ := ih hr₁ (hu.after ha)
    exact ⟨_, (ha.within _).append ha', hr', by simp⟩
  | @body scope e mode inner mode' path innerPath r r₁ r₂ r' _ _ _ _ _ _ _ ihd ihw ih =>
    intro hr hu
    obtain ⟨new, ha, hr₁, hx⟩ := ihd hr (under_decision _ _)
    obtain ⟨new₂, ha₂, hr₂, -⟩ := body_step ihw hr₁ (hx _ rfl) r₁.cause
    have ha₃ := (ha.append ha₂).within scope.matter
    obtain ⟨new', ha', hr', -⟩ := ih hr₂ (hu.after ha₃)
    exact ⟨_, ha₃.append ha', hr', by simp⟩
  | @known id r h =>
    intro hr hu
    refine ⟨[], (Run.Same.refl _).advances _, hr, ?_⟩
    rintro _ ⟨⟩
    exact h
  | @off e anchor r _ _ _ =>
    intro hr hu
    refine ⟨[], Run.advances_examine, hr.examine _, ?_⟩
    rintro _ ⟨⟩
    exact mem_insert_iff.2 (Or.inl rfl)
  | @reject e mode path r r₁ o _ _ _ ih =>
    intro hr hu
    obtain ⟨new, ha, hr₁, hx⟩ := decided ih hr o.fresh
    have hx' := Run.strikes_exclude r₁ S.program e
    obtain ⟨new', ha'⟩ := Run.strikes_step hr ha hr₁ o.fresh hx'
    have hs := (r₁.exclude S.program e).same_cause r.cause
    refine ⟨_, ha'.same hs, hs.coherent (hr₁.strikes hx'), ?_⟩
    rintro _ ⟨⟩
    rwa [hs.examined, hx'.frame]
  | @revoke e mode path path' r r₁ r₂ r₃ o _ _ _ _ hp _ _ _ ih ih' =>
    intro hr hu
    obtain ⟨new, ha, hr₃, hx⟩ := decided_twice ih hp ih' hr o.fresh
    have hx' := Run.strikes_exclude r₃ S.program e
    obtain ⟨new', ha'⟩ := Run.strikes_step hr ha hr₃ o.fresh hx'
    have hs := (r₃.exclude S.program e).same_cause r.cause
    refine ⟨_, ha'.same hs, hs.coherent (hr₃.strikes hx'), ?_⟩
    rintro _ ⟨⟩
    rwa [hs.examined, hx'.frame]
  | @grant e mode path path' r r₁ r₂ r₃ o _ _ _ _ hp _ _ _ ih ih' =>
    intro hr hu
    obtain ⟨new, ha, hr₃, hx⟩ := decided_twice ih hp ih' hr o.fresh
    have hs := r₃.same_follow e.followers r.cause
    refine ⟨_, ha.same hs, hs.coherent hr₃, ?_⟩
    rintro _ ⟨⟩
    exact hx

end Setting

end Conformance
