import Conformance.Proofs.Bodies
import Conformance.Proofs.Locality

/-!
# What upheld verdicts rest on

`Run.Rests` says that a matter rests on what it consulted: all of that is admitted, and
the matter depends on it.  `Setting.Tracks` says what the steps of a matter under way come
to, as long as the matter begins no second time: if it is not violated in the end, then
all steps were clean, and it rests on what it consulted.
-/

namespace Conformance

/-- Whether an event is the beginning of a matter. -/
def Event.begins (m : Matter) : Event → Bool
  | .began m' => m' == m
  | _ => false

namespace Run

/-- How often a matter began. -/
def rounds (r : Run) (m : Matter) : Nat := r.journal.countP (Event.begins m)

theorem begins_iff {m : Matter} {e : Event} :
  Event.begins m e = true ↔ e = .began m
  := by cases e <;> simp [Event.begins]

theorem rounds_pos_iff {r : Run} {m : Matter} :
  0 < r.rounds m ↔ .began m ∈ r.journal
  := by simp [rounds, List.countP_pos_iff, begins_iff]

theorem Advances.rounds_eq {r r' : Run} {m' : Option Matter} {new : List Event}
    (h : r.Advances m' new r') (m : Matter) :
  r'.rounds m = new.countP (Event.begins m) + r.rounds m
  := by rw [rounds, h.journal, List.countP_append, rounds]

/-- A matter that begins no second time begins nowhere on the way. -/
theorem Advances.not_began {r r' : Run} {m' : Option Matter} {new : List Event}
    (h : r.Advances m' new r') {m : Matter} (he : r'.rounds m = r.rounds m) :
  .began m ∉ new
  := by
  intro hb
  have hp : 0 < new.countP (Event.begins m) :=
    List.countP_pos_iff.2 ⟨_, hb, begins_iff.2 rfl⟩
  have := h.rounds_eq m
  omega

/-- A matter rests on what it consulted. -/
def Rests (r : Run) (m : Matter) : Prop :=
  ∀ x, .consulted (some m) x ∈ r.journal →
    x ∈ r.verdicts.admitted ∧ (m ∈ r.verdicts.dependentsOf x ∨ m = .declaration x)

/-- What happens within other matters leaves alone what a matter rests on. -/
theorem Rests.advances {r r' : Run} {m : Matter} (h : r.Rests m) (hm : m.isRevocable)
    {m' : Option Matter} {new : List Event} (ha : r.Advances m' new r') (hne : m' ≠ some m)
    (hb : .began m ∉ new) :
  r'.Rests m
  := by
  intro x hx
  rw [ha.journal, List.mem_append] at hx
  obtain hx | hx := hx
  · obtain h₀ | h₀ := ha.owned _ hx m rfl hm
    · exact absurd h₀ hne
    · exact absurd h₀ hb
  · obtain ⟨hadm, hd⟩ := h x hx
    refine ⟨ha.admitted x hadm, ?_⟩
    obtain hd | hd := hd
    · exact Or.inl (ha.dependents x hadm m hd)
    · exact Or.inr hd

theorem Rests.same {r r' : Run} {m : Matter} (h : r.Rests m) (hs : r.Same r') :
  r'.Rests m
  := by
  intro x hx
  rw [hs.journal] at hx
  rw [hs.admitted, hs.dependentsOf]
  exact h x hx

/-- A matter that rests on what it consulted goes on to do so when it consults an entity
that is admitted. -/
theorem Rests.rest {r : Run} {scope : Scope} {m : Matter} (h : r.Rests m)
    (hs : scope.matter = some m) (hm : m.isRevocable) {id : EntityId} {site : Site}
    (ha : r.admits id = true) :
  (r.rest scope id site).Rests m
  := by
  intro x hx
  unfold Run.rest at hx ⊢
  simp only [ha, if_true, hs] at hx ⊢
  change .consulted (some m) x ∈ .consulted (some m) id :: r.journal at hx
  rw [List.mem_cons, Event.consulted.injEq] at hx
  simp only [rule, note, Verdicts.admitted_depend, Verdicts.mem_dependentsOf_depend]
  obtain ⟨-, rfl⟩ | hx := hx
  · refine ⟨Run.admits_iff.1 ha, ?_⟩
    by_cases he : m = .declaration x
    · exact Or.inr he
    · simp [hm, he]
  · obtain ⟨hx, hd⟩ := h x hx
    refine ⟨hx, ?_⟩
    obtain hd | hd := hd
    · exact Or.inl (Or.inl hd)
    · exact Or.inr hd

/-- A run shows that a matter asked for an entity after what happened in the past, and after
it came to the nodes of its steps before.  If the answer was no, the entity stays out for
good unless it had not begun by then. -/
def Asks (r : Run) (m : Matter) (past : List Event) (before : List Step) (id : EntityId)
    (b : Bool) : Prop :=
  ∃ later earlier, r.journal = later ++ .asked (some m) id :: earlier ∧ past ⊆ earlier
    ∧ (∀ role n, .visit role n ∈ before → .visited (some m) role n ∈ earlier)
    ∧ (b = false → id ∈ r.verdicts.admitted → .began (.declaration id) ∉ earlier)

/-- What a run shows of a question, later runs show. -/
theorem Asks.later {r r' : Run} {new past past' : List Event} {m : Matter}
    {before : List Step} {id : EntityId} {b : Bool} (h : r.Asks m past before id b)
    (hr : r.Coherent) (hj : r'.journal = new ++ r.journal) (hp : past' ⊆ past)
    (ha : ∀ x ∈ r'.verdicts.admitted, x ∈ r.verdicts.admitted ∨ x ∉ r.verdicts.examined) :
  r'.Asks m past' before id b
  := by
  obtain ⟨later, earlier, he, hpast, hv, hn⟩ := h
  refine ⟨new ++ later, earlier, by rw [hj, he, List.append_assoc], fun _ hx => hpast (hp hx),
    hv, fun hf hx => ?_⟩
  obtain hx | hx := ha id hx
  · exact hn hf hx
  · intro hbe
    apply hx
    apply hr.examined_of_began
    rw [he]
    exact List.mem_append_right _ (List.mem_cons_of_mem _ hbe)

end Run

namespace Setting

variable (S : Setting)

/-- What a run shows of a step that a matter took. -/
def Records (r : Run) (m : Matter) : Step → Prop
  | .visit role n => .visited (some m) role n ∈ r.journal
  | .consult id _ _ => .consulted (some m) id ∈ r.journal
  | .declare id _ (some _) => .consulted (some m) id ∈ r.journal
  | .declare id _ none => S.isOff id = .ok true
  | .postponeCompletion access => r.verdicts.backlog.takes (.completion access) = false
  | _ => True

/-- The steps of a matter from one run to another. -/
structure Tracks (m : Matter) (path : List Step) (r r' : Run) : Prop where
  clean : r'.cause = none → r.cause = none ∧ ∀ s ∈ path, s.isClean
  rests : r'.cause = none → r.Rests m → r'.Rests m
  grows : r.journal ⊆ r'.journal
  records : ∀ s ∈ path, S.Records r' m s
  asks : ∀ p id b q, path = p ++ .ask id b :: q → r'.Asks m r.journal p id b
  visits : ∀ role n, .visited (some m) role n ∈ r'.journal →
    .visited (some m) role n ∈ r.journal ∨ .visit role n ∈ path

variable {S}

/-- What a run shows of a step, later runs show. -/
theorem Records.later {r r' : Run} {new : List Event} {m : Matter} {s : Step}
    (h : S.Records r m s) (hj : r'.journal = new ++ r.journal)
    (hb : ∀ t, r.verdicts.backlog.takes t = false → r'.verdicts.backlog.takes t = false) :
  S.Records r' m s
  := by
  have mem (e : Event) (he : e ∈ r.journal) : e ∈ r'.journal := by
    rw [hj]
    exact List.mem_append_right _ he
  cases s with
  | visit role n => exact mem _ h
  | consult id site b => exact mem _ h
  | declare id site b =>
    cases b with
    | none => exact h
    | some b => exact mem _ h
  | postponeCompletion access => exact hb _ h
  | _ => trivial

theorem Records.advances {r r' : Run} {m' : Option Matter} {new : List Event} {m : Matter}
    {s : Step} (h : S.Records r m s) (ha : r.Advances m' new r') :
  S.Records r' m s
  := h.later ha.journal ha.backlog.taken

namespace Tracks

variable {m : Matter} {p q : List Step} {r r₁ r' : Run}

theorem append {m' : Option Matter} {new : List Event} (h : S.Tracks m p r r₁)
    (h' : S.Tracks m q r₁ r') (hr : r₁.Coherent) (ha : r₁.Advances m' new r') :
  S.Tracks m (p ++ q) r r'
  where
    clean hc := by
      obtain ⟨hc₁, hq⟩ := h'.clean hc
      obtain ⟨hc₀, hp⟩ := h.clean hc₁
      refine ⟨hc₀, fun s hs => ?_⟩
      obtain hs | hs := List.mem_append.1 hs
      · exact hp s hs
      · exact hq s hs
    rests hc hrs := h'.rests hc (h.rests (h'.clean hc).1 hrs)
    grows := List.Subset.trans h.grows h'.grows
    records s hs := by
      obtain hs | hs := List.mem_append.1 hs
      · exact (h.records s hs).advances ha
      · exact h'.records s hs
    asks p₁ id b q₁ he := by
      obtain ⟨q₂, rfl, hq⟩ | ⟨q₂, rfl, hq⟩ := List.append_eq_append_iff.1 he
      · -- The question is among the later steps; the earlier ones came to their nodes before.
        obtain ⟨later, earlier, hj, hpast, hv, hn⟩ := h'.asks q₂ id b q₁ hq
        refine ⟨later, earlier, hj, List.Subset.trans h.grows hpast, fun role n hs => ?_, hn⟩
        obtain hs | hs := List.mem_append.1 hs
        · exact hpast (h.records _ hs)
        · exact hv role n hs
      · cases q₂ with
        | nil =>
          obtain ⟨later, earlier, hj, hpast, -, hn⟩ := h'.asks [] id b q₁ hq.symm
          refine ⟨later, earlier, hj, List.Subset.trans h.grows hpast, fun role n hs => ?_, hn⟩
          exact hpast (h.records _ (List.mem_append_left _ hs))
        | cons s q₂ =>
          obtain ⟨rfl, -⟩ := List.cons.inj hq
          exact (h.asks p₁ id b q₂ rfl).later hr ha.journal (List.Subset.refl _) ha.fresh
    visits role n hv := by
      obtain hv | hv := h'.visits role n hv
      · obtain hv | hv := h.visits role n hv
        · exact Or.inl hv
        · exact Or.inr (List.mem_append_left _ hv)
      · exact Or.inr (List.mem_append_right _ hv)

/-- What is decided within a matter is no step of it. -/
theorem nested {new : List Event} (ha : r.Advances none new r') (hm : m.isRevocable)
    (hb : .began m ∉ new) (hc : r'.cause = r.cause) :
  S.Tracks m [] r r'
  where
    clean hc' := by
      rw [hc] at hc'
      simp [hc']
    rests _ h := h.advances hm ha (by simp) hb
    grows := by
      rw [ha.journal]
      exact List.subset_append_right _ _
    records := by simp
    asks := by simp
    visits role n hv := by
      rw [ha.journal, List.mem_append] at hv
      obtain hv | hv := hv
      · obtain h₀ | h₀ := ha.owned _ hv m rfl hm
        · cases h₀
        · exact absurd h₀ hb
      · exact Or.inl hv

/-- A step that changes nothing which the invariant is about. -/
theorem ofSame {s : Step} (hs : r.Same r') (hc : r'.cause = none → r.cause = none ∧ s.isClean)
    (hq : ∀ id b, s ≠ .ask id b) (hr : S.Records r' m s) :
  S.Tracks m [s] r r'
  where
    clean := by simpa using hc
    rests _ h := h.same hs
    grows := by
      rw [hs.journal]
      exact List.Subset.refl _
    records := by simpa using hr
    asks p id b q he := by
      obtain ⟨-, he⟩ | ⟨-, he⟩ := List.singleton_eq_append_iff.1 he
      · exact absurd (List.cons.inj he).1.symm (hq id b)
      · cases he
    visits role n hv := by
      rw [hs.journal] at hv
      exact Or.inl hv

/-- A step that is taken when something was decided within a matter. -/
theorem last {s : Step} (h : S.Tracks m [] r r') (hr : r'.Coherent) (hs : s.isClean)
    (hq : ∀ id b, s ≠ .ask id b) (hrs : S.Records r' m s) :
  S.Tracks m [s] r r'
  := h.append (.ofSame (.refl _) (fun hc => ⟨hc, hs⟩) hq hrs) hr ((Run.Same.refl _).advances none)

theorem ofNote {s : Step} {e : Event} (hs : s.isClean)
    (hn : ∀ x, e ≠ .consulted (some m) x)
    (hv : ∀ role n, e = .visited (some m) role n → s = .visit role n)
    (hq : ∀ id b, s = .ask id b → (r.note e).Asks m r.journal [] id b)
    (hr : S.Records (r.note e) m s) :
  S.Tracks m [s] r (r.note e)
  := by
  have mem (e' : Event) : e' ∈ (r.note e).journal ↔ e' = e ∨ e' ∈ r.journal := List.mem_cons
  constructor
  case clean => exact fun hc => ⟨hc, by simpa using hs⟩
  case rests =>
    intro _ h x hx
    rw [mem] at hx
    exact h x (hx.resolve_left fun hx => hn x hx.symm)
  case grows => exact List.subset_cons_self e r.journal
  case records => simpa using hr
  case asks =>
    intro p id b q he
    obtain ⟨rfl, he⟩ | ⟨-, he⟩ := List.singleton_eq_append_iff.1 he
    · obtain ⟨rfl, -⟩ := List.cons.inj he
      exact hq id b rfl
    · cases he
  case visits =>
    intro role n h
    rw [mem] at h
    obtain h | h := h
    · exact Or.inr (by simp [hv role n h.symm])
    · exact Or.inl h

/-- A declaration that rests on an entity leaves the traces of a consultation. -/
theorem declares {id : EntityId} {site : Site} {b : Bool}
    (h : S.Tracks m (.consult id site b :: p) r r') :
  S.Tracks m (.declare id site (some b) :: p) r r'
  where
    clean hc := by
      refine ⟨(h.clean hc).1, fun s hs => ?_⟩
      obtain rfl | hs := List.mem_cons.1 hs
      · exact (h.clean hc).2 (.consult id site b) List.mem_cons_self
      · exact (h.clean hc).2 s (List.mem_cons_of_mem _ hs)
    rests := h.rests
    grows := h.grows
    records s hs := by
      obtain rfl | hs := List.mem_cons.1 hs
      · exact h.records (.consult id site b) List.mem_cons_self
      · exact h.records s (List.mem_cons_of_mem _ hs)
    asks p' id' b' q he := by
      cases p' with
      | nil => cases he
      | cons s p' =>
        obtain ⟨rfl, rfl⟩ := List.cons.inj he
        obtain ⟨later, earlier, hj, hpast, hv, hn⟩ := h.asks (.consult id site b :: p') id' b' q rfl
        refine ⟨later, earlier, hj, hpast, fun role n hs => hv role n ?_, hn⟩
        simpa using hs
    visits role n hv := by
      obtain hv | hv := h.visits role n hv
      · exact Or.inl hv
      · exact Or.inr (by simpa using hv)

end Tracks

theorem cause_flag (r : Run) (cause : Site) :
  (r.flag cause).cause ≠ none
  := by
  unfold Run.flag
  cases r.cause <;> simp

theorem tracks_plain {scope : Scope} {m : Matter} {s : Step} {r r' : Run}
    (h : S.Plain scope s r r') (hs : scope.matter = some m) :
  S.Tracks m [s] r r'
  := by
  cases h with
  | visit =>
    rw [hs]
    apply Tracks.ofNote rfl (by simp)
    · simp
    · simp
    · exact List.mem_cons_self
  | @ask _ id =>
    rw [hs]
    apply Tracks.ofNote rfl (by simp)
    · simp
    · rintro _ _ ⟨⟩
      refine ⟨[], r.journal, rfl, List.Subset.refl _, by simp, fun hf hx => ?_⟩
      have hx : r.admits id = true := Run.admits_iff.2 hx
      rw [hf] at hx
      cases hx
    · trivial
  | @find _ site finding =>
    apply Tracks.ofSame (r.same_find scope site finding)
    · intro hc
      cases finding with
      | warning w =>
        refine ⟨?_, rfl⟩
        simp only [Run.find] at hc
        split at hc <;> exact hc
      | violation v =>
        exfalso
        apply cause_flag r site
        simp only [Run.find, Run.report] at hc
        split at hc <;> exact hc
      | unsupported feature =>
        exfalso
        apply cause_flag r site
        simp only [Run.find, Run.report] at hc
        split at hc <;> exact hc
    · simp
    · trivial
  | relax h =>
    obtain ⟨relaxed, rfl⟩ := S.relax_eq_ok h
    exact .ofSame ⟨rfl, rfl, rfl, rfl, rfl, .refl _⟩ (fun hc => ⟨hc, rfl⟩) (by simp) trivial
  | @postponeCompletion _ access =>
    exact .ofSame (r.same_postpone _) (fun hc => ⟨hc, rfl⟩) (by simp)
      (r.verdicts.backlog.not_takes_push (.completion access))
  | postponeAspects =>
    exact .ofSame (r.same_postpone _) (fun hc => ⟨hc, rfl⟩) (by simp) trivial
  | _ =>
    exact .ofSame ⟨rfl, rfl, rfl, rfl, rfl, .refl _⟩ (fun hc => ⟨hc, rfl⟩) (by simp) trivial

theorem journal_rest (r : Run) (scope : Scope) (id : EntityId) (site : Site) :
  (r.rest scope id site).journal = .consulted scope.matter id :: r.journal
  := by
  obtain ⟨dependents, cause, reports, h⟩ := r.exists_rest scope id site
  rw [h]

theorem cause_rest_of_admits {r : Run} {id : EntityId} (h : r.admits id = true)
    (scope : Scope) (site : Site) :
  (r.rest scope id site).cause = r.cause
  := by
  unfold Run.rest
  rw [if_pos h]
  split <;> rfl

theorem cause_rest_of_not_admits {r : Run} {id : EntityId} (h : r.admits id = false)
    (scope : Scope) (site : Site) :
  (r.rest scope id site).cause ≠ none
  := by
  unfold Run.rest
  rw [if_neg (by simp [h])]
  unfold Run.findExcluded Run.report
  simp only
  split
  · apply cause_flag
  · apply cause_flag

theorem tracks_rest {scope : Scope} {m : Matter} {r : Run} (hs : scope.matter = some m)
    (hm : m.isRevocable) (id : EntityId) (site : Site) :
  S.Tracks m [.consult id site (r.admits id)] r (r.rest scope id site)
  := by
  have hj := journal_rest r scope id site
  rw [hs] at hj
  constructor
  case clean =>
    intro hc
    cases ha : r.admits id with
    | true =>
      rw [cause_rest_of_admits ha] at hc
      exact ⟨hc, by simp [Step.isClean]⟩
    | false => exact absurd hc (cause_rest_of_not_admits ha scope site)
  case rests =>
    intro hc h
    cases ha : r.admits id with
    | true => exact h.rest hs hm ha
    | false => exact absurd hc (cause_rest_of_not_admits ha scope site)
  case grows =>
    rw [hj]
    exact List.subset_cons_self _ _
  case records =>
    intro s hs
    rw [List.mem_singleton.1 hs]
    change _ ∈ (r.rest scope id site).journal
    rw [hj]
    exact List.mem_cons_self
  case asks =>
    intro p id' b q he
    obtain ⟨-, he⟩ | ⟨-, he⟩ := List.singleton_eq_append_iff.1 he <;> cases he
  case visits =>
    intro role n h
    rw [hj, List.mem_cons] at h
    exact Or.inl (h.resolve_left (by simp))

/-- The steps of a matter under way are tracked, if it begins no second time. -/
def Tracked (S : Setting) : Course → Run → Run → Prop
  | .decision _, _, _ => True
  | .steps scope path, r, r' => ∀ m, scope.matter = some m → m.isRevocable →
    r.Coherent → r.Under (some m) → r'.rounds m = r.rounds m → S.Tracks m path r r'

/-- The first steps of a passage are tracked, and the others as well. -/
theorem Tracked.append {scope : Scope} {p q : List Step} {m : Matter} {new : List Event}
    {r r₁ r' : Run} (hs : scope.matter = some m) (hm : m.isRevocable)
    (ha : r.Advances (some m) new r₁) (hr₁ : r₁.Coherent) (hu : r.Under (some m))
    (h : .began m ∉ new → S.Tracks m p r r₁) (hp : S.Passes (.steps scope q) r₁ r')
    (h' : S.Tracked (.steps scope q) r₁ r') (he : r'.rounds m = r.rounds m) :
  S.Tracks m (p ++ q) r r'
  := by
  have hu₁ := hu.after ha
  obtain ⟨new', ha', -, -⟩ := orderly_of_passes hp hr₁ (by simpa [Course.matter, hs] using hu₁)
  have h₁ := ha.rounds_eq m
  have h₂ := ha'.rounds_eq m
  exact (h (ha.not_began (by omega))).append (h' m hs hm hr₁ hu₁ (by omega)) hr₁ ha'

/-- The steps of a matter under way are tracked on every passage. -/
theorem tracked_of_passes {c : Course} {r r' : Run} (h : S.Passes c r r') :
  S.Tracked c r r'
  := by
  induction h with
  | nil =>
    intro m _ _ _ _ _
    exact ⟨by simp, fun _ h => h, List.Subset.refl _, by simp, by simp, fun _ _ => Or.inl⟩
  | plain h rest ih =>
    intro m hs hm hr hu he
    obtain ⟨new, ha, hr₁⟩ := plain_step h hr (by rwa [hs])
    rw [hs] at ha
    exact Tracked.append hs hm ha hr₁ hu (fun _ => tracks_plain h hs) rest ih he
  | @decide scope id path r r₁ r' d rest _ ih =>
    intro m hs hm hr hu he
    obtain ⟨new, ha, hr₁, -⟩ := orderly_of_passes d hr (under_decision _ _)
    have hd (hb : .began m ∉ new) : S.Tracks m [.decide id] r r₁ := by
      have hn := Tracks.nested (S := S) ha hm hb (d.cause_eq S)
      exact hn.last hr₁ rfl (by simp) trivial
    exact Tracked.append hs hm (ha.within _) hr₁ hu hd rest ih he
  | @consult scope id site path r r₁ r' d rest _ ih =>
    intro m hs hm hr hu he
    obtain ⟨new, ha, hr₁, hx⟩ := orderly_of_passes d hr (under_decision _ _)
    have hu₁ := hu.after ha
    obtain ⟨ha₂, hr₂⟩ := Run.rest_step hr₁ (by rwa [hs]) (hx _ rfl) site
    have hd (hb : .began m ∉ .consulted (some m) id :: new) :
        S.Tracks m [.consult id site (r₁.admits id)] r (r₁.rest scope id site) := by
      have hn := Tracks.nested (S := S) ha hm (fun h => hb (List.mem_cons_of_mem _ h))
        (d.cause_eq S)
      exact hn.append (tracks_rest hs hm id site) hr₁ ha₂
    rw [hs] at ha₂
    exact Tracked.append hs hm ((ha.within _).append ha₂) hr₂ hu hd rest ih he
  | @declare scope id site path r r₁ r' d hd rest _ ih =>
    intro m hs hm hr hu he
    obtain ⟨new, ha, hr₁, -⟩ := orderly_of_passes d hr (under_decision _ _)
    have ho : S.isOff id = .ok true := by
      obtain hd | hd := hd
      · simp [hs, hm] at hd
      · exact hd.2
    have hd (hb : .began m ∉ new) : S.Tracks m [.declare id site none] r r₁ := by
      have hn := Tracks.nested (S := S) ha hm hb (d.cause_eq S)
      exact hn.last hr₁ rfl (by simp) ho
    exact Tracked.append hs hm (ha.within _) hr₁ hu hd rest ih he
  | @declareResting scope id site b path r r₁ r' d _ _ rest _ ih =>
    intro m hs hm hr hu he
    obtain ⟨new, ha, hr₁, -⟩ := orderly_of_passes d hr (under_decision _ _)
    have hd (hb : .began m ∉ new) : S.Tracks m [] r r₁ :=
      Tracks.nested ha hm hb (d.cause_eq S)
    exact (Tracked.append hs hm (ha.within _) hr₁ hu hd rest ih he).declares
  | @bodyExcluded scope e mode inner path r r₁ r' d _ rest _ ih =>
    intro m hs hm hr hu he
    obtain ⟨new, ha, hr₁, -⟩ := orderly_of_passes d hr (under_decision _ _)
    have hsame := r₁.same_inheritCause e
    have hd (hb : .began m ∉ new) :
        S.Tracks m [.body e mode inner] r (r₁.inheritCause e) := by
      have hn := Tracks.nested (S := S) ha hm hb (d.cause_eq S)
      exact hn.append (.ofSame hsame (fun hc => ⟨hc, rfl⟩) (by simp) trivial) hr₁
        (hsame.advances none)
    exact Tracked.append hs hm ((ha.within _).same hsame) (hsame.coherent hr₁) hu hd rest ih he
  | @bodyOff scope e mode inner anchor path r r₁ r' d _ _ rest _ ih =>
    intro m hs hm hr hu he
    obtain ⟨new, ha, hr₁, -⟩ := orderly_of_passes d hr (under_decision _ _)
    have hd (hb : .began m ∉ new) : S.Tracks m [.body e mode inner] r r₁ := by
      have hn := Tracks.nested (S := S) ha hm hb (d.cause_eq S)
      exact hn.last hr₁ rfl (by simp) trivial
    exact Tracked.append hs hm (ha.within _) hr₁ hu hd rest ih he
  | @body scope e mode inner mode' path innerPath r r₁ r₂ r' d _ _ _ _ w rest _ _ ih =>
    intro m hs hm hr hu he
    obtain ⟨new, ha, hr₁, hx⟩ := orderly_of_passes d hr (under_decision _ _)
    obtain ⟨new₂, ha₂, hr₂, -⟩ := body_step (orderly_of_passes w) hr₁ (hx _ rfl) r₁.cause
    have hd (hb : .began m ∉ new₂ ++ new) : S.Tracks m [.body e mode inner] r
        { r₂.concludeBody e with cause := r₁.cause } := by
      have hn := Tracks.nested (S := S) (ha.append ha₂) hm hb (d.cause_eq S)
      exact hn.last hr₂ rfl (by simp) trivial
    exact Tracked.append hs hm ((ha.append ha₂).within _) hr₂ hu hd rest ih he
  | _ => trivial

end Setting

end Conformance
