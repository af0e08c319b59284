import Conformance.Proofs.Lasting
import Conformance.Proofs.Rounds

/-!
# The trail of a run

What a run shows of the steps that it went through.  Entities that were consulted or decided
have been examined, and if one of them is admitted by now then the answer was yes.  A body that
was analysed has a path of its own, of whose steps the same is known: it consulted nothing that
is not on this path, and if all steps of the path were clean then the body is admitted unless
it is forfeited.

`Setting.Trodden` says this of a step.  It stays true while the bodies within the step begin no
second time, and `trodden_of_passes` says that it holds of the steps on every passage.
-/

namespace Conformance

/-- Whether a step rests on the verdict of an entity, whatever the verdict is. -/
def Step.consults (x : EntityId) : Step → Prop
  | .consult id _ _ | .declare id _ (some _) => id = x
  | _ => False

/-- The items of the context clause of a compilation unit. -/
def Node.context (n : Node) : List Node :=
  match n.shape with
  | .compilationUnit context _ => context
  | _ => []

/-- No body began twice. -/
def Run.Once (r : Run) : Prop := ∀ x, r.rounds (.body x) ≤ 1

/-- Whether a step is about no other inquiry. -/
def Step.isStill : Step → Bool
  | .consult .. | .declare .. | .decide _ | .body .. => false
  | _ => true

namespace Setting

variable {S : Setting} {m : Matter} {c : Course} {r r₁ r' : Run}

/-! ### Violations -/

theorem cause_rest_eq_none_iff (r : Run) (scope : Scope) (id : EntityId) (site : Site) :
  (r.rest scope id site).cause = none ↔ r.cause = none ∧ r.admits id = true
  := by
  cases ha : r.admits id with
  | true => simp [cause_rest_of_admits ha]
  | false => simp [cause_rest_of_not_admits ha scope site]

theorem cause_find_eq_none_iff (r : Run) (scope : Scope) (site : Site) (finding : Finding) :
  (r.find scope site finding).cause = none ↔ r.cause = none ∧ finding.violates = false
  := by
  cases finding with
  | warning w =>
    simp only [Run.find, Finding.violates, and_true]
    split <;> rfl
  | _ =>
    have hc := cause_flag r site
    simp only [Run.find, Run.report, Finding.violates]
    split <;> simp [hc]

theorem cause_plain_eq_none_iff {scope : Scope} {s : Step} (h : S.Plain scope s r r') :
  r'.cause = none ↔ r.cause = none ∧ s.isClean = true
  := by
  cases h with
  | find => simpa [Step.isClean] using cause_find_eq_none_iff _ _ _ _
  | relax h =>
    obtain ⟨relaxed, rfl⟩ := S.relax_eq_ok h
    simp [Step.isClean, Run.rule]
  | _ => simp [Step.isClean, Run.note, Run.rule]

/-- A matter is violated by the steps that are not clean, and by nothing else. -/
theorem cause_eq_none_iff (h : S.Passes c r r') :
  r'.cause = none ↔ r.cause = none ∧ ∀ s ∈ c.path, s.isClean = true
  := by
  induction h with
  | plain hp _ ih => rw [ih, cause_plain_eq_none_iff hp]; simp [Course.path, and_assoc]
  | consult d _ _ ih =>
    rw [ih, cause_rest_eq_none_iff, d.cause_eq S]
    simp [Course.path, Step.isClean, and_assoc]
  | decide d _ _ ih | declare d _ _ _ ih | declareResting d _ _ _ _ ih | bodyOff d _ _ _ _ ih =>
    rw [ih, d.cause_eq S]
    simp [Course.path, Step.isClean]
  | @bodyExcluded scope e mode inner path r r₁ r' d _ _ _ ih =>
    have hc : (r₁.inheritCause e).cause = r₁.cause := rfl
    rw [ih, hc, d.cause_eq S]
    simp [Course.path, Step.isClean]
  | @body scope e mode inner mode' path innerPath r r₁ r₂ r' d _ _ _ _ _ _ _ _ ih =>
    have hc : ({ r₂.concludeBody e with cause := r₁.cause } : Run).cause = r₁.cause := rfl
    rw [ih, hc, d.cause_eq S]
    simp [Course.path, Step.isClean]
  | nil | known => simp [Course.path]
  | off =>
    rw [Run.examine, Run.rule]
    simp [Course.path]
  | reject | revoke | grant => simp [Course.path]

/-! ### What a matter consulted -/

theorem rounds_le_of_passes (h : S.Passes c r r') (hs : S.Steady c.matter r) (m : Matter) :
  r.rounds m ≤ r'.rounds m
  := by
  obtain ⟨new, ha, -⟩ := orderly_of_passes h hs.coherent hs.under
  exact Run.rounds_le_of_journal ha.journal m

/-- A matter that is not under way and does not begin consults nothing. -/
theorem consulted_apart (h : S.Passes c r r') (hs : S.Steady c.matter r) (hm : m.isRevocable)
    (hc : c.matter ≠ some m) (he : r'.rounds m ≤ r.rounds m) {x : EntityId}
    (hx : .consulted (some m) x ∈ r'.journal) :
  .consulted (some m) x ∈ r.journal
  := by
  obtain ⟨new, ha, -⟩ := orderly_of_passes h hs.coherent hs.under
  have hle := Run.rounds_le_of_journal ha.journal m
  rw [ha.journal, List.mem_append] at hx
  refine hx.resolve_left fun hx => ?_
  obtain h₀ | h₀ := ha.owned _ hx m rfl hm
  · exact hc h₀
  · exact ha.not_began (by omega) h₀

/-- What the first step of a path and the other steps consult. -/
theorem consulted_cons {scope : Scope} {s : Step} {path : List Step} {x : EntityId}
    (hs : S.Steady scope.matter r₁) (w : S.Passes (.steps scope path) r₁ r')
    (hle : r.rounds m ≤ r₁.rounds m) (he : r'.rounds m ≤ r.rounds m)
    (h : r₁.rounds m ≤ r.rounds m → .consulted (some m) x ∈ r₁.journal →
      .consulted (some m) x ∈ r.journal ∨ s.consults x)
    (ih : r'.rounds m ≤ r₁.rounds m →
      .consulted (some m) x ∈ r₁.journal ∨ ∃ s ∈ path, s.consults x) :
  .consulted (some m) x ∈ r.journal ∨ ∃ s' ∈ s :: path, s'.consults x
  := by
  have hle' := rounds_le_of_passes w hs m
  obtain hx | ⟨s', hs', hx⟩ := ih (by omega)
  · obtain hx | hx := h (by omega) hx
    · exact Or.inl hx
    · exact Or.inr ⟨s, List.mem_cons_self, hx⟩
  · exact Or.inr ⟨s', List.mem_cons_of_mem _ hs', hx⟩

/-- A matter under way that begins no second time consults what its steps do. -/
theorem consulted_on_path (h : S.Passes c r r') (hs : S.Steady c.matter r) (hm : m.isRevocable)
    (hc : c.matter = some m) (he : r'.rounds m ≤ r.rounds m) {x : EntityId}
    (hx : .consulted (some m) x ∈ r'.journal) :
  .consulted (some m) x ∈ r.journal ∨ ∃ s ∈ c.path, s.consults x
  := by
  have decided {id : EntityId} {r r₁ : Run} {m' : Option Matter} (d : S.Passes (.decision id) r r₁)
      (hs : S.Steady m' r) (he : r₁.rounds m ≤ r.rounds m)
      (hx : .consulted (some m) x ∈ r₁.journal) : .consulted (some m) x ∈ r.journal :=
    consulted_apart d hs.apart hm (by simp [Course.matter]) he hx
  induction h with
  | nil => exact Or.inl hx
  | @plain scope s path r r₁ r' hp w ih =>
    have hs₁ := hs.plain hp
    obtain ⟨new, ha, -⟩ := plain_step hp hs.coherent hs.under
    refine consulted_cons hs₁ w (Run.rounds_le_of_journal ha.journal m) he (fun _ hx => ?_)
      (fun he => ih hs₁ hc he hx)
    left
    cases hp with
    | visit | ask => exact (List.mem_cons.1 hx).resolve_left (by simp)
    | find => rwa [(Run.same_find _ _ _ _).journal] at hx
    | relax h =>
      obtain ⟨relaxed, rfl⟩ := S.relax_eq_ok h
      exact hx
    | _ => exact hx
  | @decide scope id path r r₁ r' d w _ ih =>
    have hs₁ := (hs.decides d).1
    exact consulted_cons hs₁ w (rounds_le_of_passes d hs.apart m) he
      (fun he hx => Or.inl (decided d hs he hx)) (fun he => ih hs₁ hc he hx)
  | @consult scope id site path r r₁ r' d w _ ih =>
    obtain ⟨hs₁, hid⟩ := hs.decides d
    have hs₂ := hs₁.rest hid site
    have hle := rounds_le_of_passes d hs.apart m
    have hj : (r₁.rest scope id site).journal = [.consulted scope.matter id] ++ r₁.journal :=
      journal_rest r₁ scope id site
    have hle' := Run.rounds_le_of_journal hj m
    refine consulted_cons hs₂ w (by omega) he (fun he hx => ?_) (fun he => ih hs₂ hc he hx)
    rw [hj] at hx
    obtain hx | hx := List.mem_cons.1 hx
    · right
      injection hx with _ hx
      exact hx.symm
    · exact Or.inl (decided d hs (by omega) hx)
  | @declare scope id site path r r₁ r' d _ w _ ih =>
    have hs₁ := (hs.decides d).1
    exact consulted_cons hs₁ w (rounds_le_of_passes d hs.apart m) he
      (fun he hx => Or.inl (decided d hs he hx)) (fun he => ih hs₁ hc he hx)
  | @declareResting scope id site b path r r₁ r' d _ _ w _ ih =>
    -- The step stands for a consultation.
    have hs₁ := (hs.decides d).1
    have hle := rounds_le_of_passes d hs.apart m
    have hle' := rounds_le_of_passes w hs₁ m
    obtain hx | ⟨s, hm, hx⟩ := ih hs₁ hc (by omega) hx
    · exact Or.inl (decided d hs (by omega) hx)
    · obtain rfl | hm := List.mem_cons.1 hm
      · exact Or.inr ⟨_, List.mem_cons_self, hx⟩
      · exact Or.inr ⟨s, List.mem_cons_of_mem _ hm, hx⟩
  | @bodyExcluded scope e mode inner path r r₁ r' d _ w _ ih =>
    have hs₁ := (hs.decides d).1.inheritCause e
    have hj := (r₁.same_inheritCause e).journal
    have hle := rounds_le_of_passes d hs.apart m
    rw [← Run.rounds_eq_of_journal hj m] at hle
    refine consulted_cons hs₁ w hle he (fun he hx => Or.inl ?_) (fun he => ih hs₁ hc he hx)
    rw [Run.rounds_eq_of_journal hj] at he
    rw [hj] at hx
    exact decided d hs he hx
  | @bodyOff scope e mode inner anchor path r r₁ r' d _ _ w _ ih =>
    have hs₁ := (hs.decides d).1
    exact consulted_cons hs₁ w (rounds_le_of_passes d hs.apart m) he
      (fun he hx => Or.inl (decided d hs he hx)) (fun he => ih hs₁ hc he hx)
  | @body scope e mode inner mode' path innerPath r r₁ r₂ r' d _ _ _ _ w₂ w _ _ ih =>
    obtain ⟨hs₁, hid⟩ := hs.decides d
    have hs₂ := hs₁.body hid w₂ r₁.cause
    obtain ⟨new, ha, -⟩ := body_step (orderly_of_passes w₂) hs₁.coherent hid r₁.cause
    have hle := rounds_le_of_passes d hs.apart m
    have hle' := Run.rounds_le_of_journal ha.journal m
    refine consulted_cons hs₂ w (by omega) he (fun he hx => Or.inl ?_)
      (fun he => ih hs₂ hc he hx)
    apply decided d hs (by omega)
    rw [ha.journal, List.mem_append] at hx
    refine hx.resolve_left fun hx => ?_
    have hn : .began m ∉ new := ha.not_began (by omega)
    exact (ha.owned _ hx m rfl hm).elim (by simp) hn
  | known | off | reject | revoke | grant => cases hc

/-! ### Steps that were gone through -/

variable (S) in
/-- What a run shows of a step that was gone through after an earlier run.  For the body of an
entity that was analysed there is a path: its steps were gone through, it has whatever the body
consulted on it, and if all its steps were clean then the body is admitted unless it is
forfeited. -/
inductive Trodden (since r : Run) : Step → Prop
  | still {s : Step} (h : s.isStill = true) : Trodden since r s
  | decide {id : EntityId} (hx : id ∈ r.verdicts.examined) : Trodden since r (.decide id)
  | consult {id : EntityId} {site : Site} {b : Bool} (hx : id ∈ r.verdicts.examined)
      (hb : id ∈ r.verdicts.admitted → b = true) : Trodden since r (.consult id site b)
  | declare {id : EntityId} {site : Site} (hx : id ∈ r.verdicts.examined) :
    Trodden since r (.declare id site none)
  | declareResting {id : EntityId} {site : Site} {b : Bool} (hx : id ∈ r.verdicts.examined)
      (hb : id ∈ r.verdicts.admitted → b = true) (ho : S.isOff id = .ok false) :
    Trodden since r (.declare id site (some b))
  | bodyExcluded {e : Entity} {mode : Option Mode} {inner : Inquiry Unit}
      (hx : e.name ∈ r.verdicts.examined) (ha : e.name ∉ r.verdicts.admitted) :
    Trodden since r (.body e mode inner)
  | bodyOff {e : Entity} {mode : Option Mode} {inner : Inquiry Unit}
      {anchor : Option EntityId} (hx : e.name ∈ r.verdicts.examined)
      (hm : S.bodyMode e mode = .ok (some .off, anchor)) : Trodden since r (.body e mode inner)
  | body {e : Entity} {mode : Option Mode} {inner : Inquiry Unit} {path : List Step}
      (hx : e.name ∈ r.verdicts.examined) (l : inner.Leads path ())
      (hp : ∀ s ∈ path, Trodden since r s) (hb : .began (.body e.name) ∈ r.journal)
      (hn : .began (.body e.name) ∉ since.journal)
      (hc : ∀ x, .consulted (some (.body e.name)) x ∈ r.journal → ∃ s ∈ path, s.consults x)
      (hk : (∀ s ∈ path, s.isClean = true) →
        e.name ∈ r.verdicts.admittedBodies ∨ r.Forfeits e.name) :
    Trodden since r (.body e mode inner)

variable {since since' : Run} {s : Step}

/-- A step that was gone through after a run was gone through after what came before that. -/
theorem Trodden.mono (h : S.Trodden since' r s) (hj : since.journal ⊆ since'.journal) :
  S.Trodden since r s
  := by
  induction h with
  | still h => exact .still h
  | decide hx => exact .decide hx
  | consult hx hb => exact .consult hx hb
  | declare hx => exact .declare hx
  | declareResting hx hb ho => exact .declareResting hx hb ho
  | bodyExcluded hx ha => exact .bodyExcluded hx ha
  | bodyOff hx hm => exact .bodyOff hx hm
  | body hx l _ hb hn hc hk ih => exact .body hx l ih hb (fun h => hn (hj h)) hc hk

/-- What a run shows of a step, later runs show if the bodies in it consult nothing more. -/
theorem Trodden.later (h : S.Trodden since r s) (hl : r.Lasts r')
    (hj : ∀ x y, .began (.body x) ∈ r.journal → .began (.body x) ∉ since.journal →
      .consulted (some (.body x)) y ∈ r'.journal → .consulted (some (.body x)) y ∈ r.journal) :
  S.Trodden since r' s
  := by
  have kept {id : EntityId} {b : Bool} (hx : id ∈ r.verdicts.examined)
      (hb : id ∈ r.verdicts.admitted → b = true) (ha : id ∈ r'.verdicts.admitted) : b = true :=
    hb ((hl.fresh id ha).resolve_right (absurd hx))
  induction h with
  | still h => exact .still h
  | decide hx => exact .decide (hl.examined _ hx)
  | consult hx hb => exact .consult (hl.examined _ hx) (kept hx hb)
  | declare hx => exact .declare (hl.examined _ hx)
  | declareResting hx hb ho => exact .declareResting (hl.examined _ hx) (kept hx hb) ho
  | bodyExcluded hx ha => exact .bodyExcluded (hl.examined _ hx) (hl.excluded hx ha)
  | bodyOff hx hm => exact .bodyOff (hl.examined _ hx) hm
  | @body e mode inner path hx l _ hb hn hc hk ih =>
    refine .body (hl.examined _ hx) l ih (hl.journal hb) hn (fun x hx => hc x ?_) fun hs => ?_
    · exact hj e.name x hb hn hx
    · obtain ha | hf := hk hs
      · exact hl.bodies e.name ha
      · exact Or.inr (hf.lasts hl)

/-- What holds of a passage in the way of what is gone through on it. -/
def Treading (S : Setting) (c : Course) (r r' : Run) : Prop :=
  S.Steady c.matter r → r'.Once → ∀ s ∈ c.path, S.Trodden r r' s

/-- A step that was gone through is so at the end of a passage that comes after it. -/
theorem Trodden.passes {scope : Scope} {path : List Step} (h : S.Trodden r r₁ s)
    (hs : S.Steady scope.matter r) (hs₁ : S.Steady scope.matter r₁)
    (w : S.Passes (.steps scope path) r₁ r') (ho : r'.Once) :
  S.Trodden r r' s
  := by
  refine h.later (lasts_of_passes w hs₁) fun x y hb hn hy => ?_
  have hp := Run.rounds_pos_iff.2 hb
  have ho := ho x
  refine consulted_apart w hs₁ rfl (fun hm => hn ?_) (by omega) hy
  exact hs.under _ hm rfl

/-- The first step of a path that is gone through, and the others. -/
theorem treading_cons {scope : Scope} {path : List Step} (h : S.Trodden r r₁ s)
    (hs : S.Steady scope.matter r) (hs₁ : S.Steady scope.matter r₁)
    (w : S.Passes (.steps scope path) r₁ r') (hj : r.journal ⊆ r₁.journal)
    (ih : S.Treading (.steps scope path) r₁ r') (ho : r'.Once) :
  ∀ s' ∈ s :: path, S.Trodden r r' s'
  := by
  intro s' hs'
  obtain rfl | hs' := List.mem_cons.1 hs'
  · exact h.passes hs hs₁ w ho
  · exact (ih hs₁ ho s' hs').mono hj

/-- A body that is analysed is gone through. -/
theorem trodden_body {e : Entity} {mode : Option Mode} {inner : Inquiry Unit}
    {mode' : Option Mode × Option EntityId} {path : List Step} {r₂ : Run}
    (hs : S.Steady c.matter r₁) (hx : e.name ∈ r₁.verdicts.examined)
    (ha : r₁.admits e.name = true) (l : inner.Leads path ())
    (w : S.Passes (.steps (e.bodyScope mode') path)
      (r₁.start (e.bodyScope mode') (.body e.name)) r₂)
    (ih : S.Treading (.steps (e.bodyScope mode') path)
      (r₁.start (e.bodyScope mode') (.body e.name)) r₂)
    (hj : r.journal ⊆ r₁.journal) (ho : r₂.Once) (cause : Option Site) :
  S.Trodden r { r₂.concludeBody e with cause } (.body e mode inner)
  := by
  have hs₁ := hs.start hx mode'
  have hl := lasts_of_passes w hs₁
  have hj₂ (m : Option Matter) (x : EntityId) :
      .consulted m x ∈ ({ r₂.concludeBody e with cause } : Run).journal
        ↔ .consulted m x ∈ r₂.journal :=
    Run.mem_journal_concludeBody (by simp)
  have hb : .began (.body e.name) ∈ (r₁.start (e.bodyScope mode') (.body e.name)).journal := by
    rw [r₁.journal_start]
    exact List.mem_cons_self
  have hr := rounds_start r₁ (e.bodyScope mode') (.body e.name) (.body e.name)
  rw [if_pos rfl] at hr
  have hle := rounds_le_of_passes w hs₁ (.body e.name)
  have ho' := ho e.name
  have hn₁ : .began (.body e.name) ∉ r₁.journal := by
    intro h
    have := Run.rounds_pos_iff.2 h
    omega
  have hx₂ : e.name ∈ r₂.verdicts.examined := by
    apply hl.examined
    obtain ⟨reporting, hv⟩ := r₁.verdicts_start (e.bodyScope mode') (.body e.name)
    rwa [hv]
  have ha₂ : r₂.admits e.name = true := by
    apply Run.admits_iff.2
    apply hs₁.admitted w
    obtain ⟨reporting, hv⟩ := r₁.verdicts_start (e.bodyScope mode') (.body e.name)
    rw [hv]
    exact Run.admits_iff.1 ha
  have hlc := lasts_concludeBody r₂ e cause
  refine .body (hlc.examined _ hx₂) l (fun s hs' => ?_) (hlc.journal (hl.journal hb))
    (fun h => hn₁ (hj h)) (fun x hc => ?_) fun hc => ?_
  · have h := (ih hs₁ ho s hs').later hlc fun x y _ _ => (hj₂ _ y).1
    apply h.mono
    rw [r₁.journal_start]
    exact List.Subset.trans hj (List.subset_cons_self _ _)
  · rw [hj₂] at hc
    refine (consulted_on_path w hs₁ rfl rfl (by omega) hc).resolve_left fun hc => ?_
    rw [r₁.journal_start, List.mem_cons] at hc
    exact hn₁ (hs.coherent.began_of_owner _ (hc.resolve_left (by simp)) _ rfl rfl)
  · left
    have hcause : r₂.cause = none := by
      refine (cause_eq_none_iff w).2 ⟨?_, hc⟩
      unfold Run.start
      simp only
      split <;> rfl
    have hv : (!r₂.violated && r₂.admits e.name) = true := by
      simp [Run.violated, hcause, ha₂]
    unfold Run.concludeBody
    rw [if_pos hv]
    exact mem_insert_iff.2 (Or.inl rfl)

/-- The steps on a passage are gone through, if no body began twice by its end. -/
theorem trodden_of_passes (h : S.Passes c r r') :
  S.Treading c r r'
  := by
  have once {r r' : Run} {c : Course} (ho : r'.Once) (w : S.Passes c r r')
      (hs : S.Steady c.matter r) : r.Once :=
    fun x => Nat.le_trans (rounds_le_of_passes w hs _) (ho x)
  induction h with
  | nil => simp [Treading, Course.path]
  | @plain scope s path r r₁ r' hp w ih =>
    intro hs ho
    have hs₁ := hs.plain hp
    have ht : S.Trodden r r₁ s := .still (by cases hp <;> rfl)
    exact treading_cons ht hs hs₁ w (lasts_plain hp hs).journal ih ho
  | @decide scope id path r r₁ r' d w _ ih =>
    intro hs ho
    obtain ⟨hs₁, hx⟩ := hs.decides d
    exact treading_cons (.decide hx) hs hs₁ w (lasts_of_passes d hs.apart).journal ih ho
  | @consult scope id site path r r₁ r' d w _ ih =>
    intro hs ho
    obtain ⟨hs₁, hx⟩ := hs.decides d
    have hr := lasts_rest r₁ scope id site
    have hl := (lasts_of_passes d hs.apart).trans hr
    refine treading_cons ?_ hs (hs₁.rest hx site) w hl.journal ih ho
    refine .consult (hr.examined id hx) fun ha => ?_
    exact Run.admits_iff.2 ((hr.fresh id ha).resolve_right (absurd hx))
  | @declare scope id site path r r₁ r' d _ w _ ih =>
    intro hs ho
    obtain ⟨hs₁, hx⟩ := hs.decides d
    exact treading_cons (.declare hx) hs hs₁ w (lasts_of_passes d hs.apart).journal ih ho
  | @declareResting scope id site b path r r₁ r' d _ hd w _ ih =>
    intro hs ho
    have hs₁ := (hs.decides d).1
    have hj := (lasts_of_passes d hs.apart).journal
    have hoff : S.isOff id = .ok false := by
      obtain ha | hoff := hd
      · exact hs₁.sorted.analysed id (Or.inl (Run.admits_iff.1 ha))
      · exact hoff
    have ht := ih hs₁ ho
    intro s hm
    obtain rfl | hm := List.mem_cons.1 hm
    · cases ht _ List.mem_cons_self with
      | still h => cases h
      | consult hx hb => exact .declareResting hx hb hoff
    · exact (ht s (List.mem_cons_of_mem _ hm)).mono hj
  | @bodyExcluded scope e mode inner path r r₁ r' d ha w _ ih =>
    intro hs ho
    obtain ⟨hs₁, hx⟩ := hs.decides d
    have hl := (lasts_of_passes d hs.apart).trans (lasts_same (r₁.same_inheritCause e))
    refine treading_cons (.bodyExcluded ?_ ?_) hs (hs₁.inheritCause e) w hl.journal ih ho
    · rwa [(r₁.same_inheritCause e).examined]
    · rw [(r₁.same_inheritCause e).admitted]
      exact fun h => by simp [Run.admits_iff.2 h] at ha
  | @bodyOff scope e mode inner anchor path r r₁ r' d _ hm w _ ih =>
    intro hs ho
    obtain ⟨hs₁, hx⟩ := hs.decides d
    exact treading_cons (.bodyOff hx hm) hs hs₁ w (lasts_of_passes d hs.apart).journal ih ho
  | @body scope e mode inner mode' path innerPath r r₁ r₂ r' d ha _ _ l w₂ w _ ihw ih =>
    intro hs ho
    obtain ⟨hs₁, hx⟩ := hs.decides d
    have hs₂ := hs₁.body hx w₂ r₁.cause
    have hj := (lasts_of_passes d hs.apart).journal
    have ho₂ := once ho w hs₂
    have ho₂' : r₂.Once := fun x => by
      rw [← r₂.rounds_concludeBody e r₁.cause]
      exact ho₂ x
    have ht : S.Trodden r { r₂.concludeBody e with cause := r₁.cause } (.body e mode inner) :=
      trodden_body hs₁ hx ha l w₂ ihw hj ho₂' r₁.cause
    have hl := (lasts_start r₁ _ _).trans ((lasts_of_passes w₂ (hs₁.start hx mode')).trans
      (lasts_concludeBody r₂ e r₁.cause))
    exact treading_cons ht hs hs₂ w (List.Subset.trans hj hl.journal) ih ho
  | known | off | reject | revoke | grant => simp [Treading, Course.path]

/-! ### Stages -/

/-- What happens in a stage belongs to matters that begin in it. -/
theorem events_of_stage {ns : List Node} (st : S.Stage ns r r') (h : S.Steady none r) :
  ∃ new, r'.journal = new ++ r.journal
    ∧ ∀ e ∈ new, ∀ m, e.owner = some m → m.isRevocable → .began m ∈ new
  := by
  obtain ⟨c, r₁, r₂, hc₁, ho, h₁, p, hc₂⟩ := st.parts h
  obtain ⟨new, ha, -⟩ := orderly_of_passes p h₁.coherent h₁.under
  obtain ⟨before, hj₁, hb⟩ := hc₁.journal
  have after : ∃ after, r'.journal = after ++ r₂.journal ∧ ∀ e ∈ after, e.owner = none := by
    obtain hc₂ | ⟨access, type, cause, -, -, -, -, rfl⟩ := hc₂
    · obtain ⟨after, hj, ha⟩ := hc₂.journal
      refine ⟨after, hj, fun e he => ?_⟩
      obtain ⟨t, rfl⟩ := ha e he
      rfl
    · obtain ⟨he, -⟩ | ⟨-, hx⟩ := r₂.excises_takeBack S.program access type cause
      · exact ⟨[], by rw [he]; rfl, by simp⟩
      · obtain ⟨after, hj, ha⟩ := hx.strikes.journal
        refine ⟨after, hj, fun e he => ?_⟩
        obtain ⟨x, cause, rfl⟩ := ha e he
        rfl
  obtain ⟨after, hj₂, hn⟩ := after
  refine ⟨after ++ (new ++ before), ?_, fun e he m hm hr => ?_⟩
  · rw [hj₂, ha.journal, hj₁]
    simp only [List.append_assoc]
  · obtain he | he := List.mem_append.1 he
    · rw [hn e he] at hm
      cases hm
    · obtain he | he := List.mem_append.1 he
      · obtain h₀ | h₀ := ha.owned e he m hm hr
        · rw [ho.matter m h₀] at hr
          cases hr
        · exact List.mem_append_right _ (List.mem_append_left _ h₀)
      · obtain ⟨t, rfl⟩ := hb e he
        cases hm

theorem events_of_proceeds {ns : List Node} (p : S.Proceeds ns r r') (h : S.Steady none r) :
  ∃ new, r'.journal = new ++ r.journal
    ∧ ∀ e ∈ new, ∀ m, e.owner = some m → m.isRevocable → .began m ∈ new
  := by
  induction p with
  | nil => exact ⟨[], rfl, by simp⟩
  | cons st _ ih =>
    obtain ⟨new, hj, hn⟩ := events_of_stage st h
    obtain ⟨new', hj', hn'⟩ := ih (h.stage st)
    refine ⟨new' ++ new, by rw [hj', hj, List.append_assoc], fun e he m hm hr => ?_⟩
    obtain he | he := List.mem_append.1 he
    · exact List.mem_append_left _ (hn' e he m hm hr)
    · exact List.mem_append_right _ (hn e he m hm hr)

theorem Steady.proceeds {ns : List Node} (h : S.Steady none r) (p : S.Proceeds ns r r') :
  S.Steady none r'
  := by
  induction p with
  | nil => exact h
  | cons st _ ih => exact ih (h.stage st)

theorem once_of_proceeds {ns : List Node} (p : S.Proceeds ns r r') (h : S.Steady none r)
    (ho : r'.Once) :
  r.Once
  := by
  obtain ⟨new, hj, -⟩ := events_of_proceeds p h
  exact fun x => Nat.le_trans (Run.rounds_le_of_journal hj _) (ho x)

variable (S) in
/-- The steps of an inquiry were gone through. -/
def Toured (r : Run) (i : Inquiry Unit) : Prop :=
  ∃ path, i.Leads path () ∧ ∀ s ∈ path, S.Trodden {} r s

variable {i : Inquiry Unit}

theorem toured_of_passes {path : List Step} (l : i.Leads path ())
    (w : S.Passes (.steps {} path) r r') (h : S.Steady none r) (ho : r'.Once) :
  S.Toured r' i
  := ⟨path, l, fun s hs => (trodden_of_passes w h ho s hs).mono (List.nil_subset _)⟩

/-- What was gone through stays so in the stages that come after it. -/
theorem Toured.proceeds {ns : List Node} (ht : S.Toured r i) (p : S.Proceeds ns r r')
    (h : S.Steady none r) (ho : r'.Once) :
  S.Toured r' i
  := by
  obtain ⟨path, l, ht⟩ := ht
  obtain ⟨new, hj, hn⟩ := events_of_proceeds p h
  refine ⟨path, l, fun s hs => (ht s hs).later (lasts_of_proceeds p h) fun x y hb _ hy => ?_⟩
  rw [hj, List.mem_append] at hy
  refine hy.resolve_left fun hy => ?_
  -- The body would begin a second time.
  have hp := Run.rounds_pos_iff.2 hb
  have hp' : 0 < new.countP (Event.begins (.body x)) :=
    List.countP_pos_iff.2 ⟨_, hn _ hy (.body x) rfl rfl, Run.begins_iff.2 rfl⟩
  have ho := ho x
  rw [Run.rounds, hj, List.countP_append] at ho
  unfold Run.rounds at hp
  omega

variable (S) in
/-- The content of a compilation unit was gone through, and its context clause. -/
structure UnitToured (r : Run) (n : Node) : Prop where
  content : S.Toured r (S.item {} n.content)
  context : ∀ c ∈ n.context, S.Toured r (S.contextItem c)

theorem UnitToured.proceeds {n : Node} {ns : List Node} (ht : S.UnitToured r n)
    (p : S.Proceeds ns r r') (h : S.Steady none r) (ho : r'.Once) :
  S.UnitToured r' n
  := ⟨ht.content.proceeds p h ho, fun c hc => (ht.context c hc).proceeds p h ho⟩

theorem toured_context {cs : List Node} {u : Unit}
    (h : (cs.forM fun item => Act.afresh (S.walkOutside (S.contextItem item))) r = .ok u r')
    (hs : S.Steady none r) (ho : r'.Once) :
  ∀ c ∈ cs, S.Toured r' (S.contextItem c)
  := by
  induction cs generalizing r with
  | nil => simp
  | cons n ns ih =>
    obtain ⟨_, _, ha, h⟩ := Act.bind_eq_ok.1 h
    obtain ⟨r₁, hw, rfl⟩ := Act.afresh_eq_ok.1 ha
    obtain ⟨path, l, w⟩ := passes_walk passes_decide hw
    have st : S.Stage [] r { r₁ with cause := r.cause } := .context l w
    have hs₁ := hs.stage st
    have hs₀ : S.Steady none { r with cause := none } :=
      hs.calm (r.calm_cause none)
    have p := proceeds_context h
    intro c hc
    obtain rfl | hc := List.mem_cons.1 hc
    · have ho₁ : ({ r₁ with cause := r.cause } : Run).Once := once_of_proceeds p hs₁ ho
      obtain ⟨path', l', ht⟩ := toured_of_passes l w hs₀ ho₁
      have ht' : S.Toured { r₁ with cause := r.cause } (S.contextItem c) := by
        refine ⟨path', l', fun s hs => (ht s hs).later ?_ fun _ _ _ _ hy => hy⟩
        exact lasts_same (r₁.same_cause r.cause)
      exact ht'.proceeds p hs₁ ho
    · exact ih h hs₁ c hc

variable (S) in
theorem unit_eq (n : Node) :
  S.unit n = (do
    n.context.forM fun item => Act.afresh (S.walkOutside (S.contextItem item))
    S.walkOutside (S.item {} n.content))
  := by
  obtain ⟨id, location, type, shape⟩ := n
  cases shape <;> rfl

theorem toured_unit {n : Node} (h : S.unit n r = .ok () r') (hs : S.Steady none r)
    (ho : r'.Once) :
  S.UnitToured r' n
  := by
  rw [unit_eq] at h
  obtain ⟨_, r₁, hc, h⟩ := Act.bind_eq_ok.1 h
  obtain ⟨path, l, w⟩ := passes_walk passes_decide h
  have hs₁ := hs.proceeds (proceeds_context hc)
  have p : S.Proceeds [n.content] r₁ r' := (Stage.unit l w).proceeds
  have ho₁ := once_of_proceeds p hs₁ ho
  exact ⟨toured_of_passes l w hs₁ ho, fun c hm =>
    (toured_context hc hs ho₁ c hm).proceeds p hs₁ ho⟩

theorem toured_units {ns : List Node} {u : Unit}
    (h : (ns.forM fun u => do S.unit u; S.drain) r = .ok u r') (hs : S.Steady none r)
    (ho : r'.Once) :
  ∀ n ∈ ns, S.UnitToured r' n
  := by
  induction ns generalizing r with
  | nil => simp
  | cons n ns ih =>
    obtain ⟨_, r₂, hu, h⟩ := Act.bind_eq_ok.1 h
    obtain ⟨_, r₁, hu, hd⟩ := Act.bind_eq_ok.1 hu
    have hs₁ := hs.proceeds (proceeds_unit hu)
    obtain ⟨pd, -⟩ := proceeds_drainWithin _ hd
    have hs₂ := hs₁.proceeds pd
    have p := pd.trans (proceeds_units h).1
    intro c hc
    obtain rfl | hc := List.mem_cons.1 hc
    · exact (toured_unit hu hs (once_of_proceeds p hs₁ ho)).proceeds p hs₁ ho
    · exact ih h hs₂ c hc

/-- In a program where each entity has at most one body, a run goes through all units. -/
theorem toured_wholeProgram (hn : (Node.bodiedOf S.program.units).Nodup)
    (h : S.wholeProgram {} = .ok () r) :
  ∀ n ∈ S.program.units, S.UnitToured r n
  := by
  have ho : r.Once := fun x => rounds_le_one hn h rfl
  obtain ⟨_, r₁, hu, h⟩ := Act.bind_eq_ok.1 h
  obtain rfl := Act.rule_eq_ok.1 h
  intro n hm
  have ht := toured_units hu steady_empty ho n hm
  have close {i : Inquiry Unit} (hi : S.Toured r₁ i) :
      S.Toured (r₁.rule fun v => { v with roster := v.roster.close }) i := by
    obtain ⟨path, l, ht⟩ := hi
    refine ⟨path, l, fun s hs => (ht s hs).later ?_ fun _ _ _ _ hy => hy⟩
    exact lasts_same ⟨rfl, rfl, rfl, rfl, rfl, .refl _⟩
  exact ⟨close ht.content, fun c hc => close (ht.context c hc)⟩

end Setting

end Conformance
