import Conformance.Proofs.Foundation
import Conformance.Proofs.Ledger
import Conformance.Proofs.Retrace

/-!
# A second run over the same program

A run that starts from what a run over the same program came to finds examined whatever it
comes to, so it decides nothing and postpones nothing.  The bodies are gone through again, and
now against the verdicts that the first run left behind: a body that was taken back has a
consultation that is answered with no, and a body that is found to be clean was admitted before.

`Run.Repeats` says what a second run may change, `repeating_of_passes` that its passages change
nothing else, and `wholeProgram_idempotent` is the result for the whole program.
-/

namespace Conformance

/-- An element that is inserted once more. -/
theorem insert_eq_of_mem {xs : Std.TreeSet EntityId} {x : EntityId} (h : x ∈ xs) :
  xs.insert x = xs
  := by
  obtain ⟨⟨⟨t, ht⟩⟩⟩ := xs
  have hc : t.contains x = true := h
  simp only [Std.TreeSet.insert, Std.TreeMap.insertIfNew, Std.DTreeMap.insertIfNew,
    Std.DTreeMap.Internal.Impl.insertIfNew]
  congr 3
  simp [hc]

namespace Run

/-- A run has the verdicts of another one.  It may know other loops, other causes of excluded
bodies, other dependents and other matters that are reported. -/
def Repeats (r r' : Run) : Prop :=
  ∃ loops bodyCauses dependents reporting,
    r'.verdicts = { r.verdicts with loops, bodyCauses, dependents, reporting }

variable {r r₁ r' : Run}

theorem repeats_of_verdicts (h : r'.verdicts = r.verdicts) :
  r.Repeats r'
  := ⟨_, _, _, _, h⟩

theorem Repeats.trans (h : r.Repeats r₁) (h' : r₁.Repeats r') :
  r.Repeats r'
  := by
  obtain ⟨_, _, _, _, h⟩ := h
  obtain ⟨loops, bodyCauses, dependents, reporting, h'⟩ := h'
  exact ⟨loops, bodyCauses, dependents, reporting, by rw [h', h]⟩

theorem Repeats.examined (h : r.Repeats r') :
  r'.verdicts.examined = r.verdicts.examined
  := by
  obtain ⟨_, _, _, _, h⟩ := h
  rw [h]

theorem Repeats.admittedBodies (h : r.Repeats r') :
  r'.verdicts.admittedBodies = r.verdicts.admittedBodies
  := by
  obtain ⟨_, _, _, _, h⟩ := h
  rw [h]

theorem Repeats.backlog (h : r.Repeats r') :
  r'.verdicts.backlog = r.verdicts.backlog
  := by
  obtain ⟨_, _, _, _, h⟩ := h
  rw [h]

theorem Repeats.roster (h : r.Repeats r') :
  r'.verdicts.roster = r.verdicts.roster
  := by
  obtain ⟨_, _, _, _, h⟩ := h
  rw [h]

theorem Repeats.admits (h : r.Repeats r') (id : EntityId) :
  r'.admits id = r.admits id
  := by
  obtain ⟨_, _, _, _, h⟩ := h
  rw [Run.admits, h, Run.admits]

theorem repeats_find (r : Run) (scope : Scope) (site : Site) (finding : Finding) :
  r.Repeats (r.find scope site finding)
  := by
  obtain ⟨cause, reports, h⟩ := r.exists_find scope site finding
  rw [h]
  exact repeats_of_verdicts rfl

/-- Consulting an entity adds to its dependents, and to nothing else. -/
theorem repeats_rest (r : Run) (scope : Scope) (id : EntityId) (site : Site) :
  r.Repeats (r.rest scope id site)
  := by
  obtain ⟨dependents, cause, reports, h⟩ := r.exists_rest scope id site
  rw [h]
  exact ⟨_, _, dependents, _, rfl⟩

theorem repeats_start (r : Run) (scope : Scope) (m : Matter) :
  r.Repeats (r.start scope m)
  := by
  obtain ⟨reporting, h⟩ := r.verdicts_start scope m
  exact ⟨_, _, _, reporting, h⟩

theorem repeats_inheritCause (r : Run) (e : Entity) :
  r.Repeats (r.inheritCause e)
  := by
  obtain ⟨bodyCauses, h⟩ := r.exists_inheritCause e
  rw [h]
  exact ⟨_, _, _, _, rfl⟩

/-- The verdict on a body that is admitted already if it could be. -/
theorem repeats_concludeBody {e : Entity}
    (h : r.violated = false → r.admits e.name = true → e.name ∈ r.verdicts.admittedBodies)
    (cause : Option Site) :
  r.Repeats { r.concludeBody e with cause }
  := by
  simp only [concludeBody, Repeats]
  split
  · next hc =>
    simp only [Bool.and_eq_true, Bool.not_eq_true'] at hc
    simp only [rule, insert_eq_of_mem (h hc.1 hc.2)]
    exact ⟨_, _, _, _, rfl⟩
  · exact ⟨_, _, _, _, rfl⟩

/-- Closing a roster where nothing is held back. -/
theorem repeats_close (h : r.verdicts.roster.held = []) :
  r.Repeats (r.rule fun v => { v with roster := v.roster.close })
  := by
  have hc : r.verdicts.roster.close = r.verdicts.roster := by
    unfold Roster.close
    rw [h, Roster.closeWith, ← h]
  apply repeats_of_verdicts
  simp only [rule, hc]

end Run

namespace Setting

variable {S : Setting} {R r r' : Run} {scope : Scope} {s : Step} {path : List Step}

variable (S R) in
/-- What a second run comes to on a path, where `R` is what the first one came to. -/
structure Replays (scope : Scope) (path : List Step) (r' : Run) : Prop where
  repeats : R.Repeats r'
  answers : ∀ s ∈ path, R.Answers s
  /-- What is declared is excluded on purpose if nothing rests on it. -/
  declared : scope.matter.any Matter.isRevocable = true →
    ∀ id site, .declare id site none ∈ path → S.isOff id = .ok true

theorem Replays.cons (h : S.Replays R scope path r') (ha : R.Answers s)
    (hd : scope.matter.any Matter.isRevocable = true →
      ∀ id site, s = .declare id site none → S.isOff id = .ok true) :
  S.Replays R scope (s :: path) r'
  where
    repeats := h.repeats
    answers := List.forall_mem_cons.2 ⟨ha, h.answers⟩
    declared hm id site hs := by
      obtain hs | hs := List.mem_cons.1 hs
      · exact hd hm id site hs.symm
      · exact h.declared hm id site hs

/-- A body that is found to be clean rests on what is admitted, and its questions are answered
with yes. -/
theorem Replays.confirms (h : S.Replays R scope path r') (hR : S.wholeProgram {} = .ok () R)
    (hm : scope.matter.any Matter.isRevocable = true) {e : Entity} {ns : List Node}
    (ha : e.name ∈ R.verdicts.admitted) (hq : (S.items e.inside ns).Favours path ()) :
  ∀ s ∈ path, S.Confirms (· ∈ R.verdicts.admitted) s
  := by
  have consulted {id : EntityId} {site : Site} (hs : .consult id site true ∈ path) :
      id ∈ R.verdicts.admitted := by
    have ha : true = R.admits id := h.answers _ hs
    exact Run.admits_iff.1 ha.symm
  intro s hs
  have hc := hq.clean s hs
  have hb := h.answers s hs
  cases s with
  | consult id site b =>
    obtain rfl : b = true := hc
    exact consulted hs
  | declare id site b =>
    cases b with
    | none => exact h.declared hm id site hs
    | some b =>
      obtain rfl : b = true := hc
      exact Run.admits_iff.1 hb.symm
  | ask id b =>
    have hr := (regular_bodyItems e ns).rooted hq hs
    have hid : id ∈ R.verdicts.admitted := by
      apply admitted_of_rooted hR hr
      rintro x (rfl | ⟨site, hx⟩)
      · exact ha
      · exact consulted hx
    exact hb.trans (Run.admits_iff.2 hid)
  | _ => trivial

/-- What holds of a passage of a second run. -/
def Repeating (S : Setting) (R : Run) : Course → Run → Run → Prop
  | .decision id, r, r' => R.Repeats r → id ∈ R.verdicts.examined → r' = r
  | .steps scope path, r, r' => Course.Proper S (.steps scope path) → S.Retraces R path →
    R.Repeats r → S.Replays R scope path r'

theorem repeats_plain (hp : S.Plain scope s r r') (hs : s.isMild = true) :
  r.Repeats r'
  := by
  cases hp with
  | visit | ask => exact Run.repeats_of_verdicts rfl
  | find => exact r.repeats_find _ _ _
  | placeInLoop => exact ⟨_, _, _, _, rfl⟩
  | _ => cases hs

/-- A body that is gone through again has the verdict that it had: if it is found to be clean,
then it was admitted before. -/
theorem repeats_body (hR : S.wholeProgram {} = .ok () R) {e : Entity} {ns : List Node}
    {mode : Option Mode × Option EntityId} (ha : e.name ∈ R.verdicts.admitted)
    (l : (S.items e.inside ns).Leads path ())
    (w : S.Passes (.steps (e.bodyScope mode) path) (r.start (e.bodyScope mode) (.body e.name)) r')
    (h : S.Replays R (e.bodyScope mode) path r')
    (hb : (S.items e.inside ns).Favours path () →
      (∀ s ∈ path, S.Confirms (· ∈ R.verdicts.admitted) s) → e.name ∈ R.verdicts.admittedBodies)
    (cause : Option Site) :
  R.Repeats { r'.concludeBody e with cause }
  := by
  have hbody (hv : r'.violated = false) : e.name ∈ R.verdicts.admittedBodies := by
    have hc : r'.cause = none := by simpa [Run.violated] using hv
    have hq : (S.items e.inside ns).Favours path () := ⟨l, ((cause_eq_none_iff w).1 hc).2⟩
    exact hb hq (h.confirms hR rfl ha hq)
  apply h.repeats.trans
  apply Run.repeats_concludeBody
  intro hv _
  rw [h.repeats.admittedBodies]
  exact hbody hv

/-- A second run has the same verdicts on every passage. -/
theorem repeating_of_passes (hR : S.wholeProgram {} = .ok () R) {c : Course}
    (h : S.Passes c r r') :
  S.Repeating R c r r'
  := by
  have fresh {r : Run} {id : EntityId} (hr : R.Repeats r) (hid : id ∈ R.verdicts.examined)
      (hf : id ∉ r.verdicts.examined) : False :=
    hf (hr.examined ▸ hid)
  induction h with
  | nil =>
    intro _ _ hr
    exact ⟨hr, by simp, by simp⟩
  | @plain scope s path r r₁ r' hp _ ih =>
    intro hpr ht hr
    obtain ⟨hm, rest⟩ : s.isMild = true ∧ (R.Answers s → S.Retraces R path) := by
      cases ht with
      | cons hs rest => exact ⟨by cases hp <;> exact hs, rest⟩
      | body => cases hp
    have ha : R.Answers s := by
      cases hp with
      | ask => exact hr.admits _
      | _ => trivial
    refine (ih hpr.tail (rest ha) (hr.trans (repeats_plain hp hm))).cons ha ?_
    rintro - id site rfl
    cases hp
  | @decide scope id path r r₁ r' _ _ ihd ih =>
    intro hpr ht hr
    cases ht with
    | cons hs rest =>
      obtain rfl := ihd hr hs
      exact (ih hpr.tail (rest trivial) hr).cons trivial (by simp)
  | @consult scope id site path r r₁ r' _ _ ihd ih =>
    intro hpr ht hr
    cases ht with
    | cons hs rest =>
      obtain rfl := ihd hr hs
      have ha : R.Answers (.consult id site (r₁.admits id)) := hr.admits id
      have hr' := hr.trans (r₁.repeats_rest scope id site)
      exact (ih hpr.tail (rest ha) hr').cons ha (by simp)
  | @declare scope id site path r r₁ r' _ hd _ ihd ih =>
    intro hpr ht hr
    cases ht with
    | cons hs rest =>
      obtain rfl := ihd hr hs
      refine (ih hpr.tail (rest trivial) hr).cons trivial ?_
      rintro hm _ _ ⟨⟩
      obtain hd | hd := hd
      · simp [hm] at hd
      · exact hd.2
  | @declareResting scope id site b path r r₁ r' _ _ _ _ ihd ih =>
    intro hpr ht hr
    cases ht with
    | cons hs rest =>
      obtain rfl := ihd hr hs
      -- The step stands for a consultation.
      have ht' : S.Retraces R (.consult id site b :: path) := .cons hs rest
      obtain ⟨hr', ha, hd⟩ := ih hpr.tail ht' hr
      rw [List.forall_mem_cons] at ha
      refine ⟨hr', List.forall_mem_cons.2 ⟨ha.1, ha.2⟩, fun hm id' site' hs => ?_⟩
      apply hd hm id' site'
      exact List.mem_cons_of_mem _ ((List.mem_cons.1 hs).resolve_left (by simp))
  | @bodyExcluded scope e mode inner path r r₁ r' _ _ _ ihd ih =>
    intro hpr ht hr
    cases ht with
    | cons hs => cases hs
    | body hx _ _ rest =>
      obtain rfl := ihd hr hx
      have hr' := hr.trans (r₁.repeats_inheritCause e)
      exact (ih hpr.tail rest hr').cons trivial (by simp)
  | @bodyOff scope e mode inner anchor path r r₁ r' _ _ _ _ ihd ih =>
    intro hpr ht hr
    cases ht with
    | cons hs => cases hs
    | body hx _ _ rest =>
      obtain rfl := ihd hr hx
      exact (ih hpr.tail rest hr).cons trivial (by simp)
  | @body scope e mode inner mode' path innerPath r r₁ r₂ r' _ ha hm hn l w _ ihd ihw ih =>
    intro hpr ht hr
    cases ht with
    | cons hs => cases hs
    | body hx hp hb rest =>
      obtain rfl := ihd hr hx
      obtain ⟨-, ns, rfl⟩ := hpr.body
      have ha' : e.name ∈ R.verdicts.admitted := Run.admits_iff.1 ((hr.admits _).symm.trans ha)
      have han : S.Analysed e mode := ⟨mode', hm, hn⟩
      have hw := ihw ((regular_bodyItems e ns).proper l _) (hp ha' han innerPath l)
        (hr.trans (r₁.repeats_start _ _))
      have hr' := repeats_body hR ha' l w hw (hb ha' han innerPath) r₁.cause
      exact (ih hpr.tail rest hr').cons trivial (by simp)
  | known => exact fun _ _ => rfl
  | off _ hf => exact fun hr hid => (fresh hr hid hf).elim
  | reject o | revoke o | grant o => exact fun hr hid => (fresh hr hid o.fresh).elim

/-! ### Units -/

/-- A second run over an inquiry that was gone through. -/
theorem repeats_walkOutside (hR : S.wholeProgram {} = .ok () R) {t : Topic}
    {known : EntityId → Prop} {bs : List (EntityId × List Node)} {i : Inquiry Unit}
    (hi : S.Regular t known bs i) (hrec : S.Recurs R i) (ht : S.Toured R i) (hr : R.Repeats r)
    (h : S.walkOutside i r = .ok () r') :
  R.Repeats r'
  := by
  obtain ⟨path, l, w⟩ := passes_walk passes_decide h
  exact (repeating_of_passes hR w (hi.proper l {}) (hrec.retraces ht l) hr).repeats

theorem repeats_context (hR : S.wholeProgram {} = .ok () R) {cs : List Node} {u : Unit}
    (ht : ∀ c ∈ cs, S.Toured R (S.contextItem c)) (hr : R.Repeats r)
    (h : (cs.forM fun item => Act.afresh (S.walkOutside (S.contextItem item))) r = .ok u r') :
  R.Repeats r'
  := by
  induction cs generalizing r with
  | nil =>
    obtain ⟨-, rfl⟩ := Act.pure_eq_ok.1 h
    exact hr
  | cons c cs ih =>
    rw [List.forall_mem_cons] at ht
    obtain ⟨_, _, ha, h⟩ := Act.bind_eq_ok.1 h
    obtain ⟨r₁, hw, rfl⟩ := Act.afresh_eq_ok.1 ha
    have hr₀ : R.Repeats { r with cause := none } := hr.trans (Run.repeats_of_verdicts rfl)
    have hr₁ : R.Repeats r₁ := repeats_walkOutside hR (regular_contextItem c)
      (recurs_contextItem c) ht.1 hr₀ hw
    have hr₂ : R.Repeats { r₁ with cause := r.cause } :=
      hr₁.trans (Run.repeats_of_verdicts rfl)
    exact ih ht.2 hr₂ h

theorem repeats_unit (hR : S.wholeProgram {} = .ok () R) {n : Node} (ht : S.UnitToured R n)
    (hr : R.Repeats r) (h : S.unit n r = .ok () r') :
  R.Repeats r'
  := by
  rw [unit_eq] at h
  obtain ⟨_, r₁, hc, h⟩ := Act.bind_eq_ok.1 h
  exact repeats_walkOutside hR (regular_outside n.content) (recurs_item n.content {}) ht.content
    (repeats_context hR ht.context hr hc) h

/-- Where no task waits, none is served. -/
theorem eq_of_drain (hn : r.verdicts.backlog.next? = none) (h : S.drain r = .ok () r') :
  r' = r
  := by
  unfold drain drainWithin at h
  obtain ⟨_, _, hg, h⟩ := Act.bind_eq_ok.1 h
  obtain ⟨rfl, rfl⟩ := Act.get_eq_ok.1 hg
  rw [hn] at h
  exact (Act.pure_eq_ok.1 h).2.symm

theorem repeats_units (hR : S.wholeProgram {} = .ok () R)
    (hn : R.verdicts.backlog.next? = none) {ns : List Node} {u : Unit}
    (ht : ∀ n ∈ ns, S.UnitToured R n) (hr : R.Repeats r)
    (h : (ns.forM fun u => do S.unit u; S.drain) r = .ok u r') :
  R.Repeats r'
  := by
  induction ns generalizing r with
  | nil =>
    obtain ⟨-, rfl⟩ := Act.pure_eq_ok.1 h
    exact hr
  | cons n ns ih =>
    rw [List.forall_mem_cons] at ht
    obtain ⟨_, r₂, hu, h⟩ := Act.bind_eq_ok.1 h
    obtain ⟨_, r₁, hu, hd⟩ := Act.bind_eq_ok.1 hu
    have h₁ := repeats_unit hR ht.1 hr hu
    obtain rfl := eq_of_drain (h₁.backlog ▸ hn) hd
    exact ih ht.2 h₁ h

/-- At the end of a run no task waits, and no entity is held back. -/
theorem rested_of_wholeProgram (h : S.wholeProgram {} = .ok () r) :
  r.verdicts.backlog.next? = none ∧ r.verdicts.roster.held = []
  := by
  obtain ⟨_, -, hb, rfl⟩ := proceeds_wholeProgram h
  exact ⟨hb, rfl⟩

/-- A run over a program that follows a run over the same program has the same verdicts. -/
theorem repeats_wholeProgram (hn : (Node.bodiedOf S.program.units).Nodup)
    (h : S.wholeProgram {} = .ok () r) (h' : S.wholeProgram r = .ok () r') :
  r.Repeats r'
  := by
  obtain ⟨hb, hh⟩ := rested_of_wholeProgram h
  obtain ⟨_, r₁, hu, hc⟩ := Act.bind_eq_ok.1 h'
  obtain rfl := Act.rule_eq_ok.1 hc
  have hr := repeats_units h hb (toured_wholeProgram hn h) (Run.repeats_of_verdicts rfl) hu
  exact hr.trans (r₁.repeats_close (hr.roster ▸ hh))

/-- A run over a program that follows a run over the same program changes no verdicts: nothing
more is examined, admitted, excluded, relaxed, published or postponed, and the same bodies are
admitted. -/
theorem wholeProgram_idempotent (hn : (Node.bodiedOf S.program.units).Nodup)
    (h : S.wholeProgram {} = .ok () r) (h' : S.wholeProgram r = .ok () r') :
  r'.verdicts.examined = r.verdicts.examined
    ∧ r'.verdicts.admitted = r.verdicts.admitted
    ∧ r'.verdicts.admittedBodies = r.verdicts.admittedBodies
    ∧ r'.verdicts.causes = r.verdicts.causes
    ∧ r'.verdicts.failedAspects = r.verdicts.failedAspects
    ∧ r'.verdicts.relaxed = r.verdicts.relaxed
    ∧ r'.verdicts.roster = r.verdicts.roster
    ∧ r'.verdicts.backlog = r.verdicts.backlog
    ∧ r.verdicts.backlog.isEmpty = true
  := by
  have hb := (rested_of_wholeProgram h).1
  have he := (Backlog.isEmpty_iff _).2 (Backlog.toList_of_next?_eq_none hb)
  obtain ⟨_, _, _, _, hv⟩ := repeats_wholeProgram hn h h'
  rw [hv]
  exact ⟨rfl, rfl, rfl, rfl, rfl, rfl, rfl, rfl, he⟩

/-- Two procedures with bodies.  That of `P` declares an object of an access type, which is
taken back since what it designates is excluded. -/
def lapsedSample : Setting :=
  (ofParts?
    [{ name := "I", kind := .type { definition := .incomplete none } },
      { name := "A", kind := .type { definition := .access { designated := "I" } } },
      { name := "V", kind := .object { type := "A" } },
      { name := "P", kind := .subprogram { kind := .procedure } },
      { name := "Q", kind := .subprogram { kind := .procedure } }]
    [.plain (.body .subprogram "P" none [.plain (.declaration .object "V")] []),
      .plain (.body .subprogram "Q" none [] [])]).get
    (by decide +kernel)

/-- Both bodies are gone through again, and only that of `Q` is admitted as before. -/
theorem wholeProgram_idempotent_lapsedSample :
  let r := (lapsedSample.wholeProgram.after {}).2
  let r' := (lapsedSample.wholeProgram.after r).2
  (Node.bodiedOf lapsedSample.program.units).Nodup
    ∧ lapsedSample.wholeProgram {} = .ok () r ∧ lapsedSample.wholeProgram r = .ok () r'
    ∧ r'.rounds (.body "P") = 2 ∧ r'.rounds (.body "Q") = 2
    ∧ "P" ∈ r.verdicts.admitted ∧ "P" ∉ r'.verdicts.admittedBodies
    ∧ "Q" ∈ r'.verdicts.admittedBodies
  := by
  have hn : (Node.bodiedOf lapsedSample.program.units).Nodup := by decide +kernel
  have h : lapsedSample.wholeProgram {} = .ok () (lapsedSample.wholeProgram.after {}).2 :=
    Act.eq_ok_of_after (by decide +kernel)
  have h' : lapsedSample.wholeProgram (lapsedSample.wholeProgram.after {}).2
      = .ok () (lapsedSample.wholeProgram.after (lapsedSample.wholeProgram.after {}).2).2 :=
    Act.eq_ok_of_after (by decide +kernel)
  obtain ⟨-, -, hb, -⟩ := wholeProgram_idempotent hn h h'
  refine ⟨hn, h, h', by decide +kernel, by decide +kernel, by decide +kernel, ?_, ?_⟩
  · rw [hb]
    decide +kernel
  · rw [hb]
    decide +kernel

end Setting

end Conformance
