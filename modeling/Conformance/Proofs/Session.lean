import Conformance.Proofs.Moment

/-!
# Sessions

A session is a list of requests that are served one after the other, each from where the
one before it ended, whether it succeeded or failed.  `Setting.Rested` are the runs in which
no matter is under way, those within a request included; `Setting.Reached` are the moments
of sessions.
-/

namespace Conformance

open Relation (ReflTransGen)

/-- What a session asks for. -/
inductive Request where
  /-- To go through a compilation unit. -/
  | unit (node : Node)
  /-- To decide an entity. -/
  | entity (id : EntityId)
  /-- To serve what was postponed. -/
  | backlog
  /-- To go through the whole program. -/
  | program

namespace Setting

variable (S : Setting)

/-- The act that serves a request. -/
def request : Request → Act Unit
  | .unit n => S.unit n
  | .entity id => S.decide id
  | .backlog => S.drain
  | .program => S.wholeProgram

/-- The run after a session. -/
def session (r : Run) : List Request → Run
  | [] => r
  | q :: qs => session ((S.request q).after r).2 qs

/-- The runs of a session from `r₀` in which no matter is under way. -/
inductive Rested (r₀ : Run) : Run → Prop
  | start : Rested r₀ r₀
  | context {r : Run} (n : Node) (h : Rested r₀ r) :
    Rested r₀ ((Act.afresh (S.walkOutside (S.contextItem n))).after r).2
  | content {r : Run} (n : Node) (h : Rested r₀ r) :
    Rested r₀ ((S.walkOutside (S.item {} n)).after r).2
  | decide {r : Run} (id : EntityId) (h : Rested r₀ r) : Rested r₀ ((S.decide id).after r).2
  | take {r : Run} {t : Task} {b : Backlog} (h : Rested r₀ r)
      (hn : r.verdicts.backlog.next? = some (t, b)) : Rested r₀ (r.take t b)
  | serve {r : Run} (t : Task) (h : Rested r₀ r) : Rested r₀ ((S.serve t).after r).2
  | close {r : Run} (h : Rested r₀ r) :
    Rested r₀ (r.rule fun v => { v with roster := v.roster.close })

/-- An inquiry starts in a session from `r₀`, in a scope where no matter is under way whose
verdict can be withdrawn. -/
inductive Starts (r₀ : Run) : Scope → Inquiry Unit → Run → Prop
  | context {r : Run} (n : Node) (h : S.Rested r₀ r) :
    Starts r₀ {} (S.contextItem n) { r with cause := none }
  | content {r : Run} (n : Node) (h : S.Rested r₀ r) : Starts r₀ {} (S.item {} n) r
  | decision {r : Run} (id : EntityId) (h : S.Rested r₀ r) :
    Starts r₀ {} (.decide id (.done ())) r
  | aspects {r : Run} {type : EntityId} {anchor : Option EntityId} {e : Entity}
      {t : TypeFacet} {mode : Option Mode} {attribution : Site} (h : S.Rested r₀ r)
      (he : S.program.entity type = .ok e) (ht : S.program.typeFacet type = .ok t)
      (hm : S.aspectsMode e anchor = .ok (mode, attribution)) (hn : mode ≠ some .off) :
    Starts r₀ (aspectsScope type anchor mode attribution) (S.aspectsInquiry t)
      { r with cause := none }

/-- The moments of sessions from `r₀`. -/
inductive Reached (r₀ : Run) : Moment → Prop
  | start {scope : Scope} {i : Inquiry Unit} {r : Run} (h : S.Starts r₀ scope i r) :
    Reached r₀ ⟨[], scope, i, r⟩
  | goes {M M' : Moment} (h : Reached r₀ M) (g : S.Goes M M') : Reached r₀ M'

/-- The runs that sessions from `r₀` come to, in the middle of an act or after it. -/
def Arises (r₀ r : Run) : Prop :=
  S.Rested r₀ r ∨ ∃ M, S.Reached r₀ M ∧ M.run = r

variable {S} {r₀ : Run}

theorem rested_bind {α β : Type} {act : Act α} {f : α → Act β} {r : Run}
    (h : S.Rested r₀ (act.after r).2)
    (h' : ∀ a r₁, act r = .ok a r₁ → S.Rested r₀ r₁ → S.Rested r₀ ((f a).after r₁).2) :
  S.Rested r₀ ((act >>= f).after r).2
  := by
  obtain he | ⟨a, r₁, ha, he⟩ := @Act.after_bind _ _ act f r
  · rwa [he]
  · rw [he]
    rw [Act.after_of_ok ha] at h
    exact h' a r₁ ha h

theorem Rested.forM {ns : List Node} {f : Node → Act Unit}
    (hf : ∀ n r, S.Rested r₀ r → S.Rested r₀ ((f n).after r).2) {r : Run} (h : S.Rested r₀ r) :
  S.Rested r₀ ((ns.forM f).after r).2
  := by
  induction ns generalizing r with
  | nil => exact h
  | cons n ns ih => exact rested_bind (hf n r h) fun _ _ _ h₁ => ih h₁

theorem Rested.unit {r : Run} (h : S.Rested r₀ r) (n : Node) :
  S.Rested r₀ ((S.unit n).after r).2
  := by
  unfold Setting.unit
  cases n.shape with
  | compilationUnit context unit =>
    apply rested_bind
    · exact h.forM fun item _ h₁ => .context item h₁
    · exact fun _ _ _ h₁ => .content unit h₁
  | _ => exact .content n h

theorem Rested.drainWithin {r : Run} (h : S.Rested r₀ r) (steps : Nat) :
  S.Rested r₀ ((S.drainWithin steps).after r).2
  := by
  induction steps generalizing r with
  | zero =>
    rw [Setting.drainWithin]
    apply rested_bind h
    intro _ _ hg _
    obtain ⟨rfl, rfl⟩ := Act.get_eq_ok.1 hg
    cases r.verdicts.backlog.next? <;> exact h
  | succ steps ih =>
    rw [Setting.drainWithin]
    apply rested_bind h
    intro _ _ hg _
    obtain ⟨rfl, rfl⟩ := Act.get_eq_ok.1 hg
    cases hn : r.verdicts.backlog.next? with
    | none => exact h
    | some next =>
      obtain ⟨task, backlog⟩ := next
      have taken : S.Rested r₀ ((do S.serve task; S.drainWithin steps : Act Unit).after
          (r.take task backlog)).2 := rested_bind (.serve task (.take h hn)) fun _ _ _ => ih
      exact taken

theorem Rested.drain {r : Run} (h : S.Rested r₀ r) :
  S.Rested r₀ (S.drain.after r).2
  := h.drainWithin _

theorem Rested.wholeProgram {r : Run} (h : S.Rested r₀ r) :
  S.Rested r₀ (S.wholeProgram.after r).2
  := by
  apply rested_bind
  · exact h.forM fun n _ h₁ => rested_bind (h₁.unit n) fun _ _ _ => Rested.drain
  · exact fun _ _ _ => .close

/-- No matter is under way after a session. -/
theorem Rested.session {r : Run} (h : S.Rested r₀ r) (qs : List Request) :
  S.Rested r₀ (S.session r qs)
  := by
  induction qs generalizing r with
  | nil => exact h
  | cons q qs ih =>
    apply ih
    cases q with
    | unit n => exact h.unit n
    | entity id => exact .decide id h
    | backlog => exact h.drain
    | program => exact h.wholeProgram

/-! ### What inquiries come to -/

/-- An inquiry goes through one of its paths, or stops at one of its moments. -/
theorem walk_cases (M : Moment) :
  (∃ path, M.rest.Leads path ()
      ∧ S.Passes (.steps M.scope path) M.run ((S.walk S.decide M.scope M.rest).after M.run).2)
    ∨ ∃ M', ReflTransGen S.Goes M M'
      ∧ S.Stops M'.run ((S.walk S.decide M.scope M.rest).after M.run).2
  := by
  cases h : S.walk S.decide M.scope M.rest M.run with
  | ok u r' =>
    rw [Act.after_of_ok h]
    exact Or.inl (passes_walk passes_decide h)
  | error fault r' =>
    rw [Act.after_of_error h]
    obtain ⟨M', hM, hs⟩ := fails_walk passes_decide fails_decide M.stack h .done
    rw [M.rest.bind_done] at hM
    exact Or.inr ⟨M', hM, hs⟩

/-- An entity is decided, or its decision stops at one of its moments. -/
theorem decideWithin_cases (levels : Nat) {M : Moment} {id : EntityId}
    (hi : M.rest.decides? = some id) :
  S.Passes (.decision id) M.run ((S.decideWithin levels id).after M.run).2
    ∨ ∃ M', ReflTransGen S.Goes M M'
      ∧ S.Stops M'.run ((S.decideWithin levels id).after M.run).2
  := by
  cases h : S.decideWithin levels id M.run with
  | ok u r' =>
    rw [Act.after_of_ok h]
    exact Or.inl (passes_decideWithin levels _ _ _ h)
  | error fault r' =>
    rw [Act.after_of_error h]
    exact Or.inr (fails_decideWithin levels _ _ _ _ h _ _ _ hi)

end Setting

end Conformance
