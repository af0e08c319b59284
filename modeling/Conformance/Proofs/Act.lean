import Conformance.Outcome
import Mathlib.Tactic.Common

/-!
# Acts taken apart

What an act came to, taken apart into its steps: a lemma for each operation that acts are
built from, if the act succeeded, and another one if it failed.  A failure keeps what the
act did before.
-/

namespace Conformance

namespace Act

variable {α β : Type}

theorem bind_eq_ok {act : Act α} {f : α → Act β} {r r' : Run} {b : β} :
  (act >>= f) r = .ok b r' ↔ ∃ a r₁, act r = .ok a r₁ ∧ f a r₁ = .ok b r'
  := by
  change EStateM.bind act f r = _ ↔ _
  unfold EStateM.bind
  cases act r with
  | ok a r₁ =>
    constructor
    · intro hf
      use a, r₁
    · rintro ⟨a', r₂, h, hf⟩
      obtain ⟨rfl, rfl⟩ := EStateM.Result.ok.inj h
      exact hf
  | error fault r₁ => simp

@[simp]
theorem pure_eq_ok {a b : α} {r r' : Run} :
  (pure a : Act α) r = .ok b r' ↔ a = b ∧ r = r'
  := by
  change EStateM.Result.ok a r = _ ↔ _
  simp

@[simp]
theorem throw_eq_ok {fault : Fault} {a : α} {r r' : Run} :
  (throw fault : Act α) r = .ok a r' ↔ False
  := by
  change EStateM.Result.error fault r = _ ↔ _
  simp

@[simp]
theorem modify_eq_ok {f : Run → Run} {r r' : Run} {u : Unit} :
  (modify f : Act Unit) r = .ok u r' ↔ f r = r'
  := by
  change EStateM.Result.ok () (f r) = _ ↔ _
  simp

@[simp]
theorem rule_eq_ok {f : Verdicts → Verdicts} {r r' : Run} {u : Unit} :
  Act.rule f r = .ok u r' ↔ r.rule f = r'
  := modify_eq_ok

@[simp]
theorem get_eq_ok {r r' r'' : Run} :
  (get : Act Run) r = .ok r'' r' ↔ r = r'' ∧ r = r'
  := by
  change EStateM.Result.ok r r = _ ↔ _
  simp

@[simp]
theorem admits_eq_ok {id : EntityId} {b : Bool} {r r' : Run} :
  Act.admits id r = .ok b r' ↔ r.admits id = b ∧ r = r'
  := by
  change EStateM.Result.ok (r.admits id) r = _ ↔ _
  simp

@[simp]
theorem lift_eq_ok {x : Answer α} {a : α} {r r' : Run} :
  (liftM x : Act α) r = .ok a r' ↔ x = .ok a ∧ r = r'
  := by
  cases x with
  | ok b =>
    change EStateM.Result.ok b r = _ ↔ _
    simp
  | error fault =>
    change EStateM.Result.error fault r = _ ↔ _
    simp

theorem afresh_eq_ok {act : Act α} {a : α} {r r' : Run} :
  act.afresh r = .ok a r'
    ↔ ∃ r₁, act { r with cause := none } = .ok a r₁ ∧ { r₁ with cause := r.cause } = r'
  := by
  unfold afresh
  cases h : act { r with cause := none } with
  | ok b r₁ =>
    simp only [EStateM.Result.ok.injEq]
    constructor
    · rintro ⟨rfl, rfl⟩
      use r₁
    · rintro ⟨r₂, ⟨rfl, rfl⟩, rfl⟩
      simp
  | error fault r₁ => simp

/-! ### Acts that fail -/

variable {fault : Fault}

theorem bind_eq_error {act : Act α} {f : α → Act β} {r r' : Run} :
  (act >>= f) r = .error fault r'
    ↔ act r = .error fault r' ∨ ∃ a r₁, act r = .ok a r₁ ∧ f a r₁ = .error fault r'
  := by
  change EStateM.bind act f r = _ ↔ _
  unfold EStateM.bind
  cases act r with
  | ok a r₁ => simp
  | error fault' r₁ => simp

@[simp]
theorem pure_eq_error {a : α} {r r' : Run} :
  (pure a : Act α) r = .error fault r' ↔ False
  := by
  change EStateM.Result.ok a r = _ ↔ _
  simp

@[simp]
theorem throw_eq_error {fault' : Fault} {r r' : Run} :
  (throw fault' : Act α) r = .error fault r' ↔ fault' = fault ∧ r = r'
  := by
  change EStateM.Result.error fault' r = _ ↔ _
  simp

@[simp]
theorem modify_eq_error {f : Run → Run} {r r' : Run} :
  (modify f : Act Unit) r = .error fault r' ↔ False
  := by
  change EStateM.Result.ok () (f r) = _ ↔ _
  simp

@[simp]
theorem rule_eq_error {f : Verdicts → Verdicts} {r r' : Run} :
  Act.rule f r = .error fault r' ↔ False
  := modify_eq_error

@[simp]
theorem get_eq_error {r r' : Run} :
  (get : Act Run) r = .error fault r' ↔ False
  := by
  change EStateM.Result.ok r r = _ ↔ _
  simp

@[simp]
theorem admits_eq_error {id : EntityId} {r r' : Run} :
  Act.admits id r = .error fault r' ↔ False
  := by
  change EStateM.Result.ok (r.admits id) r = _ ↔ _
  simp

@[simp]
theorem lift_eq_error {x : Answer α} {r r' : Run} :
  (liftM x : Act α) r = .error fault r' ↔ x = .error fault ∧ r = r'
  := by
  cases x with
  | ok b =>
    change EStateM.Result.ok b r = _ ↔ _
    simp
  | error fault' =>
    change EStateM.Result.error fault' r = _ ↔ _
    simp

theorem afresh_eq_error {act : Act α} {r r' : Run} :
  act.afresh r = .error fault r'
    ↔ ∃ r₁, act { r with cause := none } = .error fault r₁ ∧ { r₁ with cause := r.cause } = r'
  := by
  unfold afresh
  cases h : act { r with cause := none } with
  | ok b r₁ => simp
  | error fault' r₁ =>
    simp only [EStateM.Result.error.injEq]
    constructor
    · rintro ⟨rfl, rfl⟩
      use r₁
    · rintro ⟨r₂, ⟨rfl, rfl⟩, rfl⟩
      simp

/-! ### The run after an act -/

theorem after_of_ok {act : Act α} {a : α} {r r' : Run} (h : act r = .ok a r') :
  (act.after r).2 = r'
  := by rw [after, h]

theorem after_of_error {act : Act α} {r r' : Run} (h : act r = .error fault r') :
  (act.after r).2 = r'
  := by rw [after, h]

theorem after_bind {act : Act α} {f : α → Act β} {r : Run} :
  ((act >>= f).after r).2 = (act.after r).2
    ∨ ∃ a r₁, act r = .ok a r₁ ∧ ((act >>= f).after r).2 = ((f a).after r₁).2
  := by
  cases hr : act r with
  | ok a r₁ =>
    right
    use a, r₁, rfl
    change (after (EStateM.bind act f) r).2 = _
    unfold after EStateM.bind
    rw [hr]
  | error fault r₁ =>
    left
    rw [after_of_error hr, after_of_error (bind_eq_error.2 (Or.inl hr))]

theorem after_afresh (act : Act α) (r : Run) :
  (act.afresh.after r).2 = { (act.after { r with cause := none }).2 with cause := r.cause }
  := by
  unfold after afresh
  cases act { r with cause := none } <;> rfl

/-- A property of runs stays, whether an act succeeds or fails. -/
def Keeps (P : Run → Prop) (act : Act α) : Prop :=
  ∀ r, P r → P (act.after r).2

section

variable {P : Run → Prop} {act : Act α} {f : α → Act β}

theorem Keeps.bind (h : act.Keeps P) (h' : ∀ a, (f a).Keeps P) :
  (act >>= f).Keeps P
  := by
  intro r hr
  obtain he | ⟨a, r₁, ha, he⟩ := @after_bind _ _ act f r
  · rw [he]
    exact h r hr
  · rw [he]
    apply h' a
    rw [← after_of_ok ha]
    exact h r hr

theorem Keeps.afresh (h : act.Keeps P) (hc : ∀ r cause, P r → P { r with cause }) :
  act.afresh.Keeps P
  := by
  intro r hr
  rw [after_afresh]
  exact hc _ _ (h _ (hc _ _ hr))

theorem keeps_pure (a : α) :
  (pure a : Act α).Keeps P
  := fun _ hr => hr

theorem keeps_lift (x : Answer α) :
  (liftM x : Act α).Keeps P
  := by
  intro r hr
  cases x <;> exact hr

theorem keeps_get :
  (get : Act Run).Keeps P
  := fun _ hr => hr

theorem keeps_admits (id : EntityId) :
  (Act.admits id).Keeps P
  := fun _ hr => hr

end

/-- An act that succeeds, given what it comes to. -/
theorem eq_ok_of_after {act : Act Unit} {r : Run} (h : (act.after r).1.isOk) :
  act r = .ok () (act.after r).2
  := by
  unfold after at h ⊢
  split at h
  · next he => rw [he]
  · cases h

end Act

end Conformance
