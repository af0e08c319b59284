import Conformance.Proofs.Bodies
import Conformance.Proofs.Roots
import Mathlib.Data.List.Forall2

/-!
# Regular inquiries

`Setting.Regular` says how the inquiries of the legality rules are put together.  Where an
inquiry looks at verdicts as far as decided, it looks at entities that are rooted in what
is known to be consulted at that point, and it does the same afterwards whatever the answer
is, apart from a check.  An inquiry that comes to a call or to a returned value goes
through the checks of it.

All facts about the paths of the legality rules follow from this: which bodies are on them,
that only access types postpone their own completion, that entities which are asked for
are rooted in what is consulted, and that calls and returned values are checked.
-/

namespace Conformance

/-- What an inquiry is about, as far as its rules refer to it. -/
structure Topic where
  /-- The entity whose declaration is gone through. -/
  declared : Option EntityId := none
  /-- The subprogram whose body is gone through. -/
  subprogram : Option EntityId := none

/-- Whether a finding is that something else is excluded. -/
@[simp]
def Finding.isInherited : Finding → Bool
  | .violation (.entityExcluded _) | .violation (.dependsOnExcluded _) => true
  | _ => false

/-- Whether a step gets no answer and rests on nothing.  What it finds is no exclusion of
something else, since only runs find that. -/
def Step.isPlain : Step → Bool
  | .find _ finding => !finding.isInherited
  | .hideView _ | .postponeAspects _ | .relax _ | .placeInLoop .. => true
  | _ => false

@[simp]
theorem Step.isPlain_find (site : Site) (finding : Finding) :
  (Step.find site finding).isPlain = !finding.isInherited
  := rfl

namespace Node

/-- The callee and the actual parameters, if an inquiry comes to a node as a call. -/
def call? (n : Node) : Role → Option (EntityId × List Node)
  | .expression =>
    match n.shape with
    | .call callee arguments => some (callee, arguments)
    | _ => none
  | .item =>
    match n.shape with
    | .procedureCall callee arguments => some (callee, arguments)
    | _ => none
  | _ => none

/-- The value that is returned, if an inquiry comes to a node that returns one. -/
def returned? (n : Node) : Role → Option Node
  | .item =>
    match n.shape with
    | .return value => value
    | _ => none
  | _ => none

/-- The entity of a body and the mode of the body, if an inquiry comes to a node as a body. -/
def bodyOf? (n : Node) : Role → Option (EntityId × Option Mode)
  | .item =>
    match n.shape with
    | .body _ entity mode _ _ | .protectedBody entity mode _ => some (entity, mode)
    | _ => none
  | _ => none

/-- A body is no call and returns no value. -/
theorem eq_none_of_bodyOf? {n : Node} {role : Role} {b : EntityId × Option Mode}
    (h : n.bodyOf? role = some b) :
  n.call? role = none ∧ n.returned? role = none
  := by
  cases role with
  | item =>
    obtain ⟨id, location, type, shape⟩ := n
    cases shape <;> first | exact ⟨rfl, rfl⟩ | cases h
  | _ => cases h

/-- Whether a node is a call, returns a value or is a body, where an inquiry comes to it. -/
def isVetted (n : Node) (role : Role) : Bool :=
  (n.call? role).isSome || (n.returned? role).isSome || (n.bodyOf? role).isSome

end Node

/-- If an inquiry comes to a node as a body, the body is decided on a path. -/
def Node.Heralds (n : Node) (role : Role) (path : List Step) : Prop :=
  ∀ id mode, n.bodyOf? role = some (id, mode) →
    ∃ e inner, e.name = id ∧ .body e mode inner ∈ path

theorem Node.Heralds.mono {n : Node} {role : Role} {p q : List Step} (h : n.Heralds role p)
    (hs : p ⊆ q) :
  n.Heralds role q
  := by
  intro id mode hb
  obtain ⟨e, inner, he, hm⟩ := h id mode hb
  exact ⟨e, inner, he, hs hm⟩

/-- What is consulted on a favourable path. -/
def Consulted (path : List Step) (id : EntityId) : Prop :=
  ∃ site, .consult id site true ∈ path

namespace Inquiry

variable {α : Type}

/-- What is known to be consulted after an inquiry that is done with a value and had a
favourable path. -/
def After (known : EntityId → Prop) (i : Inquiry α) (a : α) (id : EntityId) : Prop :=
  known id ∨ ∀ path, i.Favours path a → Consulted path id

/-- All steps of an inquiry are plain. -/
abbrev IsPlain (i : Inquiry α) : Prop := i.Every (·.isPlain) fun _ => True

end Inquiry

namespace Setting

open Inquiry

variable (S : Setting)

/-- A path on which an inquiry comes to a node goes through the checks of the node. -/
structure Vetted (t : Topic) (role : Role) (n : Node) (path : List Step) : Prop where
  call : ∀ callee arguments, n.call? role = some (callee, arguments) → Consulted path callee
    ∧ ∃ facet q, S.program.subprogramFacet callee = .ok facet
      ∧ (S.checkActuals callee facet.parameters arguments).Favours q () ∧ q <:+: path
  returned : ∀ value, n.returned? role = some value →
    ∃ q, (S.checkReturned { subprogram := t.subprogram } value).Favours q () ∧ q <:+: path

/-- How inquiries are put together, where some entities are known to be consulted, and
which bodies they decide. -/
inductive Regular (t : Topic) : {α : Type} → (EntityId → Prop) →
    List (EntityId × List Node) → Inquiry α → Prop
  | plain {α : Type} {known : EntityId → Prop} {i : Inquiry α} (h : i.IsPlain) :
    Regular t known [] i
  | bind {α β : Type} {known : EntityId → Prop} {bs cs : List (EntityId × List Node)}
      {i : Inquiry α} {f : α → Inquiry β} (h : Regular t known bs i)
      (h' : ∀ a path, i.Leads path a → Regular t (i.After known a) cs (f a)) :
    Regular t known (bs ++ cs) (i >>= f)
  | consult {α : Type} {known : EntityId → Prop} (id : EntityId) (site : Site)
      (f : Bool → α) :
    Regular t known [] (.consult id site fun b => .done (f b))
  | declare {known : EntityId → Prop} (id : EntityId) (site : Site) :
    Regular t known [] (.declare id site (.done ()))
  /-- What a declaration decides without resting on it is excluded from analysis. -/
  | decide {known : EntityId → Prop} (id : EntityId)
      (h : ∀ x, t.declared = some x → S.isOff id = .ok true) :
    Regular t known [] (.decide id (.done ()))
  /-- An access type rests on what it designates, or is completed later. -/
  | designate {known : EntityId → Prop} {access id : EntityId} (site : Site)
      (ht : t.declared = some access) (h : S.designated access = .ok id) :
    Regular t known [] (.isExamined id .done >>= fun examined =>
      if examined then restOn id site else .postponeCompletion access (.done ()))
  /-- A check that is made where a type is in the subset as far as decided. -/
  | given {known : EntityId → Prop} {type : EntityId} {check : Inquiry Unit}
      (ht : S.Rooted known type) (h : check.IsPlain) :
    Regular t known [] (stands type >>= fun b => if b then check else pure ())
  | body {known : EntityId → Prop} {e : Entity} {mode : Option Mode} {inner : Inquiry Unit}
      {b : EntityId × List Node} (h : S.IsBody (e, inner) b) :
    Regular t known [b] (.body e mode inner (.done ()))
  | visit {α : Type} {known : EntityId → Prop} {bs : List (EntityId × List Node)}
      {i : Inquiry α} (role : Role) (n : Node) (h : Regular t known bs i)
      (hv : ∀ path a, i.Favours path a → S.Vetted t role n path)
      (hb : ∀ path a, i.Leads path a → n.Heralds role path) :
    Regular t known bs (come role n >>= fun _ => i)

variable {S}
variable {t : Topic} {α β : Type} {known known' : EntityId → Prop}
  {bs cs : List (EntityId × List Node)} {i : Inquiry α}

theorem Vetted.mono {role : Role} {n : Node} {p q : List Step} (h : S.Vetted t role n p)
    (hs : p <:+: q) :
  S.Vetted t role n q
  := by
  constructor
  · intro callee arguments hc
    obtain ⟨⟨site, hr⟩, facet, p', hf, hp', hs'⟩ := h.call callee arguments hc
    exact ⟨⟨site, hs.subset hr⟩, facet, p', hf, hp', hs'.trans hs⟩
  · intro value hv
    obtain ⟨p', hp', hs'⟩ := h.returned value hv
    exact ⟨p', hp', hs'.trans hs⟩

/-- More may be known. -/
theorem Regular.mono (h : S.Regular t known bs i) (hk : ∀ x, known x → known' x) :
  S.Regular t known' bs i
  := by
  induction h generalizing known' with
  | plain h => exact .plain h
  | bind _ _ ih ih' =>
    apply Regular.bind (ih hk)
    intro a path l
    apply ih' a path l
    exact fun x hx => hx.imp_left (hk x)
  | consult id site f => exact .consult id site f
  | declare id site => exact .declare id site
  | decide id h => exact .decide id h
  | designate site ht h => exact .designate site ht h
  | given ht h => exact .given (ht.mono hk) h
  | body h => exact .body h
  | visit role n _ hv hb ih => exact .visit role n (ih hk) hv hb

theorem Regular.cast (h : S.Regular t known bs i) (hb : bs = cs) :
  S.Regular t known cs i
  := hb ▸ h

/-! ### Putting inquiries together -/

theorem Regular.append {j : Inquiry β} (h : S.Regular t known bs i)
    (h' : S.Regular t known cs j) :
  S.Regular t known (bs ++ cs) (do let _ ← i; j)
  := h.bind fun _ _ _ => h'.mono fun _ => Or.inl

theorem regular_pure (a : α) :
  S.Regular t known [] (pure a : Inquiry α)
  := .plain trivial

theorem regular_fail (fault : Fault) :
  S.Regular t known [] (throw fault : Inquiry α)
  := .plain trivial

theorem regular_violation (site : Site) {v : Violation}
    (hv : (Finding.violation v).isInherited = false) :
  S.Regular t known [] (violation site v)
  := .plain (by simp only [every_violation, Step.isPlain_find, hv, Bool.not_false, and_self])

theorem regular_lift {x : Answer α} {f : α → Inquiry β}
    (h : ∀ a, x = .ok a → S.Regular t known bs (f a)) :
  S.Regular t known bs (liftM x >>= f)
  := by
  have hx : S.Regular t known [] (liftM x : Inquiry α) := .plain (by simp)
  apply hx.bind
  intro a path l
  exact (h a (leads_lift.1 l).2).mono fun _ => Or.inl

/-- An inquiry that is preceded by another one under a condition. -/
theorem regular_after {c : Prop} [Decidable c] {i : Inquiry Unit} {f : Unit → Inquiry β}
    (h : S.Regular t known [] i) (h' : S.Regular t known bs (f ())) :
  S.Regular t known bs (if c then i >>= f else f ())
  := by
  split
  · exact h.append h'
  · exact h'

/-- After an entity was asked for, it is known to be consulted if the answer is yes. -/
theorem regular_ask {id : EntityId} {site : Site} {f : Bool → Inquiry β}
    (h : ∀ b, S.Regular t (fun x => known x ∨ (b = true → x = id)) bs (f b)) :
  S.Regular t known bs (ask id site >>= f)
  := by
  have ha : S.Regular t known [] (ask id site) := .consult id site fun b => b
  apply ha.bind
  intro b _ _
  apply (h b).mono
  rintro x (hx | hx)
  · exact Or.inl hx
  · right
    intro path hp
    obtain ⟨rfl, rfl⟩ := favours_ask.1 hp
    exact ⟨site, by simp [hx rfl]⟩

theorem regular_restOn (id : EntityId) (site : Site) :
  S.Regular t known [] (restOn id site)
  := .consult id site fun _ => ()

theorem regular_forM {γ : Type} {f : γ → Inquiry Unit} {as : List γ}
    (h : ∀ a ∈ as, S.Regular t known [] (f a)) :
  S.Regular t known [] (as.forM f)
  := by
  induction as with
  | nil => exact regular_pure ()
  | cons a as ih =>
    apply (h a List.mem_cons_self).append
    exact ih fun b hb => h b (List.mem_cons_of_mem a hb)

theorem regular_restOnAll (ids : List EntityId) (site : Site) :
  S.Regular t known [] (restOnAll ids site)
  := regular_forM fun id _ => regular_restOn id site

/-- An inquiry that comes to a node which is no call, returns no value and is no body. -/
theorem regular_come {role : Role} {n : Node} (hn : n.isVetted role = false)
    (h : S.Regular t known bs i) :
  S.Regular t known bs (do come role n; i)
  := by
  apply Regular.visit role n h
  · intro path a _
    constructor
    · intro callee arguments hc
      simp [Node.isVetted, hc] at hn
    · intro value hv
      simp [Node.isVetted, hv] at hn
  · intro path a _ id mode hb
    simp [Node.isVetted, hb] at hn

/-! ### Paths of regular inquiries -/

/-- The steps of an access type that rests on what it designates or is completed later. -/
inductive Designates (access id : EntityId) (site : Site) : List Step → Prop
  | rests (b : Bool) : Designates access id site [.look id true, .consult id site b]
  | later : Designates access id site [.look id false, .postponeCompletion access]

theorem leads_designate {access id : EntityId} {site : Site} {path : List Step}
    (l : (Inquiry.isExamined id .done >>= fun examined =>
      if examined then restOn id site else .postponeCompletion access (.done ())).Leads path ()) :
  Designates access id site path
  := by
  cases l with
  | step ht l =>
    cases ht with
    | look b =>
      cases b with
      | true =>
        cases l with
        | step ht l =>
          cases ht with
          | consult b =>
            obtain ⟨rfl, -⟩ := leads_pure.1 l
            exact .rests b
      | false =>
        cases l with
        | step ht l =>
          cases ht
          obtain ⟨rfl, -⟩ := leads_pure.1 l
          exact .later

theorem leads_given {type : EntityId} {check : Inquiry Unit} {path : List Step}
    (l : (stands type >>= fun b => if b then check else pure ()).Leads path ()) :
  path = [.ask type false] ∨ ∃ q, path = .ask type true :: q ∧ check.Leads q ()
  := by
  cases l with
  | step ht l =>
    cases ht with
    | ask b =>
      cases b with
      | true => exact Or.inr ⟨_, rfl, l⟩
      | false =>
        obtain ⟨rfl, -⟩ := leads_pure.1 l
        exact Or.inl rfl

theorem leads_come {role : Role} {n : Node} {path : List Step} {a : α}
    (l : (come role n >>= fun _ => i).Leads path a) :
  ∃ q, path = .visit role n :: q ∧ i.Leads q a
  := by
  cases l with
  | step ht l =>
    cases ht
    exact ⟨_, rfl, l⟩

/-- The bodies on a path. -/
theorem Regular.bodies (h : S.Regular t known bs i) {path : List Step} {a : α}
    (l : i.Leads path a) :
  List.Forall₂ S.IsBody (path.filterMap Step.body?) bs
  := by
  have none_plain {α : Type} {i : Inquiry α} (h : i.IsPlain) {path : List Step} {a : α}
      (l : i.Leads path a) : path.filterMap Step.body? = [] := by
    rw [List.filterMap_eq_nil_iff]
    intro s hs
    have hp := (h.of_leads l).1 s hs
    cases s <;> first | rfl | cases hp
  induction h generalizing path with
  | plain h =>
    rw [none_plain h l]
    exact .nil
  | bind _ _ ih ih' =>
    obtain ⟨p, b, q, rfl, hp, hq⟩ := leads_bind_iff.1 l
    rw [List.filterMap_append]
    exact List.rel_append (ih hp) (ih' b p hp hq)
  | consult id site f | declare id site | decide id h =>
    cases l with
    | step ht l =>
      cases ht
      obtain ⟨rfl, -⟩ := leads_pure.1 l
      exact .nil
  | designate site ht h => cases leads_designate l <;> exact .nil
  | given ht h =>
    obtain rfl | ⟨q, rfl, l'⟩ := leads_given l
    · exact .nil
    · rw [List.filterMap_cons, none_plain h l']
      exact .nil
  | body h =>
    cases l with
    | step ht l =>
      cases ht
      obtain ⟨rfl, -⟩ := leads_pure.1 l
      exact .cons h .nil
  | visit role n _ hv _ ih =>
    obtain ⟨q, rfl, l'⟩ := leads_come l
    rw [List.filterMap_cons]
    exact ih l'

/-- A completion that is postponed is that of the access type which is declared. -/
theorem Regular.completion (h : S.Regular t known bs i) {path : List Step} {a : α}
    (l : i.Leads path a) {access : EntityId} (hs : .postponeCompletion access ∈ path) :
  t.declared = some access
  := by
  induction h generalizing path with
  | plain h => cases (h.of_leads l).1 _ hs
  | bind _ _ ih ih' =>
    obtain ⟨p, b, q, rfl, hp, hq⟩ := leads_bind_iff.1 l
    obtain hs | hs := List.mem_append.1 hs
    · exact ih hp hs
    · exact ih' b p hp hq hs
  | consult id site f | declare id site | decide id h | body h =>
    cases l with
    | step ht l =>
      cases ht
      obtain ⟨rfl, -⟩ := leads_pure.1 l
      simp at hs
  | designate site ht h =>
    cases leads_designate l with
    | rests b => simp at hs
    | later =>
      obtain rfl : access = _ := by simpa using hs
      exact ht
  | given ht h =>
    obtain rfl | ⟨q, rfl, l'⟩ := leads_given l
    · simp at hs
    · obtain hs | hs := List.mem_cons.1 hs
      · cases hs
      · cases (h.of_leads l').1 _ hs
  | visit role n _ hv _ ih =>
    obtain ⟨q, rfl, l'⟩ := leads_come l
    obtain hs | hs := List.mem_cons.1 hs
    · cases hs
    · exact ih l' hs

/-- What a declaration decides without resting on it is excluded from analysis. -/
theorem Regular.decided (h : S.Regular t known bs i) {path : List Step} {a : α}
    (l : i.Leads path a) {id : EntityId} (hs : .decide id ∈ path) {x : EntityId}
    (ht : t.declared = some x) :
  S.isOff id = .ok true
  := by
  induction h generalizing path with
  | plain h => cases (h.of_leads l).1 _ hs
  | bind _ _ ih ih' =>
    obtain ⟨p, b, q, rfl, hp, hq⟩ := leads_bind_iff.1 l
    obtain hs | hs := List.mem_append.1 hs
    · exact ih hp hs
    · exact ih' b p hp hq hs
  | consult id site f | declare id site | body h =>
    cases l with
    | step ht l =>
      cases ht
      obtain ⟨rfl, -⟩ := leads_pure.1 l
      simp at hs
  | decide id h =>
    cases l with
    | step hd l =>
      cases hd
      obtain ⟨rfl, -⟩ := leads_pure.1 l
      obtain rfl := Step.decide.inj (List.mem_singleton.1 hs)
      exact h x ht
  | designate site ht h => cases leads_designate l <;> simp at hs
  | given ht h =>
    obtain rfl | ⟨q, rfl, l'⟩ := leads_given l
    · simp at hs
    · obtain hs | hs := List.mem_cons.1 hs
      · cases hs
      · cases (h.of_leads l').1 _ hs
  | visit role n _ hv _ ih =>
    obtain ⟨q, rfl, l'⟩ := leads_come l
    obtain hs | hs := List.mem_cons.1 hs
    · cases hs
    · exact ih l' hs

/-- What is found on the paths of a regular inquiry is no exclusion of something else. -/
theorem Regular.findings (h : S.Regular t known bs i) {path : List Step} {a : α}
    (l : i.Leads path a) {site : Site} {finding : Finding} (hs : .find site finding ∈ path) :
  finding.isInherited = false
  := by
  induction h generalizing path with
  | plain h => simpa using (h.of_leads l).1 _ hs
  | bind _ _ ih ih' =>
    obtain ⟨p, b, q, rfl, hp, hq⟩ := leads_bind_iff.1 l
    obtain hs | hs := List.mem_append.1 hs
    · exact ih hp hs
    · exact ih' b p hp hq hs
  | consult id site f | declare id site | decide id h | body h =>
    cases l with
    | step ht l =>
      cases ht
      obtain ⟨rfl, -⟩ := leads_pure.1 l
      simp at hs
  | designate site ht h => cases leads_designate l <;> simp at hs
  | given ht h =>
    obtain rfl | ⟨q, rfl, l'⟩ := leads_given l
    · simp at hs
    · obtain hs | hs := List.mem_cons.1 hs
      · cases hs
      · simpa using (h.of_leads l').1 _ hs
  | visit role n _ hv _ ih =>
    obtain ⟨q, rfl, l'⟩ := leads_come l
    obtain hs | hs := List.mem_cons.1 hs
    · cases hs
    · exact ih l' hs

/-- After a path comes to a body, the body is decided. -/
theorem Regular.heralds (h : S.Regular t known bs i) {path : List Step} {a : α}
    (l : i.Leads path a) {p q : List Step} {role : Role} {n : Node}
    (hs : path = p ++ .visit role n :: q) :
  n.Heralds role q
  := by
  have hm : .visit role n ∈ path := by simp [hs]
  induction h generalizing path p q with
  | plain h => cases (h.of_leads l).1 _ hm
  | bind _ _ ih ih' =>
    obtain ⟨p₁, b, p₂, rfl, hp, hq⟩ := leads_bind_iff.1 l
    obtain ⟨p', rfl, rfl⟩ | ⟨q', rfl, hs'⟩ := List.append_eq_append_iff.1 hs
    · exact ih' b p₁ hp hq rfl (by simp)
    · cases q' with
      | nil =>
        obtain rfl : p₂ = .visit role n :: q := hs'.symm
        exact ih' b _ hp hq (List.nil_append _).symm List.mem_cons_self
      | cons s q' =>
        obtain ⟨rfl, rfl⟩ := List.cons.inj hs'
        exact (ih hp rfl (by simp)).mono (List.subset_append_left q' p₂)
  | consult id site f | declare id site | decide id h | body h =>
    cases l with
    | step ht l =>
      cases ht
      obtain ⟨rfl, -⟩ := leads_pure.1 l
      simp at hm
  | designate site ht h => cases leads_designate l <;> simp at hm
  | given ht h =>
    obtain rfl | ⟨q, rfl, l'⟩ := leads_given l
    · simp at hm
    · obtain hm | hm := List.mem_cons.1 hm
      · cases hm
      · cases (h.of_leads l').1 _ hm
  | visit role' n' _ _ hb ih =>
    obtain ⟨q', rfl, l'⟩ := leads_come l
    cases p with
    | nil =>
      obtain ⟨he, rfl⟩ := List.cons.inj hs
      obtain ⟨rfl, rfl⟩ := Step.visit.inj he
      exact hb _ _ l'
    | cons s p =>
      obtain ⟨-, rfl⟩ := List.cons.inj hs
      exact ih l' rfl (by simp)

/-- A type that a favourable path asks for is rooted in what is consulted. -/
theorem Regular.rooted (h : S.Regular t known bs i) {path : List Step} {a : α}
    (hp : i.Favours path a) {type : EntityId} {b : Bool} (hs : .ask type b ∈ path) :
  S.Rooted (fun x => known x ∨ Consulted path x) type
  := by
  induction h generalizing path with
  | plain h => cases (h.of_leads hp.leads).1 _ hs
  | bind _ _ ih ih' =>
    obtain ⟨p, c, q, rfl, hp, hq⟩ := favours_bind_iff.1 hp
    obtain hs | hs := List.mem_append.1 hs
    · apply (ih hp hs).mono
      rintro x (hx | ⟨site, hx⟩)
      · exact Or.inl hx
      · exact Or.inr ⟨site, List.mem_append_left q hx⟩
    · apply (ih' c p hp.leads hq hs).mono
      rintro x ((hx | hx) | ⟨site, hx⟩)
      · exact Or.inl hx
      · obtain ⟨site, hx⟩ := hx p hp
        exact Or.inr ⟨site, List.mem_append_left q hx⟩
      · exact Or.inr ⟨site, List.mem_append_right p hx⟩
  | consult id site f | declare id site | decide id h | body h =>
    cases hp.leads with
    | step ht l =>
      cases ht
      obtain ⟨rfl, -⟩ := leads_pure.1 l
      simp at hs
  | designate site ht h => cases leads_designate hp.leads <;> simp at hs
  | given ht h =>
    obtain rfl | ⟨q, rfl, l'⟩ := leads_given hp.leads
    · obtain ⟨rfl, rfl⟩ := Step.ask.inj (List.mem_singleton.1 hs)
      exact ht.mono fun _ => Or.inl
    · obtain hs | hs := List.mem_cons.1 hs
      · obtain ⟨rfl, rfl⟩ := Step.ask.inj hs
        exact ht.mono fun _ => Or.inl
      · cases (h.of_leads l').1 _ hs
  | visit role n _ hv _ ih =>
    obtain ⟨p, ⟨⟩, q, rfl, hp, hq⟩ := favours_bind_iff.1 hp
    obtain rfl := favours_come.1 hp
    obtain hs | hs := List.mem_append.1 hs
    · simp at hs
    · apply (ih hq hs).mono
      rintro x (hx | ⟨site, hx⟩)
      · exact Or.inl hx
      · exact Or.inr ⟨site, List.mem_append_right _ hx⟩

/-- After a favourable path comes to a node, it goes through the checks of the node. -/
theorem Regular.vetted (h : S.Regular t known bs i) {path : List Step} {a : α}
    (hp : i.Favours path a) {role : Role} {n : Node} (hs : .visit role n ∈ path) :
  ∃ p q, path = p ++ .visit role n :: q ∧ S.Vetted t role n q
  := by
  induction h generalizing path with
  | plain h => cases (h.of_leads hp.leads).1 _ hs
  | bind _ _ ih ih' =>
    obtain ⟨p, c, q, rfl, hp, hq⟩ := favours_bind_iff.1 hp
    obtain hs | hs := List.mem_append.1 hs
    · obtain ⟨p₁, p₂, rfl, hv⟩ := ih hp hs
      exact ⟨p₁, p₂ ++ q, by simp, hv.mono (List.prefix_append p₂ q).isInfix⟩
    · obtain ⟨q₁, q₂, rfl, hv⟩ := ih' c p hp.leads hq hs
      exact ⟨p ++ q₁, q₂, by simp, hv⟩
  | consult id site f | declare id site | decide id h | body h =>
    cases hp.leads with
    | step ht l =>
      cases ht
      obtain ⟨rfl, -⟩ := leads_pure.1 l
      simp at hs
  | designate site ht h => cases leads_designate hp.leads <;> simp at hs
  | given ht h =>
    obtain rfl | ⟨q, rfl, l'⟩ := leads_given hp.leads
    · simp at hs
    · obtain hs | hs := List.mem_cons.1 hs
      · cases hs
      · cases (h.of_leads l').1 _ hs
  | visit role' n' _ hv _ ih =>
    obtain ⟨p, ⟨⟩, q, rfl, hp, hq⟩ := favours_bind_iff.1 hp
    obtain rfl := favours_come.1 hp
    obtain hs | hs := List.mem_append.1 hs
    · obtain ⟨rfl, rfl⟩ : role = role' ∧ n = n' := by simpa using hs
      exact ⟨[], q, rfl, hv q a hq⟩
    · obtain ⟨q₁, q₂, rfl, hv'⟩ := ih hq hs
      exact ⟨[.visit role' n'] ++ q₁, q₂, by simp, hv'⟩

end Setting

end Conformance
