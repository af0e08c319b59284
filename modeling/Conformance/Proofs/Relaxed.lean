import Conformance.Proofs.Composition
import Conformance.Proofs.Termination

/-!
# Relaxed initialisation as a closure

A core that has relaxed initialisation passes it on to the cores of its component, its parent and
its parts.  What is recorded after some requests is all that their cores come to in this way, and
a core has the property by itself exactly if a request said so: `relaxed_exact`.

The search for what is to be recorded stops at a core that is recorded already, and goes on from
one that improves.  So each core that it newly records has all that it passes the property on to
recorded as well, in the end, and this is what makes the table a closure: `Spreads`.
-/

namespace Conformance

open Relation (ReflTransGen)

namespace Setting

variable (S : Setting)

/-- A core passes relaxed initialisation on to the core of its component, of its parent, or of the
type of one of its discriminants and components. -/
inductive PassesOn (whole part : EntityId) : Prop where
  | component {t : TypeFacet} {indices : List EntityId} {type : EntityId}
    (ht : S.program.typeFacet whole = .ok t) (hd : t.definition = .array indices type)
    (hc : S.coreName type = .ok part)
  | parent {t : TypeFacet} {r : RecordDefinition} {type : EntityId}
    (ht : S.program.typeFacet whole = .ok t) (hd : t.definition = .record r)
    (hp : r.parent = some type) (hc : S.coreName type = .ok part)
  | part {t : TypeFacet} {r : RecordDefinition} {member type : EntityId}
    (ht : S.program.typeFacet whole = .ok t) (hd : t.definition = .record r)
    (hm : member ∈ r.discriminants ++ r.components)
    (hp : S.program.declaredType? member = .ok (some type)) (hc : S.coreName type = .ok part)

/-- A type that is its own core, and all is found that it comes to. -/
structure SurveyedCore (name : EntityId) : Prop where
  surveyed : S.Surveyed name
  exists_core : ∃ t, S.core name = .ok (name, t)

/-- Requests to record relaxed initialisation of types, each with whether the type declares it,
one after the other. -/
def relaxEach (calls : List (EntityId × Bool)) : Act Unit :=
  calls.forM fun call => S.relaxAs call.2 call.1

variable {S} {type name whole part : EntityId} {t : TypeFacet}

/-! ### Cores and what they pass the property on to -/

theorem coreName_eq_ok :
  S.coreName type = .ok name ↔ ∃ t, S.core type = .ok (name, t)
  := by
  constructor
  · intro h
    obtain ⟨⟨core, t⟩, hc, h⟩ := Answer.bind_eq_ok.1 h
    obtain rfl := Answer.pure_eq_ok.1 h
    exact ⟨t, hc⟩
  · rintro ⟨t, hc⟩
    exact Answer.bind_eq_ok.2 ⟨_, hc, rfl⟩

theorem Resolvable.exists_coreName (h : S.Resolvable type) :
  ∃ name, S.coreName type = .ok name
  := by
  obtain ⟨⟨name, t⟩, hc⟩ := hasCore_iff.2 h
  exact ⟨name, coreName_eq_ok.2 ⟨t, hc⟩⟩

/-- The core of a surveyed type is surveyed with it. -/
theorem Surveyed.surveyedCore (h : S.Surveyed type) (hc : S.coreName type = .ok name) :
  S.SurveyedCore name
  := by
  obtain ⟨t, hc⟩ := coreName_eq_ok.1 hc
  obtain ⟨last, t', hlast, -, hc'⟩ := h.resolvable.exists_core
  obtain ⟨rfl, rfl⟩ := Prod.mk.inj (Except.ok.inj (hc.symm.trans hc'))
  have hcore := (h.resolvable.core_eq hlast.leads).trans hc
  refine ⟨⟨h.resolvable.of_leads hlast.leads, fun core t' x tx hc' hx => ?_⟩, t, hcore⟩
  obtain ⟨rfl, rfl⟩ := Prod.mk.inj (Except.ok.inj (hcore.symm.trans hc'))
  exact h.finds name t x tx hc hx

theorem PassesOn.contains (h : S.PassesOn whole part) (ht : S.program.typeFacet whole = .ok t) :
  ∃ type, S.program.Contains t.definition type ∧ S.coreName type = .ok part
  := by
  cases h with
  | component ht' hd hc =>
    obtain rfl := Except.ok.inj (ht.symm.trans ht')
    exact ⟨_, hd ▸ .component, hc⟩
  | parent ht' hd hp hc =>
    obtain rfl := Except.ok.inj (ht.symm.trans ht')
    exact ⟨_, hd ▸ .parent hp, hc⟩
  | part ht' hd hm hp hc =>
    obtain rfl := Except.ok.inj (ht.symm.trans ht')
    exact ⟨_, hd ▸ .part hm hp, hc⟩

theorem passesOn_iff (ht : S.program.typeFacet whole = .ok t) :
  S.PassesOn whole part ↔ match t.definition with
    | .array _ type => S.coreName type = .ok part
    | .record r => (∃ type ∈ r.parent, S.coreName type = .ok part)
        ∨ ∃ member ∈ r.discriminants ++ r.components, ∃ type,
          S.program.declaredType? member = .ok (some type) ∧ S.coreName type = .ok part
    | _ => False
  := by
  constructor
  · intro h
    cases h with
    | component ht' hd hc =>
      obtain rfl := Except.ok.inj (ht.symm.trans ht')
      rwa [hd]
    | parent ht' hd hp hc =>
      obtain rfl := Except.ok.inj (ht.symm.trans ht')
      rw [hd]
      exact Or.inl ⟨_, hp, hc⟩
    | part ht' hd hm hp hc =>
      obtain rfl := Except.ok.inj (ht.symm.trans ht')
      rw [hd]
      exact Or.inr ⟨_, hm, _, hp, hc⟩
  · intro h
    split at h
    · next hd => exact .component ht hd h
    · next hd =>
      obtain ⟨type, hp, hc⟩ | ⟨member, hm, type, hp, hc⟩ := h
      · exact .parent ht hd hp hc
      · exact .part ht hd hm hp hc
    · cases h

/-- What a surveyed core passes the property on to is a surveyed core. -/
theorem SurveyedCore.of_passesOn (h : S.SurveyedCore whole) (hp : S.PassesOn whole part) :
  S.SurveyedCore part
  := by
  obtain ⟨t, hc⟩ := h.exists_core
  obtain ⟨type, hcont, hpart⟩ := hp.contains (typeFacet_of_core hc)
  exact (h.surveyed.of_contains hc hcont).surveyedCore hpart

/-! ### The cores of parts -/

theorem exists_partCores {members : List EntityId}
    (h : ∀ member ∈ members, ∃ type?, S.program.declaredType? member = .ok type?
      ∧ ∀ type ∈ type?, S.Resolvable type) :
  ∃ cores, S.partCores members = .ok cores
    ∧ ∀ core, core ∈ cores ↔ ∃ member ∈ members, ∃ type,
      S.program.declaredType? member = .ok (some type) ∧ S.coreName type = .ok core
  := by
  induction members with
  | nil => exact ⟨[], rfl, by simp⟩
  | cons member members ih =>
    rw [List.forall_mem_cons] at h
    obtain ⟨⟨type?, hd, hr⟩, h⟩ := h
    obtain ⟨cores, hcores, hiff⟩ := ih h
    cases type? with
    | none =>
      refine ⟨cores, Answer.bind_eq_ok.2 ⟨none, hd, hcores⟩, fun core => ?_⟩
      rw [hiff]
      simp [hd]
    | some type =>
      obtain ⟨first, hfirst⟩ := (hr type rfl).exists_coreName
      refine ⟨first :: cores, ?_, fun core => ?_⟩
      · refine Answer.bind_eq_ok.2 ⟨some type, hd, ?_⟩
        exact Answer.bind_eq_ok.2 ⟨first, hfirst, Answer.bind_eq_ok.2 ⟨cores, hcores, rfl⟩⟩
      · rw [List.mem_cons, hiff]
        simp [hd, hfirst, eq_comm]

theorem exists_parentCores {parent? : Option EntityId}
    (h : ∀ parent ∈ parent?, S.Resolvable parent) :
  ∃ cores, parent?.toList.mapM S.coreName = .ok cores
    ∧ ∀ core, core ∈ cores ↔ ∃ parent ∈ parent?, S.coreName parent = .ok core
  := by
  cases parent? with
  | none => exact ⟨[], rfl, by simp⟩
  | some parent =>
    obtain ⟨core, hcore⟩ := (h parent rfl).exists_coreName
    refine ⟨[core], ?_, by simp [hcore, eq_comm]⟩
    rw [Option.toList_some, List.mapM_cons, hcore]
    rfl

/-- The cores that the search goes on to are those that the property is passed on to. -/
theorem SurveyedCore.exists_relaxedParts (h : S.SurveyedCore whole) :
  ∃ parts, S.relaxedParts whole = .ok parts ∧ ∀ part, part ∈ parts ↔ S.PassesOn whole part
  := by
  obtain ⟨t, hc⟩ := h.exists_core
  have ht := typeFacet_of_core hc
  have hf := h.surveyed.findsParts hc
  have hdef : S.definition whole = .ok t.definition := Answer.bind_eq_ok.2 ⟨_, hc, rfl⟩
  unfold relaxedParts
  simp only [passesOn_iff ht]
  cases hd : t.definition with
  | array indices component =>
    rw [hd] at hf
    obtain ⟨core, hcore⟩ := Resolvable.exists_coreName hf
    refine ⟨[core], ?_, fun part => ?_⟩
    · refine Answer.bind_eq_ok.2 ⟨_, hdef, ?_⟩
      rw [hd]
      exact Answer.bind_eq_ok.2 ⟨core, hcore, rfl⟩
    · change part ∈ [core] ↔ S.coreName component = .ok part
      rw [hcore, List.mem_singleton, Except.ok.injEq, eq_comm]
  | record r =>
    rw [hd] at hf
    obtain ⟨parents, hparents, hp⟩ := exists_parentCores hf.1
    obtain ⟨cores, hcores, hm⟩ := exists_partCores hf.2
    refine ⟨parents ++ cores, ?_, fun part => ?_⟩
    · refine Answer.bind_eq_ok.2 ⟨_, hdef, ?_⟩
      rw [hd]
      exact Answer.bind_eq_ok.2 ⟨parents, hparents, Answer.bind_eq_ok.2 ⟨cores, hcores, rfl⟩⟩
    · rw [List.mem_append, hp, hm]
  | _ =>
    refine ⟨[], ?_, fun part => by simp⟩
    refine Answer.bind_eq_ok.2 ⟨_, hdef, ?_⟩
    rw [hd]
    rfl

/-! ### What is recorded -/

/-- The types recorded as having relaxed initialisation, each with whether it has it by itself. -/
abbrev Relaxed := Std.TreeMap EntityId Bool

theorem Relaxed.getElem?_insert (relaxed : Relaxed) (core x : EntityId) (own : Bool) :
  (relaxed.insert core own)[x]? = if core = x then some own else relaxed[x]?
  := by
  rw [Std.TreeMap.getElem?_insert]
  simp only [Std.LawfulEqCmp.compare_eq_iff_eq]

theorem Relaxed.mem_insert {relaxed : Relaxed} {core x : EntityId} {own : Bool} :
  x ∈ relaxed.insert core own ↔ core = x ∨ x ∈ relaxed
  := by rw [Std.TreeMap.mem_insert, Std.LawfulEqCmp.compare_eq_iff_eq]

/-- What is recorded for a core does not improve if it is recorded, and as having the property by
itself if that is what is to be recorded. -/
theorem improvesRelaxed_eq_false_iff {v : Verdicts} {core : EntityId} {own : Bool} :
  v.improvesRelaxed core own = false
    ↔ core ∈ v.relaxed ∧ (own = true → v.relaxed[core]? = some true)
  := by
  rw [Std.TreeMap.mem_iff_isSome_getElem?]
  unfold Verdicts.improvesRelaxed
  split <;> simp_all

/-- How the table grows while some cores are served, each of which has the property by itself
or from elsewhere.  Only what they come to is recorded, and all that a newly recorded core
passes the property on to. -/
structure Spreads (S : Setting) (starts : EntityId → Bool → Prop) (relaxed relaxed' : Relaxed) :
    Prop where
  mono : ∀ x ∈ relaxed, x ∈ relaxed'
  kept : ∀ x : EntityId, relaxed[x]? = some true → relaxed'[x]? = some true
  served : ∀ x own, starts x own → x ∈ relaxed' ∧ (own = true → relaxed'[x]? = some true)
  sound : ∀ x ∈ relaxed', x ∉ relaxed → ∃ y own, starts y own ∧ ReflTransGen S.PassesOn y x
  owned : ∀ x : EntityId, relaxed'[x]? = some true → relaxed[x]? = some true ∨ starts x true
  closed : ∀ x ∈ relaxed', x ∉ relaxed → ∀ y, S.PassesOn x y → y ∈ relaxed'

variable {starts starts' : EntityId → Bool → Prop} {relaxed relaxed₁ relaxed' : Relaxed}

theorem Spreads.of_iff (h : S.Spreads starts relaxed relaxed')
    (hs : ∀ x own, starts' x own ↔ starts x own) :
  S.Spreads starts' relaxed relaxed'
  := by rwa [show starts' = starts from funext fun x => funext fun own => propext (hs x own)]

theorem Spreads.refl (h : ∀ x own, starts x own →
    x ∈ relaxed ∧ (own = true → relaxed[x]? = some true)) :
  S.Spreads starts relaxed relaxed
  where
  mono _ := id
  kept _ := id
  served := h
  sound _ hx hn := (hn hx).elim
  owned _ := Or.inl
  closed _ hx hn := (hn hx).elim

theorem Spreads.trans (h : S.Spreads starts relaxed relaxed₁)
    (h' : S.Spreads starts' relaxed₁ relaxed') :
  S.Spreads (fun x own => starts x own ∨ starts' x own) relaxed relaxed'
  where
  mono x hx := h'.mono x (h.mono x hx)
  kept x hx := h'.kept x (h.kept x hx)
  served x own hs := by
    obtain hs | hs := hs
    · obtain ⟨hx, ho⟩ := h.served x own hs
      exact ⟨h'.mono x hx, fun hown => h'.kept x (ho hown)⟩
    · exact h'.served x own hs
  sound x hx hn := by
    by_cases hm : x ∈ relaxed₁
    · obtain ⟨y, own, hs, hr⟩ := h.sound x hm hn
      exact ⟨y, own, Or.inl hs, hr⟩
    · obtain ⟨y, own, hs, hr⟩ := h'.sound x hx hm
      exact ⟨y, own, Or.inr hs, hr⟩
  owned x hx := by
    obtain hx | hs := h'.owned x hx
    · exact (h.owned x hx).imp_right Or.inl
    · exact Or.inr (Or.inr hs)
  closed x hx hn y hy := by
    by_cases hm : x ∈ relaxed₁
    · exact h'.mono y (h.closed x hm hn y hy)
    · exact h'.closed x hx hm y hy

/-- A core improves, and what it passes the property on to is served with the others. -/
theorem Spreads.enter {core : EntityId} {own : Bool} (hi : relaxed[core]? ≠ some true)
    (h : S.Spreads (fun x b => S.PassesOn core x ∧ b = false ∨ starts x b)
      (relaxed.insert core own) relaxed') :
  S.Spreads (fun x b => x = core ∧ b = own ∨ starts x b) relaxed relaxed'
  where
  mono x hx := h.mono x (Relaxed.mem_insert.2 (Or.inr hx))
  kept x hx := by
    refine h.kept x ?_
    rw [Relaxed.getElem?_insert, if_neg]
    · exact hx
    · rintro rfl
      exact hi hx
  served x b hs := by
    obtain ⟨rfl, rfl⟩ | hs := hs
    · refine ⟨h.mono x (Relaxed.mem_insert.2 (Or.inl rfl)), fun hb => h.kept x ?_⟩
      rw [Relaxed.getElem?_insert, if_pos rfl, hb]
    · exact h.served x b (Or.inr hs)
  sound x hx hn := by
    by_cases he : core = x
    · exact ⟨x, own, Or.inl ⟨he.symm, rfl⟩, .refl⟩
    · obtain ⟨y, b, ⟨hy, -⟩ | hs, hr⟩ := h.sound x hx (by rw [Relaxed.mem_insert]; tauto)
      · exact ⟨core, own, Or.inl ⟨rfl, rfl⟩, .head hy hr⟩
      · exact ⟨y, b, Or.inr hs, hr⟩
  owned x hx := by
    obtain hx | ⟨-, hb⟩ | hs := h.owned x hx
    · rw [Relaxed.getElem?_insert] at hx
      split at hx
      · next he => exact Or.inr (Or.inl ⟨he.symm, (Option.some.inj hx).symm⟩)
      · exact Or.inl hx
    · cases hb
    · exact Or.inr (Or.inr hs)
  closed x hx hn y hy := by
    by_cases he : core = x
    · subst he
      exact (h.served y false (Or.inl ⟨hy, rfl⟩)).1
    · exact h.closed x hx (by rw [Relaxed.mem_insert]; tauto) y hy

/-! ### The search -/

variable {r : Run} {core : EntityId} {own : Bool} {rest : List (EntityId × Bool)}

/-- The search stops at a core that does not improve. -/
theorem relaxAll_stop (h : r.verdicts.improvesRelaxed core own = false) (steps : Nat) :
  S.relaxAll steps ((core, own) :: rest) r = S.relaxAll steps rest r
  := by
  rw [relaxAll_cons, Act.get_bind_apply, h]
  rfl

/-- The search goes on from a core that improves. -/
theorem relaxAll_go (h : r.verdicts.improvesRelaxed core own = true) (steps : Nat) :
  S.relaxAll (steps + 1) ((core, own) :: rest) r
    = (S.relaxedParts core >>= fun parts =>
        S.relaxAll steps ((parts.map fun part => (part, false)).reverse ++ rest) : Act Unit)
      (r.rule fun v => { v with relaxed := v.relaxed.insert core own })
  := by
  rw [relaxAll_cons, Act.get_bind_apply, h]
  rfl

/-- The search succeeds if all is found that its cores come to, and the table grows as it
should.  Each step improves what is recorded for a core, so the steps are enough. -/
theorem exists_relaxAll {steps : Nat} {work : List (EntityId × Bool)}
    (hw : ∀ w ∈ work, S.SurveyedCore w.1) (hs : S.improvements r.verdicts.relaxed ≤ steps) :
  ∃ r', S.relaxAll steps work r = .ok () r'
    ∧ S.Spreads (fun x own => (x, own) ∈ work) r.verdicts.relaxed r'.verdicts.relaxed
  := by
  induction steps, work using relaxAll_induction generalizing r with
  | nil steps => exact ⟨r, by rw [relaxAll_nil]; rfl, .refl (by simp)⟩
  | cons steps core own rest ihw ih =>
    obtain ⟨hcore, hrest⟩ := List.forall_mem_cons.1 hw
    cases hi : r.verdicts.improvesRelaxed core own with
    | false =>
      obtain ⟨r', hr, hsp⟩ := ihw hrest hs
      refine ⟨r', (relaxAll_stop hi steps).trans hr, ?_⟩
      have hstop : S.Spreads (fun x b => x = core ∧ b = own) r.verdicts.relaxed
          r.verdicts.relaxed := by
        refine .refl ?_
        rintro _ _ ⟨rfl, rfl⟩
        exact improvesRelaxed_eq_false_iff.1 hi
      exact (hstop.trans hsp).of_iff fun x b => by simp
    | true =>
      obtain ⟨parts, hparts, hp⟩ := hcore.exists_relaxedParts
      obtain ⟨t, hc⟩ := hcore.exists_core
      have hlt := improvements_insert (mem_keys_of_core hc) hi
      obtain ⟨steps, rfl⟩ := Nat.exists_eq_add_one_of_ne_zero (by omega : steps ≠ 0)
      have hwork : ∀ w ∈ (parts.map fun part => (part, false)).reverse ++ rest,
          S.SurveyedCore w.1 := by
        intro w hm
        obtain hm | hm := List.mem_append.1 hm
        · simp only [List.mem_reverse, List.mem_map] at hm
          obtain ⟨part, hpart, rfl⟩ := hm
          exact hcore.of_passesOn ((hp part).1 hpart)
        · exact hrest w hm
      obtain ⟨r', hr, hsp⟩ := ih steps (Nat.lt_succ_self _) _
        (r := r.rule fun v => { v with relaxed := v.relaxed.insert core own }) hwork
        (Nat.le_of_lt_succ (Nat.lt_of_lt_of_le hlt hs))
      refine ⟨r', ?_, ?_⟩
      · rw [relaxAll_go hi, hparts]
        exact hr
      · have hne : r.verdicts.relaxed[core]? ≠ some true := fun he => by
          simp [Verdicts.improvesRelaxed, he] at hi
        have hparts : S.Spreads (fun x b => S.PassesOn core x ∧ b = false ∨ (x, b) ∈ rest)
            (r.verdicts.relaxed.insert core own) r'.verdicts.relaxed :=
          hsp.of_iff fun x b => by simp [hp, eq_comm]
        exact (hparts.enter hne).of_iff fun x b => by simp

/-! ### Requests -/

/-- A request succeeds if all is found that the core of its type comes to. -/
theorem exists_relaxAs (h : S.Surveyed type) (own : Bool) (r : Run) :
  ∃ r', S.relaxAs own type r = .ok () r'
    ∧ S.Spreads (fun x b => S.coreName type = .ok x ∧ b = own) r.verdicts.relaxed
      r'.verdicts.relaxed
  := by
  obtain ⟨core, hc⟩ := h.resolvable.exists_coreName
  have hw : ∀ w ∈ [(core, own)], S.SurveyedCore w.1 := by simpa using h.surveyedCore hc
  obtain ⟨r', hr, hsp⟩ := exists_relaxAll (r := r) hw (improvements_le _)
  refine ⟨r', Act.bind_eq_ok.2 ⟨core, r, Act.lift_eq_ok.2 ⟨hc, rfl⟩, hr⟩, ?_⟩
  exact hsp.of_iff fun x b => by simp [hc, eq_comm]

/-- Requests one after the other spread from all of their cores. -/
theorem exists_relaxEach {calls : List (EntityId × Bool)}
    (h : ∀ call ∈ calls, S.Surveyed call.1) (r : Run) :
  ∃ r', S.relaxEach calls r = .ok () r'
    ∧ S.Spreads (fun x b => ∃ type, (type, b) ∈ calls ∧ S.coreName type = .ok x)
      r.verdicts.relaxed r'.verdicts.relaxed
  := by
  induction calls generalizing r with
  | nil => exact ⟨r, rfl, .refl (by simp)⟩
  | cons call calls ih =>
    obtain ⟨hcall, hcalls⟩ := List.forall_mem_cons.1 h
    obtain ⟨r₁, hr₁, hsp₁⟩ := exists_relaxAs hcall call.2 r
    obtain ⟨r', hr, hsp⟩ := ih hcalls r₁
    refine ⟨r', Act.bind_eq_ok.2 ⟨(), r₁, hr₁, hr⟩, (hsp₁.trans hsp).of_iff fun x b => ?_⟩
    simp only [List.mem_cons, Prod.ext_iff]
    constructor
    · rintro ⟨type, ⟨rfl, rfl⟩ | hm, hc⟩
      · exact Or.inl ⟨hc, rfl⟩
      · exact Or.inr ⟨type, hm, hc⟩
    · rintro (⟨hc, rfl⟩ | ⟨type, hm, hc⟩)
      · exact ⟨call.1, Or.inl ⟨rfl, rfl⟩, hc⟩
      · exact ⟨type, Or.inr hm, hc⟩

/-- What has spread into an empty table is all that the starts come to. -/
theorem Spreads.mem_iff (h : S.Spreads starts ∅ relaxed') {x : EntityId} :
  x ∈ relaxed' ↔ ∃ y own, starts y own ∧ ReflTransGen S.PassesOn y x
  := by
  constructor
  · exact fun hx => h.sound x hx Std.TreeMap.not_mem_emptyc
  · rintro ⟨y, own, hs, hr⟩
    induction hr with
    | refl => exact (h.served y own hs).1
    | tail _ hp ih => exact h.closed _ ih Std.TreeMap.not_mem_emptyc _ hp

theorem Spreads.eq_true_iff (h : S.Spreads starts ∅ relaxed') {x : EntityId} :
  relaxed'[x]? = some true ↔ starts x true
  := by
  constructor
  · intro hx
    obtain hx | hs := h.owned x hx
    · cases hx.symm.trans Std.TreeMap.getElem?_emptyc
    · exact hs
  · exact fun hs => (h.served x true hs).2 rfl

/-- Tables that have spread from the same starts are the same. -/
theorem Spreads.equiv (h : S.Spreads starts ∅ relaxed) (h' : S.Spreads starts ∅ relaxed') :
  relaxed.Equiv relaxed'
  := by
  refine Std.TreeMap.Equiv.of_forall_constGet?_eq fun x => ?_
  have hm : x ∈ relaxed ↔ x ∈ relaxed' := h.mem_iff.trans h'.mem_iff.symm
  have ht := (h.eq_true_iff (x := x)).trans h'.eq_true_iff.symm
  rw [Std.TreeMap.mem_iff_isSome_getElem?, Std.TreeMap.mem_iff_isSome_getElem?] at hm
  rcases ha : relaxed[x]? with _ | _ | _ <;> rcases hb : relaxed'[x]? with _ | _ | _ <;>
    simp_all

/-! ### What a core has by itself -/

/-- A table in which a core has the property by itself keeps it so when another core, or the
same one, improves. -/
theorem Relaxed.insert_keeps {v : Verdicts} {x : EntityId} (hx : v.relaxed[x]? = some true)
    (hi : v.improvesRelaxed core own = true) :
  (v.relaxed.insert core own)[x]? = some true
  := by
  rw [Relaxed.getElem?_insert, if_neg, hx]
  rintro rfl
  simp [Verdicts.improvesRelaxed, hx] at hi

/-- Whatever is served, and whether or not the search succeeds, a core that has the property by
itself keeps it so. -/
theorem relaxAll_keeps {x : EntityId} (steps : Nat) (work : List (EntityId × Bool)) {r : Run}
    (hx : r.verdicts.relaxed[x]? = some true) :
  ((S.relaxAll steps work).after r).2.verdicts.relaxed[x]? = some true
  := by
  induction steps using Nat.strongRecOn generalizing work r with
  | ind steps ih =>
    induction work with
    | nil =>
      unfold Act.after
      rwa [relaxAll_nil]
    | cons w rest ihw =>
      obtain ⟨core, own⟩ := w
      cases hi : r.verdicts.improvesRelaxed core own with
      | false =>
        unfold Act.after at ihw ⊢
        rwa [relaxAll_stop hi]
      | true =>
        have hx' := Relaxed.insert_keeps hx hi
        cases steps with
        | zero =>
          unfold Act.after
          rwa [relaxAll, Act.get_bind_apply, hi]
        | succ steps =>
          unfold Act.after at ih ⊢
          rw [relaxAll_go hi]
          cases S.relaxedParts core with
          | error fault => exact hx'
          | ok parts => exact ih steps (Nat.lt_succ_self _) _ hx'

theorem relaxAs_keeps {x : EntityId} {r : Run} (own : Bool) (type : EntityId)
    (hx : r.verdicts.relaxed[x]? = some true) :
  ((S.relaxAs own type).after r).2.verdicts.relaxed[x]? = some true
  := by
  cases hc : S.coreName type with
  | error fault =>
    unfold Act.after relaxAs
    rw [hc]
    exact hx
  | ok core =>
    have hkeep := relaxAll_keeps (S := S) (2 * S.program.entityCount) [(core, own)] hx
    unfold Act.after relaxAs at *
    rw [hc]
    exact hkeep

/-- Relaxed initialisation is recorded as a closure.  Requests that start from an empty table, in
whatever order and number, succeed if all is found that their types come to, also if the types
go round.  The cores recorded are those that the cores of the types come to by passing the
property on, a core has it by itself exactly if a request said so of it, and so other requests
that say the same leave the same table.  A core that has the property by itself keeps it in
every run, however a request ends. -/
theorem relaxed_exact {calls : List (EntityId × Bool)} {r : Run}
    (h : ∀ call ∈ calls, S.Surveyed call.1) (hr : r.verdicts.relaxed = ∅) :
  (∃ r', S.relaxEach calls r = .ok () r'
    ∧ (∀ x, x ∈ r'.verdicts.relaxed ↔ ∃ call ∈ calls, ∃ core, S.coreName call.1 = .ok core
      ∧ ReflTransGen S.PassesOn core x)
    ∧ (∀ x : EntityId, r'.verdicts.relaxed[x]? = some true
      ↔ ∃ call ∈ calls, call.2 = true ∧ S.coreName call.1 = .ok x)
    ∧ ∀ calls' (r₁ : Run), (∀ call, call ∈ calls' ↔ call ∈ calls) → r₁.verdicts.relaxed = ∅ →
      ∃ r₁', S.relaxEach calls' r₁ = .ok () r₁'
        ∧ r₁'.verdicts.relaxed.Equiv r'.verdicts.relaxed)
    ∧ ∀ own type (r : Run) (x : EntityId), r.verdicts.relaxed[x]? = some true →
      ((S.relaxAs own type).after r).2.verdicts.relaxed[x]? = some true
  := by
  constructor
  · obtain ⟨r', hok, hsp⟩ := exists_relaxEach h r
    rw [hr] at hsp
    refine ⟨r', hok, fun x => ?_, fun x => ?_, fun calls' r₁ hcalls hr₁ => ?_⟩
    · rw [hsp.mem_iff]
      constructor
      · rintro ⟨y, own, ⟨type, hm, hc⟩, hreach⟩
        exact ⟨_, hm, y, hc, hreach⟩
      · rintro ⟨⟨type, own⟩, hm, core, hc, hreach⟩
        exact ⟨core, own, ⟨type, hm, hc⟩, hreach⟩
    · rw [hsp.eq_true_iff]
      constructor
      · rintro ⟨type, hm, hc⟩
        exact ⟨_, hm, rfl, hc⟩
      · rintro ⟨⟨type, own⟩, hm, rfl, hc⟩
        exact ⟨type, hm, hc⟩
    · obtain ⟨r₁', hok₁, hsp₁⟩ := exists_relaxEach (fun call hm => h call ((hcalls call).1 hm)) r₁
      rw [hr₁] at hsp₁
      exact ⟨r₁', hok₁, (hsp₁.of_iff fun x b => by simp only [hcalls]).equiv hsp⟩
  · exact fun own type r x => relaxAs_keeps own type

/-- A record type with a discriminant and an array of its own subtype, and an extension of it. -/
def recursiveSample : Setting :=
  (ofParts?
    [{ name := "T", kind := .type { definition := .signed 0 9 } },
      { name := "R",
        kind := .type { definition := .record { discriminants := ["RD"], components := ["RA"] } } },
      { name := "RD", scope := some "R", kind := .discriminant { type := "T" } },
      { name := "RA", scope := some "R", kind := .component { type := "A" } },
      { name := "A", kind := .type { definition := .array ["T"] "S" } },
      { name := "S", kind := .type { definition := .subtype "R" [] } },
      { name := "E", kind := .type { definition := .record { parent := some "R" } } }] []).get
    (by decide +kernel)

/-- The extension declares relaxed initialisation twice, and the array has it from elsewhere.  It
spreads to the type of the discriminant, and the record type does not have it by itself. -/
theorem relaxed_exact_recursiveSample :
  let calls := [("E", true), ("A", false), ("E", true)]
  (∀ call ∈ calls, recursiveSample.Surveyed call.1) ∧ ({} : Run).verdicts.relaxed = ∅
    ∧ ∃ r', recursiveSample.relaxEach calls {} = .ok () r'
      ∧ "T" ∈ r'.verdicts.relaxed ∧ r'.verdicts.relaxed["E"]? = some true
      ∧ r'.verdicts.relaxed["R"]? ≠ some true
      ∧ ∃ r₁, recursiveSample.relaxEach [("A", false), ("E", true)] {} = .ok () r₁
        ∧ r₁.verdicts.relaxed.Equiv r'.verdicts.relaxed
  := by
  intro calls
  have hg : ∀ call ∈ calls, recursiveSample.Resolvable call.1 := by decide +kernel
  have hf : ∀ id ∈ recursiveSample.program.entities.keys,
      ∀ t ∈ (recursiveSample.program.typeFacet id).toOption,
        recursiveSample.FindsParts t.definition := by decide +kernel
  have h : ∀ call ∈ calls, recursiveSample.Surveyed call.1 :=
    fun call hm => surveyed_of_findsParts (hg call hm) hf
  have hER : recursiveSample.PassesOn "E" "R" :=
    .parent (t := { definition := .record { parent := some "R" } }) rfl rfl rfl (by decide +kernel)
  have hRD : recursiveSample.program.declaredType? "RD" = .ok (some "T") := by decide +kernel
  have hRT : recursiveSample.PassesOn "R" "T" :=
    .part (t := { definition := .record { discriminants := ["RD"], components := ["RA"] } })
      rfl rfl List.mem_cons_self hRD (by decide +kernel)
  obtain ⟨⟨r', hok, hkeys, htrue, hagain⟩, -⟩ := relaxed_exact h (r := {}) rfl
  refine ⟨h, rfl, r', hok, ?_, ?_, ?_, ?_⟩
  · refine (hkeys "T").2 ⟨("E", true), by decide, "E", by decide +kernel, ?_⟩
    exact .tail (.single hER) hRT
  · exact (htrue "E").2 (by decide +kernel)
  · rw [ne_eq, htrue]
    decide +kernel
  · exact hagain _ {} (by simp [calls]) rfl

end Setting

end Conformance
