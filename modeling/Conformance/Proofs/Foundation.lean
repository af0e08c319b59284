import Conformance.Proofs.Rounds

/-!
# Foundations of admitted entities

No favourable verdict rests on an entity that is excluded: whatever an upheld matter
consulted is admitted in the end.  An inquiry demands a step if the step is on all of its
favourable paths; the foundations of an entity are demanded, so they are admitted if the
entity is.
-/

namespace Conformance

/-- The entity that a matter rests on by an event. -/
def Event.consulted? (m : Matter) : Event → Option EntityId
  | .consulted (some m') x => if m' = m then some x else none
  | _ => none

/-- The entities that a matter consulted. -/
def Run.consultations (r : Run) (m : Matter) : List EntityId :=
  r.journal.filterMap (Event.consulted? m)

theorem Run.mem_consultations {r : Run} {m : Matter} {x : EntityId} :
  x ∈ r.consultations m ↔ .consulted (some m) x ∈ r.journal
  := by
  have hiff (e : Event) : Event.consulted? m e = some x ↔ e = .consulted (some m) x := by
    unfold Event.consulted?
    split <;> simp_all
  simp [consultations, hiff]

/-- A node without a number. -/
def Node.plain (shape : Shape Node) : Node := ⟨0, {}, none, shape⟩

/-- Whether a step rests on an entity that turned out to be admitted. -/
def Step.restsOn (id : EntityId) : Step → Prop
  | .consult x _ admitted => x = id ∧ admitted
  | _ => False

namespace Inquiry

variable {α β : Type}

/-- Every favourable path of an inquiry has a step with the property `P`. -/
def Demands (i : Inquiry α) (P : Step → Prop) : Prop :=
  ∀ path a, i.Favours path a → ∃ s ∈ path, P s

variable {i : Inquiry α} {f : α → Inquiry β} {P : Step → Prop}

theorem Demands.mono {Q : Step → Prop} (h : i.Demands P) (hq : ∀ s, P s → Q s) :
  i.Demands Q
  := by
  intro path a hp
  obtain ⟨s, hs, hP⟩ := h path a hp
  exact ⟨s, hs, hq s hP⟩

theorem Demands.bind (h : i.Demands P) (f : α → Inquiry β) :
  (i >>= f).Demands P
  := by
  intro path b hp
  obtain ⟨p, a, q, rfl, hp, -⟩ := favours_bind_iff.1 hp
  obtain ⟨s, hs, hP⟩ := h p a hp
  exact ⟨s, List.mem_append_left q hs, hP⟩

theorem demands_bind (h : ∀ a, (f a).Demands P) :
  (i >>= f).Demands P
  := by
  intro path b hp
  obtain ⟨p, a, q, rfl, -, hq⟩ := favours_bind_iff.1 hp
  obtain ⟨s, hs, hP⟩ := h a q b hq
  exact ⟨s, List.mem_append_right p hs, hP⟩

theorem demands_lift {x : Answer α} (h : ∀ a, x = .ok a → (f a).Demands P) :
  (liftM x >>= f).Demands P
  := by
  intro path b hp
  obtain ⟨p, a, q, rfl, hp, hq⟩ := favours_bind_iff.1 hp
  obtain ⟨rfl, hx⟩ := favours_lift.1 hp
  exact h a hx q b hq

/-- What comes after a part that is left out in some cases. -/
theorem demands_after {c : Prop} [Decidable c] {i : Inquiry Unit} {f : Unit → Inquiry β}
    (h : ∀ u, (f u).Demands P) :
  (if c then i >>= f else f ()).Demands P
  := by
  split
  · exact demands_bind h
  · exact h ()

theorem demands_ask (id : EntityId) (site : Site) :
  (ask id site).Demands (·.restsOn id)
  := by
  intro path b hp
  obtain ⟨rfl, rfl⟩ := favours_ask.1 hp
  exact ⟨_, List.mem_singleton_self _, rfl, rfl⟩

theorem demands_restOn (id : EntityId) (site : Site) :
  (restOn id site).Demands (·.restsOn id)
  := by
  rintro path ⟨⟩ hp
  rw [favours_restOn.1 hp]
  exact ⟨_, List.mem_singleton_self _, rfl, rfl⟩

theorem demands_restOnAll {ids : List EntityId} {id : EntityId} (h : id ∈ ids) (site : Site) :
  (restOnAll ids site).Demands (·.restsOn id)
  := by
  rintro path ⟨⟩ hp
  rw [favours_restOnAll.1 hp]
  exact ⟨_, List.mem_map_of_mem h, rfl, rfl⟩

end Inquiry

namespace Setting

open Inquiry

variable {S : Setting}

theorem demands_typeDefinition {id : EntityId} (name : EntityId) (site : Site)
    {d : TypeDefinition} (h : id ∈ d.parts) :
  (S.typeDefinition name site d).Demands (·.restsOn id)
  := by
  cases d with
  | array indices component =>
    obtain h | h := List.mem_append.1 h
    · apply demands_bind
      intro _
      exact (demands_restOnAll h site).bind _
    · rw [List.mem_singleton.1 h]
      apply demands_bind
      intro _
      apply demands_bind
      intro _
      exact (demands_ask component site).bind _
  | record r =>
    simp only [TypeDefinition.parts, List.append_assoc] at h
    obtain h | h := List.mem_append.1 h
    · exact (demands_restOnAll h site).bind _
    · apply demands_bind
      intro _
      obtain h | h := List.mem_append.1 h
      · exact (demands_restOnAll h site).bind _
      · apply demands_bind
        intro _
        exact (demands_restOnAll h site).bind _
  | interface parents => exact demands_restOnAll h site
  | partialView full discriminants tagged => exact (demands_restOnAll h site).bind _
  | incomplete full =>
    cases full with
    | none => cases h
    | some view =>
      rw [List.mem_singleton.1 h]
      exact demands_restOn view site
  | subtype parent constraint | derived parent constraint =>
    rw [List.mem_singleton.1 h]
    exact (demands_restOn parent site).bind _
  | classWide root constrained =>
    rw [List.mem_singleton.1 h]
    exact (demands_restOn root site).bind _
  | task discriminants entries => exact demands_restOnAll h site
  | protectedUnit discriminants components operations => exact demands_restOnAll h site
  | _ => cases h

theorem demands_fullView {view : EntityId} (ho : S.isOff view ≠ .ok true) (name : EntityId)
    (site : Site) (discriminants : List EntityId) (tagged : Bool) :
  (S.typeDefinition name site (.partialView (some view) discriminants tagged)).Demands
    (·.restsOn view)
  := by
  apply demands_bind
  intro _
  apply demands_lift
  intro off hoff
  cases off with
  | true => exact absurd hoff ho
  | false => exact demands_restOn view site

theorem demands_declaredType {e : Entity} {id : EntityId} (h : e.declaredType? = some id) :
  (S.entityInquiry e).Demands (·.restsOn id)
  := by
  unfold Entity.declaredType? at h
  unfold entityInquiry
  cases hk : e.kind with
  | object | parameter | component | discriminant =>
    rw [hk] at h
    obtain rfl := Option.some.inj h
    exact (demands_ask _ _).bind _
  | _ =>
    rw [hk] at h
    cases h

theorem demands_concurrentScope {e : Entity} {id : EntityId} (h : e.scope = some id)
    (hc : S.isConcurrentType id = .ok true) :
  (S.restOnConcurrentScope e).Demands (·.restsOn id)
  := by
  unfold restOnConcurrentScope
  rw [h]
  apply demands_lift
  intro concurrent hc'
  rw [hc] at hc'
  obtain rfl := Except.ok.inj hc'
  exact demands_restOn id e.site

theorem demands_subprogram {e : Entity} {s : SubprogramFacet} {id : EntityId}
    (h : e.scope = some id ∧ S.isConcurrentType id = .ok true ∨ id ∈ s.parameters
      ∨ s.result = some id ∨ id ∈ s.overridden) :
  (S.subprogramInquiry e s).Demands (·.restsOn id)
  := by
  unfold subprogramInquiry
  apply demands_after
  intro _
  obtain ⟨h, hc⟩ | h := h
  · exact (demands_concurrentScope h hc).bind _
  apply demands_bind
  intro _
  obtain h | h := h
  · exact (demands_restOnAll h e.site).bind _
  apply demands_bind
  intro _
  obtain h | h := h
  · rw [h]
    exact (demands_ask id e.site).bind _
  have tail : ∀ u : Unit, (do
      restOnAll s.overridden e.site
      S.expressions s.contracts
      S.expressions (s.contractCases.flatMap ContractCase.facets)).Demands (·.restsOn id) :=
    fun _ => (demands_restOnAll h e.site).bind _
  cases s.result with
  | none =>
    apply demands_bind
    intro admitted
    apply demands_after
    intro _
    apply demands_after
    exact tail
  | some result =>
    apply demands_bind
    intro admitted
    apply demands_after
    intro _
    apply demands_after
    intro _
    apply demands_after
    exact tail

theorem demands_predicateFunction {e : Entity} {id : EntityId}
    (h : e.predicateFunction? = some id) :
  (predicateInquiry e).Demands (·.restsOn id)
  := by
  unfold predicateInquiry
  rw [h]
  exact demands_restOn id e.site

/-- What a declaration rests on in any case is on each favourable path of its inquiry. -/
theorem demands_of_founds {e : Entity} {id : EntityId} (h : S.Founds e id) :
  (do S.entityInquiry e; predicateInquiry e : Inquiry Unit).Demands (·.restsOn id)
  := by
  have subprogram {s : SubprogramFacet} (hk : e.kind = .subprogram s)
      (h : (S.subprogramInquiry e s).Demands (·.restsOn id)) :
      (S.entityInquiry e).Demands (·.restsOn id) := by
    unfold entityInquiry
    rwa [hk]
  have type {t : TypeFacet} (hk : e.kind = .type t)
      (h : (S.typeDefinition e.name e.site t.definition).Demands (·.restsOn id)) :
      (S.entityInquiry e).Demands (·.restsOn id) := by
    unfold entityInquiry
    rw [hk]
    exact h.bind _
  cases h with
  | declaredType h => exact (demands_declaredType h).bind _
  | concurrentScope hk h hc => exact (subprogram hk (demands_subprogram (Or.inl ⟨h, hc⟩))).bind _
  | parameter hk h => exact (subprogram hk (demands_subprogram (Or.inr (Or.inl h)))).bind _
  | result hk h => exact (subprogram hk (demands_subprogram (by tauto))).bind _
  | overridden hk h => exact (subprogram hk (demands_subprogram (by tauto))).bind _
  | part hk h => exact (type hk (demands_typeDefinition _ _ h)).bind _
  | fullView hk h ho =>
    refine (type hk ?_).bind _
    rw [h]
    exact demands_fullView ho _ _ _ _
  | predicateFunction h =>
    apply demands_bind
    intro _
    exact demands_predicateFunction h

/-- An access type rests on what it designates, unless its completion is postponed. -/
theorem demands_designated {e : Entity} {t : TypeFacet} {a : AccessDefinition}
    (hk : e.kind = .type t) (hd : t.definition = .access a) :
  (do S.entityInquiry e; predicateInquiry e : Inquiry Unit).Demands
    fun s => s.restsOn a.designated ∨ s = .postponeCompletion e.name
  := by
  apply Demands.bind
  unfold entityInquiry
  rw [hk]
  apply Demands.bind
  rw [hd]
  have rest (examined : Bool) :
      (if examined then restOn a.designated e.site
        else .postponeCompletion e.name (.done ()) : Inquiry Unit).Demands
      fun s => s.restsOn a.designated ∨ s = .postponeCompletion e.name := by
    split
    · exact (demands_restOn _ _).mono fun _ => Or.inl
    · rintro path ⟨⟩ ⟨hl, -⟩
      cases hl with
      | step ht _ =>
        cases ht
        exact ⟨_, List.mem_cons_self, Or.inr rfl⟩
  unfold typeDefinition accessType
  apply demands_after
  intro _
  split <;> apply demands_bind
  all_goals
    intro incomplete
    cases incomplete
    · exact demands_bind rest
    · exact demands_bind rest

/-! ### Admitted foundations -/

section

variable {r : Run} (h : S.wholeProgram {} = .ok () r)

include h

theorem supported_of_upholds (hn : (Node.bodiedOf S.program.units).Nodup) {m : Matter}
    (hm : r.verdicts.upholds m) :
  S.Supported r m
  := (settled_of_wholeProgram h).supported m
    (rounds_le_one hn h (Verdicts.isRevocable_of_upholds hm)) hm

theorem supported_of_admitted {x : EntityId} (hx : x ∈ r.verdicts.admitted) :
  S.Supported r (.declaration x)
  := (settled_of_wholeProgram h).supported _ (rounds_declaration h x)
    (Verdicts.upholds_declaration.2 hx)

/-- What the favourable paths of an admitted entity demand is among the steps it took. -/
theorem records_of_demands {e : Entity} (he : S.program.entity e.name = .ok e)
    (ha : e.name ∈ r.verdicts.admitted) {P : Step → Prop}
    (hd : (do S.entityInquiry e; predicateInquiry e : Inquiry Unit).Demands P) :
  ∃ s, P s ∧ S.Records r (.declaration e.name) s
  := by
  obtain ⟨i, path, hs⟩ := supported_of_admitted h ha
  obtain rfl := hs.inquires.eq_of_declaration he
  obtain ⟨s, hmem, hP⟩ := hd path () hs.favours
  exact ⟨s, hP, hs.records s hmem⟩

/-- Whatever the declaration of an admitted entity consulted is admitted. -/
theorem admitted_of_records {x y : EntityId} (hx : x ∈ r.verdicts.admitted) {s : Step}
    (hs : s.restsOn y) (hr : S.Records r (.declaration x) s) :
  y ∈ r.verdicts.admitted
  := by
  obtain ⟨i, path, hsup⟩ := supported_of_admitted h hx
  cases s with
  | consult id site b =>
    obtain ⟨rfl, -⟩ := hs
    exact (hsup.rests id hr).1
  | _ => cases hs

/-- The foundations of an admitted entity are admitted. -/
theorem admitted_of_founds {e : Entity} (he : S.program.entity e.name = .ok e)
    (ha : e.name ∈ r.verdicts.admitted) {x : EntityId} (hx : S.Founds e x) :
  x ∈ r.verdicts.admitted
  := by
  obtain ⟨s, hs, hr⟩ := records_of_demands h he ha (demands_of_founds hx)
  exact admitted_of_records h ha hs hr

/-- What is rooted in admitted entities is admitted. -/
theorem admitted_of_rooted {roots : EntityId → Prop} {x : EntityId} (hx : S.Rooted roots x)
    (hr : ∀ y, roots y → y ∈ r.verdicts.admitted) :
  x ∈ r.verdicts.admitted
  := by
  induction hx with
  | root h => exact hr _ h
  | founded he _ hf ih => exact admitted_of_founds h he ih hf

/-- What an admitted access type designates is admitted, unless its completion was
postponed. -/
theorem admitted_of_designated {e : Entity} (he : S.program.entity e.name = .ok e)
    (ha : e.name ∈ r.verdicts.admitted) {t : TypeFacet} {a : AccessDefinition}
    (hk : e.kind = .type t) (hd : t.definition = .access a) :
  a.designated ∈ r.verdicts.admitted
    ∨ r.verdicts.backlog.takes (.completion e.name) = false
  := by
  obtain ⟨s, hs | rfl, hr⟩ := records_of_demands h he ha (demands_designated hk hd)
  · exact Or.inl (admitted_of_records h ha hs hr)
  · exact Or.inr hr

end

/-- No verdict rests on an entity that is excluded: what an upheld matter consulted is
admitted, and so is whatever the declaration of an admitted entity is founded on. -/
theorem consultations_closed {S : Setting} {r : Run}
    (hn : (Node.bodiedOf S.program.units).Nodup) (h : S.wholeProgram {} = .ok () r) :
  (∀ m x, r.verdicts.upholds m → .consulted (some m) x ∈ r.journal →
      x ∈ r.verdicts.admitted)
    ∧ ∀ e, S.program.entity e.name = .ok e → e.name ∈ r.verdicts.admitted →
      (∀ x, S.Founds e x → x ∈ r.verdicts.admitted)
        ∧ ∀ t a, e.kind = .type t → t.definition = .access a →
          r.verdicts.backlog.takes (.completion e.name) = true →
          a.designated ∈ r.verdicts.admitted
  := by
  constructor
  · intro m x hm hx
    obtain ⟨i, path, hs⟩ := supported_of_upholds h hn hm
    exact (hs.rests x hx).1
  · intro e he ha
    constructor
    · exact fun x hx => admitted_of_founds h he ha hx
    · intro t a hk hd hb
      apply (admitted_of_designated h he ha hk hd).resolve_right
      rw [hb]
      simp

/-! ### A procedure with a body -/

/-- A program put together from its parts, under the default policy. -/
def ofParts? (entities : List Entity) (units : List Node) : Option Setting :=
  (Program.assemble entities units).toOption.map fun program => { program, policy := {} }

/-- A procedure with a parameter of a type, and its body, which declares the type. -/
def procedureSample : Setting :=
  (ofParts?
    [{ name := "T", kind := .type { definition := .signed 0 9 } },
      { name := "X", kind := .parameter { type := "T" } },
      { name := "P", kind := .subprogram { kind := .procedure, parameters := ["X"] } }]
    [.plain (.declaration .subprogram "P"),
      .plain (.body .subprogram "P" none [.plain (.declaration .type "T")] [])]).get
    (by decide +kernel)

theorem consultations_closed_procedureSample :
  let r := (procedureSample.wholeProgram.after {}).2
  (Node.bodiedOf procedureSample.program.units).Nodup
    ∧ procedureSample.wholeProgram {} = .ok () r
    ∧ r.verdicts.upholds (.body "P") ∧ "P" ∈ r.verdicts.admitted
    ∧ "X" ∈ r.verdicts.admitted ∧ "T" ∈ r.verdicts.admitted
  := by
  have hn : (Node.bodiedOf procedureSample.program.units).Nodup := by decide +kernel
  have h : procedureSample.wholeProgram {}
      = .ok () (procedureSample.wholeProgram.after {}).2 := Act.eq_ok_of_after (by decide +kernel)
  have hb : (procedureSample.wholeProgram.after {}).2.verdicts.upholds (.body "P") := by
    decide +kernel
  have hp : "P" ∈ (procedureSample.wholeProgram.after {}).2.verdicts.admitted := by
    decide +kernel
  have hc : "T" ∈ (procedureSample.wholeProgram.after {}).2.consultations (.body "P") := by
    decide +kernel
  obtain ⟨hconsulted, hfounded⟩ := consultations_closed hn h
  refine ⟨hn, h, hb, hp, ?_, ?_⟩
  · apply (hfounded { name := "P", kind := .subprogram { kind := .procedure, parameters := ["X"] } }
      _ hp).1
    · exact .parameter rfl List.mem_cons_self
    · rfl
  · exact hconsulted (.body "P") "T" hb (Run.mem_consultations.1 hc)

end Setting

end Conformance
