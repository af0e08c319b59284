import Conformance.Proofs.Foundation
import Conformance.Proofs.Sound

/-!
# How verdicts partition entities

`Setting.Sorted` is the invariant of the register: bodies are admitted with their entities
only, what is admitted was examined, an entity with a recorded cause is not admitted, and
what is excluded from analysis has no verdict and no place in the order of declarations.
`Setting.Classed` says that no examined entity is left without a verdict, and
`Setting.Barred` that an excluded entity stays excluded, with the same cause.

`register_partitioned` puts this together for sessions.
-/

namespace Conformance

open Relation (ReflTransGen)

/-! ### The order of declarations -/

namespace Roster

/-- Whether an entity is published or held back. -/
def Mentions (r : Roster) (id : EntityId) : Prop :=
  id ∈ r.entries ∨ ∃ p, (p, id) ∈ r.held

theorem mentions_iff {r : Roster} {x : EntityId} :
  r.Mentions x ↔ x ∈ r.line
  := by simp [Mentions, line]

theorem mentions_of_restrict {r : Roster} {keep : EntityId → Bool} {x : EntityId}
    (h : (r.restrict keep).Mentions x) :
  r.Mentions x
  := mentions_iff.2 (mem_line_restrict.1 (mentions_iff.1 h)).1

theorem mentions_of_enter {r : Roster} {id x : EntityId} (h : (r.enter id).Mentions x) :
  r.Mentions x ∨ x = id
  := by
  obtain h | ⟨p, h⟩ := h
  · obtain h | h := List.mem_append.1 h
    · exact Or.inl (Or.inl h)
    · exact Or.inr (List.mem_singleton.1 h)
  · exact Or.inl (Or.inr ⟨p, List.filter_sublist.subset h⟩)

theorem mentions_of_mem_waitingFor {r : Roster} {id x : EntityId}
    (h : x ∈ r.waitingFor id) :
  r.Mentions x
  := by
  obtain ⟨⟨p, y⟩, hy, rfl⟩ := List.mem_map.1 h
  exact Or.inr ⟨p, List.filter_sublist.subset hy⟩

theorem mentions_of_release {r : Roster} {ready : List EntityId} {x : EntityId}
    (h : (r.release ready).Mentions x) :
  r.Mentions x ∨ x ∈ ready
  := by
  fun_induction release r ready with
  | case1 r => exact Or.inl h
  | case2 r id ready ih =>
    obtain h | h := ih h
    · obtain h | rfl := mentions_of_enter h
      · exact Or.inl h
      · exact Or.inr List.mem_cons_self
    · obtain h | h := List.mem_append.1 h
      · exact Or.inl (mentions_of_mem_waitingFor h)
      · exact Or.inr (List.mem_cons_of_mem _ h)

/-- Only the entity that arrives is new. -/
theorem mentions_of_publish {r : Roster} {id x : EntityId} {prerequisite : Option EntityId}
    (h : (r.publish id prerequisite).Mentions x) :
  r.Mentions x ∨ x = id
  := by
  have released (h : (r.release [id]).Mentions x) : r.Mentions x ∨ x = id :=
    (mentions_of_release h).imp_right List.mem_singleton.1
  unfold publish at h
  split at h
  · exact Or.inl h
  · split at h
    · split at h
      · obtain h | ⟨p, h⟩ := h
        · exact Or.inl (Or.inl h)
        · obtain h | h := List.mem_append.1 h
          · exact Or.inl (Or.inr ⟨p, h⟩)
          · exact Or.inr (Prod.mk.inj (List.mem_singleton.1 h)).2
      · exact released h
    · exact released h

theorem mentions_of_close {r : Roster} {x : EntityId} (h : r.close.Mentions x) :
  r.Mentions x
  := by
  have all (entries : List EntityId) (held : List (EntityId × EntityId))
      (h : x ∈ closeWith entries held) : x ∈ entries ∨ ∃ p, (p, x) ∈ held := by
    induction held generalizing entries with
    | nil => exact Or.inl h
    | cons q held ih =>
      obtain ⟨p, id⟩ := q
      obtain h | ⟨p', h⟩ := ih _ h
      · split at h
        · exact Or.inl h
        · obtain h | h := List.mem_append.1 h
          · exact Or.inl h
          · rw [List.mem_singleton.1 h]
            exact Or.inr ⟨p, List.mem_cons_self⟩
      · exact Or.inr ⟨p', List.mem_cons_of_mem _ h⟩
  obtain h | ⟨p, h⟩ := h
  · exact all _ _ h
  · cases h

end Roster

/-- Whether a cause is recorded for the exclusion of an entity. -/
def Register.Caused (g : Register) (id : EntityId) : Prop :=
  g.causes[id]?.isSome

namespace Setting

variable (S : Setting)

/-- The parts of a register fit together. -/
structure Sorted (g : Register) : Prop where
  known : ∀ x ∈ g.examined, ∃ e, S.program.entity x = .ok e
  examined : ∀ x ∈ g.admitted, x ∈ g.examined
  caused : ∀ x, g.Caused x → x ∈ g.examined ∧ x ∉ g.admitted
  analysed : ∀ x, x ∈ g.admitted ∨ g.Caused x ∨ g.roster.Mentions x → S.isOff x = .ok false

/-- No examined entity is left without a verdict. -/
def Classed (g : Register) : Prop :=
  ∀ x ∈ g.examined, x ∈ g.admitted ∨ g.Caused x ∨ S.isOff x = .ok true

variable {S}

theorem sorted_empty :
  S.Sorted ({} : Run).register
  := by constructor <;> simp [Run.register, Register.Caused, Roster.Mentions]

theorem classed_empty :
  S.Classed ({} : Run).register
  := by simp [Classed, Run.register]

/-! ### Turns -/

/-- An entity that is examined without being inquired into. -/
theorem Sorted.examine {r : Run} (h : S.Sorted r.register) {e : Entity}
    (he : S.program.entity e.name = .ok e) :
  S.Sorted (r.examine e.name).register
  where
    known x hx := by
      obtain rfl | hx := mem_insert_iff.1 hx
      · exact ⟨e, he⟩
      · exact h.known x hx
    examined x hx := mem_insert_iff.2 (Or.inr (h.examined x hx))
    caused x hx := ⟨mem_insert_iff.2 (Or.inr (h.caused x hx).1), (h.caused x hx).2⟩
    analysed := h.analysed

theorem Sorted.open {r : Run} (h : S.Sorted r.register) {e : Entity}
    {mode : Option Mode × Option EntityId} (o : S.Opens e mode r) :
  S.Sorted (r.open e mode).register
  := by
  rw [r.register_open]
  constructor
  · intro x hx
    obtain rfl | hx := mem_insert_iff.1 hx
    · exact ⟨e, o.entity⟩
    · exact h.known x hx
  · intro x hx
    obtain rfl | hx := mem_insert_iff.1 hx
    · exact mem_insert_iff.2 (Or.inl rfl)
    · exact mem_insert_iff.2 (Or.inr (h.examined x hx))
  · intro x hx
    obtain ⟨hx, ha⟩ := h.caused x hx
    refine ⟨mem_insert_iff.2 (Or.inr hx), fun ha' => ?_⟩
    obtain rfl | ha' := mem_insert_iff.1 ha'
    · exact o.fresh hx
    · exact ha ha'
  · rintro x (hx | hx)
    · obtain rfl | hx := mem_insert_iff.1 hx
      · exact o.isOff
      · exact h.analysed x (Or.inl hx)
    · exact h.analysed x (Or.inr hx)

/-- The causes that an exclusion leaves recorded. -/
theorem caused_of_excises {r r' : Run} {id x : EntityId} {cause : Site}
    (h : r.Excises id cause r') (hx : r'.register.Caused x) :
  (x = id ∨ r.Loses r' x) ∨ r.register.Caused x
  := by
  by_cases hl : x = id ∨ r.Loses r' x
  · exact Or.inl hl
  · rw [not_or] at hl
    have he : r'.register.causes[x]? = r.register.causes[x]? := h.causes_of_kept x hl.1 hl.2
    rw [Register.Caused, he] at hx
    exact Or.inr hx

theorem Sorted.excise {r r' : Run} {id : EntityId} {cause : Site} (h : S.Sorted r.register)
    (ha : id ∈ r.verdicts.admitted) (hx : r.Excises id cause r') :
  S.Sorted r'.register
  := by
  have he : r'.verdicts.examined = r.verdicts.examined := by rw [hx.strikes.frame]
  have lost {x : EntityId} (hl : x = id ∨ r.Loses r' x) :
      x ∈ r.verdicts.admitted ∧ x ∉ r'.verdicts.admitted := by
    obtain rfl | hl := hl
    · exact ⟨ha, hx.strikes.gone⟩
    · exact hl
  constructor
  · intro x hx'
    apply h.known x
    change x ∈ r'.verdicts.examined at hx'
    rwa [he] at hx'
  · intro x hx'
    change x ∈ r'.verdicts.examined
    rw [he]
    exact h.examined x (hx.strikes.admitted hx')
  · intro x hc
    change x ∈ r'.verdicts.examined ∧ x ∉ r'.verdicts.admitted
    rw [he]
    obtain hl | hc := caused_of_excises hx hc
    · exact ⟨h.examined x (lost hl).1, (lost hl).2⟩
    · exact ⟨(h.caused x hc).1, fun hx' => (h.caused x hc).2 (hx.strikes.admitted hx')⟩
  · rintro x (hx' | hc | hm)
    · exact h.analysed x (Or.inl (hx.strikes.admitted hx'))
    · obtain hl | hc := caused_of_excises hx hc
      · exact h.analysed x (Or.inl (lost hl).1)
      · exact h.analysed x (Or.inr (Or.inl hc))
    · obtain ⟨keep, hk, -⟩ := hx.writes.roster
      change r'.verdicts.roster.Mentions x at hm
      rw [hk] at hm
      exact h.analysed x (Or.inr (Or.inr (Roster.mentions_of_restrict hm)))

theorem sorted_of_turn {r r' : Run} (t : S.Turn r r') (h : S.Sorted r.register) :
  S.Sorted r'.register
  := by
  cases t with
  | same he => rwa [he]
  | off he _ => exact h.examine he
  | «open» o => exact h.open o
  | @publish e r r' ho hp =>
    unfold publish at hp
    split at hp
    · obtain ⟨_, _, hl, hp⟩ := Act.bind_eq_ok.1 hp
      obtain ⟨-, rfl⟩ := Act.lift_eq_ok.1 hl
      obtain rfl := Act.rule_eq_ok.1 hp
      obtain ⟨h₁, h₂, h₃, h₄⟩ := h
      refine ⟨h₁, h₂, h₃, ?_⟩
      rintro x (hx | hc | hm)
      · exact h₄ x (Or.inl hx)
      · exact h₄ x (Or.inr (Or.inl hc))
      · obtain hm | rfl := Roster.mentions_of_publish hm
        · exact h₄ x (Or.inr (Or.inr hm))
        · exact ho
    · obtain ⟨-, rfl⟩ := Act.pure_eq_ok.1 hp
      exact h
  | admitBody | excludeBody => exact ⟨h.known, h.examined, h.caused, h.analysed⟩
  | excise ha hx => exact h.excise ha hx
  | close =>
    refine ⟨h.known, h.examined, h.caused, ?_⟩
    rintro x (hx | hc | hm)
    · exact h.analysed x (Or.inl hx)
    · exact h.analysed x (Or.inr (Or.inl hc))
    · exact h.analysed x (Or.inr (Or.inr (Roster.mentions_of_close hm)))

theorem classed_of_turn {r r' : Run} (t : S.Turn r r') (h : S.Classed r.register) :
  S.Classed r'.register
  := by
  cases t with
  | same he => rwa [he]
  | @off e anchor r _ hm =>
    intro x hx
    obtain rfl | hx := mem_insert_iff.1 hx
    · right; right
      unfold Setting.isOff
      rw [hm]
      rfl
    · exact h x hx
  | @«open» e mode r o =>
    rw [r.register_open]
    intro x hx
    obtain rfl | hx := mem_insert_iff.1 hx
    · exact Or.inl (mem_insert_iff.2 (Or.inl rfl))
    · exact (h x hx).imp_left fun hx => mem_insert_iff.2 (Or.inr hx)
  | publish _ hp =>
    obtain ⟨roster, rfl⟩ := S.publish_eq_ok hp
    exact h
  | admitBody | excludeBody | close => exact h
  | @excise id cause r r' _ hx =>
    intro x hx'
    have he : r'.verdicts.examined = r.verdicts.examined := by rw [hx.strikes.frame]
    change x ∈ r'.verdicts.examined at hx'
    rw [he] at hx'
    by_cases ha : x ∈ r'.verdicts.admitted
    · exact Or.inl ha
    · right
      by_cases hl : x = id ∨ r.Loses r' x
      · left
        have hc : r'.register.causes[x]? = some cause := hx.causes_of_lost x hl
        rw [Register.Caused, hc]
        rfl
      · rw [not_or] at hl
        obtain ha' | hc | ho := h x hx'
        · exact (hl.2 ⟨ha', ha⟩).elim
        · left
          have hc' : r'.register.causes[x]? = r.register.causes[x]? :=
            hx.causes_of_kept x hl.1 hl.2
          rwa [Register.Caused, hc']
        · exact Or.inr ho

theorem Stops.sorted {r r' : Run} (h : S.Stops r r') (hr : S.Sorted r.register) :
  S.Sorted r'.register
  := by
  cases h with
  | plain relaxed cause => exact hr
  | examined cause he _ _ => exact hr.examine he

/-! ### Excluded entities -/

/-- An entity was examined and is not admitted, and this is what is recorded as its cause. -/
def Barred (x : EntityId) (cause : Option Site) (g : Register) : Prop :=
  x ∈ g.examined ∧ x ∉ g.admitted ∧ g.causes[x]? = cause

theorem barred_of_turn {x : EntityId} {cause : Option Site} {r r' : Run} (t : S.Turn r r')
    (h : Barred x cause r.register) :
  Barred x cause r'.register
  := by
  obtain ⟨hx, ha, hc⟩ := h
  cases t with
  | same he =>
    rw [he]
    exact ⟨hx, ha, hc⟩
  | off => exact ⟨mem_insert_iff.2 (Or.inr hx), ha, hc⟩
  | @«open» e mode r o =>
    rw [r.register_open]
    refine ⟨mem_insert_iff.2 (Or.inr hx), fun ha' => ?_, hc⟩
    obtain rfl | ha' := mem_insert_iff.1 ha'
    · exact o.fresh hx
    · exact ha ha'
  | publish _ hp =>
    obtain ⟨roster, rfl⟩ := S.publish_eq_ok hp
    exact ⟨hx, ha, hc⟩
  | admitBody | excludeBody | close => exact ⟨hx, ha, hc⟩
  | @excise id cause' r r' hid hs =>
    have he : r'.verdicts.examined = r.verdicts.examined := by rw [hs.strikes.frame]
    refine ⟨?_, fun ha' => ha (hs.strikes.admitted ha'), ?_⟩
    · change x ∈ r'.verdicts.examined
      rwa [he]
    · rw [← hc]
      apply hs.causes_of_kept
      · rintro rfl
        exact ha hid
      · exact fun hl => ha hl.1

theorem Stops.barred {x : EntityId} {cause : Option Site} {r r' : Run} (h : S.Stops r r')
    (hr : Barred x cause r.register) :
  Barred x cause r'.register
  := by
  obtain ⟨hx, ha, hc⟩ := hr
  cases h with
  | plain relaxed _ => exact ⟨hx, ha, hc⟩
  | examined _ _ _ _ => exact ⟨mem_insert_iff.2 (Or.inr hx), ha, hc⟩

/-! ### Sessions -/

/-- A property of the register that turns keep, and acts that fail. -/
theorem Sound.induction {P : Register → Prop} {r₀ r : Run} (h : S.Sound r₀ r)
    (ht : ∀ r r', S.Turn r r' → P r.register → P r'.register)
    (hs : ∀ r r', S.Stops r r' → P r.register → P r'.register) (h₀ : P r₀.register) :
  P r.register
  := by
  obtain ⟨-, h⟩ := h
  induction h with
  | refl => exact h₀
  | tail _ t ih =>
    obtain t | s := t
    · exact ht _ _ t ih
    · exact hs _ _ s ih

theorem Sound.sorted {r₀ r : Run} (h : S.Sound r₀ r) (h₀ : S.Sorted r₀.register) :
  S.Sorted r.register
  := h.induction (fun _ _ => sorted_of_turn) (fun _ _ => Stops.sorted) h₀

theorem Sound.barred {x : EntityId} {cause : Option Site} {r₀ r : Run} (h : S.Sound r₀ r)
    (h₀ : Barred x cause r₀.register) :
  Barred x cause r.register
  := h.induction (fun _ _ => barred_of_turn) (fun _ _ => Stops.barred) h₀

theorem sorted_of_turns {r₀ r : Run} (h : ReflTransGen S.Turn r₀ r)
    (h₀ : S.Sorted r₀.register) :
  S.Sorted r.register
  := by
  induction h with
  | refl => exact h₀
  | tail _ t ih => exact sorted_of_turn t ih

theorem classed_of_turns {r₀ r : Run} (h : ReflTransGen S.Turn r₀ r)
    (h₀ : S.Classed r₀.register) :
  S.Classed r.register
  := by
  induction h with
  | refl => exact h₀
  | tail _ t ih => exact classed_of_turn t ih

theorem barred_of_turns {x : EntityId} {cause : Option Site} {r₀ r : Run}
    (h : ReflTransGen S.Turn r₀ r) (h₀ : Barred x cause r₀.register) :
  Barred x cause r.register
  := by
  induction h with
  | refl => exact h₀
  | tail _ t ih => exact barred_of_turn t ih

theorem Sorted.causes_eq_none {g : Register} (h : S.Sorted g) {x : EntityId}
    (hx : x ∈ g.admitted) :
  g.causes[x]? = none
  := Option.not_isSome_iff_eq_none.1 fun hc => (h.caused x hc).2 hx

theorem Sorted.not_of_isOff {g : Register} (h : S.Sorted g) {x : EntityId}
    (ho : S.isOff x = .ok true) :
  ¬ (x ∈ g.admitted ∨ g.Caused x ∨ g.roster.Mentions x)
  := by
  intro hx
  rw [h.analysed x hx] at ho
  cases ho

/-- In every run of a session, also after acts that failed and in the middle of an act,
bodies are admitted only with their entities, admitted entities were examined and have no
cause of exclusion, and examined entities belong to the program; what is excluded from
analysis is neither admitted nor in the order of declarations.  If every request was served,
each examined entity is admitted, or excluded for a recorded cause, or excluded from
analysis.  An entity that is excluded stays so. -/
theorem register_partitioned {S : Setting} :
  (∀ qs, S.Arises {} (S.session {} qs))
    ∧ (∀ r, S.Arises {} r →
      (∀ x ∈ r.verdicts.admittedBodies, x ∈ r.verdicts.admitted)
        ∧ (∀ x ∈ r.verdicts.admitted,
          x ∈ r.verdicts.examined ∧ r.verdicts.causes[x]? = none)
        ∧ (∀ x ∈ r.verdicts.examined, ∃ e, S.program.entity x = .ok e)
        ∧ ∀ x, S.isOff x = .ok true → x ∉ r.verdicts.admitted
          ∧ x ∉ r.verdicts.admittedBodies ∧ ¬ r.verdicts.roster.Mentions x)
    ∧ (∀ (qs : List Request) r, (qs.forM S.request) {} = .ok () r →
      ∀ x ∈ r.verdicts.examined, x ∈ r.verdicts.admitted
        ∨ x ∉ r.verdicts.admitted ∧ r.verdicts.causes[x]?.isSome = true
          ∧ S.isOff x = .ok false
        ∨ x ∉ r.verdicts.admitted ∧ r.verdicts.causes[x]? = none ∧ S.isOff x = .ok true)
    ∧ (∀ r, S.Rested {} r → ∀ x ∈ r.verdicts.examined, x ∉ r.verdicts.admitted →
      ∀ r', S.Arises r r' → x ∉ r'.verdicts.admitted)
    ∧ ∀ M, S.Reached {} M → ∀ x ∈ M.run.verdicts.examined, x ∉ M.run.verdicts.admitted →
      ∀ M', ReflTransGen S.Goes M M' → x ∉ M'.run.verdicts.admitted
  := by
  refine ⟨?_, ?_, ?_, ?_, ?_⟩
  · exact fun qs => Or.inl (Rested.start.session qs)
  · intro r hr
    have h := sound_of_arises hr Run.coherent_empty
    have hs := h.sorted sorted_empty
    refine ⟨h.coherent.mem_admitted, ?_, hs.known, ?_⟩
    · exact fun x hx => ⟨hs.examined x hx, hs.causes_eq_none hx⟩
    · intro x ho
      have hx := hs.not_of_isOff ho
      rw [not_or, not_or] at hx
      exact ⟨hx.1, fun hb => hx.1 (h.coherent.mem_admitted x hb), hx.2.2⟩
  · intro qs r h x hx
    obtain ⟨ht, hr⟩ := turns_of_session h Run.coherent_empty
    have hs := Sound.sorted ⟨hr, ReflTransGen.mono (fun _ _ => Or.inl) _ _ ht⟩ sorted_empty
    obtain ha | hc | ho := classed_of_turns ht classed_empty x hx
    · exact Or.inl ha
    · exact Or.inr (Or.inl ⟨(hs.caused x hc).2, hc, hs.analysed x (Or.inr (Or.inl hc))⟩)
    · have hn := hs.not_of_isOff ho
      rw [not_or, not_or] at hn
      exact Or.inr (Or.inr ⟨hn.1, Option.not_isSome_iff_eq_none.1 hn.2.1, ho⟩)
  · intro r hr x hx ha r' hr'
    have h := sound_of_rested hr Run.coherent_empty
    exact ((sound_of_arises hr' h.coherent).barred ⟨hx, ha, rfl⟩).2.1
  · intro M hM x hx ha M' g
    obtain ⟨h, hu, -⟩ := sound_of_reached hM Run.coherent_empty
    exact (barred_of_turns (follows_of_goes_to g h.coherent hu).turns ⟨hx, ha, rfl⟩).2.1

/-! ### A type of each kind -/

/-- A type, an incomplete type that is never completed, and a type that is excluded from
analysis. -/
def kindsSample : Setting :=
  (ofParts?
    [{ name := "T", kind := .type { definition := .signed 0 9 } },
      { name := "I", kind := .type { definition := .incomplete none } },
      { name := "O", kind := .type { definition := .signed 0 9 }, mode := some .off }]
    []).get (by decide +kernel)

/-- The session that decides them. -/
def kindsSession : List Request :=
  [.entity "T", .entity "I", .entity "O", .backlog]

theorem register_partitioned_kindsSample :
  let r := ((kindsSession.forM kindsSample.request).after {}).2
  (kindsSession.forM kindsSample.request) {} = .ok () r
    ∧ "T" ∈ r.verdicts.admitted ∧ r.verdicts.causes["T"]? = none
    ∧ "I" ∈ r.verdicts.examined ∧ r.verdicts.causes["I"]?.isSome = true
    ∧ "I" ∉ (kindsSample.session (kindsSample.session {} kindsSession) kindsSession
      ).verdicts.admitted
    ∧ "O" ∈ r.verdicts.examined ∧ r.verdicts.causes["O"]? = none
    ∧ ¬ (kindsSample.session {} kindsSession).verdicts.roster.Mentions "O"
  := by
  have h : (kindsSession.forM kindsSample.request) {}
      = .ok () ((kindsSession.forM kindsSample.request).after {}).2 :=
    Act.eq_ok_of_after (by decide +kernel)
  obtain ⟨harises, hnested, hclasses, hbarred, -⟩ := @register_partitioned kindsSample
  have hT : "T" ∈ ((kindsSession.forM kindsSample.request).after {}).2.verdicts.admitted := by
    decide +kernel
  have hI : "I" ∈ ((kindsSession.forM kindsSample.request).after {}).2.verdicts.examined := by
    decide +kernel
  have hO : "O" ∈ ((kindsSession.forM kindsSample.request).after {}).2.verdicts.examined := by
    decide +kernel
  have hI' : "I" ∈ (kindsSample.session {} kindsSession).verdicts.examined := by
    decide +kernel
  have hI'' : "I" ∉ (kindsSample.session {} kindsSession).verdicts.admitted := by
    decide +kernel
  have rested : kindsSample.Rested {} (kindsSample.session {} kindsSession) :=
    Rested.start.session _
  refine ⟨h, hT, ?_, hI, ?_, ?_, hO, ?_, ?_⟩
  · obtain hc | ⟨hn, -⟩ | ⟨hn, -⟩ := hclasses _ _ h "T" (by decide +kernel)
    · decide +kernel
    · exact (hn hT).elim
    · exact (hn hT).elim
  · obtain ha | ⟨-, hc, -⟩ | ⟨-, -, ho⟩ := hclasses _ _ h "I" hI
    · exact absurd ha (by decide +kernel)
    · exact hc
    · exact absurd ho (by decide +kernel)
  · exact hbarred _ rested "I" hI' hI'' _ (Or.inl (Rested.start.session _))
  · obtain ha | ⟨-, -, ho⟩ | ⟨-, hc, -⟩ := hclasses _ _ h "O" hO
    · exact absurd ha (by decide +kernel)
    · exact absurd ho (by decide +kernel)
    · exact hc
  · exact ((hnested _ (harises kindsSession)).2.2.2 "O" (by decide +kernel)).2.2

end Setting

end Conformance
