import Conformance.Proofs.Closure
import Conformance.Proofs.Consistency
import Conformance.Proofs.Declaration

/-!
# What supports a verdict

A favourable verdict on a matter is supported if the matter rests on what it consulted and
its inquiry has a favourable path that the journal bears out.  A verdict is upheld
provisionally while its inquiry is under way, so on a passage only what begins on the way
can be said to be supported in the end: this is `Settles`, and `settling_of_passes` says
that it holds on every passage.
-/

namespace Conformance

theorem Verdicts.isRevocable_of_upholds {v : Verdicts} {m : Matter} (h : v.upholds m) :
  m.isRevocable
  := by
  cases m with
  | aspects => simp at h
  | _ => rfl

namespace Run

theorem rounds_eq_of_journal {r r' : Run} (h : r'.journal = r.journal) (m : Matter) :
  r'.rounds m = r.rounds m
  := by rw [rounds, h, rounds]

theorem rounds_le_of_journal {r r' : Run} {new : List Event}
    (h : r'.journal = new ++ r.journal) (m : Matter) :
  r.rounds m ≤ r'.rounds m
  := by
  rw [rounds, rounds, h, List.countP_append]
  omega

theorem rounds_concludeBody (r : Run) (e : Entity) (cause : Option Site) (m : Matter) :
  ({ r.concludeBody e with cause } : Run).rounds m = r.rounds m
  := by
  obtain ⟨new, hj, hn⟩ := r.journal_concludeBody e
  have h₀ : new.countP (Event.begins m) = 0 := by
    rw [List.countP_eq_zero]
    intro event he
    rw [hn event he]
    simp [Event.begins]
  rw [rounds, hj, List.countP_append, h₀, Nat.zero_add, rounds]

theorem Coherent.rounds_pos {r : Run} (h : r.Coherent) {m : Matter}
    (hu : r.verdicts.upholds m) :
  0 < r.rounds m
  := rounds_pos_iff.2 (h.began_of_upholds m hu)

/-- What began before and begins no second time is upheld only if it was. -/
theorem Advances.upholds_of_began {r r' : Run} {m : Matter} {m' : Option Matter}
    {new : List Event} (ha : r.Advances m' new r') (hr : r.Coherent)
    (hb : .began m ∈ r.journal) (hn : .began m ∉ new) (hu : r'.verdicts.upholds m) :
  r.verdicts.upholds m
  := by
  cases m with
  | declaration x =>
    rw [Verdicts.upholds_declaration] at hu ⊢
    exact (ha.fresh x hu).resolve_right fun hx => hx (hr.examined_of_began x hb)
  | body x =>
    rw [Verdicts.upholds_body] at hu ⊢
    exact (ha.bodies x hu).resolve_right hn
  | aspects x => simp at hu

end Run

namespace Setting

open Inquiry

variable (S : Setting)

/-- What the inquiry into a matter is. -/
inductive Inquires : Matter → Inquiry Unit → Prop
  | declaration {e : Entity} (he : S.program.entity e.name = .ok e) :
    Inquires (.declaration e.name) (do S.entityInquiry e; predicateInquiry e)
  | body {e : Entity} (he : S.program.entity e.name = .ok e) (ns : List Node) :
    Inquires (.body e.name) (S.items e.inside ns)

/-- A matter rests on what it consulted, and its inquiry has a favourable path that the run
bears out. -/
structure Supports (r : Run) (m : Matter) (i : Inquiry Unit) (path : List Step) : Prop where
  inquires : S.Inquires m i
  favours : i.Favours path ()
  consistent : Consistent path
  rests : r.Rests m
  records : ∀ s ∈ path, S.Records r m s
  asks : ∀ p id b q, path = p ++ .ask id b :: q → r.Asks m [] p id b
  visits : ∀ role n, .visited (some m) role n ∈ r.journal → .visit role n ∈ path

/-- The verdict on a matter is supported. -/
def Supported (r : Run) (m : Matter) : Prop := ∃ i path, S.Supports r m i path

/-- What begins on the way from one run to another is supported in the end, if it began
only once and is upheld. -/
def Settles (r r' : Run) : Prop :=
  ∀ m, r.rounds m = 0 → r'.rounds m ≤ 1 → r'.verdicts.upholds m → S.Supported r' m

variable {S}

theorem Inquires.eq_of_declaration {e : Entity} {i : Inquiry Unit}
    (he : S.program.entity e.name = .ok e) (h : S.Inquires (.declaration e.name) i) :
  i = (do S.entityInquiry e; predicateInquiry e : Inquiry Unit)
  := by
  generalize hm : Matter.declaration e.name = m at h
  cases h with
  | @declaration e' he' =>
    rw [← Matter.declaration.inj hm, he] at he'
    rw [Except.ok.inj he']
  | body => cases hm

/-- What is supported stays so while its inquiry comes to nothing more and it rests on what
it consulted. -/
theorem Supported.later {r r' : Run} {m : Matter} (new : List Event)
    (h : S.Supported r m) (hr : r.Coherent) (hj : r'.journal = new ++ r.journal)
    (ho : ∀ e ∈ new, e.owner ≠ some m)
    (ha : ∀ x ∈ r'.verdicts.admitted, x ∈ r.verdicts.admitted ∨ x ∉ r.verdicts.examined)
    (hb : ∀ t, r.verdicts.backlog.takes t = false → r'.verdicts.backlog.takes t = false)
    (hrests : r'.Rests m) :
  S.Supported r' m
  := by
  obtain ⟨i, path, hi, hf, hk, -, hs, hq, hv⟩ := h
  use i, path
  constructor
  case inquires => exact hi
  case favours => exact hf
  case consistent => exact hk
  case rests => exact hrests
  case records => exact fun s hs' => (hs s hs').later hj hb
  case asks => exact fun p id b q he => (hq p id b q he).later hr hj (List.Subset.refl _) ha
  case visits =>
    intro role n hn
    rw [hj, List.mem_append] at hn
    obtain hn | hn := hn
    · exact absurd rfl (ho _ hn)
    · exact hv role n hn

/-- What is supported stays so while other matters are under way. -/
theorem Supported.advances {r r' : Run} {m : Matter} {m' : Option Matter} {new : List Event}
    (h : S.Supported r m) (hr : r.Coherent) (hm : m.isRevocable) (ha : r.Advances m' new r')
    (hne : m' ≠ some m) (hb : .began m ∉ new) :
  S.Supported r' m
  := by
  have hrests := h.choose_spec.choose_spec.rests.advances hm ha hne hb
  apply h.later _ hr ha.journal _ ha.fresh ha.backlog.taken hrests
  intro e he ho
  obtain h₀ | h₀ := ha.owned e he m ho hm
  · exact hne h₀
  · exact hb h₀

/-- What is supported stays so if the parts of the run that it is about stay the same. -/
theorem Supported.keeps {r r' : Run} {m : Matter} {new : List Event} (h : S.Supported r m)
    (hr : r.Coherent) (hj : r'.journal = new ++ r.journal) (hn : ∀ e ∈ new, e.owner = none)
    (ha : r'.verdicts.admitted = r.verdicts.admitted)
    (hd : r'.verdicts.dependents = r.verdicts.dependents)
    (hb : ∀ t, r.verdicts.backlog.takes t = false → r'.verdicts.backlog.takes t = false) :
  S.Supported r' m
  := by
  refine h.later new hr hj (fun e he => by simp [hn e he]) ?_ hb ?_
  · rw [ha]
    exact fun _ => Or.inl
  · intro x hx
    rw [hj, List.mem_append] at hx
    replace hx := hx.resolve_left fun hx => by simpa [Event.owner] using hn _ hx
    rw [ha, Verdicts.dependentsOf, hd]
    exact h.choose_spec.choose_spec.rests x hx

theorem Supported.same {r r' : Run} {m : Matter} (h : S.Supported r m) (hr : r.Coherent)
    (hs : r.Same r') :
  S.Supported r' m
  := h.keeps hr (hs.journal.trans (List.nil_append _).symm) (by simp) hs.admitted hs.dependents hs.backlog.taken

/-- What is supported and still upheld after an entity is struck out along with all that
rests on it is supported. -/
theorem Supported.strikes {r r' : Run} {m : Matter} {id : EntityId}
    (h : S.Supported r m) (hr : r.Coherent) (hs : r.Strikes id r')
    (hu : r'.verdicts.upholds m) :
  S.Supported r' m
  := by
  have kept {y : EntityId} (hy : y ∈ r.verdicts.admitted)
      (hm : m ∈ r.verdicts.dependentsOf y ∨ m = .declaration y) :
      y ≠ id ∧ y ∈ r'.verdicts.admitted := by
    obtain hm | rfl := hm
    · have hl (hy' : y = id ∨ r.Loses r' y) : False := hs.lost y m hy' hm hu
      exact ⟨fun he => hl (Or.inl he), by_contra fun hl' => hl (Or.inr ⟨hy, hl'⟩)⟩
    · rw [Verdicts.upholds_declaration] at hu
      exact ⟨fun he => hs.gone (he ▸ hu), hu⟩
  obtain ⟨new, hj, hn⟩ := hs.journal
  apply h.later _ hr hj
  · intro e he
    obtain ⟨x, cause, rfl⟩ := hn e he
    simp [Event.owner]
  · exact fun y hy => Or.inl (hs.admitted hy)
  · rw [hs.frame]
    exact fun _ ht => ht
  · intro y hy
    rw [hs.mem_journal (by simp)] at hy
    obtain ⟨hadm, hdep⟩ := h.choose_spec.choose_spec.rests y hy
    obtain ⟨hne, hadm'⟩ := kept hadm hdep
    refine ⟨hadm', ?_⟩
    obtain hdep | rfl := hdep
    · exact Or.inl (hs.dependents_of_kept y m hne (fun hl => hl.2 hadm') hdep)
    · exact Or.inr rfl

/-! ### What begins on the way -/

theorem settles_of_upholds {r r' : Run} (hr : r.Coherent)
    (h : ∀ m, r'.verdicts.upholds m → r.verdicts.upholds m) :
  S.Settles r r'
  := by
  intro m h₀ _ hu
  have := hr.rounds_pos (h m hu)
  omega

theorem Settles.trans {r r₁ r' : Run} {m' : Option Matter} {new : List Event}
    (h : S.Settles r r₁) (h' : S.Settles r₁ r') (hr₁ : r₁.Coherent)
    (ha : r₁.Advances m' new r') (hu : r.Under m') :
  S.Settles r r'
  := by
  intro m h₀ h₁ hm
  have hrev := Verdicts.isRevocable_of_upholds hm
  by_cases he : r₁.rounds m = 0
  · exact h' m he h₁ hm
  · have hle := Run.rounds_le_of_journal ha.journal m
    have hn := ha.not_began (m := m) (by omega)
    have hb : .began m ∈ r₁.journal := Run.rounds_pos_iff.1 (by omega)
    have hs := h m h₀ (by omega) (ha.upholds_of_began hr₁ hb hn hm)
    apply hs.advances hr₁ hrev ha _ hn
    rintro rfl
    have := Run.rounds_pos_iff.2 (hu m rfl hrev)
    omega

/-- Nothing begins in a change that leaves the verdicts and the journal alone. -/
theorem Settles.same {r r₁ r' : Run} (h : S.Settles r r₁) (hr₁ : r₁.Coherent)
    (hs : r₁.Same r') :
  S.Settles r r'
  := by
  intro m h₀ h₁ hm
  rw [Run.rounds_eq_of_journal hs.journal] at h₁
  rw [hs.upholds] at hm
  exact (h m h₀ h₁ hm).same hr₁ hs

/-- Nothing begins when an entity is struck out. -/
theorem Settles.strikes {r r₁ r' : Run} {id : EntityId} (h : S.Settles r r₁)
    (hr₁ : r₁.Coherent) (hs : r₁.Strikes id r') :
  S.Settles r r'
  := by
  intro m h₀ h₁ hm
  have hle : r₁.rounds m ≤ r'.rounds m := by
    obtain ⟨new, hj, -⟩ := hs.journal
    exact Run.rounds_le_of_journal hj m
  exact (h m h₀ (by omega) (hs.upholds m hm)).strikes hr₁ hs hm

theorem upholds_plain {scope : Scope} {s : Step} {r r' : Run} (h : S.Plain scope s r r')
    (m : Matter) :
  r'.verdicts.upholds m = r.verdicts.upholds m
  := by
  cases h with
  | find => exact (r.same_find _ _ _).upholds m
  | relax h =>
    obtain ⟨relaxed, rfl⟩ := S.relax_eq_ok h
    cases m <;> rfl
  | _ => cases m <;> rfl

theorem upholds_rest (r : Run) (scope : Scope) (id : EntityId) (site : Site) (m : Matter) :
  (r.rest scope id site).verdicts.upholds m = r.verdicts.upholds m
  := by
  unfold Run.rest
  split
  · split
    · cases m <;> rfl
    · cases m <;> simp [Run.rule, Run.note, Verdicts.upholds]
  · rw [(Run.same_findExcluded _ _ _ _).upholds]
    cases m <;> rfl

theorem upholds_start (r : Run) (scope : Scope) (m m' : Matter) :
  (r.start scope m).verdicts.upholds m' = r.verdicts.upholds m'
  := by
  obtain ⟨reporting, hv⟩ := r.verdicts_start scope m
  rw [hv]
  cases m' <;> rfl

theorem rounds_start (r : Run) (scope : Scope) (m m' : Matter) :
  (r.start scope m).rounds m' = (if m = m' then 1 else 0) + r.rounds m'
  := by
  rw [Run.rounds, Run.journal_start, List.countP_cons, Run.rounds, Nat.add_comm]
  simp [Event.begins]

/-- Nothing happened in a matter that never began. -/
theorem owner_ne_of_rounds {r : Run} {m : Matter} (hr : r.Coherent) (hm : m.isRevocable)
    (h : r.rounds m = 0) :
  ∀ e ∈ r.journal, e.owner ≠ some m
  := by
  intro e he ho
  have := Run.rounds_pos_iff.2 (hr.began_of_owner e he m ho hm)
  omega

theorem owner_ne_start {r : Run} {m : Matter} (h : ∀ e ∈ r.journal, e.owner ≠ some m)
    (scope : Scope) (m' : Matter) :
  ∀ e ∈ (r.start scope m').journal, e.owner ≠ some m
  := by
  rw [Run.journal_start]
  intro e he
  obtain rfl | he := List.mem_cons.1 he
  · simp [Event.owner]
  · exact h e he

/-- A matter is supported at the end of its inquiry, if it is not violated and began only
once. -/
theorem supported_of_tracks {m : Matter} {i : Inquiry Unit} {path : List Step} {r r' : Run}
    (hi : S.Inquires m i) (l : i.Leads path ()) (hk : Consistent path) (t : S.Tracks m path r r')
    (hr : ∀ e ∈ r.journal, e.owner ≠ some m) (hr' : r'.Coherent) (hc : r'.cause = none) :
  S.Supported r' m
  := by
  use i, path
  constructor
  case inquires => exact hi
  case favours => exact ⟨l, (t.clean hc).2⟩
  case consistent => exact hk
  case rests => exact t.rests hc fun x hx => absurd rfl (hr _ hx)
  case records => exact t.records
  case asks =>
    intro p id b q he
    have hj : r'.journal = [] ++ r'.journal := rfl
    exact (t.asks p id b q he).later hr' hj (by simp) fun _ => Or.inl
  case visits => exact fun role n hn => (t.visits role n hn).resolve_left fun hn => hr _ hn rfl

/-- The bodies on a course hold declarations and statements. -/
def Course.Proper (S : Setting) : Course → Prop
  | .decision _ => True
  | .steps _ path => ∀ b ∈ path.filterMap Step.body?, ∃ c, S.IsBody b c

theorem proper_of_forall₂ {scope : Scope} {path : List Step} {bs : List (EntityId × List Node)}
    (h : List.Forall₂ S.IsBody (path.filterMap Step.body?) bs) :
  Course.Proper S (.steps scope path)
  := by
  change ∀ b ∈ path.filterMap Step.body?, ∃ c, S.IsBody b c
  generalize path.filterMap Step.body? = as at h
  induction h with
  | nil => simp
  | cons hb _ ih =>
    intro b hb'
    obtain rfl | hb' := List.mem_cons.1 hb'
    · exact ⟨_, hb⟩
    · exact ih b hb'

theorem Regular.proper {t : Topic} {known : EntityId → Prop} {i : Inquiry Unit}
    {bs : List (EntityId × List Node)} (h : S.Regular t known bs i) {path : List Step}
    (l : i.Leads path ()) (scope : Scope) :
  Course.Proper S (.steps scope path)
  := proper_of_forall₂ (h.bodies l)

theorem Course.Proper.tail {scope : Scope} {s : Step} {path : List Step}
    (h : Course.Proper S (.steps scope (s :: path))) :
  Course.Proper S (.steps scope path)
  := by
  intro b hb
  apply h b
  rw [List.filterMap_cons]
  cases s.body? with
  | none => exact hb
  | some _ => exact List.mem_cons_of_mem _ hb

theorem Course.Proper.body {scope : Scope} {e : Entity} {mode : Option Mode}
    {inner : Inquiry Unit} {path : List Step}
    (h : Course.Proper S (.steps scope (.body e mode inner :: path))) :
  S.program.entity e.name = .ok e ∧ ∃ ns, inner = S.items e.inside ns
  := by
  obtain ⟨⟨id, ns⟩, he, hi⟩ := h (e, inner) List.mem_cons_self
  obtain rfl := S.program.name_eq_of_entity he
  exact ⟨he, ns, hi⟩

theorem regular_predicateInquiry {t : Topic} {known : EntityId → Prop} (e : Entity) :
  S.Regular t known [] (predicateInquiry e)
  := by
  unfold predicateInquiry
  cases e.predicateFunction? with
  | none => exact regular_pure ()
  | some function => exact regular_restOn function e.site

/-- An inquiry into a predicate function asks for nothing that it does not rest on. -/
theorem asks_nothing_predicateInquiry {e : Entity} {path : List Step}
    (l : (predicateInquiry e).Leads path ()) :
  ∀ id b, .ask id b ∉ path
  := by
  have h : (predicateInquiry e).Every (fun s => ∀ id b, s ≠ .ask id b) fun _ => True := by
    unfold predicateInquiry
    cases e.predicateFunction? <;> simp
  exact fun id b hs => (h.of_leads l).1 _ hs id b rfl

/-- What begins on the way is supported in the end, as far as it is known of the passages
that a passage consists of. -/
def Settling (S : Setting) (c : Course) (r r' : Run) : Prop :=
  Course.Proper S c → r.Coherent → r.Under c.matter → S.Settles r r'

theorem upholds_concludeBody (r : Run) {e : Entity} {m : Matter} (h : m ≠ .body e.name) :
  (r.concludeBody e).verdicts.upholds m = r.verdicts.upholds m
  := by
  unfold Run.concludeBody
  split
  · cases m with
    | body x =>
      have hne : x ≠ e.name := fun hx => h (hx ▸ rfl)
      rw [Bool.eq_iff_iff, Verdicts.upholds_body, Verdicts.upholds_body]
      exact mem_insert_iff.trans (or_iff_right hne)
    | _ => rfl
  · cases m <;> rfl

theorem settles_body {e : Entity} {mode : Option Mode × Option EntityId} {ns : List Node}
    {path : List Step} {r r₁ : Run} (he : S.program.entity e.name = .ok e)
    (l : (S.items e.inside ns).Leads path ())
    (w : S.Passes (.steps (e.bodyScope mode) path) (r.start (e.bodyScope mode) (.body e.name)) r₁)
    (ih : S.Settling (.steps (e.bodyScope mode) path)
      (r.start (e.bodyScope mode) (.body e.name)) r₁)
    (hr : r.Coherent) (hx : e.name ∈ r.verdicts.examined) (cause : Option Site) :
  S.Settles r { r₁.concludeBody e with cause }
  := by
  have hstart := hr.start (e.bodyScope mode) (m := .body e.name) hx
  have hu := r.under_start (e.bodyScope mode) (.body e.name)
  obtain ⟨new, ha, hr₁, -⟩ := orderly_of_passes w hstart hu
  obtain ⟨verdict, hj, hv⟩ := r₁.journal_concludeBody e
  replace hj : ({ r₁.concludeBody e with cause } : Run).journal = verdict ++ r₁.journal := hj
  have keeps {m : Matter} (h : S.Supported r₁ m) :
      S.Supported { r₁.concludeBody e with cause } m := by
    apply h.keeps hr₁ hj fun event he => by rw [hv event he]; rfl
    all_goals unfold Run.concludeBody
    all_goals split
    all_goals first | rfl | exact fun _ h => h
  intro m h₀ h₁ hm
  rw [Run.rounds_concludeBody] at h₁
  have hs := rounds_start r (e.bodyScope mode) (.body e.name) m
  have hle := Run.rounds_le_of_journal ha.journal m
  apply keeps
  by_cases he' : m = .body e.name
  · subst he'
    rw [if_pos rfl] at hs
    have hn := ha.not_began (m := .body e.name) (by omega)
    -- The body is upheld because nothing violated it: it began only now.
    have hc : r₁.cause = none := by
      by_contra hc
      have hu' : e.name ∈ r₁.verdicts.admittedBodies := by
        have hv : r₁.violated = true := Option.isSome_iff_ne_none.2 hc
        unfold Run.concludeBody at hm
        rw [hv] at hm
        exact Verdicts.upholds_body.1 hm
      have hu' := (ha.bodies _ hu').resolve_right hn
      have := hr.rounds_pos (m := .body e.name)
        (by rwa [← upholds_start r (e.bodyScope mode) (.body e.name), Verdicts.upholds_body])
      omega
    have ht := tracked_of_passes w (.body e.name) rfl rfl hstart hu (by omega)
    exact supported_of_tracks (.body he ns) l (assented_of_passes w hstart hu).consistent ht
      (owner_ne_start (owner_ne_of_rounds hr rfl h₀) _ _) hr₁ hc
  · rw [if_neg (Ne.symm he')] at hs
    change (r₁.concludeBody e).verdicts.upholds m at hm
    rw [upholds_concludeBody _ he'] at hm
    exact ih ((regular_bodyItems e ns).proper l _) hstart hu m (by omega) h₁ hm

/-- What begins while an entity is inquired into, apart from the inquiry itself. -/
theorem settles_open {e : Entity} {mode : Option Mode × Option EntityId} {r r' : Run}
    (h : S.Settles (r.open e mode) r') {m : Matter} (hm : m ≠ .declaration e.name)
    (h₀ : r.rounds m = 0) (h₁ : r'.rounds m ≤ 1) (hu : r'.verdicts.upholds m) :
  S.Supported r' m
  := by
  apply h m _ h₁ hu
  have hs := rounds_start (r.examine e.name) (e.declarationScope mode) (.declaration e.name) m
  rw [if_neg (Ne.symm hm), Nat.zero_add] at hs
  exact hs.trans h₀

/-- What begins while an entity is decided that is excluded in the end. -/
theorem settles_excluded {e : Entity} {mode : Option Mode × Option EntityId} {r r₁ : Run}
    (h : S.Settles (r.open e mode) r₁) (hr₁ : r₁.Coherent) (cause : Option Site) :
  S.Settles r { r₁.exclude S.program e with cause }
  := by
  have hs := Run.strikes_exclude r₁ S.program e
  have hs' := (r₁.exclude S.program e).same_cause cause
  have h' := (h.strikes hr₁ hs).same (hr₁.strikes hs) hs'
  intro m h₀ h₁ hm
  apply settles_open h' _ h₀ h₁ hm
  rintro rfl
  exact hs.gone (Verdicts.upholds_declaration.1 hm)

/-- What begins while an entity is decided that is granted in the end. -/
theorem settles_granted {e : Entity} {mode : Option Mode × Option EntityId}
    {path path' : List Step} {r r₁ r₂ r₃ : Run} (o : S.Opens e mode r)
    (l : (S.entityInquiry e).Leads path ())
    (w : S.Passes (.steps (e.declarationScope mode) path) (r.open e mode) r₁)
    (hp : S.publish e r₁ = .ok () r₂) (l' : (predicateInquiry e).Leads path' ())
    (w' : S.Passes (.steps (e.declarationScope mode) path') r₂ r₃)
    (hv : r₃.violated = false) (h : S.Settles (r.open e mode) r₃) (hr : r.Coherent)
    (cause : Option Site) :
  S.Settles r { r₃.follow e.followers with cause }
  := by
  obtain ⟨-, ho, hu, -⟩ := Run.open_step hr o.fresh mode
  obtain ⟨new, ha, hr₁, -⟩ := orderly_of_passes w ho hu
  obtain ⟨hs, hcause⟩ := same_publish hp
  have hr₂ := hs.coherent hr₁
  have hu₂ := hu.after (ha.same hs)
  obtain ⟨new', ha', hr₃, -⟩ := orderly_of_passes w' hr₂ hu₂
  have hs' := r₃.same_follow e.followers cause
  intro m h₀ h₁ hm
  rw [Run.rounds_eq_of_journal hs'.journal] at h₁
  rw [hs'.upholds] at hm
  apply Supported.same _ hr₃ hs'
  by_cases he : m = .declaration e.name
  · subst he
    have hle := Run.rounds_le_of_journal (ha.same hs).journal (.declaration e.name)
    have hle' := Run.rounds_le_of_journal ha'.journal (.declaration e.name)
    have hs₂ := Run.rounds_eq_of_journal hs.journal (.declaration e.name)
    have hopen : (r.open e mode).rounds (.declaration e.name) = 1 := by
      have := rounds_start (r.examine e.name) (e.declarationScope mode)
        (.declaration e.name) (.declaration e.name)
      rw [if_pos rfl] at this
      exact this.trans (congrArg (1 + ·) h₀)
    have t := tracked_of_passes w (.declaration e.name) rfl rfl ho hu (by omega)
    have t' := tracked_of_passes w' (.declaration e.name) rfl rfl hr₂ hu₂ (by omega)
    have ha'' := (hs.advances (some (.declaration e.name))).append ha'
    have t'' := (Tracks.nested (hs.advances none) rfl (by simp) hcause).append t' hr₂ ha'
    have l'' : (do S.entityInquiry e; predicateInquiry e : Inquiry Unit).Leads
        (path ++ path') () := leads_bind_iff.2 ⟨path, (), path', rfl, l, l'⟩
    have hk : Consistent (path ++ path') :=
      (assented_of_passes w ho hu).consistent.append (asks_nothing_predicateInquiry l')
    apply supported_of_tracks (.declaration o.entity) l'' hk (t.append t'' hr₁ ha'') _ hr₃
    · simpa [Run.violated] using hv
    · have hn := owner_ne_of_rounds hr (m := .declaration e.name) rfl h₀
      exact owner_ne_start (r := r.examine e.name) hn _ _
  · exact settles_open h he h₀ h₁ hm

/-- What begins on the first steps of a passage and on the others is supported in the
end. -/
theorem Settles.append {scope : Scope} {path : List Step} {new : List Event} {r r₁ r' : Run}
    (h : S.Settles r r₁) (ha : r.Advances scope.matter new r₁) (hr₁ : r₁.Coherent)
    (hu : r.Under scope.matter) (w : S.Passes (.steps scope path) r₁ r')
    (ih : S.Settling (.steps scope path) r₁ r') (hp : Course.Proper S (.steps scope path)) :
  S.Settles r r'
  := by
  have hu₁ := hu.after ha
  obtain ⟨new', ha', -⟩ := orderly_of_passes w hr₁ hu₁
  exact h.trans (ih hp hr₁ hu₁) hr₁ ha' hu

/-- What begins while an entity is inquired into, up to the end of its publication. -/
theorem settles_published {e : Entity} {mode : Option Mode × Option EntityId}
    {path path' : List Step} {r r₁ r₂ r₃ : Run} (o : S.Opens e mode r)
    (l : (S.entityInquiry e).Leads path ())
    (w : S.Passes (.steps (e.declarationScope mode) path) (r.open e mode) r₁)
    (hp : S.publish e r₁ = .ok () r₂) (l' : (predicateInquiry e).Leads path' ())
    (w' : S.Passes (.steps (e.declarationScope mode) path') r₂ r₃)
    (ih : S.Settling (.steps (e.declarationScope mode) path) (r.open e mode) r₁)
    (ih' : S.Settling (.steps (e.declarationScope mode) path') r₂ r₃) (hr : r.Coherent) :
  S.Settles (r.open e mode) r₃
  := by
  obtain ⟨-, ho, hu, -⟩ := Run.open_step hr o.fresh mode
  obtain ⟨new, ha, hr₁, -⟩ := orderly_of_passes w ho hu
  obtain ⟨hs, -⟩ := same_publish hp
  have h₁ := (ih ((regular_entityInquiry o.entity).proper l _) ho hu).same hr₁ hs
  have hpredicate : S.Regular {} (fun _ => False) [] (predicateInquiry e) :=
    regular_predicateInquiry e
  exact h₁.append (ha.same hs) (hs.coherent hr₁) hu w' ih'
    (hpredicate.proper l' _)

/-- What begins on a passage is supported in the end, if it began only once and is
upheld. -/
theorem settling_of_passes {c : Course} {r r' : Run} (h : S.Passes c r r') :
  S.Settling c r r'
  := by
  induction h with
  | nil | known =>
    intro _ hr _
    exact settles_of_upholds hr fun _ => id
  | @plain scope s path r r₁ r' h w ih =>
    intro hp hr hu
    obtain ⟨new, ha, hr₁⟩ := plain_step h hr hu
    have h₁ : S.Settles r r₁ := settles_of_upholds hr fun m hm => by rwa [upholds_plain h] at hm
    exact h₁.append ha hr₁ hu w ih hp.tail
  | decide d w ihd ih =>
    intro hp hr hu
    obtain ⟨new, ha, hr₁, -⟩ := orderly_of_passes d hr (under_decision _ _)
    exact (ihd trivial hr (under_decision _ _)).append (ha.within _) hr₁ hu w ih hp.tail
  | @consult scope id site path r r₁ r' d w ihd ih =>
    intro hp hr hu
    obtain ⟨new, ha, hr₁, hx⟩ := orderly_of_passes d hr (under_decision _ _)
    obtain ⟨ha₂, hr₂⟩ := Run.rest_step hr₁ (hu.after ha) (hx _ rfl) site
    have h₁ := ihd trivial hr (under_decision _ _)
    have h₂ : S.Settles r₁ (r₁.rest scope id site) :=
      settles_of_upholds hr₁ fun m hm => by rwa [upholds_rest] at hm
    have ha₃ := (ha.within scope.matter).append ha₂
    exact (h₁.trans h₂ hr₁ ha₂ hu).append ha₃ hr₂ hu w ih hp.tail
  | declare d _ w ihd ih =>
    intro hp hr hu
    obtain ⟨new, ha, hr₁, -⟩ := orderly_of_passes d hr (under_decision _ _)
    exact (ihd trivial hr (under_decision _ _)).append (ha.within _) hr₁ hu w ih hp.tail
  | declareResting d _ _ w ihd ih =>
    intro hp hr hu
    obtain ⟨new, ha, hr₁, -⟩ := orderly_of_passes d hr (under_decision _ _)
    exact (ihd trivial hr (under_decision _ _)).append (ha.within _) hr₁ hu w ih hp.tail
  | @bodyExcluded scope e mode inner path r r₁ r' d _ w ihd ih =>
    intro hp hr hu
    obtain ⟨new, ha, hr₁, -⟩ := orderly_of_passes d hr (under_decision _ _)
    have hs := r₁.same_inheritCause e
    have h₁ := (ihd trivial hr (under_decision _ _)).same hr₁ hs
    exact h₁.append ((ha.within _).same hs) (hs.coherent hr₁) hu w ih hp.tail
  | bodyOff d _ _ w ihd ih =>
    intro hp hr hu
    obtain ⟨new, ha, hr₁, -⟩ := orderly_of_passes d hr (under_decision _ _)
    exact (ihd trivial hr (under_decision _ _)).append (ha.within _) hr₁ hu w ih hp.tail
  | @body scope e mode inner mode' path innerPath r r₁ r₂ r' d _ _ _ l w₂ w ihd ih₂ ih =>
    intro hp hr hu
    obtain ⟨he, ns, rfl⟩ := hp.body
    obtain ⟨new, ha, hr₁, hx⟩ := orderly_of_passes d hr (under_decision _ _)
    obtain ⟨new₂, ha₂, hr₂, -⟩ := body_step (orderly_of_passes w₂) hr₁ (hx _ rfl) r₁.cause
    have h₁ := ihd trivial hr (under_decision _ _)
    have h₂ := settles_body he l w₂ ih₂ hr₁ (hx _ rfl) r₁.cause
    have ha₃ := (ha.append ha₂).within scope.matter
    have hn : r.Under none := under_decision r e.name
    exact (h₁.trans h₂ hr₁ ha₂ hn).append ha₃ hr₂ hu w ih hp.tail
  | off =>
    intro _ hr _
    exact settles_of_upholds hr fun m hm => by cases m <;> exact hm
  | @reject e mode path r r₁ o l w _ ih =>
    intro _ hr _
    obtain ⟨-, ho, hu, -⟩ := Run.open_step hr o.fresh mode
    obtain ⟨new, ha, hr₁, -⟩ := orderly_of_passes w ho hu
    exact settles_excluded (ih ((regular_entityInquiry o.entity).proper l _) ho hu) hr₁ r.cause
  | @revoke e mode path path' r r₁ r₂ r₃ o l w _ _ hp l' w' _ ih ih' =>
    intro _ hr _
    obtain ⟨new, -, hr₃, -⟩ := decided_twice (orderly_of_passes w) hp (orderly_of_passes w')
      hr o.fresh
    exact settles_excluded (settles_published o l w hp l' w' ih ih' hr) hr₃ r.cause
  | @grant e mode path path' r r₁ r₂ r₃ o l w _ _ hp l' w' hv ih ih' =>
    intro _ hr _
    have h := settles_published o l w hp l' w' ih ih' hr
    exact settles_granted o l w hp l' w' hv h hr r.cause

end Setting

end Conformance
