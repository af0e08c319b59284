import Conformance.Proofs.Fit
import Conformance.Proofs.Foundation

/-!
# Checks of calls and returned values

Actual parameters and returned values are checked where the type that they go to is in the
subset as far as decided.  A type that was not looked at yet is not, so a check is left out
where a matter asks for a type before the decision of the type has begun: this is
`Run.Overlooks`.  `actuals_returned_fit` says that all other actual parameters and returned
values that an upheld matter comes to fit.
-/

namespace Conformance

/-- After a matter came to a node, it asked for a type whose decision had not begun. -/
def Run.Overlooks (r : Run) (m : Matter) (role : Role) (n : Node) (type : EntityId) : Prop :=
  ∃ later earlier, r.journal = later ++ .asked (some m) type :: earlier
    ∧ .visited (some m) role n ∈ earlier ∧ .began (.declaration type) ∉ earlier

/-- The node that a matter came to by an event. -/
def Event.visited? (m : Matter) : Event → Option (Role × Node)
  | .visited (some m') role n => if m' = m then some (role, n) else none
  | _ => none

/-- The nodes that a matter came to. -/
def Run.visits (r : Run) (m : Matter) : List (Role × Node) :=
  r.journal.filterMap (Event.visited? m)

theorem Run.mem_visits {r : Run} {m : Matter} {role : Role} {n : Node} :
  (role, n) ∈ r.visits m ↔ .visited (some m) role n ∈ r.journal
  := by
  have hiff (e : Event) : Event.visited? m e = some (role, n) ↔ e = .visited (some m) role n := by
    unfold Event.visited?
    split <;> simp_all
  simp [visits, hiff]

namespace Setting

open Inquiry

variable {S : Setting}

theorem Inquires.regular {m : Matter} {i : Inquiry Unit} (h : S.Inquires m i) :
  ∃ t bs, S.Regular t (· = m.entity) bs i
  := by
  cases h with
  | declaration he =>
    exact ⟨_, _, (regular_entityInquiry he).append (regular_predicateInquiry _)⟩
  | body he ns => exact ⟨_, _, regular_bodyItems _ ns⟩

/-- What is returned in a body is returned from its entity. -/
theorem Inquires.regular_body {e : Entity} {i : Inquiry Unit}
    (he : S.program.entity e.name = .ok e) (h : S.Inquires (.body e.name) i) :
  ∃ bs, S.Regular { subprogram := e.inside.subprogram } (· = e.name) bs i
  := by
  generalize hm : Matter.body e.name = m at h
  cases h with
  | declaration => cases hm
  | @body e' he' ns =>
    obtain rfl : e = e' := by
      rw [← Matter.body.inj hm, he] at he'
      exact Except.ok.inj he'
    exact ⟨_, regular_bodyItems e ns⟩

/-- A matter that asks for an admitted type after it came to a node and got no overlooked the
type. -/
theorem Supports.overlooks {r : Run} {m : Matter} {i : Inquiry Unit} {p q : List Step}
    {role : Role} {n : Node} (h : S.Supports r m i (p ++ .visit role n :: q))
    {type : EntityId} (hq : .ask type false ∈ q) (hx : type ∈ r.verdicts.admitted) :
  r.Overlooks m role n type
  := by
  obtain ⟨q₁, q₂, rfl⟩ := List.append_of_mem hq
  obtain ⟨later, earlier, hj, -, hv, hb⟩ :=
    h.asks (p ++ .visit role n :: q₁) type false q₂ (by simp)
  exact ⟨later, earlier, hj, hv role n (by simp), hb rfl hx⟩

section

variable {r : Run} (h : S.wholeProgram {} = .ok () r)

include h

/-- Each actual parameter of a call fits, unless the type of the formal was overlooked. -/
theorem actuals_fit {m : Matter} {i : Inquiry Unit} {path : List Step}
    (hs : S.Supports r m i path) {role : Role} {n : Node} {callee : EntityId}
    {arguments : List Node} (hv : .visited (some m) role n ∈ r.journal)
    (hc : n.call? role = some (callee, arguments)) :
  ∃ facet, S.program.subprogramFacet callee = .ok facet
    ∧ ∀ id actual, (id, actual) ∈ facet.parameters.zip arguments →
      ∃ f, S.formal callee id = .ok f
        ∧ (S.ActualFits f actual ∨ r.Overlooks m role n f.type)
  := by
  obtain ⟨t, bs, hr⟩ := hs.inquires.regular
  obtain ⟨p, q, rfl, hvet⟩ := hr.vetted hs.favours (hs.visits role n hv)
  obtain ⟨⟨site, hcons⟩, facet, q', hf, hq', hsub⟩ := hvet.call callee arguments hc
  refine ⟨facet, hf, fun id actual hz => ?_⟩
  obtain ⟨q'', hq'', hsub'⟩ := favours_forM hq' hz
  obtain ⟨f, b, rest, hformal, rfl, hfits⟩ := fits_of_actual hq''
  refine ⟨f, hformal, ?_⟩
  cases b with
  | true => exact Or.inl (hfits rfl)
  | false =>
    right
    have hcons := hs.records (.consult callee site true) (by simp [hcons])
    have hadm := (hs.rests callee hcons).1
    have hroot : S.Rooted (· = callee) f.type :=
      Rooted.formal (.root rfl) hf (List.of_mem_zip hz).1 hformal
    apply hs.overlooks ((hsub'.trans hsub).subset List.mem_cons_self)
    exact admitted_of_rooted h hroot fun y hy => hy ▸ hadm

/-- A value that is returned in the body of a subprogram fits, unless the result type was
overlooked. -/
theorem returned_fits {e : Entity} {facet : SubprogramFacet}
    (he : S.program.entity e.name = .ok e) (hk : e.kind = .subprogram facet)
    {result : EntityId} (hres : facet.result = some result) {i : Inquiry Unit}
    {path : List Step} (hs : S.Supports r (.body e.name) i path)
    (ha : e.name ∈ r.verdicts.admitted) {role : Role} {n value : Node}
    (hv : .visited (some (.body e.name)) role n ∈ r.journal)
    (hret : n.returned? role = some value) :
  S.ReturnFits facet result value ∨ r.Overlooks (.body e.name) role n result
  := by
  have hf : S.program.subprogramFacet e.name = .ok facet :=
    Program.subprogramFacet_eq_ok.2 ⟨e, he, hk⟩
  obtain ⟨bs, hr⟩ := hs.inquires.regular_body he
  have ht : e.inside.subprogram = some e.name := by simp [Entity.inside, hk]
  obtain ⟨p, q, rfl, hvet⟩ := hr.vetted hs.favours (hs.visits role n hv)
  obtain ⟨q', hq', hsub⟩ := hvet.returned value hret
  rw [ht] at hq'
  obtain ⟨b, rest, rfl, hfits⟩ := fits_of_returned hf hres hq'
  cases b with
  | true => exact Or.inl (hfits rfl)
  | false =>
    right
    have hroot : S.Rooted (· = e.name) result := Rooted.result (.root rfl) hf hres
    apply hs.overlooks (hsub.subset List.mem_cons_self)
    exact admitted_of_rooted h hroot fun y hy => hy ▸ ha

end

/-- The actual parameters of each call that an upheld matter came to, and the values that are
returned in each upheld body of a subprogram, satisfy the ownership rules, apart from those
whose type was overlooked. -/
theorem actuals_returned_fit {r : Run} (hn : (Node.bodiedOf S.program.units).Nodup)
    (h : S.wholeProgram {} = .ok () r) :
  (∀ m role n callee arguments, r.verdicts.upholds m → (role, n) ∈ r.visits m →
      n.call? role = some (callee, arguments) →
      ∃ facet, S.program.subprogramFacet callee = .ok facet
        ∧ ∀ id actual, (id, actual) ∈ facet.parameters.zip arguments →
          ∃ f, S.formal callee id = .ok f
            ∧ (S.ActualFits f actual ∨ r.Overlooks m role n f.type))
    ∧ ∀ e facet result role n value, S.program.entity e.name = .ok e →
      e.kind = .subprogram facet → facet.result = some result →
      e.name ∈ r.verdicts.admittedBodies → (role, n) ∈ r.visits (.body e.name) →
      n.returned? role = some value →
      S.ReturnFits facet result value ∨ r.Overlooks (.body e.name) role n result
  := by
  constructor
  · intro m role n callee arguments hm hv hc
    obtain ⟨i, path, hs⟩ := supported_of_upholds h hn hm
    exact actuals_fit h hs (Run.mem_visits.1 hv) hc
  · intro e facet result role n value he hk hres hb hv hret
    have hm : r.verdicts.upholds (.body e.name) := Verdicts.upholds_body.2 hb
    obtain ⟨i, path, hs⟩ := supported_of_upholds h hn hm
    have ha := (settled_of_wholeProgram h).coherent.mem_admitted e.name hb
    exact returned_fits h he hk hres hs ha (Run.mem_visits.1 hv) hret

/-! ### A loan and a returned value -/

/-- A procedure with a parameter of an anonymous access type, a call of it, and a function
that returns an allocated value. -/
def loanSample : Setting :=
  (ofParts?
    [{ name := "T", kind := .type { definition := .signed 0 9 } },
      { name := "L", kind := .type {
          definition := .access { designated := "T", anonymous := true } } },
      { name := "A", kind := .type { definition := .access { designated := "T" } } },
      { name := "V", kind := .object { type := "A" } },
      { name := "X", kind := .parameter { type := "L" } },
      { name := "P", kind := .subprogram { kind := .procedure, parameters := ["X"] } },
      { name := "Q", kind := .subprogram { kind := .procedure } },
      { name := "F", kind := .subprogram { kind := .function, result := some "A" } }]
    [.plain (.body .subprogram "Q" none []
        [.plain (.procedureCall "P" [.plain (.identifier "V")])]),
      .plain (.body .subprogram "F" none []
        [.plain (.return (some (.plain (.allocator "T" none))))])]).get
    (by decide +kernel)

theorem actuals_returned_fit_loanSample :
  let r := (loanSample.wholeProgram.after {}).2
  (Node.bodiedOf loanSample.program.units).Nodup ∧ loanSample.wholeProgram {} = .ok () r
    ∧ (∃ role n actual f, (role, n) ∈ r.visits (.body "Q")
      ∧ n.call? role = some ("P", [actual]) ∧ loanSample.formal "P" "X" = .ok f
      ∧ (loanSample.ActualFits f actual ∨ r.Overlooks (.body "Q") role n f.type))
    ∧ ∃ role n value, (role, n) ∈ r.visits (.body "F") ∧ n.returned? role = some value
      ∧ (loanSample.ReturnFits { kind := .function, result := some "A" } "A" value
        ∨ r.Overlooks (.body "F") role n "A")
  := by
  have hn : (Node.bodiedOf loanSample.program.units).Nodup := by decide +kernel
  have h : loanSample.wholeProgram {} = .ok () (loanSample.wholeProgram.after {}).2 :=
    Act.eq_ok_of_after (by decide +kernel)
  obtain ⟨hcalls, hreturns⟩ := actuals_returned_fit hn h
  have hq : (loanSample.wholeProgram.after {}).2.verdicts.upholds (.body "Q") := by
    decide +kernel
  have hf : "F" ∈ (loanSample.wholeProgram.after {}).2.verdicts.admittedBodies := by
    decide +kernel
  have hc : ((loanSample.wholeProgram.after {}).2.visits (.body "Q")).any (fun v =>
      (v.2.call? v.1).any fun c => c.1 == "P" && c.2.length == 1) := by decide +kernel
  have hr : ((loanSample.wholeProgram.after {}).2.visits (.body "F")).any (fun v =>
      (v.2.returned? v.1).isSome) := by decide +kernel
  refine ⟨hn, h, ?_, ?_⟩
  · obtain ⟨⟨role, n⟩, hv, hc⟩ := List.any_eq_true.1 hc
    obtain ⟨⟨callee, arguments⟩, hc, hp⟩ := (Option.any_eq_true _ _).1 hc
    obtain ⟨rfl, hl⟩ : callee = "P" ∧ arguments.length = 1 := by simpa using hp
    obtain ⟨actual, rfl⟩ := List.length_eq_one_iff.1 hl
    obtain ⟨facet, hfacet, hfits⟩ := hcalls _ role n "P" [actual] hq hv hc
    obtain rfl : { kind := .procedure, parameters := ["X"] } = facet := Except.ok.inj hfacet
    obtain ⟨f, hformal, hfit⟩ := hfits "X" actual List.mem_cons_self
    exact ⟨role, n, actual, f, hv, hc, hformal, hfit⟩
  · obtain ⟨⟨role, n⟩, hv, hr⟩ := List.any_eq_true.1 hr
    obtain ⟨value, hvalue⟩ := Option.isSome_iff_exists.1 hr
    refine ⟨role, n, value, hv, hvalue, ?_⟩
    exact hreturns { name := "F", kind := .subprogram { kind := .function, result := some "A" } }
      _ "A" role n value rfl rfl rfl hf hv hvalue

/-- A procedure whose first parameter has a default that calls the procedure with a literal
for a parameter of mode `out` and an access type. -/
def defaultSample : Setting :=
  (ofParts?
    [{ name := "T", kind := .type { definition := .signed 0 9 } },
      { name := "D", kind := .type { definition := .access { designated := "T" } } },
      { name := "P", kind := .subprogram { kind := .procedure, parameters := ["X1", "X2"] } },
      { name := "X1", kind := .parameter {
          type := "T", default := some (.plain (.call "P"
            [.plain (.literal (.integer 1)), .plain (.literal (.integer 2))])) } },
      { name := "X2", kind := .parameter { type := "D", direction := .output } }]
    [.plain (.declaration .subprogram "P")]).get
    (by decide +kernel)

/-- The default is admitted with its call, although an actual parameter does not fit. -/
theorem actual_misfits_defaultSample :
  let r := (defaultSample.wholeProgram.after {}).2
  (Node.bodiedOf defaultSample.program.units).Nodup
    ∧ defaultSample.wholeProgram {} = .ok () r ∧ r.verdicts.upholds (.declaration "X1")
    ∧ ∃ role n first second f, (role, n) ∈ r.visits (.declaration "X1")
      ∧ n.call? role = some ("P", [first, second])
      ∧ defaultSample.formal "P" "X2" = .ok f ∧ ¬ defaultSample.ActualFits f second
  := by
  have hc : ((defaultSample.wholeProgram.after {}).2.visits (.declaration "X1")).any (fun v =>
      (v.2.call? v.1).any fun c => c.1 == "P" && c.2.length == 2
        && c.2.getLast?.any fun n => (defaultSample.isPath n).toOption == some false) := by
    decide +kernel
  refine ⟨by decide +kernel, Act.eq_ok_of_after (by decide +kernel), by decide +kernel, ?_⟩
  obtain ⟨⟨role, n⟩, hv, hc⟩ := List.any_eq_true.1 hc
  obtain ⟨⟨callee, arguments⟩, hc, hp⟩ := (Option.any_eq_true _ _).1 hc
  simp only [Bool.and_eq_true, beq_iff_eq] at hp
  obtain ⟨⟨rfl, hl⟩, hp⟩ := hp
  obtain ⟨first, second, rfl⟩ := List.length_eq_two.1 hl
  have hpath : defaultSample.isPath second = .ok false := by
    simp only [List.getLast?_cons_cons, List.getLast?_singleton, Option.any_some] at hp
    cases hs : defaultSample.isPath second with
    | ok b =>
      rw [hs] at hp
      simpa [Except.toOption] using hp
    | error fault =>
      rw [hs] at hp
      cases hp
  refine ⟨role, n, first, second, _, hv, hc, rfl, ?_⟩
  rintro (⟨ht, -, -⟩ | ⟨-, ho⟩ | ⟨-, -, hd, -, -⟩ | ⟨-, -, hd, -⟩ | ⟨-, -, -, hp⟩)
  · cases ht
  · cases ho
  · cases hd
  · cases hd
  · cases hpath.symm.trans hp

end Setting

end Conformance
