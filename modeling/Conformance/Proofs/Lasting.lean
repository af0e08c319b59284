import Conformance.Proofs.Steady

/-!
# What lasts

Entities stay examined, what is excluded stays so, and the journal keeps what happened.  A body
that was admitted stays admitted, unless the body or its entity rests on an entity that was
excluded: such a body is forfeited, and nothing that comes later brings it back.

`Run.Lasts` puts this together, and `lasts_of_passes` says that it holds on every passage.
-/

namespace Conformance

namespace Run

/-- The body of an entity consulted an entity that is excluded, or is that of one. -/
def Forfeits (r : Run) (x : EntityId) : Prop :=
  ∃ y ∈ r.verdicts.examined, y ∉ r.verdicts.admitted
    ∧ (y = x ∨ .consulted (some (.body x)) y ∈ r.journal)

/-- What a run came to that later runs keep. -/
structure Lasts (r r' : Run) : Prop where
  examined : ∀ x ∈ r.verdicts.examined, x ∈ r'.verdicts.examined
  fresh : ∀ x ∈ r'.verdicts.admitted, x ∈ r.verdicts.admitted ∨ x ∉ r.verdicts.examined
  journal : r.journal ⊆ r'.journal
  bodies : ∀ x ∈ r.verdicts.admittedBodies, x ∈ r'.verdicts.admittedBodies ∨ r'.Forfeits x

variable {r r₁ r' : Run}

theorem Lasts.excluded (h : r.Lasts r') {x : EntityId} (hx : x ∈ r.verdicts.examined)
    (ha : x ∉ r.verdicts.admitted) :
  x ∉ r'.verdicts.admitted
  := fun ha' => (h.fresh x ha').elim ha (absurd hx)

theorem Forfeits.lasts {x : EntityId} (hf : r.Forfeits x) (h : r.Lasts r') :
  r'.Forfeits x
  := by
  obtain ⟨y, hy, ha, hc⟩ := hf
  exact ⟨y, h.examined y hy, h.excluded hy ha, hc.imp_right fun hj => h.journal hj⟩

theorem Lasts.refl (r : Run) :
  r.Lasts r
  := ⟨fun _ => id, fun _ => Or.inl, List.Subset.refl _, fun _ => Or.inl⟩

theorem Lasts.trans (h : r.Lasts r₁) (h' : r₁.Lasts r') :
  r.Lasts r'
  where
    examined x hx := h'.examined x (h.examined x hx)
    fresh x hx := by
      obtain hx | hx := h'.fresh x hx
      · exact h.fresh x hx
      · exact Or.inr fun hx' => hx (h.examined x hx')
    journal := List.Subset.trans h.journal h'.journal
    bodies x hx := by
      obtain hx | hx := h.bodies x hx
      · exact h'.bodies x hx
      · exact Or.inr (hx.lasts h')

/-- A change that leaves all admitted bodies alone. -/
theorem lasts_of_advances {m : Option Matter} {new : List Event} (h : r.Advances m new r')
    (hb : ∀ x ∈ r.verdicts.admittedBodies, x ∈ r'.verdicts.admittedBodies) :
  r.Lasts r'
  where
    examined := h.examined
    fresh := h.fresh
    journal := by
      rw [h.journal]
      exact List.subset_append_right _ _
    bodies x hx := Or.inl (hb x hx)

/-- A change that leaves the register alone. -/
theorem lasts_of_register (hg : r'.register = r.register) (hj : r.journal ⊆ r'.journal) :
  r.Lasts r'
  where
    examined := by
      rw [show r'.verdicts.examined = r.verdicts.examined from congrArg Register.examined hg]
      exact fun _ => id
    fresh := by
      rw [show r'.verdicts.admitted = r.verdicts.admitted from congrArg Register.admitted hg]
      exact fun _ => Or.inl
    journal := hj
    bodies := by
      rw [show r'.verdicts.admittedBodies = r.verdicts.admittedBodies from
        congrArg Register.admittedBodies hg]
      exact fun _ => Or.inl

/-! ### Exclusions -/

/-- A body that a cascade takes back rests on an entity that is excluded in the end. -/
theorem bodies_cascade (r : Run) (p : Program) (cause : Site) (work : List EntityId)
    (hw : ∀ c ∈ work, c ∉ r.verdicts.admitted) {x : EntityId}
    (hx : x ∈ r.verdicts.admittedBodies) :
  x ∈ (r.cascade p cause work).verdicts.admittedBodies
    ∨ (x ∈ r.verdicts.admitted ∧ x ∉ (r.cascade p cause work).verdicts.admitted)
    ∨ ∃ c, .body x ∈ r.verdicts.dependentsOf c
      ∧ c ∉ (r.cascade p cause work).verdicts.admitted
  := by
  fun_induction cascade p cause r work with
  | case1 r => exact Or.inl hx
  | case2 r current rest dependents step ih =>
    have h := (r.rule fun v => v.forget current).withdraws_withdrawAll p current cause dependents
    have hit (y : EntityId) :=
      (r.rule fun v => v.forget current).mem_hit_iff p current cause dependents y
    have hc := step.1.cascades_cascade p cause (step.2.reverse ++ rest)
    have gone (y : EntityId) (hy : y ∉ step.1.verdicts.admitted) :
        y ∉ (step.1.cascade p cause (step.2.reverse ++ rest)).verdicts.admitted := by
      intro hy'
      apply hy
      have hu := hc.upholds (.declaration y) (Verdicts.upholds_declaration.2 hy')
      exact Verdicts.upholds_declaration.1 hu
    have left (y : EntityId) (hy : y ∈ step.1.verdicts.admitted) : y ∈ r.verdicts.admitted :=
      ((h.mem_admitted y).1 hy).1
    have hw₁ : ∀ c ∈ step.2.reverse ++ rest, c ∉ step.1.verdicts.admitted := by
      intro c hc hc'
      obtain hc | hc := List.mem_append.1 hc
      · exact ((h.mem_admitted c).1 hc').2 ((hit c).1 (List.mem_reverse.1 hc)).1
      · exact hw c (List.mem_cons_of_mem _ hc) (left c hc')
    by_cases hx₁ : x ∈ step.1.verdicts.admittedBodies
    · obtain hx₂ | ⟨ha, hn⟩ | ⟨c, hd, hn⟩ := ih hw₁ hx₁
      · exact Or.inl hx₂
      · exact Or.inr (Or.inl ⟨left x ha, hn⟩)
      · refine Or.inr (Or.inr ⟨c, ?_, hn⟩)
        have hd' : step.1.verdicts.dependentsOf c
            = (r.verdicts.forget current).dependentsOf c := by
          rw [h.frame]
          rfl
        rw [hd', Verdicts.mem_dependentsOf_forget] at hd
        exact hd.2
    · have hb := mt (h.mem_admittedBodies x).2 hx₁
      by_cases hd : .body x ∈ dependents
      · refine Or.inr (Or.inr ⟨current, Std.TreeSet.mem_toList.1 hd, ?_⟩)
        exact gone current fun ha => hw current List.mem_cons_self (left current ha)
      · obtain ⟨ha, hm⟩ : x ∈ r.verdicts.admitted ∧ .declaration x ∈ dependents := by
          by_contra hn
          exact hb ⟨hx, hd, hn⟩
        exact Or.inr (Or.inl ⟨ha, gone x fun hx' => ((h.mem_admitted x).1 hx').2 hm⟩)

/-- Striking out an entity and cascading from it. -/
theorem lasts_cascade {p : Program} {id : EntityId} {cause : Site} (hr : r.Coherent)
    (hv : r₁.verdicts = r.verdicts.expel id cause) (hs : r.Strikes id (r₁.cascade p cause [id])) :
  r.Lasts (r₁.cascade p cause [id])
  where
    examined := by
      rw [hs.frame]
      exact fun _ hx => hx
    fresh x hx := Or.inl (hs.admitted hx)
    journal := by
      obtain ⟨new, hj, -⟩ := hs.journal
      rw [hj]
      exact List.subset_append_right _ _
    bodies x hx := by
      have examined {y : EntityId} (hy : y ∈ r.verdicts.examined) :
          y ∈ (r₁.cascade p cause [id]).verdicts.examined := by
        rw [hs.frame]
        exact hy
      have hxe := examined (hr.mem_examined x (hr.mem_admitted x hx))
      by_cases he : x = id
      · subst he
        exact Or.inr ⟨x, hxe, hs.gone, Or.inl rfl⟩
      · have hx₁ : x ∈ r₁.verdicts.admittedBodies := by
          rw [hv]
          exact mem_erase_iff.2 ⟨he, hx⟩
        have hw : ∀ c ∈ [id], c ∉ r₁.verdicts.admitted := by
          intro c hc
          rw [List.mem_singleton.1 hc, hv]
          exact fun ha => (mem_erase_iff.1 ha).1 rfl
        obtain hb | ⟨-, hn⟩ | ⟨c, hd, hn⟩ := r₁.bodies_cascade p cause [id] hw hx₁
        · exact Or.inl hb
        · exact Or.inr ⟨x, hxe, hn, Or.inl rfl⟩
        · rw [hv] at hd
          have hj := hr.consulted_of_dependent c _ hd
          have hj' : .consulted (some (.body x)) c ∈ (r₁.cascade p cause [id]).journal :=
            (hs.mem_journal (by simp)).2 hj
          exact Or.inr ⟨c, examined (hr.examined_of_consulted _ c hj), hn, Or.inr hj'⟩

theorem lasts_exclude (hr : r.Coherent) (p : Program) (e : Entity) :
  r.Lasts (r.exclude p e)
  := lasts_cascade hr rfl (r.strikes_exclude p e)

theorem lasts_takeBack (hr : r.Coherent) (p : Program) (access type : EntityId)
    (cause : Site) :
  r.Lasts (r.takeBack p access type cause)
  := by
  obtain ⟨he, -⟩ | ⟨ha, hx⟩ := r.excises_takeBack p access type cause
  · rw [he]
    exact .refl r
  · have hu := Verdicts.upholds_declaration.2 ha
    have hs := hx.strikes
    unfold takeBack withdraw at hs ⊢
    rw [if_pos hu] at hs ⊢
    exact lasts_cascade hr (verdicts_reportDependence _ p _ type cause) hs

end Run

namespace Setting

variable {S : Setting}

theorem lasts_calm {r r' : Run} (h : r.Calm r') :
  r.Lasts r'
  := by
  obtain ⟨new, hj, -⟩ := h.journal
  apply Run.lasts_of_register h.register
  rw [hj]
  exact List.subset_append_right _ _

theorem lasts_same {r r' : Run} (h : r.Same r') :
  r.Lasts r'
  := by
  apply Run.lasts_of_advances (h.advances none)
  rw [h.admittedBodies]
  exact fun _ => id

theorem lasts_plain {scope : Scope} {s : Step} {r r' : Run} (h : S.Plain scope s r r')
    (hs : S.Steady scope.matter r) :
  r.Lasts r'
  := by
  obtain ⟨new, ha, -⟩ := plain_step h hs.coherent hs.under
  apply Run.lasts_of_register (register_plain h)
  rw [ha.journal]
  exact List.subset_append_right _ _

theorem lasts_rest (r : Run) (scope : Scope) (id : EntityId) (site : Site) :
  r.Lasts (r.rest scope id site)
  := by
  apply Run.lasts_of_register (r.register_rest scope id site)
  rw [journal_rest]
  exact List.subset_cons_self _ _

theorem lasts_start (r : Run) (scope : Scope) (m : Matter) :
  r.Lasts (r.start scope m)
  := by
  apply Run.lasts_of_register (r.register_start scope m)
  rw [r.journal_start]
  exact List.subset_cons_self _ _

theorem lasts_concludeBody (r : Run) (e : Entity) (cause : Option Site) :
  r.Lasts { r.concludeBody e with cause }
  := by
  unfold Run.concludeBody
  split
  · exact ⟨fun _ => id, fun _ => Or.inl, List.subset_cons_self _ _,
      fun x hx => Or.inl (mem_insert_iff.2 (Or.inr hx))⟩
  · exact ⟨fun _ => id, fun _ => Or.inl, List.Subset.refl _, fun _ => Or.inl⟩

theorem lasts_open {r : Run} {m : Option Matter} (h : S.Steady m r) {e : Entity}
    {mode : Option Mode × Option EntityId} (o : S.Opens e mode r) :
  r.Lasts (r.open e mode)
  := by
  obtain ⟨ha, -⟩ := Run.open_step h.coherent o.fresh mode
  apply Run.lasts_of_advances ha
  have hb : (r.open e mode).verdicts.admittedBodies = r.verdicts.admittedBodies :=
    congrArg Register.admittedBodies (r.register_open e mode)
  rw [hb]
  exact fun _ => id

/-- What a run came to lasts on every passage. -/
theorem lasts_of_passes {c : Course} {r r' : Run} (h : S.Passes c r r')
    (hs : S.Steady c.matter r) :
  r.Lasts r'
  := by
  induction h with
  | nil | known => exact .refl _
  | plain hp _ ih => exact (lasts_plain hp hs).trans (ih (hs.plain hp))
  | decide d _ ihd ih | declare d _ _ ihd ih | bodyOff d _ _ _ ihd ih
  | declareResting d _ _ _ ihd ih =>
    exact (ihd hs.apart).trans (ih (hs.decides d).1)
  | @consult scope id site path r r₁ r' d _ ihd ih =>
    obtain ⟨hs₁, hx⟩ := hs.decides d
    exact ((ihd hs.apart).trans (lasts_rest _ _ _ _)).trans (ih (hs₁.rest hx site))
  | @bodyExcluded scope e mode inner path r r₁ r' d _ _ ihd ih =>
    have hs₁ := (hs.decides d).1.inheritCause e
    exact ((ihd hs.apart).trans (lasts_same (r₁.same_inheritCause e))).trans (ih hs₁)
  | @body scope e mode inner mode' path innerPath r r₁ r₂ r' d _ _ _ _ w _ ihd ihw ih =>
    obtain ⟨hs₁, hx⟩ := hs.decides d
    have hb := (lasts_start r₁ (e.bodyScope mode') (.body e.name)).trans (ihw (hs₁.start hx mode'))
    have hc := hb.trans (lasts_concludeBody r₂ e r₁.cause)
    exact ((ihd hs.apart).trans hc).trans (ih (hs₁.body hx w r₁.cause))
  | @off e anchor r _ _ _ =>
    exact Run.lasts_of_advances Run.advances_examine fun _ => id
  | @reject e mode path r r₁ o _ w _ ih =>
    have hs₁ := (hs.open o).passes w
    have hx := Run.lasts_exclude hs₁.coherent S.program e
    have hc := (r₁.exclude S.program e).same_cause r.cause
    exact (((lasts_open hs o).trans (ih (hs.open o))).trans hx).trans (lasts_same hc)
  | @revoke e mode path path' r r₁ r₂ r₃ o _ w _ _ hp _ w' _ ih ih' =>
    have hs₂ := ((hs.open o).passes w).publish o.isOff hp
    have h₁ := ((lasts_open hs o).trans (ih (hs.open o))).trans (lasts_same (same_publish hp).1)
    have hs₃ := Steady.passes (c := .steps (e.declarationScope mode) path') hs₂ w'
    have hx := Run.lasts_exclude hs₃.coherent S.program e
    have hc := (r₃.exclude S.program e).same_cause r.cause
    exact ((h₁.trans (ih' hs₂)).trans hx).trans (lasts_same hc)
  | @grant e mode path path' r r₁ r₂ r₃ o _ w _ _ hp _ w' _ ih ih' =>
    have hs₂ := ((hs.open o).passes w).publish o.isOff hp
    have h₁ := ((lasts_open hs o).trans (ih (hs.open o))).trans (lasts_same (same_publish hp).1)
    exact (h₁.trans (ih' hs₂)).trans (lasts_same (r₃.same_follow e.followers r.cause))

/-- What a run came to lasts through its stages. -/
theorem lasts_of_stage {ns : List Node} {r r' : Run} (st : S.Stage ns r r')
    (h : S.Steady none r) :
  r.Lasts r'
  := by
  obtain ⟨c, r₁, r₂, hc, -, h₁, p, hc'⟩ := st.parts h
  have h₂ := (lasts_calm hc).trans (lasts_of_passes p h₁)
  obtain hc' | ⟨access, type, cause, -, -, -, -, rfl⟩ := hc'
  · exact h₂.trans (lasts_calm hc')
  · exact h₂.trans (Run.lasts_takeBack (h₁.passes p).coherent S.program access type cause)

theorem lasts_of_proceeds {ns : List Node} {r r' : Run} (p : S.Proceeds ns r r')
    (h : S.Steady none r) :
  r.Lasts r'
  := by
  induction p with
  | nil => exact .refl _
  | cons st _ ih => exact (lasts_of_stage st h).trans (ih (h.stage st))

end Setting

end Conformance
