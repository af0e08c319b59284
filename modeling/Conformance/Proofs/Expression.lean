import Conformance.Proofs.Check

/-!
# Expressions are regular

Expressions come to expressions, choices and names, and they rest on what these name; they
declare nothing and decide no body.
-/

namespace Conformance

namespace Setting

open Inquiry

variable {S : Setting}
variable {t : Topic} {known : EntityId → Prop} {bs : List (EntityId × List Node)}

/-- On a favourable path, an expression rests on its static type. -/
theorem consulted_expression {n : Node} {type : EntityId} (ht : n.type = some type)
    {path : List Step} (hp : (S.expression n).Favours path ()) :
  Consulted path type
  := by
  obtain ⟨id, location, _, shape⟩ := n
  obtain rfl := ht
  rw [expression.eq_def] at hp
  obtain ⟨p, ⟨⟩, q, rfl, -, hq⟩ := favours_bind_iff.1 hp
  obtain ⟨q, b, q', rfl, hq, -⟩ := favours_bind_iff.1 hq
  obtain ⟨-, rfl⟩ := favours_ask.1 hq
  exact ⟨_, List.mem_append_right p (List.mem_append_left q' List.mem_cons_self)⟩

/-- After an expression, its static type is known to be consulted. -/
theorem regular_after_expression {n : Node} {i : Inquiry Unit}
    (h : S.Regular t known [] (S.expression n))
    (h' : S.Regular t (fun x => known x ∨ n.type = some x) bs i) :
  S.Regular t known bs (do S.expression n; i)
  := by
  apply h.bind
  rintro ⟨⟩ _ _
  apply h'.mono
  rintro x (hx | hx)
  · exact Or.inl hx
  · exact Or.inr fun path hp => consulted_expression hx hp

/-- An inquiry that goes on in one way or another after it rested on a type. -/
theorem regular_typed {i j : Inquiry Unit} {site : Site} {type : Option EntityId}
    (h : S.Regular t known bs i) (h' : S.Regular t known bs j) :
  S.Regular t known bs (do if ← restOnType site type then i else j)
  := by
  cases type with
  | none => exact h
  | some type =>
    apply regular_ask
    intro b
    cases b
    · exact h'.mono fun _ => Or.inl
    · exact h.mono fun _ => Or.inl

/-- An expression that is no call. -/
theorem regular_rested {i j : Inquiry Unit} {n : Node} (hn : n.isVetted .expression = false)
    (h : S.Regular t known [] i) (h' : S.Regular t known [] j) :
  S.Regular t known [] (do
    come .expression n
    if ← restOnType n.site n.type then i else j)
  := regular_come hn (regular_typed h h')

/-! ### Calls -/

theorem regular_call {site : Site} {callee : EntityId} {arguments : List Node}
    (h : ∀ known, S.Regular t known [] (S.expressions arguments)) :
  S.Regular t known [] (S.callStatement site callee arguments)
  := by
  apply regular_ask
  intro admitted
  apply regular_lift
  intro facet hf
  apply (h _).append
  cases admitted
  · exact regular_pure ()
  · exact regular_actuals (.root (Or.inr fun _ => rfl)) hf

/-- On a favourable path, a call goes through the check of its actual parameters. -/
theorem favours_call {site : Site} {callee : EntityId} {arguments : List Node}
    {path : List Step} (hp : (S.callStatement site callee arguments).Favours path ()) :
  Consulted path callee ∧ ∃ facet q, S.program.subprogramFacet callee = .ok facet
    ∧ (S.checkActuals callee facet.parameters arguments).Favours q () ∧ q <:+: path
  := by
  obtain ⟨p, b, q, rfl, hp, hq⟩ := favours_bind_iff.1 hp
  obtain ⟨rfl, rfl⟩ := favours_ask.1 hp
  obtain ⟨p, facet, q, rfl, hp, hq'⟩ := favours_bind_iff.1 hq
  obtain ⟨rfl, hf⟩ := favours_lift.1 hp
  obtain ⟨p, _, q, rfl, -, hq'⟩ := favours_bind_iff.1 hq'
  refine ⟨⟨site, by simp⟩, facet, q, hf, hq', ?_⟩
  simp only [List.nil_append, ← List.append_assoc]
  exact (List.suffix_append _ q).isInfix

theorem vetted_expression {n : Node} {site : Site} {callee : EntityId} {arguments : List Node}
    {path : List Step} (hn : n.shape = .call callee arguments) {type : Option EntityId}
    {j : Inquiry Unit}
    (hp : (do if ← restOnType site type then S.callStatement site callee arguments else j :
      Inquiry Unit).Favours path ()) :
  S.Vetted t .expression n path
  := by
  obtain ⟨p, b, q, rfl, hp, hq⟩ := favours_bind_iff.1 hp
  obtain rfl : b = true := by
    cases type with
    | none => exact (favours_pure.1 hp).2.symm
    | some type => exact (favours_ask.1 hp).1
  constructor
  · intro callee' arguments' hc
    obtain ⟨rfl, rfl⟩ : callee = callee' ∧ arguments = arguments' := by
      simpa [Node.call?, hn] using hc
    obtain ⟨⟨site, hc⟩, facet, q', hf, hq', hs⟩ := favours_call hq
    exact ⟨⟨site, List.mem_append_right p hc⟩, facet, q', hf, hq',
      hs.trans (List.suffix_append p q).isInfix⟩
  · rintro _ ⟨⟩

/-! ### Names -/

theorem regular_component (site : Site) (component : EntityId) :
  S.Regular t known [] (S.restOnComponent site component)
  := by
  apply regular_lift
  intro e _
  split
  · exact regular_restOn component site
  · exact regular_restOn component site
  · exact regular_pure ()

theorem regular_namedType {role : Role} (n : Node) (hr : role = .choice ∨ role = .whole) :
  S.Regular t known [] (S.restOnNamedType role n)
  := by
  apply regular_come
  · obtain rfl | rfl := hr <;> rfl
  · split
    · next entity _ =>
      apply regular_lift
      intro e _
      split
      · exact (regular_restOn entity n.site).append (regular_pure true)
      · exact regular_pure false
    · exact regular_pure false

/-- A part that is gone through as an expression unless it names a type. -/
theorem regular_unlessType {role : Role} {n : Node} {f : Bool → Inquiry Unit}
    (hr : role = .choice ∨ role = .whole) (h : ∀ known, S.Regular t known [] (S.expression n))
    (h' : ∀ b, S.Regular t known [] (f b)) :
  S.Regular t known [] (do
    let ofType ← S.restOnNamedType role n
    if !ofType then S.expression n
    f ofType)
  := by
  apply (regular_namedType n hr).bind
  intro ofType _ _
  have h'' : S.Regular t ((S.restOnNamedType role n).After known ofType) [] (f ofType) :=
    (h' ofType).mono fun _ => Or.inl
  cases ofType
  · exact (h _).append h''
  · exact h''

/-! ### Trees -/

mutual

theorem regular_expression :
    (n : Node) → (known : EntityId → Prop) → S.Regular t known [] (S.expression n)
  | ⟨id, location, type, shape⟩, known => by
    have ho := regular_operands shape known
    match shape, ho with
    | .identifier entity, ho =>
      rw [expression]
      exact regular_rested rfl (regular_restOn _ _) ho
    | .word text, ho =>
      rw [expression]
      exact regular_rested rfl (regular_fail _) ho
    | .literal value, ho =>
      rw [expression]
      exact regular_rested rfl (regular_pure ()) ho
    | .aggregate as, ho =>
      rw [expression]
      exact regular_rested rfl (regular_associations as known) ho
    | .selected whole component, ho =>
      rw [expression]
      apply regular_rested rfl _ ho
      exact (regular_expression whole known).append (regular_component _ component)
    | .indexed whole indices, ho =>
      rw [expression]
      apply regular_rested rfl _ ho
      exact (regular_expression whole known).append (regular_expressions indices known)
    | .slice whole bounds, ho =>
      rw [expression]
      apply regular_rested rfl _ ho
      exact (regular_expression whole known).append (regular_expression bounds known)
    | .dereference pointer, ho =>
      rw [expression]
      exact regular_rested rfl (regular_expression pointer known) ho
    | .call callee arguments, ho =>
      rw [expression]
      have hc (site : Site) : S.Regular t known [] (S.callStatement site callee arguments) :=
        regular_call (regular_expressions arguments)
      apply Regular.visit
      · exact regular_typed (hc _) ho
      · exact fun path _ => vetted_expression rfl
      · exact fun _ _ _ _ _ => nofun
    | .attribute whole name arguments, ho =>
      rw [expression]
      apply regular_rested rfl _ ho
      apply regular_unlessType (Or.inr rfl) (regular_expression whole)
      intro ofType
      exact (Regular.plain (plain_attribute _ name ofType)).append
        (regular_expressions arguments known)
    | .conversion target operand, ho =>
      rw [expression]
      apply regular_rested rfl _ ho
      apply regular_ask
      intro admitted
      apply (regular_expression operand _).append
      cases admitted
      · exact regular_pure ()
      · exact .plain (S.plain_conversion _ target operand)
    | .qualified target operand, ho =>
      rw [expression]
      apply regular_rested rfl _ ho
      exact (regular_restOn target _).append (regular_expression operand known)
    | .binary operator left right, ho =>
      rw [expression]
      apply regular_rested rfl _ ho
      exact (regular_expression left known).append ((regular_expression right known).append
        (.plain (S.plain_binary _ operator left right)))
    | .unary operator operand, ho =>
      rw [expression]
      exact regular_rested rfl (regular_expression operand known) ho
    | .allocator target none, ho =>
      rw [expression]
      exact regular_rested rfl (regular_ask fun _ => regular_pure ()) ho
    | .allocator target (some value), ho =>
      rw [expression]
      apply regular_rested rfl _ ho
      apply regular_ask
      intro admitted
      apply (regular_expression value _).append
      cases admitted
      · exact regular_pure ()
      · exact .plain (S.plain_allocated target value)
    | .conditional condition thenValue elseValue, ho =>
      rw [expression]
      apply regular_rested rfl _ ho
      exact (regular_expression condition known).append
        ((regular_expression thenValue known).append (regular_expression elseValue known))
    | .quantified element domain predicate existential, ho =>
      rw [expression]
      apply regular_rested rfl _ ho
      exact (regular_restOn element _).append
        ((regular_expression domain known).append (regular_expression predicate known))
    | .range low high, ho =>
      rw [expression]
      apply regular_rested rfl _ ho
      exact (regular_expression low known).append (regular_expression high known)
    | .membership operand cs, ho =>
      rw [expression]
      apply regular_rested rfl _ ho
      exact (regular_expression operand known).append (regular_choices cs known)
    | .assignment .., ho | .procedureCall .., ho | .return _, ho | .ifElse .., ho
    | .case .., ho | .loop .., ho | .block .., ho | .exit _, ho | .goto _, ho | .raise _, ho
    | .delay _, ho | .abort, ho | .machineCode, ho | .nothing, ho | .pragma .., ho
    | .declaration .., ho | .package .., ho | .body .., ho | .protectedBody .., ho
    | .compilationUnit .., ho | .withClause _, ho | .useClause, ho =>
      simp only [expression]
      exact regular_rested rfl (regular_fail _) ho

theorem regular_operands :
    (shape : Shape Node) → (known : EntityId → Prop) → S.Regular t known [] (S.operands shape)
  | .aggregate as, known => by
    rw [operands]
    exact regular_associationOperands as known
  | .selected whole _, known | .dereference whole, known | .conversion _ whole, known
  | .qualified _ whole, known | .unary _ whole, known => by
    rw [operands]
    exact regular_expression whole known
  | .indexed whole indices, known => by
    rw [operands]
    exact (regular_expression whole known).append (regular_expressions indices known)
  | .slice left right, known | .binary _ left right, known | .quantified _ left right _, known
  | .range left right, known => by
    rw [operands]
    exact (regular_expression left known).append (regular_expression right known)
  | .call _ arguments, known => by
    rw [operands]
    exact regular_expressions arguments known
  | .attribute whole name arguments, known => by
    rw [operands]
    exact regular_unlessType (Or.inr rfl) (regular_expression whole)
      fun _ => regular_expressions arguments known
  | .allocator _ none, known => by
    rw [operands]
    exact regular_pure ()
  | .allocator _ (some value), known => by
    rw [operands]
    exact regular_expression value known
  | .conditional condition thenValue elseValue, known => by
    rw [operands]
    exact (regular_expression condition known).append
      ((regular_expression thenValue known).append (regular_expression elseValue known))
  | .membership operand cs, known => by
    rw [operands]
    exact (regular_expression operand known).append (regular_choices cs known)
  | .identifier _, known | .word _, known | .literal _, known | .assignment .., known
  | .procedureCall .., known | .return _, known | .ifElse .., known | .case .., known
  | .loop .., known | .block .., known | .exit _, known | .goto _, known | .raise _, known
  | .delay _, known | .abort, known | .machineCode, known | .nothing, known
  | .pragma .., known | .declaration .., known | .package .., known | .body .., known
  | .protectedBody .., known | .compilationUnit .., known | .withClause _, known
  | .useClause, known => by
    simp only [operands]
    exact regular_pure ()

theorem regular_expressions :
    (ns : List Node) → (known : EntityId → Prop) → S.Regular t known [] (S.expressions ns)
  | [], known => by
    rw [expressions]
    exact regular_pure ()
  | n :: ns, known => by
    rw [expressions]
    exact (regular_expression n known).append (regular_expressions ns known)

theorem regular_choices :
    (ns : List Node) → (known : EntityId → Prop) → S.Regular t known [] (S.choices ns)
  | [], known => by
    rw [choices]
    exact regular_pure ()
  | n :: ns, known => by
    rw [choices]
    exact regular_unlessType (Or.inl rfl) (regular_expression n)
      fun _ => regular_choices ns known

theorem regular_associations :
    (as : List (Association Node)) → (known : EntityId → Prop) →
      S.Regular t known [] (S.associations as)
  | [], known => by
    rw [associations]
    exact regular_pure ()
  | ⟨cs, others, value⟩ :: as, known => by
    rw [associations]
    apply (regular_choices cs known).append
    apply regular_after_expression (regular_expression value known)
    have ha : S.Regular t (fun x => known x ∨ value.type = some x) []
        (S.checkAssociation ⟨cs, others, value⟩) :=
      regular_association fun type ht => .root (Or.inr ht)
    exact ha.append (regular_associations as _)

theorem regular_associationOperands :
    (as : List (Association Node)) → (known : EntityId → Prop) →
      S.Regular t known [] (S.associationOperands as)
  | [], known => by
    rw [associationOperands]
    exact regular_pure ()
  | ⟨cs, others, value⟩ :: as, known => by
    rw [associationOperands]
    exact (regular_choices cs known).append
      ((regular_expression value known).append (regular_associationOperands as known))

end

end Setting

end Conformance
