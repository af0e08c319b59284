import Conformance.Fault
import Conformance.Program.Entity
import Conformance.Report
import Conformance.Verdict.Backlog

/-!
# Inquiries

What the legality rules of a construct ask and find, apart from how verdicts are kept.
An `Inquiry` is a tree of steps: it consults entities, asks for verdicts, reports
findings and postpones work, and its answers decide how it goes on.  The body of a unit
is an inquiry of its own within another one.

Inquiries form a monad, `LawfulMonad Inquiry`: `bind` goes on with a second inquiry
where the first one is done.
-/

namespace Conformance

/-- The part that a node plays when an inquiry comes to it. -/
inductive Role where
  | expression
  /-- A choice, which may name a type. -/
  | choice
  /-- What an attribute is taken of, which may name a type. -/
  | whole
  /-- A declaration, a body or a statement. -/
  | item
  deriving DecidableEq

/-- What the rules of a construct ask and find, ending with an `α`. -/
inductive Inquiry : Type → Type 1 where
  | done {α : Type} (value : α) : Inquiry α
  | fail {α : Type} (fault : Fault) : Inquiry α
  /-- Comes to a node. -/
  | visit {α : Type} (role : Role) (node : Node) (next : Inquiry α) : Inquiry α
  /-- Decides an entity and rests on its verdict: is it in the subset? -/
  | consult {α : Type} (id : EntityId) (site : Site) (next : Bool → Inquiry α) : Inquiry α
  /-- Decides an entity that is declared here, and rests on its verdict unless it is
  excluded on purpose. -/
  | declare {α : Type} (id : EntityId) (site : Site) (next : Inquiry α) : Inquiry α
  /-- Decides an entity without resting on its verdict. -/
  | decide {α : Type} (id : EntityId) (next : Inquiry α) : Inquiry α
  /-- Is an entity in the subset, as far as decided? -/
  | isAdmitted {α : Type} (id : EntityId) (next : Bool → Inquiry α) : Inquiry α
  /-- Has the decision of an entity begun? -/
  | isExamined {α : Type} (id : EntityId) (next : Bool → Inquiry α) : Inquiry α
  /-- Finds something at a site. -/
  | find {α : Type} (site : Site) (finding : Finding) (next : Inquiry α) : Inquiry α
  /-- Notes that the full view of a private type is not analysed. -/
  | hideView {α : Type} (id : EntityId) (next : Inquiry α) : Inquiry α
  /-- Postpones the completion of an access type. -/
  | postponeCompletion {α : Type} (access : EntityId) (next : Inquiry α) : Inquiry α
  /-- Postpones the aspects of a type. -/
  | postponeAspects {α : Type} (type : EntityId) (next : Inquiry α) : Inquiry α
  /-- Notes that values of a type may be partially initialised. -/
  | relax {α : Type} (type : EntityId) (next : Inquiry α) : Inquiry α
  /-- Notes that an entity is declared inside a loop. -/
  | placeInLoop {α : Type} (id : EntityId) (loop : NodeId) (next : Inquiry α) : Inquiry α
  /-- Decides the body of an entity by an inquiry of its own. -/
  | body {α : Type} (entity : Entity) (mode : Option Mode) (inner : Inquiry Unit)
      (next : Inquiry α) : Inquiry α

namespace Inquiry

/-- The inquiry that goes on with `f` where `i` is done. -/
def bind {α β : Type} (i : Inquiry α) (f : α → Inquiry β) : Inquiry β :=
  match i with
  | .done value => f value
  | .fail fault => .fail fault
  | .visit role node next => .visit role node (next.bind f)
  | .consult id site next => .consult id site fun b => (next b).bind f
  | .declare id site next => .declare id site (next.bind f)
  | .decide id next => .decide id (next.bind f)
  | .isAdmitted id next => .isAdmitted id fun b => (next b).bind f
  | .isExamined id next => .isExamined id fun b => (next b).bind f
  | .find site finding next => .find site finding (next.bind f)
  | .hideView id next => .hideView id (next.bind f)
  | .postponeCompletion access next => .postponeCompletion access (next.bind f)
  | .postponeAspects type next => .postponeAspects type (next.bind f)
  | .relax type next => .relax type (next.bind f)
  | .placeInLoop id loop next => .placeInLoop id loop (next.bind f)
  | .body entity mode inner next => .body entity mode inner (next.bind f)

instance : Monad Inquiry where
  pure := .done
  bind := .bind

theorem bind_done {α : Type} (i : Inquiry α) :
  i.bind .done = i
  := by
  induction i with
  | done => rfl
  | fail => rfl
  | consult _ _ _ ih | isAdmitted _ _ ih | isExamined _ _ ih =>
    simp only [bind, funext fun b => ih b]
  | _ => simp only [bind, *]

theorem bind_assoc {α β γ : Type} (i : Inquiry α) (f : α → Inquiry β) (g : β → Inquiry γ) :
  (i.bind f).bind g = i.bind fun a => (f a).bind g
  := by
  induction i with
  | done => rfl
  | fail => rfl
  | consult _ _ _ ih | isAdmitted _ _ ih | isExamined _ _ ih =>
    simp only [bind, funext fun b => ih b f]
  | _ => simp only [bind, *]

instance : LawfulMonad Inquiry :=
  .mk' Inquiry bind_done (fun _ _ => rfl) bind_assoc

/-- The inquiry that an answer about the program decides. -/
def ofAnswer {α : Type} : Answer α → Inquiry α
  | .ok value => .done value
  | .error fault => .fail fault

instance : MonadLift Answer Inquiry := ⟨ofAnswer⟩

instance : MonadExceptOf Fault Inquiry where
  throw := .fail
  tryCatch i _ := i

/-- Whether an entity is in the subset, resting on the answer. -/
def ask (id : EntityId) (site : Site) : Inquiry Bool := .consult id site .done

/-- Rests on the verdict of an entity. -/
def restOn (id : EntityId) (site : Site) : Inquiry Unit :=
  .consult id site fun _ => .done ()

/-- Rests on the verdicts of entities, one after another. -/
def restOnAll (ids : List EntityId) (site : Site) : Inquiry Unit :=
  ids.forM fun id => restOn id site

/-- Whether an entity is in the subset as far as decided, not resting on the answer. -/
def stands (id : EntityId) : Inquiry Bool := .isAdmitted id .done

/-- Comes to a node. -/
def come (role : Role) (node : Node) : Inquiry Unit := .visit role node (.done ())

/-- Finds a violation. -/
def violation (site : Site) (v : Violation) : Inquiry Unit :=
  .find site (.violation v) (.done ())

/-- Finds a construct that is not handled. -/
def unsupported (site : Site) (feature : Unsupported) : Inquiry Unit :=
  .find site (.unsupported feature) (.done ())

/-- Finds a reason to warn. -/
def warning (site : Site) (w : Warning) : Inquiry Unit :=
  .find site (.warning w) (.done ())

end Inquiry

end Conformance
