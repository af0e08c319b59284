import Conformance.Run.Service

/-!
# Runs over a program

A run goes through the compilation units in order and serves what was postponed after
each of them; in the end it closes the order of declarations.  What a context clause
finds never reaches the unit.
-/

namespace Conformance

namespace Act

/-- Closes the order of declarations. -/
def close : Act Unit := .rule fun v => { v with roster := v.roster.close }

end Act

namespace Setting

variable (S : Setting)

/-- Carries out an inquiry where no verdict depends on it. -/
def walkOutside {α : Type} (inquiry : Inquiry α) : Act α := S.walk S.decide {} inquiry

/-- The inquiry into an item of a context clause. -/
def contextItem (n : Node) : Inquiry Unit :=
  match n.shape with
  | .withClause unit => .decide unit (.done ())
  | .useClause => return
  | .pragma name arguments => S.pragma n.site name arguments
  | _ => throw (.contract (.notAContextItem n.id))

/-- Goes through a compilation unit. -/
def unit (n : Node) : Act Unit :=
  match n.shape with
  | .compilationUnit context unit => do
    context.forM fun item => .afresh (S.walkOutside (S.contextItem item))
    S.walkOutside (S.item {} unit)
  | _ => S.walkOutside (S.item {} n)

/-- Goes through the whole program. -/
def wholeProgram : Act Unit := do
  S.program.units.forM fun u => do
    S.unit u
    S.drain
  .close

end Setting

end Conformance
