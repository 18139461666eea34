/-
**Reports and diagnostics.**

A report is what a caller sees of a fault: its class, its message, a place and the tokens that show
it.  A diagnostic is the form in which a host program displays a report: with a code and, for some
classes, a hint.

Main definitions:

* `VerilogDecl.Report`, `VerilogDecl.Report.of` — reports; the place defaults to the first token;
* `VerilogDecl.Fault.report` — the report of a fault;
* `VerilogDecl.Diagnostic`, `VerilogDecl.Report.diagnostic` — diagnostics.
-/

import VerilogDecl.Fault

set_option relaxedAutoImplicit false
set_option autoImplicit false

namespace VerilogDecl

/-- What a caller sees of a fault. -/
structure Report where
  /-- The class of the fault. -/
  kind : FaultKind
  /-- What is wrong. -/
  message : String
  /-- Where it is wrong. -/
  pos : Option Position
  /-- The tokens that show it. -/
  tokens : List Token

/-- The weight of a diagnostic. -/
inductive Severity where
  | error | warning | note | help
deriving DecidableEq, Repr

/-- The form in which a host program displays a report. -/
structure Diagnostic where
  /-- The weight. -/
  severity : Severity
  /-- What is wrong. -/
  message : String
  /-- The code of the class of the fault. -/
  code : String
  /-- The stretch of the source to mark. -/
  span : Option Span
  /-- Advice. -/
  hint : Option String

namespace FaultKind

/-- The code of a class of faults. -/
def code : FaultKind → String
  | shape => "D0001"
  | operator => "D0002"
  | arity => "D0003"
  | qualifier => "D0004"
  | target => "D0005"

/-- Advice on a class of faults. -/
def hint? : FaultKind → Option String
  | operator => some "only `=` without a timing control may initialize a declaration"
  | qualifier => some "declarations accept only the `automatic` lifetime"
  | shape | arity | target => none

end FaultKind

namespace Report

/-- A report; without a place of its own it is at the first token that shows the fault. -/
def of (kind : FaultKind) (message : String) (pos : Option Position) (tokens : List Token) :
    Report :=
  ⟨kind, message, pos <|> tokens.head?.map (·.pos), tokens⟩

/-- The diagnostic of a report, always an error. -/
def diagnostic (r : Report) : Diagnostic where
  severity := .error
  message := r.message
  code := r.kind.code
  span := r.pos.map (·.span)
  hint := r.kind.hint?

end Report

/-- The report of a fault. -/
def Fault.report (f : Fault) : Report :=
  .of f.kind f.message f.pos? f.tokens

end VerilogDecl
