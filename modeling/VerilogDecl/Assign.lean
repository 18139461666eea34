/-
**Assignments.**

What stands to the right of a target: an operator, an optional timing control and an expression.
An assignment is *plain* if its operator is `=` and it has no timing control; only a plain one may
initialize a declaration.

Main definitions:

* `VerilogDecl.Timing` — a delay, an event or a number of cycles to wait for;
* `VerilogDecl.Assign`, `VerilogDecl.Assign.text` — an assignment without its target, and its text;
* `VerilogDecl.Assign.isPlain` — may it initialize a declaration?
-/

import VerilogDecl.Expr

set_option relaxedAutoImplicit false
set_option autoImplicit false

namespace VerilogDecl

/-- What an assignment waits for before it takes effect. -/
inductive Timing where
  | delay (expr : Expr)
  | event (expr : Expr)
  | cycle (expr : Expr)
deriving Repr

/-- The text of a timing control. -/
def Timing.text : Timing → String
  | delay e => "#" ++ e.text
  | event e => "@(" ++ e.text ++ ")"
  | cycle e => "##" ++ e.text

/-- An assignment without its target. -/
structure Assign where
  /-- The operator. -/
  op : AssignOp
  /-- The timing control, if there is one. -/
  timing : Option Timing
  /-- The assigned expression. -/
  expr : Expr
deriving Repr

namespace Assign

/-- The assignment of an expression by `=`, without a timing control. -/
def plain (e : Expr) : Assign :=
  ⟨.eq, none, e⟩

/-- Is the operator `=` and is there no timing control? -/
def isPlain (a : Assign) : Bool :=
  a.op = .eq && a.timing.isNone

/-- Operator, timing control and expression, with blanks between them. -/
def text (a : Assign) : String :=
  a.op.text ++ " " ++ ((a.timing.map fun t => t.text ++ " ").getD "" ++ a.expr.text)

@[simp] theorem isPlain_plain (e : Expr) : (plain e).isPlain = true := rfl

/-- A plain assignment is known by its expression. -/
theorem isPlain_iff {a : Assign} : a.isPlain = true ↔ a = plain a.expr := by
  obtain ⟨op, timing, e⟩ := a
  simp [isPlain, plain]

end Assign

end VerilogDecl
