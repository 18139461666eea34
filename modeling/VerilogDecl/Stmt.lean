/-
**Statements.**

The statements that begin like a declaration: assignments and calls of subroutines.

Main definitions:

* `VerilogDecl.Stmt`, `VerilogDecl.Stmt.text` — statements and their text, with the semicolon.
-/

import VerilogDecl.Assign
import VerilogDecl.Decl
import VerilogDecl.Target

set_option relaxedAutoImplicit false
set_option autoImplicit false

namespace VerilogDecl

/-- An assignment, a call, or a comment among statements. -/
inductive Stmt where
  | assign (target : Target) (assign : Assign)
  | call (callee : Expr) (args : Args)
  | comment (text : String)

/-- The text of a statement. -/
def Stmt.text : Stmt → String
  | assign t a => t.text ++ " " ++ a.text ++ ";"
  | call f a => f.text ++ "(" ++ a.text ++ ");"
  | comment s => Text.lineComment s

end VerilogDecl
