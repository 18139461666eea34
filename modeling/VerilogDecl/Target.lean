/-
**Assignment targets.**

A target is a name, a concatenation or a stream of targets, under any number of selects and member
accesses.  Every target is also an expression with the same text.

Main definitions:

* `VerilogDecl.Target`, `VerilogDecl.Target.text` — targets and their text;
* `VerilogDecl.Target.toExpr` — a target as an expression.

Main results:

* `VerilogDecl.Target.texts_eq_map`, `VerilogDecl.Target.toExprs_eq_map` — lists of targets are
  treated member by member.
-/

import VerilogDecl.Expr

set_option relaxedAutoImplicit false
set_option autoImplicit false

namespace VerilogDecl

/-- What an assignment assigns to. -/
inductive Target where
  | ident (name : String)
  | bit (base : Target) (index : Expr)
  | partSelect (base : Target) (mode : SelectMode) (range : Range)
  | dot (base : Target) (name : String)
  | concat (items : List Target)
  | stream (op : StreamOp) (size : Expr) (items : List Target)
deriving Repr

mutual

/-- The text of a target. -/
def Target.text : Target → String
  | .ident name => name
  | .bit base index => base.text ++ Text.index index.text
  | .partSelect base mode range => base.text ++ range.textWith mode
  | .dot base name => base.text ++ "." ++ name
  | .concat items => Text.braced (Target.texts items)
  | .stream op size items => Text.stream op size.isNil size.text (Target.texts items)

/-- The texts of the targets of a list. -/
def Target.texts : List Target → List String
  | [] => []
  | t :: ts => t.text :: Target.texts ts

end

mutual

/-- A target as an expression. -/
def Target.toExpr : Target → Expr
  | .ident name => .ident name
  | .bit base index => .bit base.toExpr index
  | .partSelect base mode range => .partSelect base.toExpr mode range.left range.right
  | .dot base name => .dot base.toExpr name
  | .concat items => .concat (Target.toExprs items)
  | .stream op size items => .stream op size (Target.toExprs items)

/-- The targets of a list as expressions. -/
def Target.toExprs : List Target → List Expr
  | [] => []
  | t :: ts => t.toExpr :: Target.toExprs ts

end

namespace Target

@[simp] theorem texts_eq_map (ts : List Target) : texts ts = ts.map text := by
  induction ts with
  | nil => rfl
  | cons t ts ih => simp [texts, ih]

@[simp] theorem toExprs_eq_map (ts : List Target) : toExprs ts = ts.map toExpr := by
  induction ts with
  | nil => rfl
  | cons t ts ih => simp [toExprs, ih]

end Target

end VerilogDecl
