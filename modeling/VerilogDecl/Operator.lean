/-
**Operators.**

The operators of expressions, of assignments and of selects, with their spellings.  Two different
assignment operators may share a spelling: the non-blocking one and the compound of `<` are both
written `<=`.

Main definitions:

* `VerilogDecl.BinaryOp`, `VerilogDecl.AssignOp`, `VerilogDecl.SelectMode`, `VerilogDecl.StreamOp`,
  each with its `text`.
-/

set_option relaxedAutoImplicit false
set_option autoImplicit false

namespace VerilogDecl

/-- An operator between two expressions. -/
inductive BinaryOp where
  | add | sub | mul | div | mod
  | bitAnd | bitOr | bitXor
  | shl | shr | ashl | ashr
  | eq | ne | lt | le | gt | ge
  | logAnd | logOr
deriving DecidableEq, Repr

/-- The spelling of a binary operator. -/
def BinaryOp.text : BinaryOp → String
  | .add => "+"
  | .sub => "-"
  | .mul => "*"
  | .div => "/"
  | .mod => "%"
  | .bitAnd => "&"
  | .bitOr => "|"
  | .bitXor => "^"
  | .shl => "<<"
  | .shr => ">>"
  | .ashl => "<<<"
  | .ashr => ">>>"
  | .eq => "=="
  | .ne => "!="
  | .lt => "<"
  | .le => "<="
  | .gt => ">"
  | .ge => ">="
  | .logAnd => "&&"
  | .logOr => "||"

/-- No two binary operators share a spelling. -/
theorem BinaryOp.text_injective {a b : BinaryOp} (h : a.text = b.text) : a = b := by
  revert h
  cases a <;> cases b <;> decide

/-- An assignment operator. -/
inductive AssignOp where
  /-- The blocking assignment, the only one that may initialize a declaration. -/
  | eq
  /-- The non-blocking assignment. -/
  | nonBlocking
  /-- An assignment that combines the old value with the new one. -/
  | compound (op : BinaryOp)
deriving DecidableEq, Repr

/-- The spelling of an assignment operator. -/
def AssignOp.text : AssignOp → String
  | .eq => "="
  | .nonBlocking => "<="
  | .compound op => op.text ++ "="

/-- How the two bounds of a range are meant: as its ends, or as a base and a width that goes up or
down from there. -/
inductive SelectMode where
  | nonIndexed | indexedPlus | indexedMinus
deriving DecidableEq, Repr

/-- The sign between the two bounds of a range. -/
def SelectMode.text : SelectMode → String
  | .nonIndexed => ":"
  | .indexedPlus => "+:"
  | .indexedMinus => "-:"

/-- The side from which a stream is packed. -/
inductive StreamOp where
  | left | right
deriving DecidableEq, Repr

/-- The spelling of a stream operator. -/
def StreamOp.text : StreamOp → String
  | .left => "<<"
  | .right => ">>"

end VerilogDecl
