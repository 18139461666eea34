/-
**Expressions.**

Expressions arrive parsed; this library stores them, counts the elements of an initializer and
writes them back as text.  Precedence is not tracked: an operand of a binary operator is put in
parentheses exactly if it is itself a binary expression.

Main definitions:

* `VerilogDecl.Binding` — a value under a name, as in arguments, ports and parameters;
* `VerilogDecl.Expr`, `VerilogDecl.Expr.text` — expressions and their text;
* `VerilogDecl.Range`, `VerilogDecl.Args` — bounds of a dimension, arguments of a call;
* `VerilogDecl.Expr.elementCount?` — the number of elements of an array initializer.

Main results:

* `VerilogDecl.Expr.texts_eq_map`, `VerilogDecl.Expr.patternTexts_eq_map`,
  `VerilogDecl.Expr.keywordTexts_eq_map` — the texts of a list are those of its members.
-/

import VerilogDecl.Operator
import VerilogDecl.Text.Quoted
import VerilogDecl.Text.Words

set_option relaxedAutoImplicit false
set_option autoImplicit false

namespace VerilogDecl

/-- A value under a name.  Where a list of bindings mixes both, the empty name marks a value that is
given by its place. -/
structure Binding (α : Type) where
  /-- The name, empty if the value is given by its place. -/
  name : String
  /-- The value. -/
  value : α
deriving DecidableEq, Repr

/-- An element of an assignment pattern, with a key or without. -/
structure PatternItem (α : Type) where
  /-- The key, if the element has one. -/
  key : Option String
  /-- The value. -/
  value : α
deriving DecidableEq, Repr

/-- An expression. -/
inductive Expr where
  /-- The expression that is not there. -/
  | nil
  | ident (name : String)
  /-- A name from a package. -/
  | scopedIdent (scope name : String)
  /-- A number, kept as it was written. -/
  | number (text : String)
  /-- A string, given by its value. -/
  | str (value : String)
  /-- An assignment pattern. -/
  | pattern (items : List (PatternItem Expr))
  | concat (items : List Expr)
  | stream (op : StreamOp) (size : Expr) (items : List Expr)
  | call (callee : Expr) (positional : List Expr) (keyword : List (Binding Expr))
  | bit (base index : Expr)
  | partSelect (base : Expr) (mode : SelectMode) (left right : Expr)
  | dot (base : Expr) (name : String)
  | binary (op : BinaryOp) (left right : Expr)
deriving Repr

namespace Expr

/-- Is this the expression that is not there? -/
def isNil : Expr → Bool
  | nil => true
  | _ => false

/-- Is this an operator with its two operands? -/
def isBinary : Expr → Bool
  | binary .. => true
  | _ => false

/-- The number of elements of an expression that initializes an array element by element. -/
def elementCount? : Expr → Option Nat
  | pattern items => some items.length
  | concat items => some items.length
  | _ => none

end Expr

/-! ### Pieces of text that expressions and targets share -/

namespace Text

/-- A value given by name. -/
def named (name value : String) : String :=
  "." ++ name ++ "(" ++ value ++ ")"

/-- A value given by name, or by its place if the name is empty. -/
def connection (name value : String) : String :=
  if name = "" then value else named name value

/-- An element of a pattern, behind its key if there is one. -/
def keyed : Option String → String → String
  | none, value => value
  | some key, value => key ++ ": " ++ value

/-- Members in braces. -/
def braced (items : List String) : String :=
  "\x7b" ++ commaList items ++ "\x7d"

/-- A stream of members; the slice size is left out if it is missing. -/
def stream (op : StreamOp) (unsized : Bool) (size : String) (items : List String) : String :=
  "\x7b" ++ op.text ++ (if unsized then "" else " " ++ size) ++ " " ++ braced items ++ "\x7d"

/-- An index in brackets. -/
def index (e : String) : String :=
  "[" ++ e ++ "]"

/-- Two bounds in brackets. -/
def range (mode : SelectMode) (left right : String) : String :=
  index (left ++ mode.text ++ right)

end Text

/-! ### The text of an expression -/

mutual

/-- The text of an expression. -/
def Expr.text : Expr → String
  | .nil => ""
  | .ident name => name
  | .scopedIdent scope name => scope ++ "::" ++ name
  | .number text => text
  | .str value => Text.quoted value
  | .pattern items => "'" ++ Text.braced (Expr.patternTexts items)
  | .concat items => Text.braced (Expr.texts items)
  | .stream op size items => Text.stream op size.isNil size.text (Expr.texts items)
  | .call callee positional keyword =>
      callee.text ++ "(" ++
        Text.commaList (Expr.texts positional ++ Expr.keywordTexts keyword) ++ ")"
  | .bit base index => base.text ++ Text.index index.text
  | .partSelect base mode left right => base.text ++ Text.range mode left.text right.text
  | .dot base name => base.text ++ "." ++ name
  | .binary op left right =>
      Text.parenthesizedIf left.isBinary left.text ++ " " ++ op.text ++ " " ++
        Text.parenthesizedIf right.isBinary right.text

/-- The texts of the expressions of a list. -/
def Expr.texts : List Expr → List String
  | [] => []
  | e :: es => e.text :: Expr.texts es

/-- The texts of the elements of a pattern. -/
def Expr.patternTexts : List (PatternItem Expr) → List String
  | [] => []
  | ⟨key, value⟩ :: items => Text.keyed key value.text :: Expr.patternTexts items

/-- The texts of the keyword arguments of a call. -/
def Expr.keywordTexts : List (Binding Expr) → List String
  | [] => []
  | ⟨name, value⟩ :: bindings => Text.named name value.text :: Expr.keywordTexts bindings

end

namespace Expr

@[simp] theorem texts_eq_map (es : List Expr) : texts es = es.map text := by
  induction es with
  | nil => rfl
  | cons e es ih => simp [texts, ih]

@[simp] theorem patternTexts_eq_map (items : List (PatternItem Expr)) :
    patternTexts items = items.map fun i => Text.keyed i.key i.value.text := by
  induction items with
  | nil => rfl
  | cons i items ih => simp [patternTexts, ih]

@[simp] theorem keywordTexts_eq_map (bindings : List (Binding Expr)) :
    keywordTexts bindings = bindings.map fun b => Text.named b.name b.value.text := by
  induction bindings with
  | nil => rfl
  | cons b bindings ih => simp [keywordTexts, ih]

end Expr

/-! ### Bounds of a dimension -/

/-- The two bounds of a dimension or of a part select. -/
structure Range where
  /-- The left bound. -/
  left : Expr
  /-- The right bound. -/
  right : Expr
deriving Repr

namespace Range

/-- The text of a range whose bounds are meant as `mode` says. -/
def textWith (mode : SelectMode) (r : Range) : String :=
  Text.range mode r.left.text r.right.text

/-- The text of a range whose bounds are its ends. -/
def text (r : Range) : String :=
  r.textWith .nonIndexed

/-- The text of a run of dimensions. -/
def texts (rs : List Range) : String :=
  String.join (rs.map text)

/-- The bounds that an initializer of `n` elements gives to an unsized dimension: from `0` to
`n - 1`. -/
def ofCount (n : Nat) : Range :=
  ⟨.number "0", .number (toString ((n : Int) - 1))⟩

@[simp] theorem texts_nil : texts [] = "" := rfl

end Range

/-! ### Arguments of a call -/

/-- The arguments of a call: those given by place, then those given by name. -/
structure Args where
  /-- The arguments given by place. -/
  positional : List Expr
  /-- The arguments given by name. -/
  keyword : List (Binding Expr)
deriving Repr

namespace Args

/-- The call without arguments. -/
def empty : Args :=
  ⟨[], []⟩

/-- The arguments of a call, joined by commas. -/
def text (a : Args) : String :=
  Text.commaList (a.positional.map Expr.text ++
    a.keyword.map fun b => Text.named b.name b.value.text)

/-- The bindings with an empty name are given by place, the others by name. -/
def ofBindings (bs : List (Binding Expr)) : Args :=
  ⟨(bs.filter (·.name = "")).map (·.value), bs.filter (·.name ≠ "")⟩

@[simp] theorem ofBindings_nil : ofBindings [] = empty := rfl

end Args

/-- A call is written with its arguments between parentheses. -/
theorem Expr.text_call (callee : Expr) (a : Args) :
    (Expr.call callee a.positional a.keyword).text = callee.text ++ "(" ++ a.text ++ ")" := by
  simp [Expr.text, Args.text]

end VerilogDecl
