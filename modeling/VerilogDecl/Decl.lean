/-
**Declarations.**

A declaration introduces one variable, or is a comment among declarations.  Several declarations
may come from one group of names that share direction and type.

Main definitions:

* `VerilogDecl.Direction`, `VerilogDecl.Lifetime` — the words in front of the type;
* `VerilogDecl.Variable`, `VerilogDecl.Decl` — declared variables, and declarations with comments;
* `VerilogDecl.Decl.text` — the text of a declaration, with its semicolon;
* `VerilogDecl.Decl.declared?` — the variable that a declaration introduces.
-/

import VerilogDecl.DataType

set_option relaxedAutoImplicit false
set_option autoImplicit false

namespace VerilogDecl

/-- The direction of a port. -/
inductive Direction where
  /-- No direction: the variable is no port, or its direction comes from a port before it. -/
  | unspecified
  | input | output | inout | ref
deriving DecidableEq, Repr

/-- The keyword of a direction. -/
def Direction.text : Direction → String
  | .unspecified => ""
  | .input => "input"
  | .output => "output"
  | .inout => "inout"
  | .ref => "ref"

/-- How long a variable lives. -/
inductive Lifetime where
  | static | automatic
deriving DecidableEq, Repr

/-- The keyword of a lifetime. -/
def Lifetime.text : Lifetime → String
  | .static => "static"
  | .automatic => "automatic"

/-- A declared variable. -/
@[ext] structure Variable where
  /-- The direction. -/
  dir : Direction
  /-- The type, with the packed dimensions. -/
  type : DataType
  /-- The name. -/
  name : String
  /-- The unpacked dimensions. -/
  ranges : List Range
  /-- The initial value, if there is one. -/
  init : Option Expr

/-- A declaration of one variable, or a comment among declarations. -/
inductive Decl where
  | var (v : Variable)
  | comment (text : String)

namespace Text

/-- A name with its unpacked dimensions. -/
def dimensioned (name : String) (ranges : List Range) : String :=
  words [name, Range.texts ranges]

/-- A comment to the end of the line. -/
def lineComment (s : String) : String :=
  "// " ++ s

end Text

/-- The text of the declaration of a variable. -/
def Variable.text (v : Variable) : String :=
  Text.words [v.dir.text, v.type.text, Text.dimensioned v.name v.ranges] ++
    (v.init.map fun e => " = " ++ e.text).getD "" ++ ";"

namespace Decl

/-- The text of a declaration. -/
def text : Decl → String
  | var v => v.text
  | comment s => Text.lineComment s

/-- The variable that a declaration introduces. -/
def declared? : Decl → Option Variable
  | var v => some v
  | comment _ => none

@[simp] theorem declared?_var (v : Variable) : (var v).declared? = some v := rfl

@[simp] theorem declared?_comment (s : String) : (comment s).declared? = none := rfl

end Decl

end VerilogDecl
