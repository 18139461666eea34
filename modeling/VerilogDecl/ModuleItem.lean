/-
**Items of a module body.**

A module body holds declarations and instances of other modules.  An instance binds parameters,
to types or to expressions, and ports, to expressions; each binding is by name or by place.

Main definitions:

* `VerilogDecl.ParamValue` — what a parameter is bound to;
* `VerilogDecl.Instance`, `VerilogDecl.ModuleItem` — instances, and items of a module body;
* `VerilogDecl.ModuleItem.text` — the text of an item, with its semicolon.
-/

import VerilogDecl.Decl

set_option relaxedAutoImplicit false
set_option autoImplicit false

namespace VerilogDecl

/-- What a parameter is bound to. -/
inductive ParamValue where
  | type (type : DataType)
  | expr (expr : Expr)

/-- The text of the value of a parameter. -/
def ParamValue.text : ParamValue → String
  | type t => t.text
  | expr e => e.text

namespace Text

/-- The text of a list of port bindings. -/
def ports (bs : List (Binding Expr)) : String :=
  commaList (bs.map fun b => connection b.name b.value.text)

/-- The text of a list of parameter bindings. -/
def params (bs : List (Binding ParamValue)) : String :=
  commaList (bs.map fun b => connection b.name b.value.text)

end Text

/-- An instance of a module. -/
structure Instance where
  /-- The module. -/
  moduleName : String
  /-- The parameters. -/
  params : List (Binding ParamValue)
  /-- The name of the instance. -/
  name : String
  /-- The dimensions of an array of instances. -/
  ranges : List Range
  /-- The ports. -/
  ports : List (Binding Expr)

/-- The text of an instance; an empty list of parameters is left out. -/
def Instance.text (i : Instance) : String :=
  i.moduleName ++ (if i.params.isEmpty then "" else " #(" ++ Text.params i.params ++ ")") ++
    " " ++ Text.dimensioned i.name i.ranges ++ " (" ++ Text.ports i.ports ++ ");"

/-- An item of a module body. -/
inductive ModuleItem where
  | decl (decl : Decl)
  | inst (inst : Instance)

/-- The text of an item. -/
def ModuleItem.text : ModuleItem → String
  | decl d => d.text
  | inst i => i.text

end VerilogDecl
