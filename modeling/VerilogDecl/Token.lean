/-
**Tokens.**

Where a declaration may stand, the grammar in front of this library hands over a flat list of
tokens.  Lists in parentheses arrive parsed, inside one token.  A token is a lexeme and the place
it was read from; what is read depends on the lexemes alone.

Main definitions:

* `VerilogDecl.Lexeme`, `VerilogDecl.Token` — the shapes of tokens, and tokens;
* `VerilogDecl.Lexeme.text`, `VerilogDecl.Token.listText` — texts as they appear in messages;
* `VerilogDecl.Token.beforeComma` — the tokens before the first comma;
* `VerilogDecl.Token.segments` — the stretches between commas.

Main results:

* `VerilogDecl.Token.segments_ne_nil` — there is always a segment, maybe an empty one.
-/

import VerilogDecl.ModuleItem
import VerilogDecl.Position
import VerilogDecl.Stmt

set_option relaxedAutoImplicit false
set_option autoImplicit false

namespace VerilogDecl

/-- The shape of a token. -/
inductive Lexeme where
  | comma
  /-- The brackets of a dimension without bounds. -/
  | unsized
  | assign (assign : Assign)
  | range (mode : SelectMode) (range : Range)
  | ident (name : String)
  /-- A name from a package. -/
  | scopedIdent (scope name : String)
  | direction (dir : Direction)
  | typeBase (base : TypeBase)
  /-- The parameters of an instance. -/
  | params (bindings : List (Binding ParamValue))
  /-- The ports of an instance, or the arguments of a call. -/
  | ports (bindings : List (Binding Expr))
  | index (expr : Expr)
  | concat (items : List Target)
  | stream (op : StreamOp) (size : Expr) (items : List Target)
  /-- A member access, or the modport of an interface. -/
  | member (name : String)
  | signing (signing : Signing)
  | lifetime (lifetime : Lifetime)

namespace Lexeme

/-- Is this a comma? -/
def isSeparator : Lexeme → Bool
  | comma => true
  | _ => false

/-- Is this a name? -/
def isName : Lexeme → Bool
  | ident _ => true
  | _ => false

/-- Is this an assignment? -/
def isAssign : Lexeme → Bool
  | assign _ => true
  | _ => false

/-- Is this an assignment that may not initialize a declaration? -/
def isImproperAssign : Lexeme → Bool
  | assign a => !a.isPlain
  | _ => false

/-- Is this a list of ports? -/
def isPorts : Lexeme → Bool
  | ports _ => true
  | _ => false

/-- The text of a lexeme. -/
def text : Lexeme → String
  | comma => ","
  | unsized => "[]"
  | assign a => a.text
  | range mode r => r.textWith mode
  | ident name => name
  | scopedIdent scope name => scope ++ "::" ++ name
  | direction d => d.text
  | typeBase b => b.name
  | params bs => "#(" ++ Text.params bs ++ ")"
  | ports bs => "(" ++ Text.ports bs ++ ")"
  | index e => Text.index e.text
  | concat items => Text.braced (items.map Target.text)
  | stream op size items => Text.stream op size.isNil size.text (items.map Target.text)
  | member name => "." ++ name
  | signing s => s.text
  | lifetime l => l.text

end Lexeme

/-- A lexeme and the place it was read from. -/
structure Token where
  /-- The lexeme. -/
  lexeme : Lexeme
  /-- The place. -/
  pos : Position

namespace Token

/-- Is this token a comma? -/
def isSeparator (t : Token) : Bool :=
  t.lexeme.isSeparator

/-- Is this token an assignment? -/
def isAssign (t : Token) : Bool :=
  t.lexeme.isAssign

/-- The text of a token. -/
def text (t : Token) : String :=
  t.lexeme.text

/-- The texts of tokens, one blank between neighbours. -/
def listText (ts : List Token) : String :=
  " ".intercalate (ts.map text)

/-- The tokens before the first comma. -/
def beforeComma (ts : List Token) : List Token :=
  ts.takeWhile (!·.isSeparator)

/-- The stretches between commas.  There is one more of them than there are commas. -/
def segments (ts : List Token) : List (List Token) :=
  ts.splitOnP isSeparator

@[simp] theorem beforeComma_nil : beforeComma [] = [] := rfl

@[simp] theorem segments_nil : segments [] = [[]] := rfl

theorem segments_ne_nil (ts : List Token) : segments ts ≠ [] :=
  List.splitOnP_ne_nil isSeparator ts

end Token

end VerilogDecl
