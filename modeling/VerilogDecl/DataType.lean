/-
**Data types of declarations.**

A data type is a base type with a signing and packed dimensions.  The base type comes first in the
source; whether the signing and the dimensions behind it fit is settled when the three are put
together.  A type that cannot carry a signing has none, and the type says so.

Main definitions:

* `VerilogDecl.Signing`, `VerilogDecl.TypeBase` — signings and base types;
* `VerilogDecl.DataType` — a base type with a signing that it may carry, and packed dimensions;
* `VerilogDecl.TypeBase.resolve` — puts the three together, or refuses the signing;
* `VerilogDecl.DataType.text` — the text of a type in a declaration.

Main results:

* `VerilogDecl.TypeBase.resolve_of_fits`, `VerilogDecl.TypeBase.resolve_of_not_fits` — a signing is
  refused exactly if it is given and the base type cannot carry one.
-/

import VerilogDecl.Expr

set_option relaxedAutoImplicit false
set_option autoImplicit false

namespace VerilogDecl

/-- Whether the values of a type are signed. -/
inductive Signing where
  /-- Nothing is said about it. -/
  | unspecified
  | signed
  | unsigned
deriving DecidableEq, Repr

/-- The keyword of a signing. -/
def Signing.text : Signing → String
  | .unspecified => ""
  | .signed => "signed"
  | .unsigned => "unsigned"

/-! ### Base types -/

/-- An integral type of single bits. -/
inductive VectorKeyword where
  | logic | reg | bit
deriving DecidableEq, Repr

/-- An integral type of fixed width. -/
inductive AtomKeyword where
  | byte | shortint | int | longint | integer | time
deriving DecidableEq, Repr

/-- A type with a keyword that is not integral. -/
inductive NonIntegerKeyword where
  | real | realtime | shortreal | string | event | chandle
deriving DecidableEq, Repr

/-- The keyword itself. -/
def VectorKeyword.text : VectorKeyword → String
  | .logic => "logic"
  | .reg => "reg"
  | .bit => "bit"

/-- The keyword itself. -/
def AtomKeyword.text : AtomKeyword → String
  | .byte => "byte"
  | .shortint => "shortint"
  | .int => "int"
  | .longint => "longint"
  | .integer => "integer"
  | .time => "time"

/-- The keyword itself. -/
def NonIntegerKeyword.text : NonIntegerKeyword → String
  | .real => "real"
  | .realtime => "realtime"
  | .shortreal => "shortreal"
  | .string => "string"
  | .event => "event"
  | .chandle => "chandle"

/-- A type before its signing and its dimensions are known. -/
inductive TypeBase where
  | vector (keyword : VectorKeyword)
  | atom (keyword : AtomKeyword)
  | nonInteger (keyword : NonIntegerKeyword)
  /-- The type of a declaration that names none. -/
  | implicit
  /-- A named type. -/
  | typedef (name : String)
  /-- A named type from a package. -/
  | scopedTypedef (scope name : String)
  /-- An interface, seen through one of its modports. -/
  | interface (name modport : String)
deriving DecidableEq, Repr

namespace TypeBase

/-- Can a type with this base carry a signing? -/
def admitsSigning : TypeBase → Bool
  | vector _ | atom _ | implicit => true
  | nonInteger _ | typedef _ | scopedTypedef .. | interface .. => false

/-- The name of a base type in messages, where the implicit one has a name too. -/
def name : TypeBase → String
  | vector k => k.text
  | atom k => k.text
  | nonInteger k => k.text
  | implicit => "implicit"
  | typedef n => n
  | scopedTypedef s n => s ++ "::" ++ n
  | interface n m => n ++ "." ++ m

/-- The word for a base type in a declaration, where the implicit one has none. -/
def word : TypeBase → String
  | implicit => ""
  | b => b.name

/-- May a type with base `b` carry the signing `s`? -/
def Fits (b : TypeBase) (s : Signing) : Prop :=
  s ≠ .unspecified → b.admitsSigning = true

instance (b : TypeBase) (s : Signing) : Decidable (b.Fits s) :=
  inferInstanceAs (Decidable (_ → _))

@[simp] theorem fits_unspecified (b : TypeBase) : b.Fits .unspecified :=
  fun h => absurd rfl h

end TypeBase

/-! ### Types -/

/-- A base type with a signing that it may carry, and packed dimensions. -/
@[ext] structure DataType where
  /-- The base type. -/
  base : TypeBase
  /-- The signing. -/
  signing : Signing
  /-- The packed dimensions. -/
  ranges : List Range
  /-- Only a signable base carries a signing. -/
  fits : base.Fits signing

/-- A signing on a base type that cannot carry one. -/
structure SigningMisuse where
  /-- The signing. -/
  signing : Signing
  /-- The base type. -/
  base : TypeBase
deriving DecidableEq, Repr

/-- What is wrong with a misused signing. -/
def SigningMisuse.message (m : SigningMisuse) : String :=
  "signing qualifier `" ++ m.signing.text ++ "` cannot apply to type `" ++ m.base.name ++ "`"

namespace TypeBase

/-- The type with base `b`, signing `s` and packed dimensions `rs`, if the base may carry the
signing. -/
def resolve (b : TypeBase) (s : Signing) (rs : List Range) : Except SigningMisuse DataType :=
  if h : b.Fits s then .ok ⟨b, s, rs, h⟩ else .error ⟨s, b⟩

theorem resolve_of_fits {b : TypeBase} {s : Signing} (h : b.Fits s) (rs : List Range) :
    b.resolve s rs = .ok ⟨b, s, rs, h⟩ := by
  simp [resolve, h]

theorem resolve_of_not_fits {b : TypeBase} {s : Signing} (h : ¬ b.Fits s) (rs : List Range) :
    b.resolve s rs = .error ⟨s, b⟩ := by
  simp [resolve, h]

end TypeBase

namespace DataType

/-- The type of a declaration that says nothing about it. -/
def implicit : DataType :=
  ⟨.implicit, .unspecified, [], TypeBase.fits_unspecified _⟩

/-- Is this an interface? -/
def isInterface (t : DataType) : Bool :=
  match t.base with
  | .interface .. => true
  | _ => false

/-- The words of a type in a declaration: base, signing and packed dimensions. -/
def text (t : DataType) : String :=
  Text.words [t.base.word, t.signing.text, Range.texts t.ranges]

/-- A type is resolved from its own parts. -/
@[simp] theorem resolve_parts (t : DataType) : t.base.resolve t.signing t.ranges = .ok t :=
  TypeBase.resolve_of_fits t.fits t.ranges

@[simp] theorem text_implicit : implicit.text = "" := rfl

end DataType

end VerilogDecl
