/-
**What can be wrong with a list of tokens.**

Each way in which reading fails is a cause of its own, with the tokens that show it.  The reader of
declarations knows only its own causes; whoever calls it adds the list that was to be read.  The
wording of every message is fixed here.

Main definitions:

* `VerilogDecl.FaultKind` — the classes of faults;
* `VerilogDecl.DeclFault` — faults of a group of declarations;
* `VerilogDecl.Fault` — all faults, with `kind`, `message`, `tokens` and `pos?`.
-/

import VerilogDecl.Token

set_option relaxedAutoImplicit false
set_option autoImplicit false

namespace VerilogDecl

/-- The classes of faults. -/
inductive FaultKind where
  /-- The tokens have none of the known shapes. -/
  | shape
  /-- An assignment that is not plain, where a declaration is read. -/
  | operator
  /-- The wrong number of groups of declarations. -/
  | arity
  /-- A lifetime or a signing that cannot apply. -/
  | qualifier
  /-- The front of a statement is no assignment target. -/
  | target
deriving DecidableEq, Repr

/-- A fault of a group of declarations. -/
inductive DeclFault where
  /-- The tokens end where a declared name is due. -/
  | incomplete
  /-- The tokens end with a comma. -/
  | trailingComma
  /-- A token that is no name stands where a declared name is due. -/
  | nameExpected (found : Token)
  /-- A declared name is followed by something other than a comma or the end. -/
  | separatorExpected (rest : List Token)
  /-- A lifetime that declarations do not accept. -/
  | lifetime (found : Token)
  /-- A signing on a type that cannot carry one; `head` spells the type. -/
  | signing (misuse : SigningMisuse) (head : List Token)

/-- A fault of a list of tokens. -/
inductive Fault where
  /-- An assignment that is not plain, where a declaration is read. -/
  | operator (found : Token) (whole : List Token)
  /-- A fault of a group of declarations. -/
  | decl (cause : DeclFault) (whole : List Token)
  /-- There is not exactly one group of declarations. -/
  | arity (found : Nat) (whole : List Token)
  /-- Behind an elaboration task stands something other than one list of arguments. -/
  | elaborationTask (whole : List Token)
  /-- A list with instances does not start with the name of a module. -/
  | instanceHead (whole : List Token)
  /-- Nothing stands where an instance is due. -/
  | emptyInstance (whole : List Token)
  /-- A segment that has ports but not the shape of an instance. -/
  | badInstance (segment : List Token)
  /-- A segment without ports among instances. -/
  | notInstance (segment : List Token)
  /-- There are no tokens for a declaration or a statement. -/
  | emptyItem
  /-- The tokens in front of an assignment or a call are no target. -/
  | target (front : List Token) (pos : Position)
  /-- The initialization of a loop ends before an assignment. -/
  | assignExpected (item : List Token)
  /-- An assignment of a loop is followed by something other than a comma or the end. -/
  | assignSeparatorExpected (item rest : List Token)
  /-- The assignments of a loop end with a comma. -/
  | assignTrailingComma (whole : List Token)
  /-- A variable declared by a loop has no initial value. -/
  | uninitialized (name : String) (whole : List Token)

namespace DeclFault

/-- The class of a fault. -/
def kind : DeclFault → FaultKind
  | lifetime _ | signing .. => .qualifier
  | incomplete | trailingComma | nameExpected _ | separatorExpected _ => .shape

/-- What is wrong in the list `whole`. -/
def message (whole : List Token) : DeclFault → String
  | incomplete => "incomplete declaration"
  | trailingComma => "trailing `,` in declaration list"
  | nameExpected t =>
      "expected a declared name, found `" ++ t.text ++ "` in `" ++ Token.listText whole ++ "`"
  | separatorExpected rest =>
      "expected `,` or end of declaration, found `" ++ Token.listText rest ++ "`"
  | lifetime t => "unexpected lifetime `" ++ t.text ++ "` on declaration"
  | signing misuse _ => misuse.message

/-- The tokens of the list `whole` that show the fault. -/
def tokens (whole : List Token) : DeclFault → List Token
  | incomplete | trailingComma => whole
  | nameExpected t | lifetime t => [t]
  | separatorExpected rest => rest
  | signing _ head => head

end DeclFault

namespace Fault

/-- The class of a fault. -/
def kind : Fault → FaultKind
  | operator .. => .operator
  | decl cause _ => cause.kind
  | arity .. => .arity
  | target .. => .target
  | elaborationTask _ | instanceHead _ | emptyInstance _ | badInstance _ | notInstance _
  | emptyItem | assignExpected _ | assignSeparatorExpected .. | assignTrailingComma _
  | uninitialized .. => .shape

/-- What is wrong. -/
def message : Fault → String
  | operator t whole =>
      "decl tokens contain bad assignment operator `" ++ t.text ++ "`: `" ++
        Token.listText whole ++ "`"
  | decl cause whole => cause.message whole
  | arity n whole =>
      "expected exactly one declaration, found " ++ toString n ++ ": `" ++
        Token.listText whole ++ "`"
  | elaborationTask whole =>
      "could not parse elaboration system task: `" ++ Token.listText whole ++ "`"
  | instanceHead whole =>
      "decl tokens contain instantiations, but start with non-ident: `" ++
        Token.listText whole ++ "`"
  | emptyInstance whole =>
      "empty instance in instantiation list: `" ++ Token.listText whole ++ "`"
  | badInstance segment => "unrecognized instance `" ++ Token.listText segment ++ "`"
  | notInstance segment =>
      "instantiations mixed with other items: `" ++ Token.listText segment ++ "`"
  | emptyItem => "empty declaration or statement"
  | target front _ => "could not parse as LHS: `" ++ Token.listText front ++ "`"
  | assignExpected item =>
      "for loop assignment is missing `=`: `" ++ Token.listText item ++ "`"
  | assignSeparatorExpected item _ =>
      "bad for loop assignment: `" ++ Token.listText item ++ "`"
  | assignTrailingComma _ => "trailing `,` in for loop initialization"
  | uninitialized name whole =>
      "for loop declaration of `" ++ name ++ "` is missing an initialization: `" ++
        Token.listText whole ++ "`"

/-- The tokens that show the fault. -/
def tokens : Fault → List Token
  | operator t _ => [t]
  | decl cause whole => cause.tokens whole
  | arity _ whole | elaborationTask whole | instanceHead whole | emptyInstance whole
  | assignTrailingComma whole | uninitialized _ whole => whole
  | badInstance segment | notInstance segment => segment
  | emptyItem => []
  | target front _ => front
  | assignExpected item => item
  | assignSeparatorExpected _ rest => rest

/-- The place of the fault, where it is not that of the first token that shows it. -/
def pos? : Fault → Option Position
  | target _ pos => some pos
  | _ => none

end Fault

end VerilogDecl
