/-
**Items of a block.**

In a block, a statement and a declaration may begin alike.  A list of tokens that ends like a
statement and has an assignment target in front is a statement; anything else is read as one group
of declarations, unless only a statement could end that way.

Main definitions:

* `VerilogDecl.BlockItem` — declarations or statements;
* `VerilogDecl.moveLeadingAssign` — a prefix increment written as an assignment;
* `VerilogDecl.Stmt.ofTokens` — the statement of a list of tokens;
* `VerilogDecl.readBlockItem` — reads an item of a block.

Main results:

* `VerilogDecl.moveLeadingAssign_cases` — which lists have an assignment to move.
-/

import VerilogDecl.DeclList
import VerilogDecl.Target.OfTokens

set_option relaxedAutoImplicit false
set_option autoImplicit false

namespace VerilogDecl

/-- An item of a block: declarations, or a statement behind its trace comment. -/
inductive BlockItem where
  | decls (decls : List Decl)
  | stmts (stmts : List Stmt)

/-- Moves an assignment from the front to the end.  This is how an increment or decrement in front
of its target arrives. -/
def moveLeadingAssign : List Token → List Token
  | ⟨.assign a, pos⟩ :: t :: ts => t :: ts ++ [⟨.assign a, pos⟩]
  | ts => ts

/-- An assignment with tokens behind it is moved to the end.  A list that does not start with an
assignment, or holds nothing else, stays as it is. -/
theorem moveLeadingAssign_cases (ts : List Token) :
    (∃ t rest, t.isAssign = true ∧ rest ≠ [] ∧ ts = t :: rest ∧
      moveLeadingAssign ts = rest ++ [t]) ∨
    (∀ t ∈ ts.head?, t.isAssign = true → ts = [t]) ∧ moveLeadingAssign ts = ts := by
  unfold moveLeadingAssign
  split
  next a pos t ts => exact Or.inl ⟨⟨.assign a, pos⟩, t :: ts, rfl, List.cons_ne_nil t ts, rfl, rfl⟩
  next hshape =>
    refine Or.inr ⟨?_, rfl⟩
    intro t ht hassign
    obtain ⟨rest, rfl⟩ := List.head?_eq_some_iff.1 ht
    cases rest with
    | nil => rfl
    | cons u us =>
        obtain ⟨l, pos⟩ := t
        cases l with
        | assign a => exact absurd rfl (hshape a pos u us)
        | _ => cases hassign

/-- The statement of a list of tokens, or `none` if they are to be read as declarations.  An error
holds the tokens that should have been a target. -/
def Stmt.ofTokens (ts : List Token) : Except (List Token) (Option Stmt) :=
  match ts with
  | [⟨.ident name, _⟩] => .ok (some (.call (.ident name) .empty))
  | [⟨.scopedIdent scope name, _⟩] => .ok (some (.call (.scopedIdent scope name) .empty))
  | [⟨.scopedIdent scope name, _⟩, ⟨.ports args, _⟩] =>
      .ok (some (.call (.scopedIdent scope name) (.ofBindings args)))
  | _ =>
    match ts.getLast?.map Token.lexeme, Target.ofTokens? ts.dropLast with
    | some (.assign a), some target => .ok (some (.assign target a))
    | some (.assign a), none => if a.isPlain then .ok none else .error ts.dropLast
    | some (.ports args), some target => .ok (some (.call target.toExpr (.ofBindings args)))
    | some (.ports _), none => .error ts.dropLast
    | _, _ => .ok none

/-- A statement, behind a trace comment if wanted. -/
def Stmt.traced (options : Options) (pos : Position) (s : Stmt) : List Stmt :=
  (if options.markers then [.comment pos.trace] else []) ++ [s]

/-- Reads an item of a block. -/
def readBlockItem (options : Options) (ts : List Token) : Except Fault BlockItem :=
  match ts with
  | [] => .error .emptyItem
  | first :: _ =>
    match Stmt.ofTokens (moveLeadingAssign ts) with
    | .error front => .error (.target front first.pos)
    | .ok (some s) => .ok (.stmts (s.traced options first.pos))
    | .ok none => (readDecl options ts).map .decls

end VerilogDecl
