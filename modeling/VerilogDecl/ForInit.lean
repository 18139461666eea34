/-
**Initializations of loops.**

The first part of a `for` loop declares initialized variables, or assigns to existing ones.  It is
read as assignments if it starts like a declared name, or if something before the first comma can
only belong to an assignment target.

Main definitions:

* `VerilogDecl.ForAssign`, `VerilogDecl.ForInit` — assignments and initializations of a loop;
* `VerilogDecl.ForInit.startsAssigns` — is it a list of assignments?
* `VerilogDecl.ForAssign.take`, `VerilogDecl.ForAssign.takeAll` — read one assignment, and all;
* `VerilogDecl.readForInit` — reads the initialization of a loop.

Main results:

* `VerilogDecl.ForAssign.length_take_lt` — reading an assignment takes at least one token.
-/

import VerilogDecl.DeclList
import VerilogDecl.Target.OfTokens

set_option relaxedAutoImplicit false
set_option autoImplicit false

namespace VerilogDecl

/-- A plain assignment of a loop. -/
structure ForAssign where
  /-- The target. -/
  target : Target
  /-- The assigned expression. -/
  expr : Expr

/-- The initialization of a loop. -/
inductive ForInit where
  | decls (decls : List Decl)
  | assigns (assigns : List ForAssign)

/-! ### Assignments of a loop -/

namespace ForAssign

/-- Reads one assignment: everything in front of the next assignment is its target. -/
def take (ts : List Token) : Except Fault (ForAssign × List Token) :=
  match ts.dropWhile (!·.isAssign) with
  | ⟨.assign a, pos⟩ :: rest =>
    let front := ts.takeWhile (!·.isAssign)
    match Target.ofTokens? front with
    | some target => .ok (⟨target, a.expr⟩, rest)
    | none => .error (.target front pos)
  | _ => .error (.assignExpected ts)

/-- Reading an assignment takes at least one token. -/
theorem length_take_lt {ts rest : List Token} {a : ForAssign} (h : take ts = .ok (a, rest)) :
    rest.length < ts.length := by
  have hs : ts.dropWhile (!·.isAssign) <:+ ts := List.dropWhile_suffix _
  unfold take at h
  split at h
  next b pos rest' he =>
    rw [he] at hs
    simp only at h
    split at h
    · obtain ⟨-, rfl⟩ := Prod.mk.inj (Except.ok.inj h)
      exact Nat.lt_of_lt_of_le (Nat.lt_succ_self _) hs.length_le
    · exact nomatch h
  · exact nomatch h

/-- Reads the assignments of a loop from `ts`, the rest of the list `whole`. -/
def takeAll (whole ts : List Token) : Except Fault (List ForAssign) :=
  match _h : take ts with
  | .error fault => .error fault
  | .ok (a, []) => .ok [a]
  | .ok (a, sep :: rest) =>
    if sep.isSeparator then
      if rest.isEmpty then .error (.assignTrailingComma whole)
      else (takeAll whole rest).map (a :: ·)
    else .error (.assignSeparatorExpected ts (sep :: rest))
termination_by ts.length
decreasing_by
  have := length_take_lt ‹_›
  simp only [List.length_cons] at this
  omega

/-- The assignments of a loop are one assignment, and behind a comma the others. -/
theorem takeAll_eq (whole ts : List Token) :
    takeAll whole ts =
      match take ts with
      | .error fault => .error fault
      | .ok (a, []) => .ok [a]
      | .ok (a, sep :: rest) =>
        if sep.isSeparator then
          if rest.isEmpty then .error (.assignTrailingComma whole)
          else (takeAll whole rest).map (a :: ·)
        else .error (.assignSeparatorExpected ts (sep :: rest)) := by
  rw [takeAll]
  split <;> simp [*]

end ForAssign

/-! ### Initializations -/

/-- Can this lexeme belong to an assignment target only? -/
def Lexeme.isTargetOnly : Lexeme → Bool
  | index _ | concat _ | stream .. | member _ => true
  | _ => false

/-- Is this initialization a list of assignments? -/
def ForInit.startsAssigns (ts : List Token) : Bool :=
  (Token.beforeComma ts).any (·.lexeme.isTargetOnly) || Declarator.starts ts

/-- The first declared variable without an initial value. -/
def uninitialized? (decls : List Decl) : Option Variable :=
  (decls.filterMap (·.declared?)).find? (·.init.isNone)

/-- Reads the initialization of a loop.  Every variable that it declares has an initial value. -/
def readForInit (options : Options) (ts : List Token) : Except Fault ForInit := do
  refuseImproperAssigns ts
  if ForInit.startsAssigns ts then return .assigns (← ForAssign.takeAll ts ts)
  else
    let decls ← readDecls options ts
    match uninitialized? decls with
    | some v => .error (.uninitialized v.name ts)
    | none => return .decls decls

end VerilogDecl
