/-
**Lists of declarations.**

Where declarations are read, every assignment has to be plain; this is checked before anything else.

Main definitions:

* `VerilogDecl.refuseImproperAssigns` — the check;
* `VerilogDecl.readDecls` — declarations of any number of groups;
* `VerilogDecl.readDecl` — the declarations of exactly one group.

Main results:

* `VerilogDecl.refuseImproperAssigns_eq_ok_iff` — the check passes exactly if every assignment is
  plain.
-/

import VerilogDecl.DeclGroup

set_option relaxedAutoImplicit false
set_option autoImplicit false

namespace VerilogDecl

/-- Refuses the first assignment that may not initialize a declaration. -/
def refuseImproperAssigns (ts : List Token) : Except Fault Unit :=
  match ts.find? (·.lexeme.isImproperAssign) with
  | some t => .error (.operator t ts)
  | none => .ok ()

/-- The check passes exactly if every assignment is plain. -/
theorem refuseImproperAssigns_eq_ok_iff {ts : List Token} :
    refuseImproperAssigns ts = .ok () ↔ ∀ t ∈ ts, t.lexeme.isImproperAssign = false := by
  unfold refuseImproperAssigns
  constructor
  · intro h t ht
    split at h
    · exact nomatch h
    next hn => simpa using List.find?_eq_none.1 hn t ht
  · intro h
    have hn : ts.find? (·.lexeme.isImproperAssign) = none :=
      List.find?_eq_none.2 fun t ht => by simp [h t ht]
    rw [hn]

/-- Reads all groups of declarations. -/
def readGroups (ts : List Token) : Except Fault (List DeclGroup) :=
  (DeclGroup.takeAll ts).mapError (.decl · ts)

/-- Reads declarations of any number of groups. -/
def readDecls (options : Options) (ts : List Token) : Except Fault (List Decl) := do
  refuseImproperAssigns ts
  let groups ← readGroups ts
  return groups.flatMap (·.decls options)

/-- Reads the declarations of exactly one group. -/
def readDecl (options : Options) (ts : List Token) : Except Fault (List Decl) := do
  refuseImproperAssigns ts
  match ← readGroups ts with
  | [g] => return g.decls options
  | groups => .error (.arity groups.length ts)

end VerilogDecl
