/-
**Port lists.**

The ports of a module are a list of bare names, whose declarations follow in the body, or a list of
declarations.  In the latter a port without a direction takes the direction of the port before it;
interface ports neither take nor pass on a direction.

Main definitions:

* `VerilogDecl.PortList`, `VerilogDecl.readPorts` — port lists, and reading them;
* `VerilogDecl.bareNames?` — the names of a list of bare names;
* `VerilogDecl.inheritDirections` — directions passed on from port to port.

Main results:

* `VerilogDecl.length_inheritDirections` — every declaration stays in place.
-/

import VerilogDecl.DeclList

set_option relaxedAutoImplicit false
set_option autoImplicit false

namespace VerilogDecl

/-- The ports of a module. -/
structure PortList where
  /-- The names of the ports. -/
  names : List String
  /-- The declarations of the ports. -/
  items : List ModuleItem

/-- The names of a list of bare names with commas between them. -/
def bareNames? : List Token → Option (List String)
  | [⟨.ident name, _⟩] => some [name]
  | ⟨.ident name, _⟩ :: ⟨.comma, _⟩ :: ts => (bareNames? ts).map (name :: ·)
  | _ => none

/-! ### Directions -/

/-- Passes directions on from port to port, starting with `last`. -/
def inheritDirectionsFrom (last : Direction) : List Decl → List Decl
  | [] => []
  | .var v :: ds =>
    if v.type.isInterface then .var v :: inheritDirectionsFrom last ds
    else
      let dir := if v.dir = .unspecified then last else v.dir
      .var { v with dir } :: inheritDirectionsFrom dir ds
  | .comment s :: ds => .comment s :: inheritDirectionsFrom last ds

/-- Gives each port without a direction the last one before it. -/
def inheritDirections (ds : List Decl) : List Decl :=
  inheritDirectionsFrom .unspecified ds

theorem length_inheritDirectionsFrom (last : Direction) (ds : List Decl) :
    (inheritDirectionsFrom last ds).length = ds.length := by
  fun_induction inheritDirectionsFrom last ds <;> simp_all

@[simp] theorem length_inheritDirections (ds : List Decl) :
    (inheritDirections ds).length = ds.length :=
  length_inheritDirectionsFrom _ ds

/-! ### Reading a port list -/

/-- The port list of some declarations. -/
def PortList.ofDecls (ds : List Decl) : PortList :=
  let ports := inheritDirections ds
  ⟨(ports.filterMap (·.declared?)).map (·.name), ports.map .decl⟩

/-- Reads a port list. -/
def readPorts (options : Options) (ts : List Token) : Except Fault PortList := do
  refuseImproperAssigns ts
  match bareNames? ts with
  | some names => return ⟨names, []⟩
  | none => return .ofDecls (← readDecls options ts)

end VerilogDecl
