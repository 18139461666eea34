/-
**Reading items of a module body.**

An item is an elaboration task, a list of instances of one module, or one group of declarations.
Which one it is, is settled by the first name and by whether there are ports anywhere.

Main definitions:

* `VerilogDecl.ElaborationTask` — the tasks that run while the design is elaborated;
* `VerilogDecl.Instance.ofSegment?` — reads one instance;
* `VerilogDecl.readInstances`, `VerilogDecl.readModuleItems` — read lists of instances, and items.
-/

import VerilogDecl.DeclList

set_option relaxedAutoImplicit false
set_option autoImplicit false

namespace VerilogDecl

/-! ### Elaboration tasks -/

/-- A task that runs while the design is elaborated. -/
inductive ElaborationTask where
  | fatal | error | warning | info
deriving DecidableEq, Repr

namespace ElaborationTask

/-- The module that stands in for elaboration tasks.  No design defines it. -/
def moduleName : String := "__ElaborationTask"

/-- The task of a name. -/
def ofName? (name : String) : Option ElaborationTask :=
  if name = "$fatal" then some fatal
  else if name = "$error" then some error
  else if name = "$warning" then some warning
  else if name = "$info" then some info
  else none

/-- The name of the instance that stands in for a task.  An information has no effect on the
design, so nothing stands in for it. -/
def instanceName? : ElaborationTask → Option String
  | fatal => some "__elab_fatal"
  | error => some "__elab_error"
  | warning => some "__elab_warning"
  | info => none

/-- The items that stand in for a task with these arguments. -/
def items (task : ElaborationTask) (args : List (Binding Expr)) : List ModuleItem :=
  task.instanceName?.toList.map fun name => .inst ⟨moduleName, [], name, [], args⟩

end ElaborationTask

/-- Reads the task that a list of tokens starts with; behind the name stands at most one list of
arguments. -/
def readElaborationTask (task : ElaborationTask) (ts : List Token) :
    Except Fault (List ModuleItem) :=
  match ts with
  | [_] => .ok (task.items [])
  | [_, ⟨.ports args, _⟩] => .ok (task.items args)
  | _ => .error (.elaborationTask ts)

/-! ### Instances -/

/-- Reads one instance of a module: a name, the range of an array of instances if it is one, and
ports. -/
def Instance.ofSegment? (moduleName : String) (params : List (Binding ParamValue)) :
    List Token → Option Instance
  | [⟨.ident name, _⟩, ⟨.ports ports, _⟩] => some ⟨moduleName, params, name, [], ports⟩
  | [⟨.ident name, _⟩, ⟨.range .nonIndexed r, _⟩, ⟨.ports ports, _⟩] =>
      some ⟨moduleName, params, name, [r], ports⟩
  | _ => none

/-- What is wrong with a segment of `whole` that is no instance. -/
def Instance.fault (whole segment : List Token) : Fault :=
  if segment.isEmpty then .emptyInstance whole
  else if segment.any (·.lexeme.isPorts) then .badInstance segment
  else .notInstance segment

/-- The parameters in front, if there are some, and the tokens behind them. -/
def takeParams : List Token → List (Binding ParamValue) × List Token
  | ⟨.params bindings, _⟩ :: ts => (bindings, ts)
  | ts => ([], ts)

/-- Reads a list of instances of one module. -/
def readInstances (ts : List Token) : Except Fault (List Instance) :=
  match ts with
  | ⟨.ident moduleName, _⟩ :: rest =>
    let (params, rest) := takeParams rest
    (Token.segments rest).mapM fun segment =>
      match Instance.ofSegment? moduleName params segment with
      | some i => .ok i
      | none => .error (Instance.fault ts segment)
  | _ => .error (.instanceHead ts)

/-! ### Items -/

/-- The elaboration task that a list of tokens starts with. -/
def leadingTask? : List Token → Option ElaborationTask
  | ⟨.ident name, _⟩ :: _ => ElaborationTask.ofName? name
  | _ => none

/-- Reads items of a module body up to a semicolon. -/
def readModuleItems (options : Options) (ts : List Token) : Except Fault (List ModuleItem) := do
  refuseImproperAssigns ts
  match leadingTask? ts with
  | some task => readElaborationTask task ts
  | none =>
    if ts.any (·.lexeme.isPorts) then return (← readInstances ts).map .inst
    else return (← readDecl options ts).map .decl

end VerilogDecl
