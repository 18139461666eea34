/-
**Names are opaque to the readers of declarations.**

A reader of declarations copies names and never looks into them: whether two names are equal, or a
name is empty or looks like a keyword, makes no difference.  So any function on names may be applied
before reading or after it.  It need not be injective.  `Relabeling` shows this for groups and for
the checks in front of them; here the declarations and the port lists that are made of groups
follow.  The fault of a list is not renamed but of the same class, since its message quotes names.

Main definitions:

* `VerilogDecl.Relabeling.renaming` — the relabeling that keeps all places;
* `VerilogDecl.Decl.rename`, `VerilogDecl.PortList.rename` — declarations and port lists with other
  names;
* `VerilogDecl.Renamed` — two outcomes that differ in names only.

Main results:

* `VerilogDecl.Renamed.bind` — how the relation is carried through a sequence of readers;
* `VerilogDecl.inheritDirectionsFrom_rename` — directions are passed on alike;
* `VerilogDecl.readers_rename` — **reading declarations commutes with every function on names**.
-/

import VerilogDecl.Proofs.PassedDirections
import VerilogDecl.Proofs.Relabeling

set_option relaxedAutoImplicit false
set_option autoImplicit false

namespace VerilogDecl

/-! ### Renamed data -/

/-- The relabeling that gives new names and keeps all places. -/
def Relabeling.renaming (f : String → String) : Relabeling :=
  ⟨f, id⟩

/-- A declaration with other names.  Comments and expressions stay as they are. -/
def Decl.rename (f : String → String) : Decl → Decl
  | var v => var { v with type := v.type.rename f, name := f v.name }
  | comment s => comment s

/-- An item with other names, if it is a declaration.  Port lists hold no instances. -/
def ModuleItem.rename (f : String → String) : ModuleItem → ModuleItem
  | decl d => decl (d.rename f)
  | inst i => inst i

/-- A port list with other names. -/
def PortList.rename (f : String → String) (p : PortList) : PortList :=
  ⟨p.names.map f, p.items.map (ModuleItem.rename f)⟩

section Data

variable (f : String → String)

@[simp] theorem DataType.isInterface_rename (t : DataType) :
    (t.rename f).isInterface = t.isInterface := by
  obtain ⟨base, signing, ranges, fits⟩ := t
  cases base <;> rfl

/-- The declarations of a renamed group are the renamed declarations. -/
theorem DeclGroup.decls_renaming (options : Options) (g : DeclGroup) :
    (g.relabel (.renaming f)).decls options = (g.decls options).map (Decl.rename f) := by
  obtain ⟨markers⟩ := options
  cases markers with
  | false => simp [decls, relabel, Relabeling.renaming, Declarator.rename, Decl.rename]
  | true => simp [decls, relabel, Relabeling.renaming, Declarator.rename, Decl.rename]

theorem DeclGroup.flatMap_decls_renaming (options : Options) (gs : List DeclGroup) :
    (gs.map (relabel (.renaming f))).flatMap (·.decls options) =
      (gs.flatMap (·.decls options)).map (Decl.rename f) := by
  rw [List.flatMap_map, List.map_flatMap]
  exact List.flatMap_congr fun g _ => g.decls_renaming f options

/-- Passing on directions looks at interfaces and directions only. -/
theorem inheritDirectionsFrom_rename (last : Direction) (ds : List Decl) :
    inheritDirectionsFrom last (ds.map (Decl.rename f)) =
      (inheritDirectionsFrom last ds).map (Decl.rename f) := by
  refine inheritDirectionsFrom_map (fun d => ?_) (fun dir d => ?_) last ds
  · cases d with
    | var v => simp [Decl.given?, Decl.rename]
    | comment s => rfl
  · cases d with
    | var v =>
        by_cases hv : v.type.isInterface = true
        · simp [Decl.directed, Decl.rename, hv]
        · simp [Decl.directed, Decl.rename, hv]
    | comment s => rfl

theorem Decl.declared?_rename (d : Decl) :
    (d.rename f).declared?.map (·.name) = d.declared?.map (f ·.name) := by
  cases d <;> rfl

theorem PortList.ofDecls_rename (ds : List Decl) :
    ofDecls (ds.map (Decl.rename f)) = (ofDecls ds).rename f := by
  have hnames : ∀ ports : List Decl,
      ((ports.map (Decl.rename f)).filterMap Decl.declared?).map (·.name) =
        ((ports.filterMap Decl.declared?).map (·.name)).map f := by
    intro ports
    rw [List.filterMap_map, List.map_filterMap, List.map_map, List.map_filterMap]
    congr 1
    funext d
    exact d.declared?_rename f
  simp only [ofDecls, rename, inheritDirections, inheritDirectionsFrom_rename, hnames,
    List.map_map]
  rfl

end Data

/-! ### Outcomes that differ in names only -/

section Outcomes

variable {α β : Type} {rename : α → α} {rename' : β → β} {r s : Except Fault α}

/-- Two outcomes that differ in names only: a value and the renamed value, or two faults of one
class. -/
inductive Renamed (rename : α → α) : Except Fault α → Except Fault α → Prop
  | ok (a : α) : Renamed rename (.ok a) (.ok (rename a))
  | error {f g : Fault} (kind : g.kind = f.kind) : Renamed rename (.error f) (.error g)

/-- The next reader sees the renamed value. -/
theorem Renamed.bind (h : Renamed rename r s) {k l : α → Except Fault β}
    (hkl : ∀ a, Renamed rename' (k a) (l (rename a))) : Renamed rename' (r >>= k) (s >>= l) := by
  cases h with
  | ok a => exact hkl a
  | error kind => exact .error kind

/-- A reader that commutes with a relabeling renames its outcome. -/
theorem renamed_of_relabel {ρ : Relabeling}
    (h : s = (r.map rename).mapError (Fault.relabel ρ)) : Renamed rename r s := by
  subst h
  cases r with
  | ok a => exact .ok a
  | error f => exact .error (f.kind_relabel ρ)

end Outcomes

/-! ### Readers -/

section Readers

variable (f : String → String) (options : Options) (ts : List Token)

theorem renamed_refuseImproperAssigns :
    Renamed id (refuseImproperAssigns ts)
      (refuseImproperAssigns (ts.map (Token.relabel (.renaming f)))) := by
  have hid : (refuseImproperAssigns ts).map id = refuseImproperAssigns ts :=
    id_map (refuseImproperAssigns ts)
  have hcheck := refuseImproperAssigns_relabel (.renaming f) ts
  rw [← hid] at hcheck
  exact renamed_of_relabel hcheck

theorem renamed_readGroups :
    Renamed (List.map (DeclGroup.relabel (.renaming f))) (readGroups ts)
      (readGroups (ts.map (Token.relabel (.renaming f)))) :=
  renamed_of_relabel (readGroups_relabel (.renaming f) ts)

theorem renamed_readDecls :
    Renamed (List.map (Decl.rename f)) (readDecls options ts)
      (readDecls options (ts.map (Token.relabel (.renaming f)))) := by
  refine (renamed_refuseImproperAssigns f ts).bind fun _ => ?_
  refine (renamed_readGroups f ts).bind fun gs => ?_
  rw [DeclGroup.flatMap_decls_renaming]
  exact .ok _

theorem renamed_readDecl :
    Renamed (List.map (Decl.rename f)) (readDecl options ts)
      (readDecl options (ts.map (Token.relabel (.renaming f)))) := by
  refine (renamed_refuseImproperAssigns f ts).bind fun _ => ?_
  refine (renamed_readGroups f ts).bind fun gs => ?_
  -- a renaming keeps the number of groups, which is all that is checked
  rcases gs with _ | ⟨g, _ | ⟨g', gs⟩⟩
  · exact .error rfl
  · simp only [List.map_cons, List.map_nil, DeclGroup.decls_renaming]
    exact .ok _
  · exact .error rfl

theorem renamed_readPorts :
    Renamed (PortList.rename f) (readPorts options ts)
      (readPorts options (ts.map (Token.relabel (.renaming f)))) := by
  refine (renamed_refuseImproperAssigns f ts).bind fun _ => ?_
  rw [bareNames?_relabel]
  cases bareNames? ts with
  | some names => exact .ok (PortList.mk names [])
  | none =>
      refine (renamed_readDecls f options ts).bind fun ds => ?_
      rw [PortList.ofDecls_rename]
      exact .ok _

end Readers

/-- **Reading declarations commutes with every function on names.**  Groups, declarations and port
lists that are read from renamed tokens are the renamed ones, and what is not read fails with a
fault of the same class. -/
theorem readers_rename (f : String → String) (options : Options) (ts : List Token) :
    Renamed (List.map (DeclGroup.relabel (.renaming f))) (readGroups ts)
      (readGroups (ts.map (Token.relabel (.renaming f)))) ∧
    Renamed (List.map (Decl.rename f)) (readDecls options ts)
      (readDecls options (ts.map (Token.relabel (.renaming f)))) ∧
    Renamed (List.map (Decl.rename f)) (readDecl options ts)
      (readDecl options (ts.map (Token.relabel (.renaming f)))) ∧
    Renamed (PortList.rename f) (readPorts options ts)
      (readPorts options (ts.map (Token.relabel (.renaming f)))) :=
  ⟨renamed_readGroups f ts, renamed_readDecls f options ts, renamed_readDecl f options ts,
    renamed_readPorts f options ts⟩

end VerilogDecl
