/-
**Lists of bare names.**

A port list of bare names is not read by the reader of declarations: its names are collected as they
stand.  This module shows that the shortcut is taken exactly for lists in which names and commas
alternate, and that it changes no name.  The reader of declarations would take every name of such a
list for a declared name, never for a type, and make one group of them.  For all other lists the
names of the ports are those of the variables among its declarations.

Main definitions:

* `VerilogDecl.Token.Alternates`, `VerilogDecl.Token.identNames` — lists in which names and commas
  alternate, and the names of a list;
* `VerilogDecl.DeclGroup.ofNames` — the group of names that stand alone;
* `VerilogDecl.readDeclaredPorts` — reads a port list by its declarations;
* `VerilogDecl.Decl.names`, `VerilogDecl.ModuleItem.names` — the names of the declared variables.

Main results:

* `VerilogDecl.bareNames?_eq_some_iff` — **the shortcut is taken where names and commas alternate**;
* `VerilogDecl.readGroups_of_bareNames?` — bare names are one group without direction and type;
* `VerilogDecl.PortList.names_ofDecls` — passing on directions keeps all names;
* `VerilogDecl.readPorts_agrees` — with and without the shortcut the names are the same.
-/

import VerilogDecl.Proofs.ItemCount

set_option relaxedAutoImplicit false
set_option autoImplicit false

namespace VerilogDecl

/-- The name that a lexeme is. -/
def Lexeme.name? : Lexeme → Option String
  | ident name => some name
  | _ => none

namespace Token

/-- Names and commas alternate, with a name at both ends. -/
structure Alternates (ts : List Token) : Prop where
  /-- There is one name more than there are commas. -/
  odd : ts.length % 2 = 1
  /-- At even places stand names. -/
  isName : ∀ i t, ts[i]? = some t → i % 2 = 0 → t.lexeme.isName = true
  /-- At odd places stand commas. -/
  isSeparator : ∀ i t, ts[i]? = some t → i % 2 = 1 → t.isSeparator = true

/-- The names among the tokens. -/
def identNames (ts : List Token) : List String :=
  ts.filterMap (·.lexeme.name?)

theorem not_alternates_nil : ¬ Alternates [] :=
  fun h => absurd h.odd (by decide)

theorem alternates_singleton {t : Token} : Alternates [t] ↔ t.lexeme.isName = true := by
  constructor
  · intro h
    exact h.isName 0 t rfl rfl
  · intro h
    refine ⟨rfl, fun i u hu _ => ?_, fun i u hu hi => ?_⟩
    · obtain ⟨-, rfl⟩ : i = 0 ∧ t = u := by simpa [List.getElem?_singleton] using hu
      exact h
    · obtain ⟨rfl, -⟩ : i = 0 ∧ t = u := by simpa [List.getElem?_singleton] using hu
      cases hi

theorem alternates_cons_cons {t u : Token} {ts : List Token} :
    Alternates (t :: u :: ts) ↔
      t.lexeme.isName = true ∧ u.isSeparator = true ∧ Alternates ts := by
  constructor
  · intro h
    refine ⟨h.isName 0 t rfl rfl, h.isSeparator 1 u rfl rfl, ?_, fun i v hv hi => ?_,
      fun i v hv hi => ?_⟩
    · have hodd := h.odd
      simp only [List.length_cons] at hodd
      omega
    · exact h.isName (i + 2) v hv (by omega)
    · exact h.isSeparator (i + 2) v hv (by omega)
  · rintro ⟨ht, hu, h⟩
    refine ⟨?_, fun i v hv hi => ?_, fun i v hv hi => ?_⟩
    · have hodd := h.odd
      simp only [List.length_cons]
      omega
    · match i with
      | 0 => exact Option.some.inj hv ▸ ht
      | 1 => omega
      | i + 2 => exact h.isName i v hv (by omega)
    · match i with
      | 0 => omega
      | 1 => exact Option.some.inj hv ▸ hu
      | i + 2 => exact h.isSeparator i v hv (by omega)

end Token

open Token

/-- **The names of a list are collected exactly where names and commas alternate.** -/
theorem bareNames?_eq_some_iff {ts : List Token} {names : List String} :
    bareNames? ts = some names ↔ Alternates ts ∧ names = identNames ts := by
  induction ts using bareNames?.induct generalizing names with
  | case1 name pos =>
      have halt : Alternates [⟨.ident name, pos⟩] := alternates_singleton.2 rfl
      simp [bareNames?, halt, identNames, Lexeme.name?, @eq_comm _ names]
  | case2 name pos pos' ts ih =>
      rw [bareNames?, Option.map_eq_some_iff, alternates_cons_cons]
      constructor
      · rintro ⟨names, hnames, rfl⟩
        obtain ⟨halt, rfl⟩ := ih.1 hnames
        exact ⟨⟨rfl, rfl, halt⟩, rfl⟩
      · rintro ⟨⟨-, -, halt⟩, rfl⟩
        exact ⟨identNames ts, ih.2 ⟨halt, rfl⟩, rfl⟩
  | case3 ts hsingle hcons =>
      rw [bareNames?.eq_3 ts hsingle hcons]
      refine iff_of_false (Option.some_ne_none names).symm ?_
      rintro ⟨halt, -⟩
      -- the shapes that alternate are those that were excluded
      rcases ts with _ | ⟨⟨l, pos⟩, _ | ⟨u, ts⟩⟩
      · exact not_alternates_nil halt
      · have hname := alternates_singleton.1 halt
        cases l with
        | ident name => exact hsingle name pos rfl
        | _ => cases hname
      · obtain ⟨hname, hsep, -⟩ := alternates_cons_cons.1 halt
        rw [eq_comma_of_isSeparator hsep] at hcons
        cases l with
        | ident name => exact hcons name pos u.pos ts rfl
        | _ => cases hname

theorem bareNames?_eq_none_iff {ts : List Token} : bareNames? ts = none ↔ ¬ Alternates ts := by
  rw [Option.eq_none_iff_forall_ne_some]
  constructor
  · intro h halt
    exact h _ (bareNames?_eq_some_iff.2 ⟨halt, rfl⟩)
  · intro h names hnames
    exact h (bareNames?_eq_some_iff.1 hnames).1

/-! ### Bare names as declarations -/

/-- A bare name is a segment without words in front of it. -/
theorem Segment.exists_spelled_of_names {names : List String} {segs : List (List Token)}
    (h : List.Forall₂ (fun name seg => seg.map Token.lexeme = [.ident name]) names segs) :
    ∃ ss, List.Forall₂ SpelledBy ss segs ∧ (∀ s ∈ ss, s.IsName) ∧
      ss.map (·.name.declarator) = names.map fun name => ⟨name, [], none⟩ := by
  induction h with
  | nil => exact ⟨[], List.Forall₂.nil, List.forall_mem_nil _, rfl⟩
  | @cons name seg names segs hseg _ ih =>
      obtain ⟨⟨_, pos⟩, rfl, rfl⟩ := List.map_eq_singleton_iff.1 hseg
      obtain ⟨ss, hss, hnames, hdecls⟩ := ih
      refine ⟨⟨pos, .empty, ⟨name, [], none⟩⟩ :: ss, List.Forall₂.cons ⟨rfl, rfl⟩ hss,
        List.forall_mem_cons.2 ⟨rfl, hnames⟩, ?_⟩
      rw [List.map_cons, hdecls]
      rfl

/-- The group of names that stand alone: without direction and type, ranges and values. -/
def DeclGroup.ofNames (pos : Position) (names : List String) : DeclGroup :=
  ⟨pos, .unspecified, .implicit, names.map fun name => ⟨name, [], none⟩⟩

/-- Names alone are a group without direction and type. -/
theorem Segment.groupWith_of_isName {s : Segment} (h : s.IsName) (names : List Segment) :
    s.groupWith names =
      ⟨s.pos, .unspecified, .implicit, (s :: names).map (·.name.declarator)⟩ := by
  have hempty : s.head = .empty := h
  simp only [groupWith, group, hempty, List.map_cons, List.singleton_append]
  rfl

/-- **Bare names are read as one group, without direction and type, that declares them in order.** -/
theorem readGroups_of_bareNames? {ts : List Token} {names : List String}
    (h : bareNames? ts = some names) :
    ∃ pos, ts.head?.map Token.pos = some pos ∧ readGroups ts = .ok [.ofNames pos names] := by
  obtain ⟨ss, hss, hnames, hdecls⟩ := Segment.exists_spelled_of_names (forall₂_of_bareNames? h)
  have hread := readGroups_of_spelled hss
  cases ss with
  | nil => exact absurd (List.forall₂_nil_left_iff.1 hss) (segments_ne_nil ts)
  | cons s ss =>
      obtain ⟨hs, hnames⟩ := List.forall_mem_cons.1 hnames
      rw [Segment.groups_cons_names s hnames, Segment.groupWith_of_isName hs, hdecls] at hread
      -- the group is placed at the first token of the list
      obtain ⟨parts, hparts, hfrom⟩ := exists_stretches_of_readGroups hread
      obtain ⟨part, parts, hpart, hrest, rfl⟩ := List.forall₂_cons_left_iff.1 hfrom
      obtain rfl := List.forall₂_nil_left_iff.1 hrest
      cases hparts
      exact ⟨s.pos, hpart.pos, hread⟩

/-! ### Names of ports -/

/-- The names of the declared variables. -/
def Decl.names (ds : List Decl) : List String :=
  (ds.filterMap Decl.declared?).map (·.name)

/-- The variable that an item declares. -/
def ModuleItem.declared? : ModuleItem → Option Variable
  | decl d => d.declared?
  | inst _ => none

/-- The names of the variables among the items. -/
def ModuleItem.names (items : List ModuleItem) : List String :=
  (items.filterMap ModuleItem.declared?).map (·.name)

theorem ModuleItem.names_map_decl (ds : List Decl) : names (ds.map decl) = Decl.names ds := by
  rw [names, List.filterMap_map]
  rfl

theorem Decl.names_inheritDirectionsFrom (last : Direction) (ds : List Decl) :
    names (inheritDirectionsFrom last ds) = names ds := by
  induction ds generalizing last with
  | nil => rfl
  | cons d ds ih =>
      cases d with
      | comment s => exact ih last
      | var v =>
          rw [inheritDirectionsFrom]
          split
          · exact congrArg (v.name :: ·) (ih last)
          · exact congrArg (v.name :: ·) (ih _)

namespace PortList

/-- The names of a port list are those of its variables. -/
theorem names_ofDecls_eq_items (ds : List Decl) :
    (ofDecls ds).names = ModuleItem.names (ofDecls ds).items :=
  (ModuleItem.names_map_decl (inheritDirections ds)).symm

/-- Passing on directions keeps all names. -/
theorem names_ofDecls (ds : List Decl) : (ofDecls ds).names = Decl.names ds :=
  Decl.names_inheritDirectionsFrom .unspecified ds

end PortList

theorem DeclGroup.names_decls (options : Options) (g : DeclGroup) :
    Decl.names (g.decls options) = g.declarators.map (·.name) := by
  rw [Decl.names, ← declarators_decls options g, List.map_map]
  rfl

theorem DeclGroup.names_decls_ofNames (options : Options) (pos : Position) (names : List String) :
    Decl.names ((ofNames pos names).decls options) = names := by
  rw [names_decls, ofNames, List.map_map]
  exact List.map_id names

/-! ### Reading port lists -/

/-- Reads a port list by its declarations, also if names and commas alternate in it. -/
def readDeclaredPorts (options : Options) (ts : List Token) : Except Fault PortList :=
  (readDecls options ts).map .ofDecls

/-- A list that is not made of bare names is read by its declarations. -/
theorem readPorts_of_not_bareNames? (options : Options) {ts : List Token}
    (h : bareNames? ts = none) : readPorts options ts = readDeclaredPorts options ts := by
  rw [readPorts, readDeclaredPorts, h]
  cases hcheck : refuseImproperAssigns ts with
  | error f =>
      rw [readDecls, hcheck]
      rfl
  | ok u =>
      cases readDecls options ts with
      | error f => rfl
      | ok ds => rfl

/-- Every token of a list of bare names is a name or a comma. -/
theorem isImproperAssign_of_bareNames? {ts : List Token} {names : List String}
    (h : bareNames? ts = some names) : ∀ t ∈ ts, t.lexeme.isImproperAssign = false := by
  obtain ⟨halt, -⟩ := bareNames?_eq_some_iff.1 h
  intro t ht
  obtain ⟨i, hi⟩ := List.mem_iff_getElem?.1 ht
  obtain ⟨l, pos⟩ := t
  rcases Nat.mod_two_eq_zero_or_one i with hmod | hmod
  · have hname := halt.isName i _ hi hmod
    cases l with
    | assign a => cases hname
    | _ => rfl
  · rw [eq_comma_of_isSeparator (halt.isSeparator i _ hi hmod)]
    rfl

/-- **The shortcut for bare names agrees with reading declarations.**  Where names and commas
alternate, all names are read as one group without direction and type, and the names of the port list
are those of its variables.  All other lists are read by their declarations, and a list that is read
so has the names of its variables. -/
theorem readPorts_agrees (options : Options) (ts : List Token) :
    (Alternates ts →
      (∃ pos, ts.head?.map Token.pos = some pos ∧
        readGroups ts = .ok [.ofNames pos (identNames ts)]) ∧
      readPorts options ts = .ok ⟨identNames ts, []⟩ ∧
      (∃ ds, readDecls options ts = .ok ds ∧ Decl.names ds = identNames ts) ∧
      ∃ p, readDeclaredPorts options ts = .ok p ∧ p.names = identNames ts) ∧
    (¬ Alternates ts → readPorts options ts = readDeclaredPorts options ts) ∧
    ∀ p, readDeclaredPorts options ts = .ok p → p.names = ModuleItem.names p.items := by
  refine ⟨fun halt => ?_, fun halt => ?_, fun p hp => ?_⟩
  · have hnames : bareNames? ts = some (identNames ts) := bareNames?_eq_some_iff.2 ⟨halt, rfl⟩
    have hplain := isImproperAssign_of_bareNames? hnames
    obtain ⟨pos, hpos, hread⟩ := readGroups_of_bareNames? hnames
    have hdecls : readDecls options ts =
        .ok ((DeclGroup.ofNames pos (identNames ts)).decls options) :=
      readDecls_eq_ok_iff.2 ⟨hplain, _, hread, (List.flatMap_singleton ..).symm⟩
    have hds := DeclGroup.names_decls_ofNames options pos (identNames ts)
    have hports : readDeclaredPorts options ts =
        .ok (.ofDecls ((DeclGroup.ofNames pos (identNames ts)).decls options)) := by
      rw [readDeclaredPorts, hdecls]
      rfl
    refine ⟨⟨pos, hpos, hread⟩, ?_, ⟨_, hdecls, hds⟩, _, hports, ?_⟩
    · exact readPorts_eq_ok_iff.2 ⟨hplain, Or.inl ⟨_, hnames, rfl⟩⟩
    · rw [PortList.names_ofDecls, hds]
  · exact readPorts_of_not_bareNames? options (bareNames?_eq_none_iff.2 halt)
  · obtain ⟨ds, -, rfl⟩ := map_eq_ok_iff.1 hp
    exact PortList.names_ofDecls_eq_items ds

/-- The ports `a, b` have the names that their declarations have. -/
theorem readPorts_agrees_pair :
    readPorts ⟨true⟩
      [⟨.ident "a", ⟨"top.sv", 1, 10⟩⟩, ⟨.comma, ⟨"top.sv", 1, 11⟩⟩,
        ⟨.ident "b", ⟨"top.sv", 1, 13⟩⟩] = .ok ⟨["a", "b"], []⟩ ∧
    ∃ p, readDeclaredPorts ⟨true⟩
      [⟨.ident "a", ⟨"top.sv", 1, 10⟩⟩, ⟨.comma, ⟨"top.sv", 1, 11⟩⟩,
        ⟨.ident "b", ⟨"top.sv", 1, 13⟩⟩] = .ok p ∧ p.names = ["a", "b"] := by
  have halt : Alternates
      [⟨.ident "a", ⟨"top.sv", 1, 10⟩⟩, ⟨.comma, ⟨"top.sv", 1, 11⟩⟩,
        ⟨.ident "b", ⟨"top.sv", 1, 13⟩⟩] :=
    alternates_cons_cons.2 ⟨rfl, rfl, alternates_singleton.2 rfl⟩
  obtain ⟨-, hports, -, hdeclared⟩ := (readPorts_agrees ⟨true⟩ _).1 halt
  exact ⟨hports, hdeclared⟩

end VerilogDecl
