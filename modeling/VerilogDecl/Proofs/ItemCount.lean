/-
**One comma between two items.**

Commas are treated in five ways: names of a group look behind the comma, bare names alternate with
commas, instances are cut at them, assignments of a loop stop at them, and statements have none.
All five come to the same.  Whatever a reader accepts has an item in each of its segments, so no
comma stands at an end or next to another one, and there is one more item than there are commas.

Main definitions:

* `VerilogDecl.Token.commaCount` — the number of commas of a list;
* `VerilogDecl.Token.Separated` — no comma stands at an end or next to another one;
* `VerilogDecl.Token.Separates` — a list in which commas separate a number of items.

Main results:

* `VerilogDecl.Token.length_segments` — there is one more segment than there are commas;
* `VerilogDecl.Token.separated_of_segments` — commas between non-empty segments stand apart;
* `VerilogDecl.Token.separates_of_forall₂` — **items that are read from the segments, one from each,
  are separated**;
* `VerilogDecl.separates_of_readGroups`, `VerilogDecl.separates_of_readInstances`,
  `VerilogDecl.separates_of_bareNames?` — the readers that run through a list;
* `VerilogDecl.readers_separate` — **every reader separates its items by single commas**.
-/

import VerilogDecl.Proofs.Instantiation
import VerilogDecl.Proofs.TraceMarkers
import Mathlib.Data.List.Chain

set_option relaxedAutoImplicit false
set_option autoImplicit false

namespace VerilogDecl

/-! ### Commas and segments -/

namespace Token

/-- The number of commas. -/
def commaCount (ts : List Token) : Nat :=
  ts.countP isSeparator

/-- No comma stands at an end of the list or next to another one. -/
structure Separated (ts : List Token) : Prop where
  /-- The list does not start with a comma. -/
  head : ∀ t ∈ ts.head?, t.isSeparator = false
  /-- The list does not end with a comma. -/
  last : ∀ t ∈ ts.getLast?, t.isSeparator = false
  /-- Behind a comma stands no other one. -/
  apart : ts.IsChain fun t u => t.isSeparator = true → u.isSeparator = false

/-- The list holds `n` items with one comma between neighbours. -/
structure Separates (ts : List Token) (n : Nat) : Prop where
  /-- Commas stand between items only. -/
  separated : Separated ts
  /-- There is one more item than there are commas. -/
  count : n = commaCount ts + 1

theorem CommaFree.commaCount_eq {ts : List Token} (h : CommaFree ts) : commaCount ts = 0 := by
  rw [commaCount, List.countP_eq_zero]
  intro t ht
  simp [h t ht]

/-- **There is one more segment than there are commas.** -/
theorem length_segments (ts : List Token) : (segments ts).length = commaCount ts + 1 := by
  induction ts using segment_induction with
  | single ts h =>
      rw [h.segments_eq, h.commaCount_eq]
      rfl
  | cons seg pos rest h ih =>
      have hseg : seg.countP isSeparator = 0 := h.commaCount_eq
      rw [h.segments_append_comma, List.length_cons, ih, commaCount, commaCount,
        List.countP_append, hseg, List.countP_cons_of_pos (isSeparator_comma pos)]
      omega

theorem CommaFree.separated {ts : List Token} (h : CommaFree ts) : Separated ts where
  head t ht := h t (List.mem_of_mem_head? ht)
  last t ht := h t (List.mem_of_mem_getLast? ht)
  apart := by
    refine List.Pairwise.isChain (List.pairwise_iff_getElem.2 ?_)
    intro i j hi hj hij hsep
    exact h _ (List.getElem_mem hj)

/-- Behind a separated list nothing stands next to a comma of it. -/
theorem Separated.isChain_append {ts us : List Token} (h : Separated ts)
    (hus : us.IsChain fun t u => t.isSeparator = true → u.isSeparator = false) :
    (ts ++ us).IsChain fun t u => t.isSeparator = true → u.isSeparator = false := by
  refine List.isChain_append.2 ⟨h.apart, hus, ?_⟩
  intro t ht u _ hsep
  rw [h.last t ht] at hsep
  cases hsep

/-- Two separated lists with a comma between them are separated if both have a token. -/
theorem Separated.append_comma {ts us : List Token} (hts : Separated ts) (hus : Separated us)
    (hne : ts ≠ []) (hne' : us ≠ []) (pos : Position) :
    Separated (ts ++ ⟨.comma, pos⟩ :: us) where
  head t ht := by
    rw [List.head?_append_of_ne_nil _ hne] at ht
    exact hts.head t ht
  last t ht := by
    rw [List.getLast?_append_of_ne_nil _ (List.cons_ne_nil _ _),
      List.getLast?_cons_of_ne_nil hne'] at ht
    exact hus.last t ht
  apart := by
    refine hts.isChain_append (List.isChain_cons.2 ⟨?_, hus.apart⟩)
    intro u hu _
    exact hus.head u hu

/-- Commas between non-empty segments stand apart. -/
theorem separated_of_segments {ts : List Token} (h : ∀ seg ∈ segments ts, seg ≠ []) :
    Separated ts := by
  induction ts using segment_induction with
  | single ts hts => exact hts.separated
  | cons seg pos rest hseg ih =>
      rw [hseg.segments_append_comma] at h
      obtain ⟨hne, hsegs⟩ := List.forall_mem_cons.1 h
      have hrest : rest ≠ [] := by
        rintro rfl
        exact hsegs [] (List.mem_singleton_self _) rfl
      exact hseg.separated.append_comma (ih hsegs) hne hrest pos

/-- **Items that are read from the segments, one from each, are separated by the commas.** -/
theorem separates_of_forall₂ {α : Type} {R : α → List Token → Prop} {ts : List Token} {xs : List α}
    (h : List.Forall₂ R xs (segments ts)) (hne : ∀ x seg, R x seg → seg ≠ []) :
    Separates ts xs.length where
  separated := by
    refine separated_of_segments fun seg hseg => ?_
    obtain ⟨i, hi, rfl⟩ := List.mem_iff_getElem.1 hseg
    have hlen := h.length_eq
    exact hne _ _ (h.get (by omega) hi)
  count := by rw [h.length_eq, length_segments]

theorem CommaFree.separates {ts : List Token} (h : CommaFree ts) : Separates ts 1 :=
  ⟨h.separated, by rw [h.commaCount_eq]⟩

/-- Words in front of the first item change nothing. -/
theorem Separates.append_left {front ts : List Token} {n : Nat} (h : Separates ts n)
    (hfront : CommaFree front) (hne : ts ≠ []) : Separates (front ++ ts) n where
  separated :=
    { head := by
        intro t ht
        cases front with
        | nil => exact h.separated.head t ht
        | cons u front => exact hfront t (Option.some.inj ht ▸ List.mem_cons_self ..)
      last := by
        intro t ht
        rw [List.getLast?_append_of_ne_nil _ hne] at ht
        exact h.separated.last t ht
      apart := hfront.separated.isChain_append h.separated.apart }
  count := by
    have hzero : front.countP isSeparator = 0 := hfront.commaCount_eq
    rw [commaCount, List.countP_append, hzero, Nat.zero_add]
    exact h.count

end Token

open Token

/-! ### Declared names -/

theorem Segment.SpelledBy.ne_nil {s : Segment} {seg : List Token} (h : s.SpelledBy seg) :
    seg ≠ [] := by
  rintro rfl
  cases h.pos

/-- The names of all groups are separated. -/
theorem separates_of_readGroups {ts : List Token} {gs : List DeclGroup}
    (h : readGroups ts = .ok gs) (hne : ts ≠ []) :
    Separates ts (gs.flatMap (·.declarators)).length := by
  rcases spelled_of_readGroups h with ⟨hnil, -⟩ | ⟨ss, hss, rfl⟩
  · exact absurd hnil hne
  · rw [Segment.declarators_groups, List.length_map]
    exact separates_of_forall₂ hss fun s seg hs => hs.ne_nil

theorem DeclGroup.length_uncommented_flatMap_decls (options : Options) (gs : List DeclGroup) :
    (Decl.uncommented (gs.flatMap (·.decls options))).length =
      (gs.flatMap (·.declarators)).length := by
  rw [uncommented_flatMap_decls, List.length_flatMap, List.length_flatMap]
  simp [decls]

/-- The variables of declarations are separated. -/
theorem separates_of_readDecls {options : Options} {ts : List Token} {ds : List Decl}
    (h : readDecls options ts = .ok ds) (hne : ts ≠ []) :
    Separates ts (Decl.uncommented ds).length := by
  obtain ⟨-, gs, hgs, rfl⟩ := readDecls_eq_ok_iff.1 h
  rw [DeclGroup.length_uncommented_flatMap_decls]
  exact separates_of_readGroups hgs hne

theorem separates_of_readDecl {options : Options} {ts : List Token} {ds : List Decl}
    (h : readDecl options ts = .ok ds) (hne : ts ≠ []) :
    Separates ts (Decl.uncommented ds).length := by
  obtain ⟨hplain, g, hg, rfl⟩ := readDecl_eq_ok_iff.1 h
  have hds : readDecls options ts = .ok (g.decls options) := by
    refine readDecls_eq_ok_iff.2 ⟨hplain, [g], hg, ?_⟩
    rw [List.flatMap_singleton]
  exact separates_of_readDecls hds hne

/-! ### Ports -/

/-- Bare names are read from the segments, one from each. -/
theorem forall₂_of_bareNames? {ts : List Token} {names : List String}
    (h : bareNames? ts = some names) :
    List.Forall₂ (fun name seg => seg.map Token.lexeme = [.ident name]) names (segments ts) := by
  induction ts using bareNames?.induct generalizing names with
  | case1 name pos =>
      obtain rfl := Option.some.inj h
      exact List.Forall₂.cons rfl List.Forall₂.nil
  | case2 name pos pos' ts ih =>
      obtain ⟨names', hnames, rfl⟩ := Option.map_eq_some_iff.1 h
      have hfree : CommaFree [⟨.ident name, pos⟩] := commaFree_cons.2 ⟨rfl, commaFree_nil⟩
      have hsegs := hfree.segments_append_comma pos' ts
      rw [List.singleton_append] at hsegs
      rw [hsegs]
      exact List.Forall₂.cons rfl (ih hnames)
  | case3 ts hsingle hcons =>
      rw [bareNames?.eq_3 ts hsingle hcons] at h
      cases h

theorem separates_of_bareNames? {ts : List Token} {names : List String}
    (h : bareNames? ts = some names) : Separates ts names.length := by
  refine separates_of_forall₂ (forall₂_of_bareNames? h) fun name seg hseg => ?_
  rintro rfl
  cases hseg

theorem Decl.length_filterMap_declared? (ds : List Decl) :
    (ds.filterMap declared?).length = (uncommented ds).length := by
  induction ds with
  | nil => rfl
  | cons d ds ih =>
      cases d with
      | var v => simp [ih]
      | comment s => rwa [List.filterMap_cons_none (declared?_comment s), uncommented_comment_cons]

/-- A port list has a name for each variable. -/
theorem PortList.length_names_ofDecls (ds : List Decl) :
    (ofDecls ds).names.length = (Decl.uncommented ds).length := by
  have hports : (Decl.uncommented (inheritDirections ds)).length =
      (Decl.uncommented ds).length := by
    rw [inheritDirections, ← inheritDirectionsFrom_uncommented, length_inheritDirectionsFrom]
  rw [ofDecls, List.length_map, Decl.length_filterMap_declared?, hports]

theorem separates_of_readPorts {options : Options} {ts : List Token} {p : PortList}
    (h : readPorts options ts = .ok p) (hne : ts ≠ []) : Separates ts p.names.length := by
  obtain ⟨-, ⟨names, hnames, rfl⟩ | ⟨-, ds, hds, rfl⟩⟩ := readPorts_eq_ok_iff.1 h
  · exact separates_of_bareNames? hnames
  · rw [PortList.length_names_ofDecls]
    exact separates_of_readDecls hds hne

/-! ### Items of a module -/

/-- The instances of an instantiation are separated, since no comma stands in front of them. -/
theorem separates_of_readInstances {ts : List Token} {is : List Instance}
    (h : readInstances ts = .ok is) : Separates ts is.length := by
  obtain ⟨i, hts, rfl⟩ := readInstances_eq_ok_iff.1 h
  rw [Instantiation.lexemes, ← List.cons_append] at hts
  obtain ⟨front, us, rfl, hfront, hus⟩ := List.map_eq_append_iff.1 hts
  have hfree : CommaFree front := by
    refine commaFree_of_lexemes fun l hl => ?_
    rw [hfront] at hl
    rcases List.mem_cons.1 hl with rfl | hl
    · rfl
    · obtain ⟨bindings, -, rfl⟩ : ∃ bs, i.params = some bs ∧ .params bs = l := by simpa using hl
      rfl
  have hwords : List.Forall₂ (fun (w : InstanceWords) seg => w.lexemes = seg.map Token.lexeme)
      i.instances (segments us) := by
    have heq : List.Forall₂ (· = ·) (i.instances.map InstanceWords.lexemes)
        ((segments us).map (List.map Token.lexeme)) := by
      rw [List.forall₂_eq_eq_eq, i.map_lexeme_eq_iff.1 hus]
    exact List.forall₂_map_right_iff.1 (List.forall₂_map_left_iff.1 heq)
  have hinstances : Separates us i.instances.length := by
    refine separates_of_forall₂ hwords fun w seg hseg => ?_
    rintro rfl
    cases hseg
  have hne : us ≠ [] := by
    rintro rfl
    obtain ⟨name, ls, hls⟩ := i.exists_cons_instanceLexemes
    rw [hls] at hus
    cases hus
  rw [Instantiation.read, List.length_map]
  exact hinstances.append_left hfree hne

/-- An elaboration task has no comma, and one instance stands in for it unless it is an
information. -/
theorem separates_of_readElaborationTask {task : ElaborationTask} {ts : List Token}
    {items : List ModuleItem} (htask : leadingTask? ts = some task)
    (h : readElaborationTask task ts = .ok items) :
    CommaFree ts ∧ (task ≠ .info → items.length = 1) := by
  have hitems : ∀ args, task ≠ .info → (task.items args).length = 1 := by
    intro args hinfo
    cases task with
    | info => exact absurd rfl hinfo
    | _ => rfl
  have hfirst : ∀ t us, ts = t :: us → t.isSeparator = false := by
    rintro ⟨l, pos⟩ us rfl
    cases l with
    | comma => cases htask
    | _ => rfl
  unfold readElaborationTask at h
  split at h
  next t =>
    obtain rfl := Except.ok.inj h
    exact ⟨commaFree_cons.2 ⟨hfirst t [] rfl, commaFree_nil⟩, hitems []⟩
  next t args pos =>
    obtain rfl := Except.ok.inj h
    refine ⟨commaFree_cons.2 ⟨hfirst t _ rfl, commaFree_cons.2 ⟨rfl, commaFree_nil⟩⟩, hitems args⟩
  next => cases h

theorem ElaborationTask.ne_info_of_leadingTask? {task : ElaborationTask} {ts : List Token}
    (h : leadingTask? ts = some task)
    (hinfo : (ts.map Token.lexeme).head? ≠ some (.ident "$info")) : task ≠ .info := by
  rintro rfl
  unfold leadingTask? at h
  split at h
  next name pos us =>
    have hname : name = "$info" := by
      unfold ofName? at h
      grind
    exact hinfo (by rw [hname]; rfl)
  next => cases h

/-- The items of a module are separated; only for an information there is none. -/
theorem separates_of_readModuleItems {options : Options} {ts : List Token}
    {items : List ModuleItem} (h : readModuleItems options ts = .ok items) (hne : ts ≠ []) :
    Separated ts ∧ ((ts.map Token.lexeme).head? ≠ some (.ident "$info") →
      Separates ts (ModuleItem.uncommented items).length) := by
  obtain ⟨-, ⟨task, htask, hread⟩ | ⟨-, -, is, his, rfl⟩ | ⟨-, -, ds, hds, rfl⟩⟩ :=
    readModuleItems_eq_ok_iff.1 h
  · obtain ⟨hfree, hlen⟩ := separates_of_readElaborationTask htask hread
    obtain ⟨is, rfl⟩ := exists_instances_of_readElaborationTask hread
    refine ⟨hfree.separated, fun hinfo => ?_⟩
    rw [ModuleItem.uncommented_map_inst, hlen (ElaborationTask.ne_info_of_leadingTask? htask hinfo)]
    exact hfree.separates
  · have hsep := separates_of_readInstances his
    rw [ModuleItem.uncommented_map_inst, List.length_map]
    exact ⟨hsep.separated, fun _ => hsep⟩
  · have hsep := separates_of_readDecl hds hne
    rw [ModuleItem.uncommented_map_decl, List.length_map]
    exact ⟨hsep.separated, fun _ => hsep⟩

/-! ### Items of a block and initializations of a loop -/

/-- A statement has no comma. -/
theorem Stmt.SpelledBy.isSeparator_eq {s : Stmt} {ls : List Lexeme} (h : s.SpelledBy ls)
    {l : Lexeme} (hl : l ∈ ls) : l.isSeparator = false := by
  have htarget : l.isTargetWord = true → l.isSeparator = false := by
    intro hword
    cases l with
    | comma => cases hword
    | _ => rfl
  cases h with
  | name name =>
      rw [List.mem_singleton.1 hl]
      rfl
  | scopedName scope name =>
      rw [List.mem_singleton.1 hl]
      rfl
  | scopedCall scope name args =>
      rcases List.mem_pair.1 hl with rfl | rfl
      · rfl
      · rfl
  | assign a ht =>
      rcases List.mem_append.1 hl with hl | hl
      · exact htarget (Target.isTargetWord_of_ofLexemes? ht hl)
      · rw [List.mem_singleton.1 hl]
        rfl
  | call args ht =>
      rcases List.mem_append.1 hl with hl | hl
      · exact htarget (Target.isTargetWord_of_ofLexemes? ht hl)
      · rw [List.mem_singleton.1 hl]
        rfl

/-- The number of items of an item of a block. -/
def BlockItem.count : BlockItem → Nat
  | decls ds => (Decl.uncommented ds).length
  | stmts ss => (Stmt.uncommented ss).length

/-- The number of items of an initialization. -/
def ForInit.count : ForInit → Nat
  | decls ds => (Decl.uncommented ds).length
  | assigns as => as.length

theorem separates_of_readBlockItem {options : Options} {ts : List Token} {item : BlockItem}
    (h : readBlockItem options ts = .ok item) : Separates ts item.count := by
  rcases readBlockItem_eq_ok_iff.1 h with ⟨first, s, -, hs, rfl⟩ | ⟨hne, -, ds, hds, rfl⟩
  · have hspelled := Stmt.spelledBy_of_ofTokens hs
    -- moving the assignment in front changes the order of the tokens only
    have hfree : CommaFree ts := by
      intro t ht
      refine hspelled.isSeparator_eq (List.mem_map_of_mem ?_)
      exact (moveLeadingAssign_perm ts).mem_iff.2 ht
    rw [BlockItem.count, Stmt.uncommented_traced hspelled.isComment_eq]
    exact hfree.separates
  · exact separates_of_readDecl hds hne

theorem separates_of_readForInit {options : Options} {ts : List Token} {init : ForInit}
    (h : readForInit options ts = .ok init) (hne : ts ≠ []) : Separates ts init.count := by
  obtain ⟨hplain, ⟨-, as, has, rfl⟩ | ⟨-, ds, hds, -, rfl⟩⟩ := readForInit_eq_ok_iff.1 h
  · refine separates_of_forall₂ (ForAssign.spelled_of_takeAll hplain has) fun a seg hseg => ?_
    obtain ⟨front, pos, rfl, -⟩ := hseg
    exact List.append_ne_nil_of_right_ne_nil _ (List.cons_ne_nil _ _)
  · exact separates_of_readDecls hds hne

/-! ### All readers -/

theorem exists_error_of_forall_ok {ε α : Type} {x : Except ε α} (h : ∀ a, x ≠ .ok a) :
    ∃ e, x = .error e := by
  cases x with
  | error e => exact ⟨e, rfl⟩
  | ok a => exact absurd rfl (h a)

/-- **Whatever a reader accepts holds its items with one comma between neighbours: there is one more
item than there are commas, except for an elaboration task that is an information.  A list with a
comma at an end or next to another one is an error for every reader.** -/
theorem readers_separate (options : Options) {ts : List Token} (hne : ts ≠ []) :
    ((∀ p, readPorts options ts = .ok p → Separates ts p.names.length) ∧
      (∀ items, readModuleItems options ts = .ok items →
        Separated ts ∧ ((ts.map Token.lexeme).head? ≠ some (.ident "$info") →
          Separates ts (ModuleItem.uncommented items).length)) ∧
      (∀ ds, readDecls options ts = .ok ds → Separates ts (Decl.uncommented ds).length) ∧
      (∀ ds, readDecl options ts = .ok ds → Separates ts (Decl.uncommented ds).length) ∧
      (∀ item, readBlockItem options ts = .ok item → Separates ts item.count) ∧
      ∀ init, readForInit options ts = .ok init → Separates ts init.count) ∧
    (¬ Separated ts →
      (∃ f, readPorts options ts = .error f) ∧ (∃ f, readModuleItems options ts = .error f) ∧
      (∃ f, readDecls options ts = .error f) ∧ (∃ f, readDecl options ts = .error f) ∧
      (∃ f, readBlockItem options ts = .error f) ∧ ∃ f, readForInit options ts = .error f) := by
  refine ⟨⟨?_, ?_, ?_, ?_, ?_, ?_⟩, fun hsep => ⟨?_, ?_, ?_, ?_, ?_, ?_⟩⟩
  · exact fun p h => separates_of_readPorts h hne
  · exact fun items h => separates_of_readModuleItems h hne
  · exact fun ds h => separates_of_readDecls h hne
  · exact fun ds h => separates_of_readDecl h hne
  · exact fun item h => separates_of_readBlockItem h
  · exact fun init h => separates_of_readForInit h hne
  · exact exists_error_of_forall_ok fun p h => hsep (separates_of_readPorts h hne).separated
  · exact exists_error_of_forall_ok fun items h => hsep (separates_of_readModuleItems h hne).1
  · exact exists_error_of_forall_ok fun ds h => hsep (separates_of_readDecls h hne).separated
  · exact exists_error_of_forall_ok fun ds h => hsep (separates_of_readDecl h hne).separated
  · exact exists_error_of_forall_ok fun item h => hsep (separates_of_readBlockItem h).separated
  · exact exists_error_of_forall_ok fun init h => hsep (separates_of_readForInit h hne).separated

unseal Declarator.takeList DeclGroup.takeAll in
/-- The ports of two groups are separated by one comma, and an instance with a comma behind it is an
error. -/
theorem readers_separate_ports :
    (∃ items, readPorts ⟨true⟩
      [⟨.direction .input, ⟨"top.sv", 1, 10⟩⟩, ⟨.ident "a", ⟨"top.sv", 1, 16⟩⟩,
        ⟨.comma, ⟨"top.sv", 1, 17⟩⟩, ⟨.direction .output, ⟨"top.sv", 1, 19⟩⟩,
        ⟨.typeBase (.vector .logic), ⟨"top.sv", 1, 26⟩⟩, ⟨.ident "b", ⟨"top.sv", 1, 32⟩⟩] =
      .ok ⟨["a", "b"], items⟩) ∧
    Separates
      [⟨.direction .input, ⟨"top.sv", 1, 10⟩⟩, ⟨.ident "a", ⟨"top.sv", 1, 16⟩⟩,
        ⟨.comma, ⟨"top.sv", 1, 17⟩⟩, ⟨.direction .output, ⟨"top.sv", 1, 19⟩⟩,
        ⟨.typeBase (.vector .logic), ⟨"top.sv", 1, 26⟩⟩, ⟨.ident "b", ⟨"top.sv", 1, 32⟩⟩] 2 ∧
    ∃ f, readModuleItems ⟨true⟩
      [⟨.ident "Fifo", ⟨"top.sv", 2, 1⟩⟩, ⟨.ident "a", ⟨"top.sv", 2, 6⟩⟩,
        ⟨.ports [], ⟨"top.sv", 2, 8⟩⟩, ⟨.comma, ⟨"top.sv", 2, 10⟩⟩] = .error f := by
  refine (fun h => ⟨h, ?_, ?_⟩) ⟨_, rfl⟩
  · obtain ⟨items, hports⟩ := h
    exact (readers_separate ⟨true⟩ (List.cons_ne_nil _ _)).1.1 _ hports
  · refine ((readers_separate ⟨true⟩ (List.cons_ne_nil _ _)).2 fun hsep => ?_).2.1
    cases hsep.last ⟨.comma, ⟨"top.sv", 2, 10⟩⟩ rfl

end VerilogDecl
