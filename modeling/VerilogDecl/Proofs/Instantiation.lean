/-
**The grammar of instantiations.**

A list of instances names a module, binds its parameters or not, and lists instances with commas
between them; each has a name, one range if it is an array, and ports.  The reader checks the first
token, skips the parameters, cuts the rest at its commas and looks at each segment by itself.  This
module writes the grammar down as data and shows that the reader accepts nothing else: in a list
that has ports somewhere, every other shape is refused as such.

Main definitions:

* `VerilogDecl.InstanceWords`, `VerilogDecl.Instantiation` — the words of one instance, and of a
  list of instances, each with its `lexemes`;
* `VerilogDecl.Instantiation.read` — the instances that the words stand for.

Main results:

* `VerilogDecl.map_lexeme_eq_intercalate_iff` — lexemes between commas are those of the segments;
* `VerilogDecl.Instance.ofSegment?_eq_some_iff` — the segments that are read as an instance;
* `VerilogDecl.readInstances_eq_ok_iff`, `VerilogDecl.kind_of_readInstances` — the lists that are
  read as instances, and the class of the fault of all others;
* `VerilogDecl.readModuleItems_iff_instantiation` — **a list with ports is read exactly if it is an
  instantiation, as the instances that it spells**.
-/

import VerilogDecl.ModuleItem.Reading
import VerilogDecl.Proofs.GroupWriting

set_option relaxedAutoImplicit false
set_option autoImplicit false

namespace VerilogDecl

open Token

/-! ### Reading the members of a list -/

section Traversal

variable {α β ε : Type} {f : α → Except ε β}

/-- All members are read exactly if each of them is. -/
theorem mapM_eq_ok_iff {xs : List α} {ys : List β} :
    xs.mapM f = .ok ys ↔ List.Forall₂ (fun x y => f x = .ok y) xs ys := by
  induction xs generalizing ys with
  | nil => simp [pure, Except.pure, eq_comm]
  | cons x xs ih =>
      rw [List.mapM_cons, List.forall₂_cons_left_iff]
      cases hx : f x with
      | error e => simp [bind, Except.bind]
      | ok y =>
          cases hxs : xs.mapM f with
          | error e => simp [bind, Except.bind, ← ih, hxs]
          | ok ys' => simp [bind, Except.bind, pure, Except.pure, ← ih, hxs, eq_comm]

/-- The fault of a list is that of one of its members. -/
theorem exists_mem_of_mapM_eq_error {xs : List α} {e : ε} (h : xs.mapM f = .error e) :
    ∃ x ∈ xs, f x = .error e := by
  induction xs with
  | nil => cases h
  | cons x xs ih =>
      rw [List.mapM_cons] at h
      cases hx : f x with
      | error e' =>
          obtain rfl : e' = e := by simpa [hx, bind, Except.bind] using h
          exact ⟨x, List.mem_cons_self .., hx⟩
      | ok y =>
          cases hxs : xs.mapM f with
          | error e' =>
              obtain rfl : e' = e := by simpa [hx, hxs, bind, Except.bind] using h
              obtain ⟨x', hmem, hx'⟩ := ih hxs
              exact ⟨x', List.mem_cons_of_mem _ hmem, hx'⟩
          | ok ys => simp [hx, hxs, bind, Except.bind, pure, Except.pure] at h

end Traversal

/-! ### Lexemes between commas -/

theorem CommaJoin.map_lexeme {segs : List (List Token)} {ts : List Token} (h : CommaJoin segs ts) :
    ts.map Token.lexeme = [Lexeme.comma].intercalate (segs.map (List.map Token.lexeme)) := by
  induction h with
  | nil => rfl
  | single seg => rw [List.map_singleton, List.intercalate_singleton]
  | cons seg pos _ ih =>
      simp only [List.map_append, List.map_cons, ih, List.intercalate_cons_cons,
        List.append_assoc, List.singleton_append]

/-- A list is written with commas between lists of other lexemes exactly if these are the lexemes of
its segments. -/
theorem map_lexeme_eq_intercalate_iff {ts : List Token} {lss : List (List Lexeme)}
    (hne : lss ≠ []) (hfree : ∀ ls ∈ lss, ∀ l ∈ ls, l.isSeparator = false) :
    ts.map Token.lexeme = [Lexeme.comma].intercalate lss ↔
      (segments ts).map (List.map Token.lexeme) = lss := by
  constructor
  · intro h
    obtain ⟨segs, rfl, hj⟩ := exists_commaJoin_of_intercalate h
    have hsegs : ∀ seg ∈ segs, CommaFree seg := by
      intro seg hseg
      exact commaFree_of_lexemes (hfree _ (List.mem_map_of_mem hseg))
    rw [hj.segments_eq (by simpa using hne) hsegs]
  · rintro rfl
    exact (commaJoin_segments ts).map_lexeme

/-! ### The words of an instantiation -/

/-- The words of one instance. -/
structure InstanceWords where
  /-- The name. -/
  name : String
  /-- The range of an array of instances, if it is one. -/
  range : Option Range
  /-- The ports. -/
  ports : List (Binding Expr)

namespace InstanceWords

/-- The lexemes of an instance. -/
def lexemes (w : InstanceWords) : List Lexeme :=
  .ident w.name :: ((w.range.map (.range .nonIndexed)).toList ++ [.ports w.ports])

/-- The instance of a module that the words stand for. -/
def read (moduleName : String) (params : List (Binding ParamValue)) (w : InstanceWords) :
    Instance :=
  ⟨moduleName, params, w.name, w.range.toList, w.ports⟩

theorem isSeparator_of_mem_lexemes {w : InstanceWords} {l : Lexeme} (h : l ∈ w.lexemes) :
    l.isSeparator = false := by
  rcases List.mem_cons.1 h with rfl | h
  · rfl
  rcases List.mem_append.1 h with h | h
  · obtain ⟨r, -, rfl⟩ : ∃ r, w.range = some r ∧ .range .nonIndexed r = l := by simpa using h
    rfl
  · rw [List.mem_singleton.1 h]
    rfl

end InstanceWords

/-- The words of a list of instances of one module. -/
structure Instantiation where
  /-- The module. -/
  moduleName : String
  /-- The parameters, if there are some. -/
  params : Option (List (Binding ParamValue))
  /-- The words of the instances. -/
  instances : List InstanceWords
  /-- There is an instance. -/
  instances_ne_nil : instances ≠ []

namespace Instantiation

/-- The lexemes of the instances, with commas between them. -/
def instanceLexemes (i : Instantiation) : List Lexeme :=
  [Lexeme.comma].intercalate (i.instances.map InstanceWords.lexemes)

/-- The lexemes of a list of instances: module, parameters and instances. -/
def lexemes (i : Instantiation) : List Lexeme :=
  .ident i.moduleName :: ((i.params.map .params).toList ++ i.instanceLexemes)

/-- The instances that the words stand for. -/
def read (i : Instantiation) : List Instance :=
  i.instances.map (InstanceWords.read i.moduleName (i.params.getD []))

/-- The instances start with a name. -/
theorem exists_cons_instanceLexemes (i : Instantiation) :
    ∃ name ls, i.instanceLexemes = .ident name :: ls := by
  obtain ⟨w, ws, hw⟩ := List.exists_cons_of_ne_nil i.instances_ne_nil
  rw [instanceLexemes, hw]
  cases ws with
  | nil => exact ⟨w.name, _, List.intercalate_singleton⟩
  | cons w' ws => exact ⟨w.name, _, List.intercalate_cons_cons ..⟩

/-- The instances are spelled by the segments. -/
theorem map_lexeme_eq_iff (i : Instantiation) {ts : List Token} :
    ts.map Token.lexeme = i.instanceLexemes ↔
      (segments ts).map (List.map Token.lexeme) = i.instances.map InstanceWords.lexemes := by
  refine map_lexeme_eq_intercalate_iff (by simpa using i.instances_ne_nil) ?_
  intro ls hls l hl
  obtain ⟨w, -, rfl⟩ := List.mem_map.1 hls
  exact InstanceWords.isSeparator_of_mem_lexemes hl

end Instantiation

/-! ### Reading instances -/

/-- A segment is read as an instance exactly if it spells one. -/
theorem Instance.ofSegment?_eq_some_iff {moduleName : String} {params : List (Binding ParamValue)}
    {seg : List Token} {i : Instance} :
    ofSegment? moduleName params seg = some i ↔
      ∃ w : InstanceWords, seg.map Token.lexeme = w.lexemes ∧ i = w.read moduleName params := by
  constructor
  · intro h
    unfold ofSegment? at h
    split at h
    next name pos ports pos' =>
      cases h
      exact ⟨⟨name, none, ports⟩, rfl, rfl⟩
    next name pos r pos' ports pos'' =>
      cases h
      exact ⟨⟨name, some r, ports⟩, rfl, rfl⟩
    next => cases h
  · rintro ⟨⟨name, range, ports⟩, hseg, rfl⟩
    obtain ⟨⟨_, pos⟩, us, rfl, rfl, hus⟩ := List.map_eq_cons_iff.1 hseg
    cases range with
    | none =>
        obtain ⟨⟨_, pos'⟩, rfl, rfl⟩ := List.map_eq_singleton_iff.1 hus
        rfl
    | some r =>
        obtain ⟨⟨_, pos'⟩, vs, rfl, rfl, hvs⟩ := List.map_eq_cons_iff.1 hus
        obtain ⟨⟨_, pos''⟩, rfl, rfl⟩ := List.map_eq_singleton_iff.1 hvs
        rfl

theorem forall₂_ofSegment?_iff {moduleName : String} {params : List (Binding ParamValue)}
    {segs : List (List Token)} {is : List Instance} :
    List.Forall₂ (fun seg i => Instance.ofSegment? moduleName params seg = some i) segs is ↔
      ∃ ws : List InstanceWords, segs.map (List.map Token.lexeme) = ws.map InstanceWords.lexemes ∧
        is = ws.map (InstanceWords.read moduleName params) := by
  constructor
  · intro h
    induction h with
    | nil => exact ⟨[], rfl, rfl⟩
    | cons hi _ ih =>
        obtain ⟨w, hw, rfl⟩ := Instance.ofSegment?_eq_some_iff.1 hi
        obtain ⟨ws, hws, rfl⟩ := ih
        exact ⟨w :: ws, by rw [List.map_cons, List.map_cons, hw, hws], rfl⟩
  · rintro ⟨ws, hws, rfl⟩
    induction ws generalizing segs with
    | nil =>
        obtain rfl : segs = [] := by simpa using hws
        exact List.Forall₂.nil
    | cons w ws ih =>
        obtain ⟨seg, segs, rfl, hseg, hsegs⟩ := List.map_eq_cons_iff.1 hws
        exact List.Forall₂.cons (Instance.ofSegment?_eq_some_iff.2 ⟨w, hseg, rfl⟩) (ih hsegs)

theorem exists_words_of_takeParams (ts : List Token) :
    ∃ (params : Option (List (Binding ParamValue))) (ps : List Token),
      ts = ps ++ (takeParams ts).2 ∧ ps.map Token.lexeme = (params.map Lexeme.params).toList ∧
        (takeParams ts).1 = params.getD [] := by
  unfold takeParams
  split
  next bindings pos ts => exact ⟨some bindings, [⟨.params bindings, pos⟩], rfl, rfl, rfl⟩
  next => exact ⟨none, [], rfl, rfl, rfl⟩

theorem takeParams_append {params : Option (List (Binding ParamValue))} {ps rest : List Token}
    (hp : ps.map Token.lexeme = (params.map Lexeme.params).toList)
    (hr : ∀ bindings, (rest.map Token.lexeme).head? ≠ some (.params bindings)) :
    takeParams (ps ++ rest) = (params.getD [], rest) := by
  cases params with
  | none =>
      obtain rfl : ps = [] := by simpa using hp
      cases rest with
      | nil => rfl
      | cons t rest =>
          obtain ⟨l, pos⟩ := t
          cases l with
          | params bindings => exact absurd rfl (hr bindings)
          | _ => rfl
  | some bindings =>
      obtain ⟨⟨_, pos⟩, rfl, rfl⟩ := List.map_eq_singleton_iff.1 hp
      rfl

/-- What a segment is read as, or what is wrong with it. -/
def Instance.ofSegment (whole : List Token) (moduleName : String)
    (params : List (Binding ParamValue)) (seg : List Token) : Except Fault Instance :=
  match ofSegment? moduleName params seg with
  | some i => .ok i
  | none => .error (fault whole seg)

theorem Instance.ofSegment_eq_ok_iff {whole : List Token} {moduleName : String}
    {params : List (Binding ParamValue)} {seg : List Token} {i : Instance} :
    ofSegment whole moduleName params seg = .ok i ↔ ofSegment? moduleName params seg = some i := by
  unfold ofSegment
  cases ofSegment? moduleName params seg with
  | none => simp
  | some i' => simp

theorem Instance.eq_fault_of_ofSegment {whole : List Token} {moduleName : String}
    {params : List (Binding ParamValue)} {seg : List Token} {f : Fault}
    (h : ofSegment whole moduleName params seg = .error f) : f = fault whole seg := by
  unfold ofSegment at h
  split at h
  · cases h
  · exact (Except.error.inj h).symm

/-- Instances are read behind the name of the module and its parameters, segment by segment. -/
theorem readInstances_cons (moduleName : String) (pos : Position) (rest : List Token) :
    readInstances (⟨.ident moduleName, pos⟩ :: rest) =
      (segments (takeParams rest).2).mapM
        (Instance.ofSegment (⟨.ident moduleName, pos⟩ :: rest) moduleName (takeParams rest).1) :=
  rfl

/-- Nothing but instances of a named module is read as instances. -/
theorem exists_cons_of_readInstances {ts : List Token} {is : List Instance}
    (h : readInstances ts = .ok is) :
    ∃ moduleName pos rest, ts = ⟨.ident moduleName, pos⟩ :: rest := by
  unfold readInstances at h
  split at h
  next moduleName pos rest => exact ⟨moduleName, pos, rest, rfl⟩
  next => cases h

/-- **A list is read as instances exactly if it spells an instantiation.** -/
theorem readInstances_eq_ok_iff {ts : List Token} {is : List Instance} :
    readInstances ts = .ok is ↔
      ∃ i : Instantiation, ts.map Token.lexeme = i.lexemes ∧ is = i.read := by
  constructor
  · intro h
    obtain ⟨moduleName, pos, rest, rfl⟩ := exists_cons_of_readInstances h
    rw [readInstances_cons, mapM_eq_ok_iff] at h
    have hread := h.imp fun seg i => Instance.ofSegment_eq_ok_iff.1
    obtain ⟨ws, hws, rfl⟩ := forall₂_ofSegment?_iff.1 hread
    obtain ⟨params, ps, hrest, hps, hparams⟩ := exists_words_of_takeParams rest
    have hne : ws ≠ [] := by
      rintro rfl
      exact segments_ne_nil _ (by simpa using hws)
    let i : Instantiation := ⟨moduleName, params, ws, hne⟩
    refine ⟨i, ?_, by rw [hparams]; rfl⟩
    rw [hrest, List.map_cons, List.map_append, hps, i.map_lexeme_eq_iff.2 hws]
    rfl
  · rintro ⟨i, hts, rfl⟩
    obtain ⟨⟨_, pos⟩, rest, rfl, rfl, hrest⟩ := List.map_eq_cons_iff.1 hts
    obtain ⟨ps, us, rfl, hps, hus⟩ := List.map_eq_append_iff.1 hrest
    -- the instances start with a name, so that no second list of parameters is skipped
    have hhead : ∀ bindings, (us.map Token.lexeme).head? ≠ some (.params bindings) := by
      intro bindings hhead
      obtain ⟨name, ls, hls⟩ := i.exists_cons_instanceLexemes
      rw [hus, hls] at hhead
      cases hhead
    rw [readInstances_cons, takeParams_append hps hhead, mapM_eq_ok_iff]
    refine List.Forall₂.imp (fun seg j => Instance.ofSegment_eq_ok_iff.2) ?_
    exact forall₂_ofSegment?_iff.2 ⟨i.instances, i.map_lexeme_eq_iff.1 hus, rfl⟩

theorem Instance.kind_fault (whole seg : List Token) : (fault whole seg).kind = .shape := by
  unfold fault
  split
  · rfl
  split
  · rfl
  · rfl

/-- Whatever is not read as instances has the wrong shape. -/
theorem kind_of_readInstances {ts : List Token} {f : Fault} (h : readInstances ts = .error f) :
    f.kind = .shape := by
  unfold readInstances at h
  split at h
  next moduleName pos rest =>
    obtain ⟨seg, -, hseg⟩ := exists_mem_of_mapM_eq_error h
    rw [Instance.eq_fault_of_ofSegment hseg]
    exact Instance.kind_fault _ seg
  next =>
    cases h
    rfl

/-! ### Items of a module body -/

theorem ElaborationTask.ofName?_eq_none_iff {name : String} :
    ofName? name = none ↔ name ∉ ["$fatal", "$error", "$warning", "$info"] := by
  unfold ofName?
  grind

theorem leadingTask?_eq_none_iff {ts : List Token} :
    leadingTask? ts = none ↔ ∀ name ∈ ["$fatal", "$error", "$warning", "$info"],
      (ts.map Token.lexeme).head? ≠ some (.ident name) := by
  unfold leadingTask?
  split
  next name pos rest =>
    rw [ElaborationTask.ofName?_eq_none_iff]
    constructor
    · rintro h name' hmem ⟨⟩
      exact h hmem
    · intro h hmem
      exact h name hmem rfl
  next hhead =>
    refine iff_of_true rfl ?_
    intro name _ hname
    obtain ⟨ls, hls⟩ := List.head?_eq_some_iff.1 hname
    obtain ⟨⟨_, pos⟩, rest, rfl, rfl, -⟩ := List.map_eq_cons_iff.1 hls
    exact hhead name pos rest rfl

/-- Where ports stand somewhere and no task stands in front, instances are read. -/
theorem readModuleItems_of_isPorts (options : Options) {ts : List Token}
    (hports : ∃ t ∈ ts, t.lexeme.isPorts = true)
    (hplain : ∀ t ∈ ts, t.lexeme.isImproperAssign = false) (htask : leadingTask? ts = none) :
    readModuleItems options ts = (readInstances ts).map (List.map .inst) := by
  have hany : ts.any (·.lexeme.isPorts) = true := List.any_eq_true.2 hports
  simp only [readModuleItems, refuseImproperAssigns_eq_ok_iff.2 hplain, htask, hany, bind,
    Except.bind, pure, Except.pure, if_true]
  cases readInstances ts with
  | error f => rfl
  | ok is => rfl

/-- **A list with ports, with plain assignments only and without an elaboration task in front is
read exactly if it is an instantiation, and then as the instances that it spells; otherwise it is
refused for its shape.** -/
theorem readModuleItems_iff_instantiation (options : Options) {ts : List Token}
    (hports : ∃ t ∈ ts, t.lexeme.isPorts = true)
    (hplain : ∀ t ∈ ts, t.lexeme.isImproperAssign = false)
    (htask : ∀ name ∈ ["$fatal", "$error", "$warning", "$info"],
      (ts.map Token.lexeme).head? ≠ some (.ident name)) :
    (∀ items, readModuleItems options ts = .ok items ↔
      ∃ i : Instantiation, ts.map Token.lexeme = i.lexemes ∧ items = i.read.map .inst) ∧
    ((¬ ∃ i : Instantiation, ts.map Token.lexeme = i.lexemes) →
      ∃ f, readModuleItems options ts = .error f ∧ f.kind = .shape) := by
  rw [readModuleItems_of_isPorts options hports hplain (leadingTask?_eq_none_iff.2 htask)]
  cases h : readInstances ts with
  | error f =>
      refine ⟨fun items => iff_of_false (by simp [Except.map]) ?_, fun _ => ?_⟩
      · rintro ⟨i, hi, -⟩
        rw [readInstances_eq_ok_iff.2 ⟨i, hi, rfl⟩] at h
        cases h
      · exact ⟨f, rfl, kind_of_readInstances h⟩
  | ok is =>
      obtain ⟨i, hi, rfl⟩ := readInstances_eq_ok_iff.1 h
      refine ⟨fun items => ⟨?_, ?_⟩, fun hnone => absurd ⟨i, hi⟩ hnone⟩
      · intro hitems
        exact ⟨i, hi, (Except.ok.inj hitems).symm⟩
      · rintro ⟨j, hj, rfl⟩
        have hread := h.symm.trans (readInstances_eq_ok_iff.2 ⟨j, hj, rfl⟩)
        rw [Except.ok.inj hread]
        rfl

/-- A single instance and an array of instances behind parameters are read, and nothing is read
where an instance is missing behind a comma. -/
theorem readModuleItems_iff_instantiation_array :
    readModuleItems ⟨true⟩
      [⟨.ident "Fifo", ⟨"top.sv", 1, 1⟩⟩,
        ⟨.params [⟨"W", .expr (.number "8")⟩], ⟨"top.sv", 1, 6⟩⟩,
        ⟨.ident "a", ⟨"top.sv", 1, 15⟩⟩, ⟨.ports [⟨"", .ident "x"⟩], ⟨"top.sv", 1, 17⟩⟩,
        ⟨.comma, ⟨"top.sv", 1, 20⟩⟩, ⟨.ident "b", ⟨"top.sv", 1, 22⟩⟩,
        ⟨.range .nonIndexed ⟨.number "3", .number "0"⟩, ⟨"top.sv", 1, 24⟩⟩,
        ⟨.ports [⟨"in", .ident "y"⟩], ⟨"top.sv", 1, 30⟩⟩] =
      .ok
        [.inst ⟨"Fifo", [⟨"W", .expr (.number "8")⟩], "a", [], [⟨"", .ident "x"⟩]⟩,
          .inst ⟨"Fifo", [⟨"W", .expr (.number "8")⟩], "b", [⟨.number "3", .number "0"⟩],
            [⟨"in", .ident "y"⟩]⟩] ∧
    ∃ f, readModuleItems ⟨true⟩
      [⟨.ident "Fifo", ⟨"top.sv", 1, 1⟩⟩, ⟨.ident "a", ⟨"top.sv", 1, 6⟩⟩,
        ⟨.ports [⟨"", .ident "x"⟩], ⟨"top.sv", 1, 8⟩⟩, ⟨.comma, ⟨"top.sv", 1, 11⟩⟩] = .error f ∧
      f.kind = .shape := by
  constructor
  · let i : Instantiation :=
      ⟨"Fifo", some [⟨"W", .expr (.number "8")⟩],
        [⟨"a", none, [⟨"", .ident "x"⟩]⟩,
          ⟨"b", some ⟨.number "3", .number "0"⟩, [⟨"in", .ident "y"⟩]⟩],
        List.cons_ne_nil _ _⟩
    refine ((readModuleItems_iff_instantiation ⟨true⟩ ?_ ?_ ?_).1 _).2 ⟨i, rfl, rfl⟩
    · exact ⟨⟨.ports [⟨"", .ident "x"⟩], ⟨"top.sv", 1, 17⟩⟩, by simp, rfl⟩
    · simp [Lexeme.isImproperAssign]
    · simp
  · refine (readModuleItems_iff_instantiation ⟨true⟩ ?_ ?_ ?_).2 ?_
    · exact ⟨⟨.ports [⟨"", .ident "x"⟩], ⟨"top.sv", 1, 8⟩⟩, by simp, rfl⟩
    · simp [Lexeme.isImproperAssign]
    · simp
    · rintro ⟨i, hi⟩
      cases readInstances_eq_ok_iff.2 ⟨i, hi, rfl⟩

end VerilogDecl
