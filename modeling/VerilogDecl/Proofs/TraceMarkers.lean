/-
**Trace comments only decorate.**

On demand the readers put a comment in front of every group of declarations and every statement.
The comments are inserted early: directions are passed on, names of ports are collected and loops
are checked after that.  This module shows that nothing but the comments depends on the choice.
Two runs on the same tokens fail alike or give values that differ by comments only, and the comments
are those that were asked for: one for each group, right in front of its first variable, with the
place of the first token that the group was read from.

Main definitions:

* `VerilogDecl.Decl.uncommented`, `VerilogDecl.BlockItem.uncommented`, … — erase all comments;
* `VerilogDecl.DeclGroup.Traced`, `VerilogDecl.Decl.Marked` — declarations with one comment for each
  group, and such declarations as they belong to a list of tokens;
* `VerilogDecl.OnlyDecorates` — a reader for which comments are decoration.

Main results:

* `VerilogDecl.readDecls_uncommented`, `VerilogDecl.readPorts_uncommented`, … — **erasing the
  comments gives what is read without them**;
* `VerilogDecl.DeclGroup.Traced.inheritDirectionsFrom` — passing on directions keeps the comments in
  place;
* `VerilogDecl.markers_onlyDecorate` — **for every reader trace comments are decoration**.
-/

import VerilogDecl.Proofs.ForInitItems
import VerilogDecl.Proofs.GroupStretches
import VerilogDecl.Proofs.PassedDirections
import VerilogDecl.Proofs.ReaderSuccess

set_option relaxedAutoImplicit false
set_option autoImplicit false

namespace VerilogDecl

open Token

/-! ### Erasing comments -/

namespace Decl

/-- Is this a comment? -/
def isComment : Decl → Bool
  | var _ => false
  | comment _ => true

/-- The declarations that are no comments. -/
def uncommented (ds : List Decl) : List Decl :=
  ds.filter (!·.isComment)

@[simp] theorem uncommented_nil : uncommented [] = [] := rfl

@[simp] theorem uncommented_var_cons (v : Variable) (ds : List Decl) :
    uncommented (var v :: ds) = var v :: uncommented ds := rfl

@[simp] theorem uncommented_comment_cons (s : String) (ds : List Decl) :
    uncommented (comment s :: ds) = uncommented ds := rfl

/-- Erasing comments loses no variable. -/
theorem filterMap_declared?_uncommented (ds : List Decl) :
    (uncommented ds).filterMap declared? = ds.filterMap declared? := by
  induction ds with
  | nil => rfl
  | cons d ds ih =>
      cases d with
      | var v => simp [ih]
      | comment s =>
          rw [uncommented_comment_cons, ih, List.filterMap_cons_none (declared?_comment s)]

end Decl

namespace Stmt

/-- Is this a comment? -/
def isComment : Stmt → Bool
  | comment _ => true
  | assign .. | call .. => false

/-- The statements that are no comments. -/
def uncommented (ss : List Stmt) : List Stmt :=
  ss.filter (!·.isComment)

@[simp] theorem isComment_comment (text : String) : (comment text).isComment = true := rfl

/-- What is spelled is no comment. -/
theorem SpelledBy.isComment_eq {s : Stmt} {ls : List Lexeme} (h : s.SpelledBy ls) :
    s.isComment = false := by
  cases h <;> rfl

theorem uncommented_traced {s : Stmt} (h : s.isComment = false) (options : Options)
    (pos : Position) : uncommented (s.traced options pos) = [s] := by
  obtain ⟨markers⟩ := options
  cases markers with
  | false => simp [traced, uncommented, h]
  | true => simp [traced, uncommented, h]

end Stmt

namespace ModuleItem

/-- Is this a comment? -/
def isComment : ModuleItem → Bool
  | decl d => d.isComment
  | inst _ => false

/-- The items that are no comments. -/
def uncommented (items : List ModuleItem) : List ModuleItem :=
  items.filter (!·.isComment)

theorem uncommented_map_decl (ds : List Decl) :
    uncommented (ds.map decl) = (Decl.uncommented ds).map decl := by
  rw [uncommented, List.filter_map]
  rfl

theorem uncommented_map_inst (is : List Instance) : uncommented (is.map inst) = is.map inst := by
  refine List.filter_eq_self.2 fun item hitem => ?_
  obtain ⟨i, -, rfl⟩ := List.mem_map.1 hitem
  rfl

end ModuleItem

/-- A port list without comments among its declarations. -/
def PortList.uncommented (p : PortList) : PortList :=
  { p with items := ModuleItem.uncommented p.items }

/-- An item of a block without comments. -/
def BlockItem.uncommented : BlockItem → BlockItem
  | decls ds => decls (Decl.uncommented ds)
  | stmts ss => stmts (Stmt.uncommented ss)

/-- An initialization without comments.  Assignments of a loop have none. -/
def ForInit.uncommented : ForInit → ForInit
  | decls ds => decls (Decl.uncommented ds)
  | assigns as => assigns as

/-! ### What is done with declarations does not see comments -/

theorem inheritDirectionsFrom_uncommented (last : Direction) (ds : List Decl) :
    inheritDirectionsFrom last (Decl.uncommented ds) =
      Decl.uncommented (inheritDirectionsFrom last ds) := by
  refine inheritDirectionsFrom_filter (fun d hd => ?_) last ds
  cases d with
  | var v => rfl
  | comment s => cases hd

theorem PortList.uncommented_ofDecls (ds : List Decl) :
    (ofDecls ds).uncommented = ofDecls (Decl.uncommented ds) := by
  simp only [ofDecls, uncommented, inheritDirections, inheritDirectionsFrom_uncommented,
    Decl.filterMap_declared?_uncommented, ModuleItem.uncommented_map_decl]

theorem uninitialized?_uncommented (ds : List Decl) :
    uninitialized? (Decl.uncommented ds) = uninitialized? ds := by
  rw [uninitialized?, uninitialized?, Decl.filterMap_declared?_uncommented]

namespace DeclGroup

/-- Without its comment a group is its variables. -/
theorem uncommented_decls (options : Options) (g : DeclGroup) :
    Decl.uncommented (g.decls options) = g.decls ⟨false⟩ := by
  have hvars : Decl.uncommented (g.decls ⟨false⟩) = g.decls ⟨false⟩ := by
    refine List.filter_eq_self.2 fun d hd => ?_
    obtain ⟨v, -, rfl⟩ := List.mem_map.1 hd
    rfl
  obtain ⟨markers⟩ := options
  cases markers with
  | false => exact hvars
  | true => exact hvars

theorem uncommented_flatMap_decls (options : Options) (gs : List DeclGroup) :
    Decl.uncommented (gs.flatMap (·.decls options)) = gs.flatMap (·.decls ⟨false⟩) := by
  rw [Decl.uncommented, List.filter_flatMap]
  exact List.flatMap_congr fun g _ => g.uncommented_decls options

end DeclGroup

/-- Only instances stand in for an elaboration task. -/
theorem exists_instances_of_readElaborationTask {task : ElaborationTask} {ts : List Token}
    {items : List ModuleItem} (h : readElaborationTask task ts = .ok items) :
    ∃ is : List Instance, items = is.map .inst := by
  have hitems : ∀ args, ∃ is : List Instance, task.items args = is.map .inst := by
    intro args
    refine ⟨task.instanceName?.toList.map fun name =>
      ⟨ElaborationTask.moduleName, [], name, [], args⟩, ?_⟩
    rw [List.map_map]
    rfl
  unfold readElaborationTask at h
  split at h
  · exact Except.ok.inj h ▸ hitems []
  · exact Except.ok.inj h ▸ hitems _
  · cases h

/-! ### Readers with and without comments -/

section Readers

variable (options : Options) (ts : List Token)

theorem readDecls_uncommented :
    (readDecls options ts).map Decl.uncommented = readDecls ⟨false⟩ ts := by
  unfold readDecls
  cases refuseImproperAssigns ts with
  | error f => rfl
  | ok u =>
      cases readGroups ts with
      | error f => rfl
      | ok gs => exact congrArg Except.ok (DeclGroup.uncommented_flatMap_decls options gs)

theorem readDecl_uncommented :
    (readDecl options ts).map Decl.uncommented = readDecl ⟨false⟩ ts := by
  unfold readDecl
  cases refuseImproperAssigns ts with
  | error f => rfl
  | ok u =>
      cases readGroups ts with
      | error f => rfl
      | ok gs =>
          rcases gs with _ | ⟨g, _ | ⟨g', gs⟩⟩
          · rfl
          · exact congrArg Except.ok (g.uncommented_decls options)
          · rfl

theorem readPorts_uncommented :
    (readPorts options ts).map PortList.uncommented = readPorts ⟨false⟩ ts := by
  unfold readPorts
  cases refuseImproperAssigns ts with
  | error f => rfl
  | ok u =>
      cases bareNames? ts with
      | some names => rfl
      | none =>
          rw [← readDecls_uncommented options ts]
          cases readDecls options ts with
          | error f => rfl
          | ok ds => exact congrArg Except.ok (PortList.uncommented_ofDecls ds)

theorem readElaborationTask_uncommented (task : ElaborationTask) :
    (readElaborationTask task ts).map ModuleItem.uncommented = readElaborationTask task ts := by
  cases h : readElaborationTask task ts with
  | error f => rfl
  | ok items =>
      obtain ⟨is, rfl⟩ := exists_instances_of_readElaborationTask h
      exact congrArg Except.ok (ModuleItem.uncommented_map_inst is)

theorem readModuleItems_uncommented :
    (readModuleItems options ts).map ModuleItem.uncommented = readModuleItems ⟨false⟩ ts := by
  unfold readModuleItems
  cases refuseImproperAssigns ts with
  | error f => rfl
  | ok u =>
      cases leadingTask? ts with
      | some task => exact readElaborationTask_uncommented ts task
      | none =>
          cases ts.any (·.lexeme.isPorts) with
          | true =>
              cases readInstances ts with
              | error f => rfl
              | ok is => exact congrArg Except.ok (ModuleItem.uncommented_map_inst is)
          | false =>
              rw [← readDecl_uncommented options ts]
              cases readDecl options ts with
              | error f => rfl
              | ok ds => exact congrArg Except.ok (ModuleItem.uncommented_map_decl ds)

theorem readBlockItem_uncommented :
    (readBlockItem options ts).map BlockItem.uncommented = readBlockItem ⟨false⟩ ts := by
  cases ts with
  | nil => rfl
  | cons first rest =>
      simp only [readBlockItem]
      cases hs : Stmt.ofTokens (moveLeadingAssign (first :: rest)) with
      | error front => rfl
      | ok s? =>
          cases s? with
          | none =>
              simp only
              rw [← readDecl_uncommented options (first :: rest)]
              cases readDecl options (first :: rest) with
              | error f => rfl
              | ok ds => rfl
          | some s =>
              have hcomment := (Stmt.spelledBy_of_ofTokens hs).isComment_eq
              exact congrArg (Except.ok ∘ BlockItem.stmts)
                (Stmt.uncommented_traced hcomment options first.pos)

theorem readForInit_uncommented :
    (readForInit options ts).map ForInit.uncommented = readForInit ⟨false⟩ ts := by
  unfold readForInit
  cases refuseImproperAssigns ts with
  | error f => rfl
  | ok u =>
      cases ForInit.startsAssigns ts with
      | true =>
          cases ForAssign.takeAll ts ts with
          | error f => rfl
          | ok as => rfl
      | false =>
          rw [← readDecls_uncommented options ts]
          cases readDecls options ts with
          | error f => rfl
          | ok ds =>
              -- the check for initial values sees the same variables in both runs
              have hinit := uninitialized?_uncommented ds
              simp only [bind, Except.bind, Except.map, Bool.false_eq_true, if_false, hinit]
              cases uninitialized? ds with
              | none => rfl
              | some v => rfl

end Readers

/-! ### Where the comments stand -/

namespace DeclGroup

/-- The variables `vs` are those that the group `g` declares, one for each name and in order.  Their
directions may have been passed on from ports before them. -/
def Declares (g : DeclGroup) (vs : List Variable) : Prop :=
  List.Forall₂ (fun d v => ∃ dir, v = ⟨dir, g.type, d.name, d.ranges, d.init⟩) g.declarators vs

/-- The declarations are the variables of the groups `gs`, and those of each group stand right
behind one comment with the place of the group. -/
inductive Traced : List DeclGroup → List Decl → Prop
  | nil : Traced [] []
  | cons {g : DeclGroup} {vs : List Variable} {gs : List DeclGroup} {ds : List Decl} :
      g.Declares vs → vs ≠ [] → Traced gs ds →
      Traced (g :: gs) (.comment g.pos.trace :: (vs.map .var ++ ds))

theorem traced_flatMap_decls {gs : List DeclGroup} (h : ∀ g ∈ gs, g.declarators ≠ []) :
    Traced gs (gs.flatMap (·.decls ⟨true⟩)) := by
  induction gs with
  | nil => exact Traced.nil
  | cons g gs ih =>
      obtain ⟨hg, hgs⟩ := List.forall_mem_cons.1 h
      let vs : List Variable := g.declarators.map fun d => ⟨g.dir, g.type, d.name, d.ranges, d.init⟩
      have hvs : g.Declares vs :=
        List.forall₂_map_right_iff.2 (List.forall₂_same.2 fun d _ => ⟨g.dir, rfl⟩)
      have hne : vs ≠ [] := fun hnil => hg (List.map_eq_nil_iff.1 hnil)
      have hdecls : g.decls ⟨true⟩ = .comment g.pos.trace :: vs.map .var := by
        simp [decls, vs]
      rw [List.flatMap_cons, hdecls, List.cons_append]
      exact Traced.cons hvs hne (ih hgs)

/-- A run of variables stays a run of the same variables but for their directions. -/
theorem exists_inheritDirectionsFrom_append (last : Direction) (vs : List Variable)
    (ds : List Decl) :
    ∃ vs' last', inheritDirectionsFrom last (vs.map .var ++ ds) =
        vs'.map .var ++ inheritDirectionsFrom last' ds ∧
      List.Forall₂ (fun v v' => ∃ dir, v' = { v with dir := dir }) vs vs' := by
  induction vs generalizing last with
  | nil => exact ⟨[], last, rfl, List.Forall₂.nil⟩
  | cons v vs ih =>
      rw [List.map_cons, List.cons_append, inheritDirectionsFrom]
      split
      · obtain ⟨vs', last', heq, hvs⟩ := ih last
        exact ⟨v :: vs', last', by rw [heq]; rfl, List.Forall₂.cons ⟨v.dir, rfl⟩ hvs⟩
      · obtain ⟨vs', last', heq, hvs⟩ := ih (if v.dir = .unspecified then last else v.dir)
        refine ⟨{ v with dir := if v.dir = .unspecified then last else v.dir } :: vs', last', ?_,
          List.Forall₂.cons ⟨_, rfl⟩ hvs⟩
        simp only [heq, List.map_cons, List.cons_append]

theorem Declares.of_directions {g : DeclGroup} {vs vs' : List Variable} (h : g.Declares vs)
    (hvs : List.Forall₂ (fun v v' => ∃ dir, v' = { v with dir := dir }) vs vs') :
    g.Declares vs' := by
  unfold Declares at h ⊢
  generalize g.declarators = ds at h ⊢
  induction h generalizing vs' with
  | nil =>
      rw [List.forall₂_nil_left_iff.1 hvs]
      exact List.Forall₂.nil
  | @cons d v ds vs hd _ ih =>
      obtain ⟨v', vs', ⟨dir, rfl⟩, hrest, rfl⟩ := List.forall₂_cons_left_iff.1 hvs
      obtain ⟨dir', rfl⟩ := hd
      exact List.Forall₂.cons ⟨dir, rfl⟩ (ih hrest)

/-- **Passing on directions keeps every comment in front of its group.** -/
theorem Traced.inheritDirectionsFrom {gs : List DeclGroup} {ds : List Decl} (h : Traced gs ds)
    (last : Direction) : Traced gs (inheritDirectionsFrom last ds) := by
  induction h generalizing last with
  | nil => exact Traced.nil
  | @cons g vs gs ds hvs hne _ ih =>
      obtain ⟨vs', last', heq, hdirs⟩ := exists_inheritDirectionsFrom_append last vs ds
      rw [VerilogDecl.inheritDirectionsFrom, heq]
      refine Traced.cons (hvs.of_directions hdirs) ?_ (ih last')
      rintro rfl
      exact hne (List.forall₂_nil_right_iff.1 hdirs)

end DeclGroup

/-- The declarations `ds` belong to the tokens `ts`, with one comment for each group: the groups are
read from stretches of `ts`, and a comment names the place of the first token of its stretch. -/
def Decl.Marked (ts : List Token) (ds : List Decl) : Prop :=
  ∃ gs parts, readGroups ts = .ok gs ∧ CommaJoin parts ts ∧
    List.Forall₂ DeclGroup.ReadFrom gs parts ∧ DeclGroup.Traced gs ds

/-- A list of bare names has no comment, and any other port list has one for each group. -/
def PortList.Marked (ts : List Token) (p : PortList) : Prop :=
  if (bareNames? ts).isSome then p.items = []
  else ∃ ds, p.items = ds.map .decl ∧ Decl.Marked ts ds

/-- Instances have no comment, and declarations have one for their group. -/
def ModuleItem.Marked (ts : List Token) (items : List ModuleItem) : Prop :=
  (∃ is : List Instance, items = is.map .inst) ∨ ∃ ds, items = ds.map .decl ∧ Decl.Marked ts ds

/-- A statement has one comment with the place of the first token. -/
def BlockItem.Marked (ts : List Token) : BlockItem → Prop
  | decls ds => Decl.Marked ts ds
  | stmts ss => ∃ first s, ts.head? = some first ∧ s.isComment = false ∧
      ss = [.comment first.pos.trace, s]

/-- Declarations of a loop have one comment for each group; assignments have none. -/
def ForInit.Marked (ts : List Token) : ForInit → Prop
  | decls ds => Decl.Marked ts ds
  | assigns _ => True

section Marked

variable {ts : List Token}

theorem DeclGroup.declarators_ne_nil_of_readGroups {gs : List DeclGroup}
    (h : readGroups ts = .ok gs) {g : DeclGroup} (hg : g ∈ gs) : g.declarators ≠ [] := by
  rcases spelled_of_readGroups h with ⟨-, rfl⟩ | ⟨ss, -, rfl⟩
  · cases hg
  · exact Segment.declarators_ne_nil hg

theorem Decl.marked_of_readGroups {gs : List DeclGroup} (h : readGroups ts = .ok gs) :
    Decl.Marked ts (gs.flatMap (·.decls ⟨true⟩)) := by
  obtain ⟨parts, hparts, hread⟩ := exists_stretches_of_readGroups h
  refine ⟨gs, parts, h, hparts, hread, DeclGroup.traced_flatMap_decls fun g hg => ?_⟩
  exact DeclGroup.declarators_ne_nil_of_readGroups h hg

theorem Decl.marked_of_readDecls {ds : List Decl} (h : readDecls ⟨true⟩ ts = .ok ds) :
    Decl.Marked ts ds := by
  obtain ⟨-, gs, hgs, rfl⟩ := readDecls_eq_ok_iff.1 h
  exact marked_of_readGroups hgs

theorem Decl.marked_of_readDecl {ds : List Decl} (h : readDecl ⟨true⟩ ts = .ok ds) :
    Decl.Marked ts ds := by
  obtain ⟨-, g, hg, rfl⟩ := readDecl_eq_ok_iff.1 h
  have hmarked := marked_of_readGroups hg
  rwa [List.flatMap_singleton] at hmarked

theorem PortList.marked_of_readPorts {p : PortList} (h : readPorts ⟨true⟩ ts = .ok p) :
    p.Marked ts := by
  unfold Marked
  obtain ⟨-, ⟨names, hnames, rfl⟩ | ⟨hnames, ds, hds, rfl⟩⟩ := readPorts_eq_ok_iff.1 h
  · rw [if_pos (by rw [hnames]; rfl)]
  · rw [if_neg (by rw [hnames]; simp)]
    obtain ⟨gs, parts, hgs, hparts, hread, htraced⟩ := Decl.marked_of_readDecls hds
    exact ⟨inheritDirections ds, rfl, gs, parts, hgs, hparts, hread,
      htraced.inheritDirectionsFrom .unspecified⟩

theorem ModuleItem.marked_of_readModuleItems {items : List ModuleItem}
    (h : readModuleItems ⟨true⟩ ts = .ok items) : ModuleItem.Marked ts items := by
  obtain ⟨-, ⟨task, -, htask⟩ | ⟨-, -, is, -, rfl⟩ | ⟨-, -, ds, hds, rfl⟩⟩ :=
    readModuleItems_eq_ok_iff.1 h
  · exact Or.inl (exists_instances_of_readElaborationTask htask)
  · exact Or.inl ⟨is, rfl⟩
  · exact Or.inr ⟨ds, rfl, Decl.marked_of_readDecl hds⟩

theorem BlockItem.marked_of_readBlockItem {item : BlockItem}
    (h : readBlockItem ⟨true⟩ ts = .ok item) : item.Marked ts := by
  rcases readBlockItem_eq_ok_iff.1 h with ⟨first, s, hfirst, hs, rfl⟩ | ⟨-, -, ds, hds, rfl⟩
  · exact ⟨first, s, hfirst, (Stmt.spelledBy_of_ofTokens hs).isComment_eq, rfl⟩
  · exact Decl.marked_of_readDecl hds

theorem ForInit.marked_of_readForInit {init : ForInit} (h : readForInit ⟨true⟩ ts = .ok init) :
    init.Marked ts := by
  obtain ⟨-, ⟨-, as, -, rfl⟩ | ⟨-, ds, hds, -, rfl⟩⟩ := readForInit_eq_ok_iff.1 h
  · exact trivial
  · exact Decl.marked_of_readDecls hds

end Marked

/-! ### Comments are decoration -/

/-- Trace comments only decorate what `reader` reads from `ts`. -/
structure OnlyDecorates {α : Type} (reader : Options → List Token → Except Fault α)
    (uncommented : α → α) (Marked : List Token → α → Prop) (ts : List Token) : Prop where
  /-- With and without comments the same faults are found. -/
  faults : ∀ f, reader ⟨true⟩ ts = .error f ↔ reader ⟨false⟩ ts = .error f
  /-- Erasing the comments gives what is read without them. -/
  values : ∀ a, reader ⟨true⟩ ts = .ok a → reader ⟨false⟩ ts = .ok (uncommented a)
  /-- Without comments there is nothing to erase. -/
  plain : ∀ a, reader ⟨false⟩ ts = .ok a → uncommented a = a
  /-- The comments stand where they should. -/
  marked : ∀ a, reader ⟨true⟩ ts = .ok a → Marked ts a

theorem OnlyDecorates.of_uncommented {α : Type}
    {reader : Options → List Token → Except Fault α} {uncommented : α → α}
    {Marked : List Token → α → Prop} {ts : List Token}
    (hread : ∀ options, (reader options ts).map uncommented = reader ⟨false⟩ ts)
    (hmarked : ∀ a, reader ⟨true⟩ ts = .ok a → Marked ts a) :
    OnlyDecorates reader uncommented Marked ts where
  faults f := by
    rw [← hread ⟨true⟩]
    cases reader ⟨true⟩ ts with
    | error g => simp [Except.map]
    | ok a => simp [Except.map]
  values a h := by
    rw [← hread ⟨true⟩, h]
    rfl
  plain a h := by
    have hfalse := hread ⟨false⟩
    rw [h] at hfalse
    exact Except.ok.inj hfalse
  marked := hmarked

/-- **For every reader trace comments are decoration: with and without them the same faults are
found, the values differ by comments only, and the comments are one for each group of declarations,
in front of its first variable and with the place of its first token, or one in front of a statement
with the place of the first token.** -/
theorem markers_onlyDecorate (ts : List Token) :
    OnlyDecorates readPorts PortList.uncommented (fun ts p => p.Marked ts) ts ∧
    OnlyDecorates readModuleItems ModuleItem.uncommented ModuleItem.Marked ts ∧
    OnlyDecorates readDecls Decl.uncommented Decl.Marked ts ∧
    OnlyDecorates readDecl Decl.uncommented Decl.Marked ts ∧
    OnlyDecorates readBlockItem BlockItem.uncommented (fun ts item => item.Marked ts) ts ∧
    OnlyDecorates readForInit ForInit.uncommented (fun ts init => init.Marked ts) ts := by
  refine ⟨?_, ?_, ?_, ?_, ?_, ?_⟩
  · exact .of_uncommented (readPorts_uncommented · ts) fun p => PortList.marked_of_readPorts
  · exact .of_uncommented (readModuleItems_uncommented · ts) fun items =>
      ModuleItem.marked_of_readModuleItems
  · exact .of_uncommented (readDecls_uncommented · ts) fun ds => Decl.marked_of_readDecls
  · exact .of_uncommented (readDecl_uncommented · ts) fun ds => Decl.marked_of_readDecl
  · exact .of_uncommented (readBlockItem_uncommented · ts) fun item =>
      BlockItem.marked_of_readBlockItem
  · exact .of_uncommented (readForInit_uncommented · ts) fun init => ForInit.marked_of_readForInit

unseal Declarator.takeList DeclGroup.takeAll in
/-- The second of two ports takes the direction of the first one past the comment of its group, and
it takes it alike where there are no comments. -/
theorem markers_onlyDecorate_ports :
    readPorts ⟨true⟩
      [⟨.direction .input, ⟨"top.sv", 1, 10⟩⟩, ⟨.ident "a", ⟨"top.sv", 1, 16⟩⟩,
        ⟨.comma, ⟨"top.sv", 1, 17⟩⟩, ⟨.typeBase (.vector .logic), ⟨"top.sv", 1, 19⟩⟩,
        ⟨.ident "b", ⟨"top.sv", 1, 25⟩⟩] =
      .ok ⟨["a", "b"],
        [.decl (.comment "Trace: top.sv:1:10"), .decl (.var ⟨.input, .implicit, "a", [], none⟩),
          .decl (.comment "Trace: top.sv:1:19"),
          .decl (.var ⟨.input, ⟨.vector .logic, .unspecified, [], TypeBase.fits_unspecified _⟩, "b",
            [], none⟩)]⟩ ∧
    readPorts ⟨false⟩
      [⟨.direction .input, ⟨"top.sv", 1, 10⟩⟩, ⟨.ident "a", ⟨"top.sv", 1, 16⟩⟩,
        ⟨.comma, ⟨"top.sv", 1, 17⟩⟩, ⟨.typeBase (.vector .logic), ⟨"top.sv", 1, 19⟩⟩,
        ⟨.ident "b", ⟨"top.sv", 1, 25⟩⟩] =
      .ok ⟨["a", "b"],
        [.decl (.var ⟨.input, .implicit, "a", [], none⟩),
          .decl (.var ⟨.input, ⟨.vector .logic, .unspecified, [], TypeBase.fits_unspecified _⟩, "b",
            [], none⟩)]⟩ := by
  refine (fun h => ⟨h, ?_⟩) rfl
  exact (markers_onlyDecorate _).1.values _ h

end VerilogDecl
