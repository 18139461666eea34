/-
**Declarations in a module body.**

In a module body a list of tokens may be an elaboration task, a list of instances or one group of
declarations, and which of them it is gets settled before anything is read: by the first name, and by
whether ports stand anywhere in the list.  This module shows that the decision never diverts a
declaration.  What is read as declarations holds no ports, so behind the first name the choice is
right for every list, and a list without ports fails in a module body as it fails elsewhere.  Only
the names of elaboration tasks are lost to declarations.

Main definitions:

* `VerilogDecl.ElaborationTask.standIns` — the names of the tasks, and the instances that stand in
  for them.

Main results:

* `VerilogDecl.readModuleItems_of_not_isPorts` — **without ports and without a task in front, items
  are declarations**, and faults are those of declarations;
* `VerilogDecl.readElaborationTask_of_not_isPorts` — without ports, a task stands alone;
* `VerilogDecl.readModuleItems_agrees` — items of a module and declarations agree.
-/

import VerilogDecl.Proofs.BlockItemShape
import VerilogDecl.Proofs.Instantiation
import VerilogDecl.Proofs.ReaderSuccess

set_option relaxedAutoImplicit false
set_option autoImplicit false

namespace VerilogDecl

variable {options : Options} {ts : List Token}

/-! ### Lists without ports -/

/-- No ports stand in a list that is read as declarations. -/
theorem isPorts_of_readDecl {ds : List Decl} (h : readDecl options ts = .ok ds) :
    ∀ t ∈ ts, t.lexeme.isPorts = false := by
  obtain ⟨-, g, hg, -⟩ := readDecl_eq_ok_iff.1 h
  exact fun t ht => isPorts_of_readGroups hg ht

/-- **Without ports and without a task in front, the items of a module are the declarations of one
group, and its faults are those of declarations.** -/
theorem readModuleItems_of_not_isPorts (options : Options) (htask : leadingTask? ts = none)
    (hports : ∀ t ∈ ts, t.lexeme.isPorts = false) :
    readModuleItems options ts = (readDecl options ts).map (List.map .decl) := by
  have hany : ts.any (·.lexeme.isPorts) = false := by
    rw [List.any_eq_false]
    intro t ht
    rw [hports t ht]
    exact Bool.false_ne_true
  rw [readModuleItems, htask, hany]
  cases hcheck : refuseImproperAssigns ts with
  | error f =>
      rw [readDecl, hcheck]
      rfl
  | ok u =>
      cases readDecl options ts with
      | error f => rfl
      | ok ds => rfl

/-- Whatever is read without a task in front has an item. -/
theorem ne_nil_of_readModuleItems {items : List ModuleItem} (htask : leadingTask? ts = none)
    (h : readModuleItems options ts = .ok items) : items ≠ [] := by
  obtain ⟨-, ⟨task, htask', -⟩ | ⟨-, -, is, his, rfl⟩ | ⟨-, -, ds, hds, rfl⟩⟩ :=
    readModuleItems_eq_ok_iff.1 h
  · rw [htask] at htask'
    cases htask'
  · obtain ⟨i, -, rfl⟩ := readInstances_eq_ok_iff.1 his
    exact fun hnil => i.instances_ne_nil (List.map_eq_nil_iff.1 (List.map_eq_nil_iff.1 hnil))
  · exact fun hnil => ne_nil_of_readDecl hds (List.map_eq_nil_iff.1 hnil)

/-- What is read in a module body is a list of instances, which is no declaration, or it is the
declarations of one group. -/
theorem instances_or_decls_of_readModuleItems {items : List ModuleItem}
    (htask : leadingTask? ts = none) (h : readModuleItems options ts = .ok items) :
    (∃ is : List Instance, items = is.map .inst ∧ ∃ f, readDecl options ts = .error f) ∨
      ∃ ds, items = ds.map .decl ∧ readDecl options ts = .ok ds := by
  obtain ⟨-, ⟨task, htask', -⟩ | ⟨-, hany, is, -, rfl⟩ | ⟨-, -, ds, hds, rfl⟩⟩ :=
    readModuleItems_eq_ok_iff.1 h
  · rw [htask] at htask'
    cases htask'
  · refine Or.inl ⟨is, rfl, ?_⟩
    cases hdecl : readDecl options ts with
    | error f => exact ⟨f, rfl⟩
    | ok ds =>
        obtain ⟨t, ht, hports⟩ := List.any_eq_true.1 hany
        rw [isPorts_of_readDecl hdecl t ht] at hports
        cases hports
  · exact Or.inr ⟨ds, rfl, hds⟩

/-! ### Elaboration tasks -/

namespace ElaborationTask

/-- The names of the elaboration tasks, each with the names of the instances that stand in for
it. -/
def standIns : List (String × List String) :=
  [("$fatal", ["__elab_fatal"]), ("$error", ["__elab_error"]), ("$warning", ["__elab_warning"]),
    ("$info", [])]

theorem exists_task_of_mem_standIns {entry : String × List String} (h : entry ∈ standIns) :
    ∃ task, ofName? entry.1 = some task ∧ task.items [] =
      entry.2.map fun name => .inst ⟨"__ElaborationTask", [], name, [], []⟩ := by
  rcases h with _ | ⟨_, _ | ⟨_, _ | ⟨_, _ | ⟨_, ⟨⟩⟩⟩⟩⟩
  · exact ⟨fatal, rfl, rfl⟩
  · exact ⟨error, rfl, rfl⟩
  · exact ⟨warning, rfl, rfl⟩
  · exact ⟨info, rfl, rfl⟩

end ElaborationTask

/-- A task in front is all that counts. -/
theorem readModuleItems_of_leadingTask {task : ElaborationTask} (options : Options)
    (hplain : ∀ t ∈ ts, t.lexeme.isImproperAssign = false) (htask : leadingTask? ts = some task) :
    readModuleItems options ts = readElaborationTask task ts := by
  rw [readModuleItems, refuseImproperAssigns_eq_ok_iff.2 hplain, htask]
  rfl

/-- Without ports, a task stands alone or has the wrong shape. -/
theorem readElaborationTask_of_not_isPorts (task : ElaborationTask)
    (hports : ∀ t ∈ ts, t.lexeme.isPorts = false) :
    readElaborationTask task ts =
      if ts.length = 1 then .ok (task.items []) else .error (.elaborationTask ts) := by
  rcases ts with _ | ⟨t, _ | ⟨⟨l, pos⟩, _ | ⟨t', ts⟩⟩⟩
  · rfl
  · rfl
  · cases l with
    | ports args => cases hports ⟨.ports args, pos⟩ (by simp)
    | _ => rfl
  · cases l <;> rfl

/-! ### Items of a module and declarations -/

/-- **Items of a module and declarations agree.**  Unless an elaboration task stands in front,
declarations are read as such, items are instances that could not be declarations or they are
declarations, and without ports the faults are the same.  Behind the name of a task no declaration is
read: the name by itself is the task, and what else would be a declaration has the wrong shape. -/
theorem readModuleItems_agrees (options : Options) (ts : List Token) :
    ((∀ name ∈ ["$fatal", "$error", "$warning", "$info"],
        (ts.map Token.lexeme).head? ≠ some (.ident name)) →
      (∀ ds, readDecl options ts = .ok ds → readModuleItems options ts = .ok (ds.map .decl)) ∧
      (∀ items, readModuleItems options ts = .ok items → items ≠ [] ∧
        ((∃ is : List Instance, items = is.map .inst ∧ ∃ f, readDecl options ts = .error f) ∨
          ∃ ds, items = ds.map .decl ∧ readDecl options ts = .ok ds)) ∧
      ((∀ t ∈ ts, t.lexeme.isPorts = false) →
        ∀ f, readDecl options ts = .error f → readModuleItems options ts = .error f)) ∧
    ∀ entry ∈ ElaborationTask.standIns, (ts.map Token.lexeme).head? = some (.ident entry.1) →
      ∀ ds, readDecl options ts = .ok ds →
        (ts.length = 1 → readModuleItems options ts =
          .ok (entry.2.map fun name => .inst ⟨"__ElaborationTask", [], name, [], []⟩)) ∧
        (ts.length ≠ 1 → ∃ f, readModuleItems options ts = .error f ∧ f.kind = .shape) := by
  refine ⟨fun hnames => ?_, fun entry hentry hhead ds hds => ?_⟩
  · have htask : leadingTask? ts = none := leadingTask?_eq_none_iff.2 hnames
    refine ⟨fun ds hds => ?_, fun items hitems => ?_, fun hports f hf => ?_⟩
    · rw [readModuleItems_of_not_isPorts options htask (isPorts_of_readDecl hds), hds]
      rfl
    · exact ⟨ne_nil_of_readModuleItems htask hitems,
        instances_or_decls_of_readModuleItems htask hitems⟩
    · rw [readModuleItems_of_not_isPorts options htask hports, hf]
      rfl
  · obtain ⟨task, hname, hitems⟩ := ElaborationTask.exists_task_of_mem_standIns hentry
    have htask : leadingTask? ts = some task := by
      obtain ⟨ls, hls⟩ := List.head?_eq_some_iff.1 hhead
      obtain ⟨⟨_, pos⟩, rest, rfl, rfl, -⟩ := List.map_eq_cons_iff.1 hls
      exact hname
    rw [readModuleItems_of_leadingTask options (readDecl_eq_ok_iff.1 hds).1 htask,
      readElaborationTask_of_not_isPorts task (isPorts_of_readDecl hds), ← hitems]
    refine ⟨fun hone => if_pos hone, fun hmore => ⟨.elaborationTask ts, if_neg hmore, rfl⟩⟩

unseal Declarator.takeList DeclGroup.takeAll in
/-- A declaration of `x` is read in a module body; the name of a task is read as a declaration
elsewhere, but in a module body as the task. -/
theorem readModuleItems_agrees_warning :
    readModuleItems ⟨false⟩
      [⟨.typeBase (.vector .logic), ⟨"top.sv", 1, 1⟩⟩, ⟨.ident "x", ⟨"top.sv", 1, 7⟩⟩] =
      .ok [.decl (.var ⟨.unspecified, ⟨.vector .logic, .unspecified, [],
        TypeBase.fits_unspecified _⟩, "x", [], none⟩)] ∧
    readDecl ⟨false⟩ [⟨.ident "$warning", ⟨"top.sv", 2, 1⟩⟩] =
      .ok [.var ⟨.unspecified, .implicit, "$warning", [], none⟩] ∧
    readModuleItems ⟨false⟩ [⟨.ident "$warning", ⟨"top.sv", 2, 1⟩⟩] =
      .ok [.inst ⟨"__ElaborationTask", [], "__elab_warning", [], []⟩] := by
  refine ⟨?_, rfl, ?_⟩
  · exact ((readModuleItems_agrees ⟨false⟩
      [⟨.typeBase (.vector .logic), ⟨"top.sv", 1, 1⟩⟩, ⟨.ident "x", ⟨"top.sv", 1, 7⟩⟩]).1
      (by simp)).1 _ rfl
  · exact ((readModuleItems_agrees ⟨false⟩ [⟨.ident "$warning", ⟨"top.sv", 2, 1⟩⟩]).2
      ("$warning", ["__elab_warning"]) (by simp [ElaborationTask.standIns]) rfl _ rfl).1 rfl

end VerilogDecl
