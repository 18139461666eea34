/-
**Assignments that are not plain.**

A compound, non-blocking or timed assignment cannot initialize a declaration.  Five readers look for
one before they read anything.  The reader of block items has no such check: below it, the reader of
declared names would take the expression of any assignment and lose its operator.  This module shows
that no such assignment is ever lost: it is refused with the first of its kind as evidence, or it is
the one assignment of a statement, with operator, timing control and expression as they were.

Main definitions:

* `VerilogDecl.Token.FirstImproper` — the first assignment of a list that is not plain;
* `VerilogDecl.RefusesImproper` — a result that reports this assignment exactly if there is one;
* `VerilogDecl.BlockItem.KeepsAssign` — an item of a block that is the assignment of a token.

Main results:

* `VerilogDecl.refusesImproper_bind` — **a reader that checks its assignments first reports the
  first improper one**;
* `VerilogDecl.Stmt.SpelledBy.exists_assign` — an assignment is the last word of its statement;
* `VerilogDecl.keepsAssign_of_readBlockItem` — what an item of a block does with an assignment that
  is not plain;
* `VerilogDecl.improper_refused_or_kept` — **an assignment that is not plain is refused or kept as
  it is**.
-/

import VerilogDecl.Proofs.ReaderSuccess
import VerilogDecl.Proofs.ReportPlace
import VerilogDecl.Proofs.TraceMarkers

set_option relaxedAutoImplicit false
set_option autoImplicit false

namespace VerilogDecl

open Token

/-- The token `t` is the first assignment of `ts` that is not plain. -/
def Token.FirstImproper (ts : List Token) (t : Token) : Prop :=
  t.lexeme.isImproperAssign = true ∧
    ∃ front rest, ts = front ++ t :: rest ∧ ∀ u ∈ front, u.lexeme.isImproperAssign = false

/-- The result `r` of reading `ts` reports the first assignment that is not plain, exactly if there
is one. -/
structure RefusesImproper {α : Type} (ts : List Token) (r : Except Fault α) : Prop where
  /-- Such a fault is reported exactly if there is such an assignment. -/
  iff : (∃ f, r = .error f ∧ f.report.kind = .operator) ↔
    ∃ t ∈ ts, t.lexeme.isImproperAssign = true
  /-- The report shows the first such assignment and has its place. -/
  first : ∀ f, r = .error f → f.report.kind = .operator →
    ∃ t, FirstImproper ts t ∧ f.report.tokens = [t] ∧ f.report.pos = some t.pos

/-! ### The check in front -/

/-- The check finds the first assignment that is not plain. -/
theorem refuseImproperAssigns_eq_error_iff {ts : List Token} {f : Fault} :
    refuseImproperAssigns ts = .error f ↔ ∃ t, FirstImproper ts t ∧ f = .operator t ts := by
  have hfind : ∀ t, ts.find? (·.lexeme.isImproperAssign) = some t ↔ FirstImproper ts t := by
    intro t
    rw [List.find?_eq_some_iff_append]
    simp [FirstImproper]
  simp only [← hfind]
  unfold refuseImproperAssigns
  cases ts.find? (·.lexeme.isImproperAssign) with
  | none => simp
  | some t => simp [eq_comm]

theorem Token.exists_firstImproper {ts : List Token}
    (h : ∃ t ∈ ts, t.lexeme.isImproperAssign = true) : ∃ t, FirstImproper ts t := by
  cases hcheck : refuseImproperAssigns ts with
  | error f =>
      obtain ⟨t, ht, -⟩ := refuseImproperAssigns_eq_error_iff.1 hcheck
      exact ⟨t, ht⟩
  | ok u =>
      obtain ⟨t, ht, himproper⟩ := h
      rw [refuseImproperAssigns_eq_ok_iff.1 hcheck t ht] at himproper
      cases himproper

/-- **A reader that checks its assignments first reports the first improper one, if the rest of it
reports no such fault where there is none.** -/
theorem refusesImproper_bind {α : Type} {ts : List Token} {k : Unit → Except Fault α}
    (hk : (∀ t ∈ ts, t.lexeme.isImproperAssign = false) →
      ∀ f, k () = .error f → f.kind ≠ .operator) :
    RefusesImproper ts (refuseImproperAssigns ts >>= k) := by
  have hfault : ∀ f, refuseImproperAssigns ts >>= k = .error f → f.report.kind = .operator →
      ∃ t, FirstImproper ts t ∧ f = .operator t ts := by
    intro f hf hkind
    rcases bind_eq_error_iff.1 hf with hcheck | ⟨u, hcheck, hrest⟩
    · exact refuseImproperAssigns_eq_error_iff.1 hcheck
    · exact absurd hkind (hk (refuseImproperAssigns_eq_ok_iff.1 hcheck) f hrest)
  refine ⟨⟨?_, ?_⟩, ?_⟩
  · rintro ⟨f, hf, hkind⟩
    obtain ⟨t, ⟨himproper, front, rest, rfl, -⟩, -⟩ := hfault f hf hkind
    exact ⟨t, List.mem_append_right _ (List.mem_cons_self ..), himproper⟩
  · intro h
    obtain ⟨t, ht⟩ := exists_firstImproper h
    have hcheck := refuseImproperAssigns_eq_error_iff.2 ⟨t, ht, rfl⟩
    exact ⟨.operator t ts, bind_eq_error_iff.2 (Or.inl hcheck), rfl⟩
  · intro f hf hkind
    obtain ⟨t, ht, rfl⟩ := hfault f hf hkind
    exact ⟨t, ht, rfl, rfl⟩

/-- Where all assignments are plain, no other fault is reported in their name. -/
theorem RefusesImproper.kind_ne {α : Type} {ts : List Token} {r : Except Fault α}
    (h : RefusesImproper ts r) (hplain : ∀ t ∈ ts, t.lexeme.isImproperAssign = false) {f : Fault}
    (hf : r = .error f) : f.kind ≠ .operator := by
  intro hkind
  obtain ⟨t, ht, himproper⟩ := h.iff.1 ⟨f, hf, hkind⟩
  rw [hplain t ht] at himproper
  cases himproper

/-! ### The readers behind the check -/

theorem DeclFault.kind_ne_operator (c : DeclFault) : c.kind ≠ .operator := by
  intro h
  cases c <;> cases h

theorem kind_ne_of_readGroups {ts : List Token} {f : Fault} (h : readGroups ts = .error f) :
    f.kind ≠ .operator := by
  unfold readGroups at h
  cases htake : DeclGroup.takeAll ts with
  | ok gs => simp [htake, Except.mapError] at h
  | error c =>
      obtain rfl : .decl c ts = f := by simpa [htake, Except.mapError] using h
      exact c.kind_ne_operator

theorem kind_ne_of_readElaborationTask {task : ElaborationTask} {ts : List Token} {f : Fault}
    (h : readElaborationTask task ts = .error f) : f.kind ≠ .operator := by
  unfold readElaborationTask at h
  split at h
  · cases h
  · cases h
  · cases h
    intro hkind
    cases hkind

theorem ForAssign.kind_ne_of_take {ts : List Token} {f : Fault} (h : take ts = .error f) :
    f.kind ≠ .operator := by
  unfold take at h
  split at h
  · simp only at h
    split at h
    · cases h
    · cases h
      intro hkind
      cases hkind
  · cases h
    intro hkind
    cases hkind

theorem ForAssign.kind_ne_of_takeAll {whole ts : List Token} {f : Fault}
    (h : takeAll whole ts = .error f) : f.kind ≠ .operator := by
  fun_induction takeAll whole ts generalizing f with
  | case1 ts fault htake =>
      cases h
      exact kind_ne_of_take htake
  | case2 => cases h
  | case3 =>
      cases h
      intro hkind
      cases hkind
  | case4 ts a sep rest htake hsep hrest ih =>
      cases hr : takeAll whole rest with
      | error fault =>
          obtain rfl : fault = f := by simpa [hr, Except.map] using h
          exact ih hr
      | ok as => simp [hr, Except.map] at h
  | case5 =>
      cases h
      intro hkind
      cases hkind

section Readers

variable (options : Options) (ts : List Token)

theorem refusesImproper_readDecls : RefusesImproper ts (readDecls options ts) := by
  refine refusesImproper_bind fun _ f hf => ?_
  rcases bind_eq_error_iff.1 hf with hf | ⟨gs, -, hf⟩
  · exact kind_ne_of_readGroups hf
  · cases hf

theorem refusesImproper_readDecl : RefusesImproper ts (readDecl options ts) := by
  refine refusesImproper_bind fun _ f hf => ?_
  rcases bind_eq_error_iff.1 hf with hf | ⟨gs, -, hf⟩
  · exact kind_ne_of_readGroups hf
  split at hf
  · cases hf
  · cases hf
    intro hkind
    cases hkind

theorem refusesImproper_readPorts : RefusesImproper ts (readPorts options ts) := by
  refine refusesImproper_bind fun hplain f hf => ?_
  split at hf
  · cases hf
  rcases bind_eq_error_iff.1 hf with hf | ⟨ds, -, hf⟩
  · exact (refusesImproper_readDecls options ts).kind_ne hplain hf
  · cases hf

theorem refusesImproper_readModuleItems : RefusesImproper ts (readModuleItems options ts) := by
  refine refusesImproper_bind fun hplain f hf => ?_
  split at hf
  · exact kind_ne_of_readElaborationTask hf
  split at hf
  · rcases bind_eq_error_iff.1 hf with hf | ⟨is, -, hf⟩
    · rw [kind_of_readInstances hf]
      intro hkind
      cases hkind
    · cases hf
  · rcases bind_eq_error_iff.1 hf with hf | ⟨ds, -, hf⟩
    · exact (refusesImproper_readDecl options ts).kind_ne hplain hf
    · cases hf

theorem refusesImproper_readForInit : RefusesImproper ts (readForInit options ts) := by
  refine refusesImproper_bind fun hplain f hf => ?_
  split at hf
  · rcases bind_eq_error_iff.1 hf with hf | ⟨as, -, hf⟩
    · exact ForAssign.kind_ne_of_takeAll hf
    · cases hf
  · rcases bind_eq_error_iff.1 hf with hf | ⟨ds, -, hf⟩
    · exact (refusesImproper_readDecls options ts).kind_ne hplain hf
    split at hf
    · cases hf
      intro hkind
      cases hkind
    · cases hf

end Readers

/-! ### Items of a block -/

/-- The item is the assignment that the token `t` of `ts` holds: `t` stands at an end of the list,
the other tokens spell the target and hold no assignment, and there is one statement, with the
assignment of `t` as it was. -/
def BlockItem.KeepsAssign (ts : List Token) (t : Token) (item : BlockItem) : Prop :=
  ∃ rest target a, (ts = t :: rest ∨ ts = rest ++ [t]) ∧ (∀ u ∈ rest, u.isAssign = false) ∧
    Target.ofTokens? rest = some target ∧ t.lexeme = .assign a ∧ item.declarations = [] ∧
    Stmt.uncommented item.statements = [.assign target a]

/-- An assignment is the last word of its statement. -/
theorem Stmt.SpelledBy.exists_assign {s : Stmt} {ls : List Lexeme} {a : Assign}
    (h : s.SpelledBy ls) (ha : .assign a ∈ ls) :
    ∃ ks target, ls = ks ++ [.assign a] ∧ Target.ofLexemes? ks = some target ∧
      s = .assign target a := by
  cases h with
  | name name => cases List.mem_singleton.1 ha
  | scopedName scope name => cases List.mem_singleton.1 ha
  | scopedCall scope name args =>
      rcases List.mem_pair.1 ha with h | h
      · cases h
      · cases h
  | @assign ks target b ht =>
      rcases List.mem_append.1 ha with hmem | hmem
      · cases Target.isTargetWord_of_ofLexemes? ht hmem
      · cases List.mem_singleton.1 hmem
        exact ⟨ks, target, rfl, ht, rfl⟩
  | call args ht =>
      rcases List.mem_append.1 ha with hmem | hmem
      · cases Target.isTargetWord_of_ofLexemes? ht hmem
      · cases List.mem_singleton.1 hmem

/-- A token at the end of the list stood there, or it was moved there. -/
theorem eq_cons_or_eq_append_of_moveLeadingAssign {ts front : List Token} {t : Token}
    (h : moveLeadingAssign ts = front ++ [t]) : ts = t :: front ∨ ts = front ++ [t] := by
  rcases moveLeadingAssign_cases ts with ⟨u, rest, -, -, rfl, hmove⟩ | ⟨-, hmove⟩
  · obtain ⟨hfront, ht⟩ := List.append_inj' (hmove.symm.trans h) rfl
    rw [← hfront, ← List.singleton_inj.1 ht]
    exact Or.inl rfl
  · exact Or.inr (hmove.symm.trans h)

/-- **An item of a block that holds an assignment which is not plain is this assignment.** -/
theorem keepsAssign_of_readBlockItem {options : Options} {ts : List Token} {item : BlockItem}
    (h : readBlockItem options ts = .ok item) {t : Token} (ht : t ∈ ts)
    (himproper : t.lexeme.isImproperAssign = true) : item.KeepsAssign ts t := by
  obtain ⟨a, ha⟩ : ∃ a, t.lexeme = .assign a := by
    cases hl : t.lexeme with
    | assign a => exact ⟨a, rfl⟩
    | _ =>
        rw [hl] at himproper
        cases himproper
  rcases readBlockItem_eq_ok_iff.1 h with ⟨first, s, -, hs, rfl⟩ | ⟨-, -, ds, hds, -⟩
  · have hspelled := Stmt.spelledBy_of_ofTokens hs
    have hmem : t ∈ moveLeadingAssign ts := (moveLeadingAssign_perm ts).mem_iff.2 ht
    have hword : .assign a ∈ (moveLeadingAssign ts).map Token.lexeme := by
      rw [← ha]
      exact List.mem_map_of_mem hmem
    obtain ⟨ks, target, hks, htarget, rfl⟩ := hspelled.exists_assign hword
    obtain ⟨front, last, hmove, rfl, hlast⟩ := List.map_eq_append_iff.1 hks
    obtain ⟨t', rfl, -⟩ := List.map_eq_singleton_iff.1 hlast
    have hfront : ∀ u ∈ front, u.isAssign = false := by
      intro u hu
      exact ForAssign.isAssign_of_target htarget hu
    -- no token of the target is an assignment, so the last token is the one in question
    obtain rfl : t = t' := by
      rw [hmove] at hmem
      rcases List.mem_append.1 hmem with hmem | hmem
      · have hassign := hfront t hmem
        rw [isAssign, ha] at hassign
        cases hassign
      · exact List.mem_singleton.1 hmem
    refine ⟨front, target, a, eq_cons_or_eq_append_of_moveLeadingAssign hmove, hfront, htarget, ha,
      rfl, ?_⟩
    exact Stmt.uncommented_traced hspelled.isComment_eq options first.pos
  · obtain ⟨hplain, -⟩ := readDecl_eq_ok_iff.1 hds
    rw [hplain t ht] at himproper
    cases himproper

/-! ### All readers -/

/-- **An assignment that is not plain survives only as a statement.  All readers but that of block
items report the first such assignment, exactly if there is one; and an item of a block that is read
from a list with such an assignment is this assignment, unchanged, and nothing else.** -/
theorem improper_refused_or_kept (options : Options) (ts : List Token) :
    RefusesImproper ts (readPorts options ts) ∧
    RefusesImproper ts (readModuleItems options ts) ∧
    RefusesImproper ts (readDecls options ts) ∧
    RefusesImproper ts (readDecl options ts) ∧
    RefusesImproper ts (readForInit options ts) ∧
    ∀ item t, readBlockItem options ts = .ok item → t ∈ ts → t.lexeme.isImproperAssign = true →
      item.KeepsAssign ts t :=
  ⟨refusesImproper_readPorts options ts, refusesImproper_readModuleItems options ts,
    refusesImproper_readDecls options ts, refusesImproper_readDecl options ts,
    refusesImproper_readForInit options ts,
    fun _ _ h ht himproper => keepsAssign_of_readBlockItem h ht himproper⟩

/-- A non-blocking assignment with a delay is kept by a block and refused as a declaration. -/
theorem improper_refused_or_kept_delay :
    (readBlockItem ⟨true⟩
        [⟨.ident "x", ⟨"top.sv", 4, 3⟩⟩,
          ⟨.assign ⟨.nonBlocking, some (.delay (.number "1")), .ident "y"⟩, ⟨"top.sv", 4, 5⟩⟩] =
        .ok (.stmts [.comment "Trace: top.sv:4:3",
          .assign (.ident "x") ⟨.nonBlocking, some (.delay (.number "1")), .ident "y"⟩]) ∧
      (BlockItem.stmts [.comment "Trace: top.sv:4:3",
          .assign (.ident "x") ⟨.nonBlocking, some (.delay (.number "1")), .ident "y"⟩]).KeepsAssign
        [⟨.ident "x", ⟨"top.sv", 4, 3⟩⟩,
          ⟨.assign ⟨.nonBlocking, some (.delay (.number "1")), .ident "y"⟩, ⟨"top.sv", 4, 5⟩⟩]
        ⟨.assign ⟨.nonBlocking, some (.delay (.number "1")), .ident "y"⟩, ⟨"top.sv", 4, 5⟩⟩) ∧
    ∃ f, readDecl ⟨true⟩
        [⟨.ident "x", ⟨"top.sv", 4, 3⟩⟩,
          ⟨.assign ⟨.nonBlocking, some (.delay (.number "1")), .ident "y"⟩, ⟨"top.sv", 4, 5⟩⟩] =
        .error f ∧ f.report.kind = .operator := by
  constructor
  · refine (fun h => ⟨h, ?_⟩) rfl
    exact (improper_refused_or_kept ⟨true⟩ _).2.2.2.2.2 _ _ h (by simp) rfl
  · exact (improper_refused_or_kept ⟨true⟩ _).2.2.2.1.iff.2 ⟨_, List.mem_cons_of_mem _
      (List.mem_singleton_self _), rfl⟩

end VerilogDecl
