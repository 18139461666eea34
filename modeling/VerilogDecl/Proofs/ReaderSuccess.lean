/-
**When a reader succeeds.**

Every reader but that of block items starts with the check that all assignments are plain, and goes
on with one of a few others.  This module says for each of them when it succeeds and with which
value, so that later modules need not open the readers again.

Main results:

* `VerilogDecl.bind_eq_ok_iff` — a sequence succeeds exactly if each of its steps does;
* `VerilogDecl.readDecls_eq_ok_iff`, `VerilogDecl.readPorts_eq_ok_iff` — declarations and ports;
* `VerilogDecl.readModuleItems_eq_ok_iff` — **items of a module are a task, instances or the
  declarations of one group**;
* `VerilogDecl.readBlockItem_eq_ok_iff` — items of a block.
-/

import VerilogDecl.BlockItem
import VerilogDecl.ModuleItem.Reading
import VerilogDecl.PortList
import VerilogDecl.Proofs.GroupGrammar

set_option relaxedAutoImplicit false
set_option autoImplicit false

namespace VerilogDecl

/-! ### Sequences -/

section Sequences

variable {ε α β : Type}

/-- A sequence succeeds exactly if each of its steps does. -/
theorem bind_eq_ok_iff {x : Except ε α} {k : α → Except ε β} {b : β} :
    x >>= k = .ok b ↔ ∃ a, x = .ok a ∧ k a = .ok b := by
  cases x with
  | error e => simp [bind, Except.bind]
  | ok a => simp [bind, Except.bind]

theorem map_eq_ok_iff {x : Except ε α} {f : α → β} {b : β} :
    x.map f = .ok b ↔ ∃ a, x = .ok a ∧ f a = b := by
  cases x with
  | error e => simp [Except.map]
  | ok a => simp [Except.map]

/-- A list that was checked first is read exactly if its assignments are plain and the rest of the
reader succeeds. -/
theorem refuseImproperAssigns_bind_eq_ok_iff {ts : List Token} {k : Unit → Except Fault β} {b : β} :
    refuseImproperAssigns ts >>= k = .ok b ↔
      (∀ t ∈ ts, t.lexeme.isImproperAssign = false) ∧ k () = .ok b := by
  rw [bind_eq_ok_iff, ← refuseImproperAssigns_eq_ok_iff]
  constructor
  · rintro ⟨⟨⟩, hcheck, hk⟩
    exact ⟨hcheck, hk⟩
  · rintro ⟨hcheck, hk⟩
    exact ⟨(), hcheck, hk⟩

end Sequences

variable {options : Options} {ts : List Token}

/-! ### Declarations and ports -/

/-- Declarations are those of the groups, if all assignments are plain. -/
theorem readDecls_eq_ok_iff {ds : List Decl} :
    readDecls options ts = .ok ds ↔ (∀ t ∈ ts, t.lexeme.isImproperAssign = false) ∧
      ∃ gs, readGroups ts = .ok gs ∧ ds = gs.flatMap (·.decls options) := by
  rw [readDecls, refuseImproperAssigns_bind_eq_ok_iff, bind_eq_ok_iff]
  simp only [pure, Except.pure, Except.ok.injEq, @eq_comm _ ds]

/-- A port list is a list of bare names, or else the ports of its declarations. -/
theorem readPorts_eq_ok_iff {p : PortList} :
    readPorts options ts = .ok p ↔ (∀ t ∈ ts, t.lexeme.isImproperAssign = false) ∧
      ((∃ names, bareNames? ts = some names ∧ p = ⟨names, []⟩) ∨
        (bareNames? ts = none ∧ ∃ ds, readDecls options ts = .ok ds ∧ p = .ofDecls ds)) := by
  rw [readPorts, refuseImproperAssigns_bind_eq_ok_iff]
  cases bareNames? ts with
  | some names => simp [pure, Except.pure, @eq_comm _ p]
  | none => simp [bind_eq_ok_iff, pure, Except.pure, @eq_comm _ p]

/-! ### Items -/

/-- **Items of a module are what stands in for an elaboration task in front, or the instances of a
list with ports, or the declarations of one group.** -/
theorem readModuleItems_eq_ok_iff {items : List ModuleItem} :
    readModuleItems options ts = .ok items ↔ (∀ t ∈ ts, t.lexeme.isImproperAssign = false) ∧
      ((∃ task, leadingTask? ts = some task ∧ readElaborationTask task ts = .ok items) ∨
        (leadingTask? ts = none ∧ ts.any (·.lexeme.isPorts) = true ∧
          ∃ is, readInstances ts = .ok is ∧ items = is.map .inst) ∨
        (leadingTask? ts = none ∧ ts.any (·.lexeme.isPorts) = false ∧
          ∃ ds, readDecl options ts = .ok ds ∧ items = ds.map .decl)) := by
  rw [readModuleItems, refuseImproperAssigns_bind_eq_ok_iff]
  cases leadingTask? ts with
  | some task => simp
  | none =>
      cases ts.any (·.lexeme.isPorts) with
      | true => simp [bind_eq_ok_iff, pure, Except.pure, @eq_comm _ items]
      | false => simp [bind_eq_ok_iff, pure, Except.pure, @eq_comm _ items]

/-- An item of a block is a statement placed at its first token, or the declarations of one
group. -/
theorem readBlockItem_eq_ok_iff {item : BlockItem} :
    readBlockItem options ts = .ok item ↔
      (∃ first s, ts.head? = some first ∧ Stmt.ofTokens (moveLeadingAssign ts) = .ok (some s) ∧
        item = .stmts (s.traced options first.pos)) ∨
      (ts ≠ [] ∧ Stmt.ofTokens (moveLeadingAssign ts) = .ok none ∧
        ∃ ds, readDecl options ts = .ok ds ∧ item = .decls ds) := by
  cases ts with
  | nil => simp [readBlockItem]
  | cons first rest =>
      rw [readBlockItem]
      cases Stmt.ofTokens (moveLeadingAssign (first :: rest)) with
      | error front => simp
      | ok s? =>
          cases s? with
          | none => simp [map_eq_ok_iff, @eq_comm _ item]
          | some s => simp [@eq_comm _ item]

end VerilogDecl
