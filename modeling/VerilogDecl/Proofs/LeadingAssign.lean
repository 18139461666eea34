/-
**Assignments in front of their target.**

An increment may be written in front of what it increments, and then the assignment arrives before
its target.  The reader of block items moves it to the end to look for a statement, but a list that
is no statement is read as a declaration from the tokens as they came.  So the place of an
assignment could matter in two ways.  This module shows that it does not for statements, also where
more assignments follow and the second list has one to move as well; and that a declaration cannot
be written with its initial value in front.

Main results:

* `VerilogDecl.Stmt.SpelledBy.isAssign_front` — in a statement only the last word is an assignment;
* `VerilogDecl.spelledBy_moveLeadingAssign_iff` — **with the assignment in front or at the end, the
  same statement is spelled**;
* `VerilogDecl.readBlockItem_leading_iff` — both forms are read as the same statement, and the first
  one is never read as declarations.
-/

import VerilogDecl.Proofs.ImproperAssign

set_option relaxedAutoImplicit false
set_option autoImplicit false

namespace VerilogDecl

open Token

/-! ### Statements and moved assignments -/

/-- In a statement only the last word is an assignment. -/
theorem Stmt.SpelledBy.isAssign_front {s : Stmt} {ls : List Lexeme} {l k : Lexeme}
    (h : s.SpelledBy (ls ++ [l])) (hk : k ∈ ls) : k.isAssign = false := by
  cases k with
  | assign a =>
      obtain ⟨ks, target, hks, htarget, -⟩ := h.exists_assign (List.mem_append_left _ hk)
      rw [(List.append_inj' hks rfl).1] at hk
      cases Target.isTargetWord_of_ofLexemes? htarget hk
  | _ => rfl

theorem not_spelledBy_of_isAssign {front : List Token} {t : Token} (ht : t ∈ front)
    (hassign : t.isAssign = true) (last : Token) (s : Stmt) :
    ¬ s.SpelledBy ((front ++ [last]).map Token.lexeme) := by
  intro h
  rw [List.map_append, List.map_singleton] at h
  have hfront := h.isAssign_front (List.mem_map_of_mem ht)
  rw [isAssign, hfront] at hassign
  cases hassign

variable {t : Token} {rest : List Token}

/-- **With the assignment in front or at the end, the same statement is spelled.** -/
theorem spelledBy_moveLeadingAssign_iff (ht : t.isAssign = true) (hrest : rest ≠ []) (s : Stmt) :
    s.SpelledBy ((moveLeadingAssign (t :: rest)).map Token.lexeme) ↔
      s.SpelledBy ((moveLeadingAssign (rest ++ [t])).map Token.lexeme) := by
  rw [moveLeadingAssign_cons ht hrest]
  obtain ⟨u, us, rfl⟩ := List.exists_cons_of_ne_nil hrest
  cases hu : u.isAssign with
  | false => rw [List.cons_append, moveLeadingAssign_of_not_isAssign hu]
  | true =>
      -- each order leaves one of the two assignments before the end
      have hmove : moveLeadingAssign (u :: us ++ [t]) = us ++ [t] ++ [u] :=
        moveLeadingAssign_cons hu (List.append_ne_nil_of_right_ne_nil _ (List.cons_ne_nil t []))
      rw [hmove]
      refine iff_of_false ?_ ?_
      · exact not_spelledBy_of_isAssign (List.mem_cons_self ..) hu t s
      · have hmem : t ∈ us ++ [t] := List.mem_append_right us (List.mem_singleton_self t)
        exact not_spelledBy_of_isAssign hmem ht u s

/-! ### Items of a block -/

/-- Without trace comments, a single statement is read exactly from the words that spell it. -/
theorem readBlockItem_eq_stmt_iff {ts : List Token} {s : Stmt} :
    readBlockItem ⟨false⟩ ts = .ok (.stmts [s]) ↔
      s.SpelledBy ((moveLeadingAssign ts).map Token.lexeme) := by
  constructor
  · intro h
    obtain ⟨s', hs', pos, htraced⟩ := spelledBy_of_readBlockItem h
    cases htraced
    exact hs'
  · intro h
    obtain ⟨u, us, rfl⟩ := List.exists_cons_of_ne_nil h.ne_nil
    exact readBlockItem_of_spelledBy ⟨false⟩ h

/-- Declarations never start with an assignment. -/
theorem readBlockItem_ne_decls (options : Options) (ht : t.isAssign = true) (ds : List Decl) :
    readBlockItem options (t :: rest) ≠ .ok (.decls ds) := by
  intro h
  obtain ⟨-, g, hg, -⟩ := readDecl_eq_ok_iff.1 (readDecl_of_readBlockItem h)
  rw [isAssign_of_readGroups hg] at ht
  cases ht

/-- **An assignment may stand in front of its target.**  A statement is read from the list with the
assignment in front exactly if it is read from the list with the assignment at the end.  The former
list is never read as declarations; where the latter is, the former is refused. -/
theorem readBlockItem_leading_iff (ht : t.isAssign = true) (hrest : rest ≠ []) :
    (∀ s, readBlockItem ⟨false⟩ (t :: rest) = .ok (.stmts [s]) ↔
      readBlockItem ⟨false⟩ (rest ++ [t]) = .ok (.stmts [s])) ∧
    (∀ options ds, readBlockItem options (t :: rest) ≠ .ok (.decls ds)) ∧
    ∀ options ds, readBlockItem options (rest ++ [t]) = .ok (.decls ds) →
      ∃ f, readBlockItem options (t :: rest) = .error f := by
  refine ⟨fun s => ?_, fun options => readBlockItem_ne_decls options ht, fun options ds h => ?_⟩
  · rw [readBlockItem_eq_stmt_iff, readBlockItem_eq_stmt_iff]
    exact spelledBy_moveLeadingAssign_iff ht hrest s
  · cases hread : readBlockItem options (t :: rest) with
    | error f => exact ⟨f, rfl⟩
    | ok item =>
        cases item with
        | decls ds' => exact absurd hread (readBlockItem_ne_decls options ht ds')
        | stmts ss =>
            obtain ⟨s, hs, -⟩ := spelledBy_of_readBlockItem hread
            obtain ⟨u, us, rfl⟩ := List.exists_cons_of_ne_nil hrest
            have hstmt := readBlockItem_of_spelledBy options
              ((spelledBy_moveLeadingAssign_iff ht hrest s).1 hs)
            cases h.symm.trans hstmt

unseal Declarator.takeList DeclGroup.takeAll in
/-- An increment is the same statement in front of its target and behind it; and `logic x` with its
initial value in front is no declaration, though it is one with the value behind. -/
theorem readBlockItem_leading_iff_increment :
    readBlockItem ⟨false⟩
      [⟨.assign ⟨.compound .add, none, .number "1"⟩, ⟨"top.sv", 6, 3⟩⟩,
        ⟨.ident "i", ⟨"top.sv", 6, 5⟩⟩] =
      .ok (.stmts [.assign (.ident "i") ⟨.compound .add, none, .number "1"⟩]) ∧
    ∃ f, readBlockItem ⟨false⟩
      [⟨.assign (.plain (.number "1")), ⟨"top.sv", 7, 3⟩⟩,
        ⟨.typeBase (.vector .logic), ⟨"top.sv", 7, 7⟩⟩, ⟨.ident "x", ⟨"top.sv", 7, 13⟩⟩] =
      .error f := by
  constructor
  · exact ((readBlockItem_leading_iff rfl (List.cons_ne_nil _ _)).1 _).2 rfl
  · exact (readBlockItem_leading_iff rfl (List.cons_ne_nil _ _)).2.2 ⟨false⟩
      [.var ⟨.unspecified, ⟨.vector .logic, .unspecified, [], TypeBase.fits_unspecified _⟩, "x", [],
        some (.number "1")⟩] rfl

end VerilogDecl
