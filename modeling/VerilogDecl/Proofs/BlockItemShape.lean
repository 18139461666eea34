/-
**Statements and declarations in a block.**

An item of a block is read as a statement if its words are those of a statement, and as a
declaration otherwise.  The two readers look at the same tokens in different ways, and some lists
are refused before the second one is tried.  This module says which lists are statements, and shows
that no declaration is lost: a list that the reader of declarations accepts is refused nowhere, and
it is read as a statement only if it is a name that nothing in front declares.

Main definitions:

* `VerilogDecl.Stmt.SpelledBy` — the words of a statement;
* `VerilogDecl.Stmt.UntypedBy` — the words of a statement that are also a declaration;
* `VerilogDecl.BlockItem.declarations`, `VerilogDecl.BlockItem.statements` — the two lists of an
  item.

Main results:

* `VerilogDecl.Stmt.ofTokens_eq_some_iff` — the statements that are read are those that are spelled;
* `VerilogDecl.Stmt.untypedBy_of_spelledBy` — a statement that is also a declaration is untyped;
* `VerilogDecl.Stmt.ofTokens_of_readGroups` — declarations are never refused as statements;
* `VerilogDecl.moveLeadingAssign_cons`, `VerilogDecl.moveLeadingAssign_of_not_isAssign` — the list
  in which a statement is looked for;
* `VerilogDecl.readBlockItem_shape` — **exactly the statements and the declarations are read, and
  they overlap only in untyped names**.
-/

import VerilogDecl.BlockItem
import VerilogDecl.Proofs.GroupGrammar
import VerilogDecl.Proofs.TargetReading

set_option relaxedAutoImplicit false
set_option autoImplicit false

namespace VerilogDecl

open Token

namespace BlockItem

/-- The declarations of an item. -/
def declarations : BlockItem → List Decl
  | decls ds => ds
  | stmts _ => []

/-- The statements of an item. -/
def statements : BlockItem → List Stmt
  | decls _ => []
  | stmts ss => ss

end BlockItem

/-! ### The words of a statement -/

namespace Stmt

/-- The lexemes `ls` spell the statement `s`. -/
inductive SpelledBy : Stmt → List Lexeme → Prop
  | name (name : String) : SpelledBy (.call (.ident name) .empty) [.ident name]
  | scopedName (scope name : String) :
      SpelledBy (.call (.scopedIdent scope name) .empty) [.scopedIdent scope name]
  | scopedCall (scope name : String) (args : List (Binding Expr)) :
      SpelledBy (.call (.scopedIdent scope name) (.ofBindings args))
        [.scopedIdent scope name, .ports args]
  | assign {ls : List Lexeme} {target : Target} (a : Assign) :
      Target.ofLexemes? ls = some target → SpelledBy (.assign target a) (ls ++ [.assign a])
  | call {ls : List Lexeme} {target : Target} (args : List (Binding Expr)) :
      Target.ofLexemes? ls = some target →
      SpelledBy (.call target.toExpr (.ofBindings args)) (ls ++ [.ports args])

/-- The lexemes `ls` are a name without a type, and `s` is the statement they spell: a call of a
lone name, or an assignment to a name under part selects with fixed bounds. -/
inductive UntypedBy : Stmt → List Lexeme → Prop
  | call (name : String) : UntypedBy (.call (.ident name) .empty) [.ident name]
  | assign (name : String) (rs : List Range) (a : Assign) :
      UntypedBy (.assign ((Target.ident name).partSelects rs) a)
        (.ident name :: rs.map (.range .nonIndexed) ++ [.assign a])

theorem UntypedBy.spelledBy {s : Stmt} {ls : List Lexeme} (h : s.UntypedBy ls) :
    s.SpelledBy ls := by
  cases h with
  | call name => exact SpelledBy.name name
  | assign name rs a =>
      refine SpelledBy.assign a (Target.ofLexemes?_eq_some_iff.2 ?_)
      rw [Target.lexemes_partSelects]
      rfl

end Stmt

/-! ### Reading a statement -/

theorem Token.map_lexeme_of_getLast? {ts : List Token} {l : Lexeme}
    (h : ts.getLast?.map Token.lexeme = some l) :
    ts.map Token.lexeme = ts.dropLast.map Token.lexeme ++ [l] := by
  obtain ⟨t, ht, rfl⟩ := Option.map_eq_some_iff.1 h
  obtain ⟨front, rfl⟩ := List.getLast?_eq_some_iff.1 ht
  rw [List.dropLast_concat, List.map_append, List.map_singleton]

namespace Stmt

/-- What is read as a statement is spelled like one. -/
theorem spelledBy_of_ofTokens {ts : List Token} {s : Stmt} (h : ofTokens ts = .ok (some s)) :
    s.SpelledBy (ts.map Token.lexeme) := by
  unfold ofTokens at h
  split at h
  next name pos =>
    cases h
    exact SpelledBy.name name
  next scope name pos =>
    cases h
    exact SpelledBy.scopedName scope name
  next scope name pos args pos' =>
    cases h
    exact SpelledBy.scopedCall scope name args
  next =>
    split at h
    next a target hlast htarget =>
      cases h
      rw [map_lexeme_of_getLast? hlast]
      exact SpelledBy.assign a htarget
    next a hlast htarget =>
      split at h
      · cases h
      · cases h
    next args target hlast htarget =>
      cases h
      rw [map_lexeme_of_getLast? hlast]
      exact SpelledBy.call args htarget
    next => cases h
    next => cases h

/-- A target with an assignment or with arguments behind it is read as a statement. -/
theorem ofTokens_append {front : List Token} {target : Target} {l : Lexeme} {pos : Position}
    (h : Target.ofTokens? front = some target) {s : Stmt}
    (hs : (∃ a, l = .assign a ∧ s = .assign target a) ∨
      ∃ args, l = .ports args ∧ s = .call target.toExpr (.ofBindings args)) :
    ofTokens (front ++ [⟨l, pos⟩]) = .ok (some s) := by
  obtain ⟨k, ks, hk, hword, -⟩ := target.exists_cons_lexemes
  obtain ⟨t, ts, rfl, rfl, -⟩ :=
    List.map_eq_cons_iff.1 ((Target.ofTokens?_eq_some_iff.1 h).trans hk)
  unfold ofTokens
  -- the lists of one or two tokens do not start with a target and end like a statement
  split
  next he => exact absurd (congrArg List.length he) (by simp)
  next he => exact absurd (congrArg List.length he) (by simp)
  next he =>
    obtain ⟨rfl, -⟩ := List.cons.inj he
    cases hword
  next =>
    rw [List.getLast?_concat, List.dropLast_concat, h]
    rcases hs with ⟨a, rfl, rfl⟩ | ⟨args, rfl, rfl⟩
    · rfl
    · rfl

/-- **The statements that are read are those that are spelled.** -/
theorem ofTokens_eq_some_iff {ts : List Token} {s : Stmt} :
    ofTokens ts = .ok (some s) ↔ s.SpelledBy (ts.map Token.lexeme) := by
  constructor
  · exact spelledBy_of_ofTokens
  · intro h
    generalize hls : ts.map Token.lexeme = ls at h
    cases h with
    | name name =>
        obtain ⟨⟨_, pos⟩, rfl, rfl⟩ := List.map_eq_singleton_iff.1 hls
        rfl
    | scopedName scope name =>
        obtain ⟨⟨_, pos⟩, rfl, rfl⟩ := List.map_eq_singleton_iff.1 hls
        rfl
    | scopedCall scope name args =>
        obtain ⟨⟨_, pos⟩, rest, rfl, rfl, hrest⟩ := List.map_eq_cons_iff.1 hls
        obtain ⟨⟨_, pos'⟩, rfl, rfl⟩ := List.map_eq_singleton_iff.1 hrest
        rfl
    | assign a htarget =>
        obtain ⟨front, last, rfl, rfl, hlast⟩ := List.map_eq_append_iff.1 hls
        obtain ⟨⟨_, pos⟩, rfl, rfl⟩ := List.map_eq_singleton_iff.1 hlast
        exact ofTokens_append htarget (Or.inl ⟨a, rfl, rfl⟩)
    | call args htarget =>
        obtain ⟨front, last, rfl, rfl, hlast⟩ := List.map_eq_append_iff.1 hls
        obtain ⟨⟨_, pos⟩, rfl, rfl⟩ := List.map_eq_singleton_iff.1 hlast
        exact ofTokens_append htarget (Or.inr ⟨args, rfl, rfl⟩)

/-- Only a list that ends in arguments or in an assignment that is not plain is refused. -/
theorem exists_mem_of_ofTokens {ts front : List Token} (h : ofTokens ts = .error front) :
    ∃ t ∈ ts, t.lexeme.isPorts = true ∨ t.lexeme.isImproperAssign = true := by
  have hmem : ∀ {l : Lexeme}, ts.getLast?.map Token.lexeme = some l → ∃ t ∈ ts, t.lexeme = l := by
    intro l hl
    obtain ⟨t, ht, rfl⟩ := Option.map_eq_some_iff.1 hl
    exact ⟨t, List.mem_of_getLast? ht, rfl⟩
  unfold ofTokens at h
  split at h
  next => cases h
  next => cases h
  next => cases h
  next =>
    split at h
    next => cases h
    next a hlast htarget =>
      split at h
      next => cases h
      next ha =>
        obtain ⟨t, ht, hl⟩ := hmem hlast
        refine ⟨t, ht, Or.inr ?_⟩
        rw [hl, Lexeme.isImproperAssign, Bool.eq_false_iff.2 ha]
        rfl
    next => cases h
    next args hlast htarget =>
      obtain ⟨t, ht, hl⟩ := hmem hlast
      exact ⟨t, ht, Or.inl (by rw [hl]; rfl)⟩
    next => cases h

end Stmt

/-! ### Statements that are also declarations -/

theorem Dimension.exists_ranges {ds : List Dimension}
    (h : ∀ l ∈ ds.map lexeme, l.isSelect = true) :
    ∃ rs : List Range, ds.map lexeme = rs.map (.range .nonIndexed) := by
  induction ds with
  | nil => exact ⟨[], rfl⟩
  | cons d ds ih =>
      obtain ⟨hd, hds⟩ := List.forall_mem_cons.1 h
      obtain ⟨rs, hrs⟩ := ih hds
      cases d with
      | bounded r => exact ⟨r :: rs, by rw [List.map_cons, List.map_cons, hrs, lexeme]⟩
      | unsized => cases hd

/-- A target whose assignment is a segment is a name under part selects with fixed bounds. -/
theorem Segment.exists_partSelects {s : Segment} {t : Target} {a : Assign}
    (h : t.lexemes ++ [.assign a] = s.lexemes) :
    ∃ name rs, t = (Target.ident name).partSelects rs := by
  obtain ⟨l, ls, ht, -, hls⟩ := t.exists_cons_lexemes
  rw [ht, lexemes, NameWords.lexemes, List.cons_append] at h
  -- a declared name is no select, so it can only be the first word
  have hhead : s.head.lexemes = [] := by
    cases hk : s.head.lexemes with
    | nil => rfl
    | cons k ks =>
        rw [hk, List.cons_append] at h
        have hmem : Lexeme.ident s.name.name ∈ ls ++ [.assign a] := by
          rw [(List.cons.inj h).2]
          exact List.mem_append_right _ (List.mem_cons_self ..)
        rcases List.mem_append.1 hmem with hmem | hmem
        · cases hls _ hmem
        · cases List.mem_singleton.1 hmem
  rw [hhead, List.nil_append] at h
  obtain ⟨rfl, hrear⟩ := List.cons.inj h
  have hdims : ls = s.name.dims.map Dimension.lexeme := by
    rw [NameWords.rear] at hrear
    cases hinit : s.name.init with
    | none =>
        rw [hinit, Option.map_none, Option.toList_none, List.append_nil] at hrear
        have hmem : Lexeme.assign a ∈ s.name.dims.map Dimension.lexeme := by
          rw [← hrear]
          exact List.mem_append_right _ (List.mem_singleton_self _)
        cases Dimension.isHeadWord_of_mem_map hmem
    | some b =>
        rw [hinit] at hrear
        exact (List.append_inj' hrear rfl).1
  rw [hdims] at hls
  obtain ⟨rs, hrs⟩ := Dimension.exists_ranges hls
  refine ⟨s.name.name, rs, Target.lexemes_injective ?_⟩
  rw [ht, hdims, hrs, Target.lexemes_partSelects]
  rfl

/-- A list of declarations without a comma is one segment. -/
theorem Segment.exists_spelledBy_of_commaFree {ts : List Token} {gs : List DeclGroup}
    (h : readGroups ts = .ok gs) (hne : ts ≠ []) (hfree : CommaFree ts) :
    ∃ s : Segment, s.SpelledBy ts := by
  rcases DeclGroup.segments_of_takeAll (readGroups_eq_ok_iff.1 h) with hnil | hsegs
  · exact absurd hnil hne
  · rw [hfree.segments_eq] at hsegs
    exact hsegs ts (List.mem_singleton_self ts)

theorem isPorts_of_readGroups {ts : List Token} {gs : List DeclGroup} (h : readGroups ts = .ok gs)
    {t : Token} (ht : t ∈ ts) : t.lexeme.isPorts = false := by
  obtain ⟨l, pos⟩ := t
  rcases isDeclWord_of_readGroups h ht with hword | hword
  · rw [eq_comma_of_isSeparator hword]
    rfl
  · cases l with
    | ports args => cases hword
    | _ => rfl

namespace Stmt

/-- **A statement that is also a declaration is an untyped name.** -/
theorem untypedBy_of_spelledBy {ts : List Token} {gs : List DeclGroup} {s : Stmt}
    (h : readGroups ts = .ok gs) (hs : s.SpelledBy (ts.map Token.lexeme)) :
    s.UntypedBy (ts.map Token.lexeme) := by
  have hports : ∀ l ∈ ts.map Token.lexeme, l.isPorts = false := by
    intro l hl
    obtain ⟨t, ht, rfl⟩ := List.mem_map.1 hl
    exact isPorts_of_readGroups h ht
  generalize hls : ts.map Token.lexeme = ls at hs hports
  cases hs with
  | name name => exact UntypedBy.call name
  | scopedName scope name =>
      obtain ⟨t, rfl, ht⟩ := List.map_eq_singleton_iff.1 hls
      have hfree : CommaFree [t] := commaFree_cons.2 ⟨by rw [isSeparator, ht]; rfl, commaFree_nil⟩
      obtain ⟨seg, hseg⟩ := Segment.exists_spelledBy_of_commaFree h (List.cons_ne_nil _ _) hfree
      have hmem : Lexeme.ident seg.name.name ∈ [Lexeme.scopedIdent scope name] := by
        rw [← hls, hseg.lexemes]
        exact List.mem_append_right _ (List.mem_cons_self ..)
      cases List.mem_singleton.1 hmem
  | scopedCall scope name args =>
      cases hports (.ports args) (List.mem_cons_of_mem _ (List.mem_singleton_self _))
  | call args htarget =>
      cases hports (.ports args) (List.mem_append_right _ (List.mem_singleton_self _))
  | assign a htarget =>
      obtain ⟨front, last, rfl, hfront, hlast⟩ := List.map_eq_append_iff.1 hls
      obtain ⟨t, rfl, ht⟩ := List.map_eq_singleton_iff.1 hlast
      have hfree : CommaFree (front ++ [t]) := by
        refine commaFree_append.2 ⟨commaFree_of_target (hfront ▸ htarget), ?_⟩
        exact commaFree_cons.2 ⟨by rw [isSeparator, ht]; rfl, commaFree_nil⟩
      obtain ⟨seg, hseg⟩ := Segment.exists_spelledBy_of_commaFree h (by simp) hfree
      rw [Target.ofLexemes?_eq_some_iff.1 htarget] at hls ⊢
      obtain ⟨name, rs, rfl⟩ := Segment.exists_partSelects (hls.symm.trans hseg.lexemes)
      rw [Target.lexemes_partSelects]
      exact UntypedBy.assign name rs a

/-- A list of declarations with plain assignments is not refused as a statement. -/
theorem ofTokens_of_readGroups {ts : List Token} {gs : List DeclGroup}
    (h : readGroups ts = .ok gs) (hplain : ∀ t ∈ ts, t.lexeme.isImproperAssign = false) :
    ∃ s?, ofTokens ts = .ok s? := by
  cases hs : ofTokens ts with
  | ok s? => exact ⟨s?, rfl⟩
  | error front =>
      obtain ⟨t, ht, hports | hassign⟩ := exists_mem_of_ofTokens hs
      · rw [isPorts_of_readGroups h ht] at hports
        cases hports
      · rw [hplain t ht] at hassign
        cases hassign

end Stmt

/-! ### The assignment in front -/

/-- An assignment in front of other tokens is moved behind them. -/
theorem moveLeadingAssign_cons {t : Token} {rest : List Token} (ht : t.isAssign = true)
    (hrest : rest ≠ []) : moveLeadingAssign (t :: rest) = rest ++ [t] := by
  rcases moveLeadingAssign_cases (t :: rest) with ⟨u, us, -, -, hsplit, hmove⟩ | ⟨hlone, -⟩
  · obtain ⟨rfl, rfl⟩ := List.cons.inj hsplit
    exact hmove
  · exact absurd (List.cons.inj (hlone t rfl ht)).2 hrest

/-- A list that starts with another token stays as it is. -/
theorem moveLeadingAssign_of_not_isAssign {t : Token} (h : t.isAssign = false) (ts : List Token) :
    moveLeadingAssign (t :: ts) = t :: ts := by
  rcases moveLeadingAssign_cases (t :: ts) with ⟨u, us, hu, -, hsplit, -⟩ | ⟨-, hmove⟩
  · obtain ⟨rfl, rfl⟩ := List.cons.inj hsplit
    rw [h] at hu
    cases hu
  · exact hmove

/-- Moving an assignment changes the order of the tokens only. -/
theorem moveLeadingAssign_perm (ts : List Token) : (moveLeadingAssign ts).Perm ts := by
  rcases moveLeadingAssign_cases ts with ⟨t, rest, -, -, rfl, hmove⟩ | ⟨-, hmove⟩
  · rw [hmove]
    exact List.perm_append_singleton ..
  · exact List.Perm.of_eq hmove

/-- A list of declarations does not start with an assignment. -/
theorem isAssign_of_readGroups {t : Token} {ts : List Token} {gs : List DeclGroup}
    (h : readGroups (t :: ts) = .ok gs) : t.isAssign = false := by
  have hhead := isHeadWord_of_readGroups h
  obtain ⟨l, pos⟩ := t
  cases l with
  | assign a => cases hhead
  | _ => rfl

/-- In a list of declarations no assignment is moved. -/
theorem moveLeadingAssign_of_readGroups {ts : List Token} {gs : List DeclGroup}
    (h : readGroups ts = .ok gs) : moveLeadingAssign ts = ts := by
  cases ts with
  | nil => rfl
  | cons t ts => exact moveLeadingAssign_of_not_isAssign (isAssign_of_readGroups h) ts

/-! ### Items of a block -/

theorem Stmt.SpelledBy.ne_nil {s : Stmt} {ts : List Token}
    (h : s.SpelledBy ((moveLeadingAssign ts).map Token.lexeme)) : ts ≠ [] := by
  rintro rfl
  generalize hls : (moveLeadingAssign []).map Token.lexeme = ls at h
  cases h with
  | assign a _ => exact List.cons_ne_nil _ _ (List.append_eq_nil_iff.1 hls.symm).2
  | call args _ => exact List.cons_ne_nil _ _ (List.append_eq_nil_iff.1 hls.symm).2
  | _ => cases hls

/-- What is spelled like a statement is read as that statement. -/
theorem readBlockItem_of_spelledBy (options : Options) {t : Token} {ts : List Token} {s : Stmt}
    (h : s.SpelledBy ((moveLeadingAssign (t :: ts)).map Token.lexeme)) :
    readBlockItem options (t :: ts) = .ok (.stmts (s.traced options t.pos)) := by
  simp only [readBlockItem, Stmt.ofTokens_eq_some_iff.2 h]

theorem spelledBy_of_readBlockItem {options : Options} {ts : List Token} {ss : List Stmt}
    (h : readBlockItem options ts = .ok (.stmts ss)) :
    ∃ s : Stmt, s.SpelledBy ((moveLeadingAssign ts).map Token.lexeme) ∧
      ∃ pos, ss = s.traced options pos := by
  unfold readBlockItem at h
  split at h
  next => cases h
  next t us =>
    split at h
    next => cases h
    next s hs =>
      cases h
      exact ⟨s, Stmt.spelledBy_of_ofTokens hs, t.pos, rfl⟩
    next =>
      cases hd : readDecl options (t :: us) with
      | error fault => simp [hd, Except.map] at h
      | ok ds => simp [hd, Except.map] at h

theorem readDecl_of_readBlockItem {options : Options} {ts : List Token} {ds : List Decl}
    (h : readBlockItem options ts = .ok (.decls ds)) : readDecl options ts = .ok ds := by
  unfold readBlockItem at h
  split at h
  next => cases h
  next t us =>
    split at h
    next => cases h
    next => cases h
    next =>
      cases hd : readDecl options (t :: us) with
      | error fault => simp [hd, Except.map] at h
      | ok ds' => simpa [hd, Except.map] using h

/-- A declaration that is no untyped name is read as a declaration. -/
theorem readBlockItem_of_readDecl {options : Options} {ts : List Token} {ds : List Decl}
    (h : readDecl options ts = .ok ds)
    (hs : ¬ ∃ s : Stmt, s.UntypedBy (ts.map Token.lexeme)) :
    readBlockItem options ts = .ok (.decls ds) := by
  obtain ⟨hplain, g, hg, -⟩ := readDecl_eq_ok_iff.1 h
  cases ts with
  | nil =>
      rw [readGroups_nil] at hg
      cases hg
  | cons t ts =>
      obtain ⟨s?, hs?⟩ := Stmt.ofTokens_of_readGroups hg hplain
      cases s? with
      | none => simp only [readBlockItem, moveLeadingAssign_of_readGroups hg, hs?, h, Except.map]
      | some s =>
          have hspelled := Stmt.spelledBy_of_ofTokens hs?
          exact absurd ⟨s, Stmt.untypedBy_of_spelledBy hg hspelled⟩ hs

/-- An untyped name is read as a statement, also where it is a declaration. -/
theorem readBlockItem_of_untypedBy (options : Options) {t : Token} {ts : List Token} {s : Stmt}
    (h : s.UntypedBy ((t :: ts).map Token.lexeme)) :
    readBlockItem options (t :: ts) = .ok (.stmts (s.traced options t.pos)) := by
  have hfirst : t.isAssign = false := by
    rw [isAssign]
    generalize hls : (t :: ts).map Token.lexeme = ls at h
    cases h with
    | call name =>
        rw [(List.cons.inj hls).1]
        rfl
    | assign name rs a =>
        rw [(List.cons.inj hls).1]
        rfl
  refine readBlockItem_of_spelledBy options ?_
  rw [moveLeadingAssign_of_not_isAssign hfirst]
  exact h.spelledBy

theorem Stmt.traced_ne_nil (options : Options) (pos : Position) (s : Stmt) :
    s.traced options pos ≠ [] :=
  List.append_ne_nil_of_right_ne_nil _ (List.cons_ne_nil _ _)

/-- **An item of a block is read exactly if it is spelled like a statement or is a declaration.
What is spelled like a statement is read as one, so a declaration is read as a declaration unless it
is an untyped name; and one of the two lists of an item is empty and the other one is not.** -/
theorem readBlockItem_shape (options : Options) (ts : List Token) :
    ((∃ item, readBlockItem options ts = .ok item) ↔
      (∃ s : Stmt, s.SpelledBy ((moveLeadingAssign ts).map Token.lexeme)) ∨
        ∃ ds, readDecl options ts = .ok ds) ∧
    ((∃ ss, readBlockItem options ts = .ok (.stmts ss)) ↔
      ∃ s : Stmt, s.SpelledBy ((moveLeadingAssign ts).map Token.lexeme)) ∧
    (∀ ds, readDecl options ts = .ok ds →
      ((¬ ∃ s : Stmt, s.UntypedBy (ts.map Token.lexeme)) →
        readBlockItem options ts = .ok (.decls ds)) ∧
      ∀ t (s : Stmt), ts.head? = some t → s.UntypedBy (ts.map Token.lexeme) →
        readBlockItem options ts = .ok (.stmts (s.traced options t.pos))) ∧
    (∀ ds, readBlockItem options ts = .ok (.decls ds) → readDecl options ts = .ok ds) ∧
    ∀ item, readBlockItem options ts = .ok item →
      Xor (item.declarations ≠ []) (item.statements ≠ []) := by
  have hstmts : (∃ s : Stmt, s.SpelledBy ((moveLeadingAssign ts).map Token.lexeme)) →
      ∃ ss, readBlockItem options ts = .ok (.stmts ss) := by
    rintro ⟨s, hs⟩
    obtain ⟨t, us, rfl⟩ := List.exists_cons_of_ne_nil hs.ne_nil
    exact ⟨_, readBlockItem_of_spelledBy options hs⟩
  have huntyped : ∀ t (s : Stmt), ts.head? = some t → s.UntypedBy (ts.map Token.lexeme) →
      readBlockItem options ts = .ok (.stmts (s.traced options t.pos)) := by
    intro t s ht hs
    obtain ⟨us, rfl⟩ := List.head?_eq_some_iff.1 ht
    exact readBlockItem_of_untypedBy options hs
  refine ⟨⟨?_, ?_⟩, ⟨?_, hstmts⟩, ?_, fun ds => readDecl_of_readBlockItem, ?_⟩
  · rintro ⟨ds | ss, h⟩
    · exact Or.inr ⟨ds, readDecl_of_readBlockItem h⟩
    · obtain ⟨s, hs, -⟩ := spelledBy_of_readBlockItem h
      exact Or.inl ⟨s, hs⟩
  · rintro (h | ⟨ds, h⟩)
    · obtain ⟨ss, hss⟩ := hstmts h
      exact ⟨.stmts ss, hss⟩
    · by_cases hs : ∃ s : Stmt, s.UntypedBy (ts.map Token.lexeme)
      · obtain ⟨s, hs⟩ := hs
        obtain ⟨t, us, rfl⟩ : ∃ t us, ts = t :: us := by
          refine List.exists_cons_of_ne_nil ?_
          rintro rfl
          cases hs
        exact ⟨_, huntyped t s rfl hs⟩
      · exact ⟨.decls ds, readBlockItem_of_readDecl h hs⟩
  · rintro ⟨ss, h⟩
    obtain ⟨s, hs, -⟩ := spelledBy_of_readBlockItem h
    exact ⟨s, hs⟩
  · intro ds h
    exact ⟨readBlockItem_of_readDecl h, huntyped⟩
  · rintro (ds | ss) h
    · exact Or.inl ⟨ne_nil_of_readDecl (readDecl_of_readBlockItem h), fun hne => hne rfl⟩
    · obtain ⟨s, -, pos, rfl⟩ := spelledBy_of_readBlockItem h
      exact Or.inr ⟨s.traced_ne_nil options pos, fun hne => hne rfl⟩

/-- An increment in front of `a[2]` is moved behind it, and there the tokens spell a statement,
which they do not as they came.  Alone, the increment stays where it is, and it is refused. -/
theorem readBlockItem_shape_increment :
    let increment : Assign := ⟨.compound .add, none, .number "1"⟩
    let first : Token := ⟨.assign increment, ⟨"top.sv", 6, 3⟩⟩
    let rest : List Token :=
      [⟨.ident "a", ⟨"top.sv", 6, 5⟩⟩, ⟨.index (.number "2"), ⟨"top.sv", 6, 6⟩⟩]
    (moveLeadingAssign (first :: rest) = rest ++ [first] ∧
      ¬ (∃ s : Stmt, s.SpelledBy ((first :: rest).map Token.lexeme)) ∧
      ∃ ss, readBlockItem ⟨true⟩ (first :: rest) = .ok (.stmts ss)) ∧
    moveLeadingAssign [first] = [first] ∧
      ¬ ∃ item, readBlockItem ⟨true⟩ [first] = .ok item := by
  intro increment first rest
  have hmove : moveLeadingAssign (first :: rest) = rest ++ [first] :=
    moveLeadingAssign_cons rfl (List.cons_ne_nil _ _)
  have hspelled : Stmt.SpelledBy (.assign (.bit (.ident "a") (.number "2")) increment)
      ((moveLeadingAssign (first :: rest)).map Token.lexeme) := by
    rw [hmove]
    exact Stmt.ofTokens_eq_some_iff.1 rfl
  refine ⟨⟨hmove, ?_, (readBlockItem_shape ⟨true⟩ _).2.1.2 ⟨_, hspelled⟩⟩, rfl, ?_⟩
  · rintro ⟨s, hs⟩
    cases Stmt.ofTokens_eq_some_iff.2 hs
  · intro h
    rcases (readBlockItem_shape ⟨true⟩ _).1.1 h with ⟨s, hs⟩ | ⟨ds, hds⟩
    · cases Stmt.ofTokens_eq_some_iff.2 hs
    · cases (readDecl_eq_ok_iff.1 hds).1 first (List.mem_singleton_self first)

end VerilogDecl
