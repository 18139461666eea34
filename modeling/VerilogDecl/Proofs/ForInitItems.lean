/-
**What a loop initializes, a block reads the same way.**

The assignments of a loop are found by looking for the next assignment and taking whatever stands in
front of it for a target.  A statement of a block is read from its end instead.  This module shows
that the two agree: the search never runs past a comma, so the list is cut at its commas and each
segment is, by itself, the statement that was read from it.  Declarations of a loop are those of the
list; a list is read as declarations only if its first segment is not just a name.

Main results:

* `VerilogDecl.readForInit_eq_ok_iff` — when an initialization is read as assignments, and when as
  declarations;
* `VerilogDecl.ForAssign.spelledBy_of_take`, `VerilogDecl.ForAssign.spelled_of_takeAll` — what is
  read as assignments is spelled, segment by segment;
* `VerilogDecl.readForInit_agrees` — **each segment of a list of assignments is a statement of a
  block, and the declarations of a loop are those of the list**.
-/

import VerilogDecl.Proofs.BlockItemShape
import VerilogDecl.Proofs.ForAssignList

set_option relaxedAutoImplicit false
set_option autoImplicit false

namespace VerilogDecl

open Token

/-! ### The two kinds of initialization -/

/-- **An initialization is read as assignments if it starts like them, and as declarations of
initialized variables otherwise.** -/
theorem readForInit_eq_ok_iff {options : Options} {ts : List Token} {init : ForInit} :
    readForInit options ts = .ok init ↔
      (∀ t ∈ ts, t.lexeme.isImproperAssign = false) ∧
        ((ForInit.startsAssigns ts = true ∧
            ∃ as, ForAssign.takeAll ts ts = .ok as ∧ init = .assigns as) ∨
          (ForInit.startsAssigns ts = false ∧
            ∃ ds, readDecls options ts = .ok ds ∧ uninitialized? ds = none ∧
              init = .decls ds)) := by
  rw [← refuseImproperAssigns_eq_ok_iff]
  unfold readForInit
  cases refuseImproperAssigns ts with
  | error fault => simp [bind, Except.bind]
  | ok u =>
      cases ForInit.startsAssigns ts with
      | true =>
          cases ForAssign.takeAll ts ts with
          | error fault => simp [bind, Except.bind]
          | ok as => simp [bind, Except.bind, pure, Except.pure, eq_comm]
      | false =>
          cases readDecls options ts with
          | error fault => simp [bind, Except.bind]
          | ok ds =>
              cases hinit : uninitialized? ds with
              | none => simp [bind, Except.bind, pure, Except.pure, hinit, eq_comm]
              | some v => simp [bind, Except.bind, hinit]

/-- Declarations without an uninitialized one initialize every variable. -/
theorem uninitialized?_eq_none_iff {ds : List Decl} :
    uninitialized? ds = none ↔ ∀ v, Decl.var v ∈ ds → v.init ≠ none := by
  rw [uninitialized?, List.find?_eq_none]
  constructor
  · intro h v hv hnone
    refine h v (List.mem_filterMap.2 ⟨.var v, hv, rfl⟩) ?_
    rw [hnone]
    rfl
  · intro h v hv hnone
    obtain ⟨d, hd, hdv⟩ := List.mem_filterMap.1 hv
    cases d with
    | var v' =>
        obtain rfl := Option.some.inj hdv
        exact h v' hd (Option.isNone_iff_eq_none.1 hnone)
    | comment s => cases hdv

/-! ### What is read as assignments is spelled -/

namespace ForAssign

/-- What is read as one assignment spells it, if every assignment is plain. -/
theorem spelledBy_of_take {ts rest : List Token} {a : ForAssign}
    (hplain : ∀ t ∈ ts, t.lexeme.isImproperAssign = false) (h : take ts = .ok (a, rest)) :
    ∃ item, ts = item ++ rest ∧ a.SpelledBy item := by
  have hsplit := List.takeWhile_append_dropWhile (p := fun t : Token => !t.isAssign) (l := ts)
  unfold take at h
  split at h
  next b pos rest' hdrop =>
    simp only at h
    split at h
    next target htarget =>
      obtain ⟨rfl, rfl⟩ := Prod.mk.inj (Except.ok.inj h)
      rw [hdrop] at hsplit
      have hmem : (⟨.assign b, pos⟩ : Token) ∈ ts := by
        rw [← hsplit]
        exact List.mem_append_right _ (List.mem_cons_self ..)
      have hb : b = .plain b.expr := by
        have himproper : (!b.isPlain) = false := hplain _ hmem
        exact Assign.isPlain_iff.1 (by simpa using himproper)
      refine ⟨ts.takeWhile (!·.isAssign) ++ [⟨.assign b, pos⟩], ?_, ?_⟩
      · rw [List.append_assoc, List.singleton_append, hsplit]
      · exact ⟨_, pos, by rw [← hb], htarget⟩
    next => cases h
  next => cases h

/-- **What is read as assignments is spelled by the segments, one after the other.** -/
theorem spelled_of_takeAll {whole ts : List Token} {as : List ForAssign}
    (hplain : ∀ t ∈ ts, t.lexeme.isImproperAssign = false) (h : takeAll whole ts = .ok as) :
    List.Forall₂ SpelledBy as (segments ts) := by
  -- the cases are those of the reader: a fault, the end, a trailing comma, one more assignment
  -- behind the comma, and no comma at all
  fun_induction takeAll whole ts generalizing as with
  | case1 => cases h
  | case2 ts a htake =>
      obtain ⟨item, hts, hitem⟩ := spelledBy_of_take hplain htake
      rw [List.append_nil] at hts
      obtain rfl := Except.ok.inj h
      rw [hts, hitem.commaFree.segments_eq]
      exact List.Forall₂.cons hitem List.Forall₂.nil
  | case3 => cases h
  | case4 ts a sep rest htake hsep hne ih =>
      obtain ⟨item, rfl, hitem⟩ := spelledBy_of_take hplain htake
      have hrest : ∀ t ∈ rest, t.lexeme.isImproperAssign = false := by
        intro t ht
        exact hplain t (List.mem_append_right _ (List.mem_cons_of_mem _ ht))
      cases hr : takeAll whole rest with
      | error fault => simp [hr, Except.map] at h
      | ok as' =>
          obtain rfl : a :: as' = as := by simpa [hr, Except.map] using h
          rw [eq_comma_of_isSeparator hsep, hitem.commaFree.segments_append_comma]
          exact List.Forall₂.cons hitem (ih hrest hr)
  | case5 => cases h

/-- The tokens of an assignment are read as that statement of a block. -/
theorem SpelledBy.readBlockItem_eq {a : ForAssign} {item : List Token} (h : a.SpelledBy item) :
    readBlockItem ⟨false⟩ item = .ok (.stmts [.assign a.target (.plain a.expr)]) := by
  obtain ⟨front, pos, rfl, htarget⟩ := h
  cases front with
  | nil => cases htarget
  | cons t front =>
      have hfirst : t.isAssign = false := isAssign_of_target htarget (List.mem_cons_self ..)
      have hspelled : (Stmt.assign a.target (.plain a.expr)).SpelledBy
          ((moveLeadingAssign (t :: (front ++ [⟨.assign (.plain a.expr), pos⟩]))).map
            Token.lexeme) := by
        rw [moveLeadingAssign_of_not_isAssign hfirst, ← List.cons_append, List.map_append]
        exact Stmt.SpelledBy.assign _ htarget
      exact readBlockItem_of_spelledBy ⟨false⟩ hspelled

end ForAssign

/-! ### Lists that are read as declarations -/

/-- A list whose first segment is only a name is read as assignments. -/
theorem ForInit.startsAssigns_of_name {ts seg : List Token} {n : NameWords}
    (hseg : (segments ts).head? = some seg) (hn : seg.map Token.lexeme = n.lexemes) :
    startsAssigns ts = true := by
  obtain ⟨segs, hsegs⟩ := List.head?_eq_some_iff.1 hseg
  obtain ⟨tail, htail, hends⟩ := (hsegs ▸ commaJoin_segments ts).exists_tail
  rw [startsAssigns, htail, Declarator.starts_append hn hends, Bool.or_true]

/-! ### Initializations and items -/

/-- **Where an initialization is read as assignments, it has one for each of its segments, and the
segment by itself is read as that statement of a block.  Where it is read as declarations, these are
those of the list, every variable has an initial value, and the first segment is not just a name
with its dimensions and its initializer.** -/
theorem readForInit_agrees (options : Options) (ts : List Token) :
    (∀ as, readForInit options ts = .ok (.assigns as) →
      ts ≠ [] ∧ as ≠ [] ∧ (segments ts).length = as.length ∧
        List.Forall₂ (fun (a : ForAssign) seg =>
          readBlockItem ⟨false⟩ seg = .ok (.stmts [.assign a.target (.plain a.expr)]))
          as (segments ts)) ∧
    ∀ ds, readForInit options ts = .ok (.decls ds) →
      readDecls options ts = .ok ds ∧ (∀ v, Decl.var v ∈ ds → v.init ≠ none) ∧
        ∀ seg, (segments ts).head? = some seg →
          ¬ ∃ n : NameWords, seg.map Token.lexeme = n.lexemes := by
  constructor
  · intro as h
    obtain ⟨hplain, ⟨-, _, htake, ⟨⟩⟩ | ⟨-, ds, -, -, ⟨⟩⟩⟩ := readForInit_eq_ok_iff.1 h
    have hspelled := ForAssign.spelled_of_takeAll hplain htake
    refine ⟨?_, ?_, hspelled.length_eq.symm, hspelled.imp fun a seg ha => ha.readBlockItem_eq⟩
    · rintro rfl
      rw [ForAssign.takeAll_eq] at htake
      cases htake
    · rintro rfl
      exact segments_ne_nil ts (List.forall₂_nil_left_iff.1 hspelled)
  · intro ds h
    obtain ⟨-, ⟨-, as, -, ⟨⟩⟩ | ⟨hstarts, _, hdecls, hinit, ⟨⟩⟩⟩ := readForInit_eq_ok_iff.1 h
    refine ⟨hdecls, uninitialized?_eq_none_iff.1 hinit, ?_⟩
    rintro seg hseg ⟨n, hn⟩
    rw [ForInit.startsAssigns_of_name hseg hn] at hstarts
    cases hstarts

unseal Declarator.takeList DeclGroup.takeAll ForAssign.takeAll in
/-- An indexed part select behind a comma is assigned to by the loop and by a block alike, and a
loop declares its variable as a list of declarations does. -/
theorem readForInit_agrees_select :
    (readForInit ⟨true⟩
      [⟨.ident "i", ⟨"loop.sv", 1, 6⟩⟩, ⟨.assign (.plain (.number "0")), ⟨"loop.sv", 1, 8⟩⟩,
        ⟨.comma, ⟨"loop.sv", 1, 11⟩⟩, ⟨.ident "x", ⟨"loop.sv", 1, 13⟩⟩,
        ⟨.range .indexedPlus ⟨.number "0", .number "4"⟩, ⟨"loop.sv", 1, 14⟩⟩,
        ⟨.assign (.plain (.number "1")), ⟨"loop.sv", 1, 21⟩⟩] =
      .ok (.assigns [⟨.ident "i", .number "0"⟩,
        ⟨.partSelect (.ident "x") .indexedPlus ⟨.number "0", .number "4"⟩, .number "1"⟩]) ∧
    readBlockItem ⟨false⟩
      [⟨.ident "x", ⟨"loop.sv", 1, 13⟩⟩,
        ⟨.range .indexedPlus ⟨.number "0", .number "4"⟩, ⟨"loop.sv", 1, 14⟩⟩,
        ⟨.assign (.plain (.number "1")), ⟨"loop.sv", 1, 21⟩⟩] =
      .ok (.stmts [.assign
        (.partSelect (.ident "x") .indexedPlus ⟨.number "0", .number "4"⟩)
        (.plain (.number "1"))])) ∧
    readForInit ⟨false⟩
      [⟨.typeBase (.atom .int), ⟨"loop.sv", 1, 6⟩⟩, ⟨.ident "i", ⟨"loop.sv", 1, 10⟩⟩,
        ⟨.assign (.plain (.number "0")), ⟨"loop.sv", 1, 12⟩⟩] =
      .ok (.decls [.var ⟨.unspecified,
        ⟨ TypeBase.atom .int, .unspecified, [], TypeBase.fits_unspecified _⟩, "i", [],
        some (.number "0")⟩]) ∧
    readDecls ⟨false⟩
      [⟨.typeBase (.atom .int), ⟨"loop.sv", 1, 6⟩⟩, ⟨.ident "i", ⟨"loop.sv", 1, 10⟩⟩,
        ⟨.assign (.plain (.number "0")), ⟨"loop.sv", 1, 12⟩⟩] =
      .ok [.var ⟨.unspecified,
        ⟨ TypeBase.atom .int, .unspecified, [], TypeBase.fits_unspecified _⟩, "i", [],
        some (.number "0")⟩] := by
  constructor
  · refine (fun h => ⟨h, ?_⟩) rfl
    obtain ⟨-, -, -, hitems⟩ := (readForInit_agrees ⟨true⟩ _).1 _ h
    exact (List.forall₂_cons.1 (List.forall₂_cons.1 hitems).2).1
  · refine (fun h => ⟨h, ?_⟩) rfl
    exact ((readForInit_agrees ⟨false⟩ _).2 _ h).1

end VerilogDecl
