/-
**Assignments at the start of a loop.**

A list of plain assignments can be read back whatever its targets are, once it is known to be one.
Whether it is one is decided from the tokens in front of the first comma, and this decision does not
know all targets.  Part selects count as dimensions of a declared name, so an indexed one, which no
declaration has, is neither a word of a declaration nor taken as a sign of a target.  This module
says which first targets are missed, and what happens then.

Main definitions:

* `VerilogDecl.ForAssign.SpelledBy` — the tokens of an assignment of a loop;
* `VerilogDecl.Target.opensAssigns` — is a list of assignments known from this first target?

Main results:

* `VerilogDecl.ForAssign.takeAll_of_commaJoin` — what is spelled is read as assignments;
* `VerilogDecl.ForInit.startsAssigns_of_spelledBy` — the decision depends on the first target only;
* `VerilogDecl.readForInit_of_assigns` — **a list of assignments is read as it is spelled, unless
  its first target is a name under part selects of which one is indexed**.
-/

import VerilogDecl.ForInit
import VerilogDecl.Proofs.GroupGrammar
import VerilogDecl.Proofs.TargetReading

set_option relaxedAutoImplicit false
set_option autoImplicit false

namespace VerilogDecl

open Token

/-- Is this a part select with a moving base? -/
def Lexeme.isIndexed : Lexeme → Bool
  | range .nonIndexed _ => false
  | range .. => true
  | _ => false

/-- Is a list of assignments known from its first target `t`?  It is if something in `t` can belong
to a target only, or if all its part selects look like dimensions. -/
def Target.opensAssigns (t : Target) : Bool :=
  t.lexemes.any Lexeme.isTargetOnly || !t.lexemes.any Lexeme.isIndexed

/-! ### Spelled assignments -/

namespace ForAssign

/-- The tokens `item` spell the assignment `a`: its target, then its expression behind a plain
assignment. -/
def SpelledBy (a : ForAssign) (item : List Token) : Prop :=
  ∃ front pos, item = front ++ [⟨.assign (.plain a.expr), pos⟩] ∧
    Target.ofTokens? front = some a.target

theorem isAssign_of_target {front : List Token} {t : Target}
    (h : Target.ofTokens? front = some t) {u : Token} (hu : u ∈ front) : u.isAssign = false := by
  have hmem : u.lexeme ∈ t.lexemes := by
    rw [← Target.ofTokens?_eq_some_iff.1 h]
    exact List.mem_map_of_mem hu
  have hword := Target.isTargetWord_of_mem_lexemes hmem
  obtain ⟨l, pos⟩ := u
  cases l with
  | assign a => cases hword
  | _ => rfl

theorem SpelledBy.commaFree {a : ForAssign} {item : List Token} (h : a.SpelledBy item) :
    CommaFree item := by
  obtain ⟨front, pos, rfl, ht⟩ := h
  exact commaFree_append.2 ⟨commaFree_of_target ht, commaFree_cons.2 ⟨rfl, commaFree_nil⟩⟩

theorem SpelledBy.isImproperAssign {a : ForAssign} {item : List Token} (h : a.SpelledBy item)
    {t : Token} (ht : t ∈ item) : t.lexeme.isImproperAssign = false := by
  obtain ⟨front, pos, rfl, htarget⟩ := h
  rcases List.mem_append.1 ht with ht | ht
  · have hassign := isAssign_of_target htarget ht
    obtain ⟨l, pos'⟩ := t
    cases l with
    | assign b => cases hassign
    | _ => rfl
  · rw [List.mem_singleton.1 ht]
    rfl

theorem refuseImproperAssigns_of_commaJoin {as : List ForAssign} {items : List (List Token)}
    {ts : List Token} (hs : List.Forall₂ SpelledBy as items) (hj : CommaJoin items ts) :
    refuseImproperAssigns ts = .ok () := by
  have hitems : ∀ item ∈ items, ∀ t ∈ item, t.lexeme.isImproperAssign = false := by
    clear hj
    induction hs with
    | nil => exact List.forall_mem_nil _
    | cons ha _ ih => exact List.forall_mem_cons.2 ⟨fun t ht => ha.isImproperAssign ht, ih⟩
  refine refuseImproperAssigns_eq_ok_iff.2 fun t ht => ?_
  rcases hj.isSeparator_or_mem ht with hsep | ⟨item, hitem, ht⟩
  · rw [eq_comma_of_isSeparator hsep]
    rfl
  · exact hitems item hitem t ht

/-- A spelled assignment is read, whatever stands behind it. -/
theorem take_append {a : ForAssign} {item : List Token} (h : a.SpelledBy item)
    (rest : List Token) : take (item ++ rest) = .ok (a, rest) := by
  obtain ⟨front, pos, rfl, ht⟩ := h
  have hpos : ∀ u ∈ front, (!u.isAssign) = true := by
    intro u hu
    rw [isAssign_of_target ht hu]
    rfl
  have hdrop : (front ++ ⟨.assign (.plain a.expr), pos⟩ :: rest).dropWhile (!·.isAssign) =
      ⟨.assign (.plain a.expr), pos⟩ :: rest := by
    rw [List.dropWhile_append_of_pos hpos]
    rfl
  have hfront : (front ++ ⟨.assign (.plain a.expr), pos⟩ :: rest).takeWhile (!·.isAssign) =
      front := by
    rw [List.takeWhile_append_of_pos hpos]
    exact List.append_nil front
  rw [List.append_assoc, List.singleton_append, take, hdrop, hfront]
  simp only [ht]
  rfl

/-- **Assignments with commas between them are read one after the other.** -/
theorem takeAll_of_commaJoin {a : ForAssign} {as : List ForAssign} {items : List (List Token)}
    {ts : List Token} (hs : List.Forall₂ SpelledBy (a :: as) items) (hj : CommaJoin items ts)
    (whole : List Token) : takeAll whole ts = .ok (a :: as) := by
  induction as generalizing a items ts with
  | nil =>
      cases hs with
      | cons ha hs =>
          cases hs
          cases hj
          have htake := take_append ha []
          rw [List.append_nil] at htake
          rw [takeAll_eq, htake]
  | cons b as ih =>
      cases hs with
      | cons ha hs =>
          cases hs with
          | cons hb hs =>
              cases hj with
              | @cons _ pos _ _ us hj =>
                  have htail := ih (List.Forall₂.cons hb hs) hj
                  have hne : us.isEmpty = false := by
                    cases us with
                    | nil =>
                        rw [takeAll_eq] at htail
                        cases htail
                    | cons u us => rfl
                  rw [takeAll_eq, take_append ha]
                  simp only [isSeparator_comma, hne, htail, if_true, Bool.false_eq_true, if_false]
                  rfl

end ForAssign

/-! ### The decision -/

theorem Target.exists_ident_lexemes {t : Target} (h : t.lexemes.any Lexeme.isTargetOnly = false) :
    ∃ name ls, t.lexemes = .ident name :: ls ∧ ∀ l ∈ ls, ∃ mode r, l = .range mode r := by
  obtain ⟨l, ls, ht, hl, hls⟩ := t.exists_cons_lexemes
  rw [ht, List.any_eq_false] at h
  obtain ⟨name, rfl⟩ : ∃ name, l = .ident name := by
    have honly := h l (List.mem_cons_self ..)
    cases l with
    | ident name => exact ⟨name, rfl⟩
    | concat items => exact absurd rfl honly
    | stream op size items => exact absurd rfl honly
    | _ => cases hl
  refine ⟨name, ls, ht, fun k hk => ?_⟩
  have honly := h k (List.mem_cons_of_mem _ hk)
  have hselect := hls k hk
  cases k with
  | range mode r => exact ⟨mode, r, rfl⟩
  | index e => exact absurd rfl honly
  | member m => exact absurd rfl honly
  | _ => cases hselect

/-- In part selects and an assignment, a run of dimensions ends at the assignment or at the first
indexed part select. -/
theorem Dimension.exists_after_eq_cons {fs : List Token}
    (h : ∀ t ∈ fs, ∃ mode r, t.lexeme = .range mode r) (a : Assign) (pos : Position)
    (tail : List Token) :
    ∃ t rest, after (fs ++ ⟨.assign a, pos⟩ :: tail) = t :: rest ∧ t.isSeparator = false ∧
      t.isAssign = !fs.any (·.lexeme.isIndexed) := by
  induction fs with
  | nil => exact ⟨⟨.assign a, pos⟩, tail, rfl, rfl, rfl⟩
  | cons f fs ih =>
      obtain ⟨⟨mode, r, hf⟩, hfs⟩ := List.forall_mem_cons.1 h
      obtain ⟨l, pos'⟩ := f
      obtain rfl : l = .range mode r := hf
      -- only a select with fixed bounds is taken for a dimension
      cases mode with
      | nonIndexed => exact ih hfs
      | indexedPlus => exact ⟨_, _, rfl, rfl, rfl⟩
      | indexedMinus => exact ⟨_, _, rfl, rfl, rfl⟩

/-- An assignment with no word that only a target has is a name, part selects and the assignment. -/
theorem ForAssign.SpelledBy.exists_selects {a : ForAssign} {item : List Token}
    (h : a.SpelledBy item) (honly : a.target.lexemes.any Lexeme.isTargetOnly = false) :
    ∃ name pos fs pos', item = ⟨.ident name, pos⟩ :: (fs ++ [⟨.assign (.plain a.expr), pos'⟩]) ∧
      (∀ f ∈ fs, ∃ mode r, f.lexeme = .range mode r) ∧
      a.target.lexemes.any Lexeme.isIndexed = fs.any (·.lexeme.isIndexed) := by
  obtain ⟨front, pos', rfl, htarget⟩ := h
  obtain ⟨name, ls, hls, hranges⟩ := Target.exists_ident_lexemes honly
  have hlex := (Target.ofTokens?_eq_some_iff.1 htarget).trans hls
  obtain ⟨⟨_, pos⟩, fs, rfl, rfl, rfl⟩ := List.map_eq_cons_iff.1 hlex
  refine ⟨name, pos, fs, pos', rfl, ?_, ?_⟩
  · intro f hf
    exact hranges f.lexeme (List.mem_map_of_mem hf)
  · rw [hls, List.any_cons, List.any_map]
    exact Bool.false_or _

/-- **The decision depends on the first target only.** -/
theorem ForInit.startsAssigns_of_spelledBy {a : ForAssign} {item tail : List Token}
    (h : a.SpelledBy item) (ht : EndsSegment tail) :
    startsAssigns (item ++ tail) = a.target.opensAssigns := by
  have hany : item.any (·.lexeme.isTargetOnly) = a.target.lexemes.any Lexeme.isTargetOnly := by
    obtain ⟨front, pos, rfl, htarget⟩ := h
    rw [List.any_append, ← Target.ofTokens?_eq_some_iff.1 htarget, List.any_map]
    exact Bool.or_false _
  rw [startsAssigns, beforeComma_append h.commaFree ht, hany, Target.opensAssigns]
  cases honly : a.target.lexemes.any Lexeme.isTargetOnly with
  | true => rfl
  | false =>
      obtain ⟨name, pos, fs, pos', rfl, hfs, hidx⟩ := h.exists_selects honly
      obtain ⟨t, rest, hafter, hsep, hassign⟩ :=
        Dimension.exists_after_eq_cons hfs (.plain a.expr) pos' tail
      rw [Bool.false_or, Bool.false_or, hidx, ← hassign, List.cons_append, List.append_assoc,
        List.singleton_append, Declarator.starts]
      simp only [hafter, hsep, Bool.or_false]

/-! ### Indexed part selects as dimensions -/

/-- A name under part selects is no type, because no other name follows it. -/
theorem DeclGroup.takeDataType_selects {name : String} {pos pos' : Position} {a : Assign}
    {fs tail : List Token} (hfs : ∀ f ∈ fs, ∃ mode r, f.lexeme = .range mode r)
    (ht : EndsSegment tail) :
    takeDataType (⟨.ident name, pos⟩ :: (fs ++ ⟨.assign a, pos'⟩ :: tail)) =
      .ok (.implicit, ⟨.ident name, pos⟩ :: (fs ++ ⟨.assign a, pos'⟩ :: tail)) := by
  have hmember : ∀ m, ((fs ++ ⟨.assign a, pos'⟩ :: tail).map Token.lexeme).head? ≠
      some (.member m) := by
    intro m hm
    cases fs with
    | nil => cases hm
    | cons f fs =>
        obtain ⟨mode, r, hf⟩ := hfs f (List.mem_cons_self ..)
        rw [List.cons_append, List.map_cons, List.head?_cons, hf] at hm
        cases hm
  have hword : ∀ f ∈ fs ++ [⟨.assign a, pos'⟩],
      f.isSeparator = false ∧ f.lexeme.isName = false := by
    intro f hf
    rcases List.mem_append.1 hf with hf | hf
    · obtain ⟨mode, r, hf⟩ := hfs f hf
      rw [isSeparator, hf]
      exact ⟨rfl, rfl⟩
    · rw [List.mem_singleton.1 hf]
      exact ⟨rfl, rfl⟩
  have hnames : TypeHead.namesType (fs ++ ⟨.assign a, pos'⟩ :: tail) = false := by
    have hfree : CommaFree (fs ++ [⟨.assign a, pos'⟩]) := fun f hf => (hword f hf).1
    rw [← List.singleton_append, ← List.append_assoc, TypeHead.namesType_append hfree ht,
      List.any_map, List.any_eq_false]
    intro f hf
    rw [Function.comp_apply, (hword f hf).2]
    exact Bool.false_ne_true
  rw [takeDataType, TypeHead.take_ident hmember, hnames, if_neg Bool.false_ne_true]
  rfl

theorem takeInit_of_not_isAssign {t : Token} (h : t.isAssign = false) (ts : List Token) :
    takeInit (t :: ts) = (none, t :: ts) := by
  unfold takeInit
  split
  next he =>
    obtain ⟨rfl, -⟩ := List.cons.inj he
    cases h
  next => rfl

/-- A name under part selects of which one is indexed is no declaration. -/
theorem DeclGroup.takeAll_of_isIndexed {name : String} {pos pos' : Position} {a : Assign}
    {fs tail : List Token} (hfs : ∀ f ∈ fs, ∃ mode r, f.lexeme = .range mode r)
    (hidx : fs.any (·.lexeme.isIndexed) = true) (ht : EndsSegment tail) :
    takeAll (⟨.ident name, pos⟩ :: (fs ++ ⟨.assign a, pos'⟩ :: tail)) =
      .error (.separatorExpected (Dimension.after (fs ++ ⟨.assign a, pos'⟩ :: tail))) := by
  obtain ⟨t, rest, hafter, hsep, hassign⟩ := Dimension.exists_after_eq_cons hfs a pos' tail
  rw [hidx] at hassign
  have htake : take (⟨.ident name, pos⟩ :: (fs ++ ⟨.assign a, pos'⟩ :: tail)) = _ :=
    take_of_read rfl rfl (takeDataType_selects hfs ht)
  -- the declared name ends at the first indexed part select, which is no comma
  rw [takeAll_cons, htake, Declarator.takeList_eq, Declarator.take, hafter,
    takeInit_of_not_isAssign hassign]
  simp only [hsep, Bool.false_eq_true, if_false]
  rfl

/-- An assignment that is not known as one is refused as a declaration. -/
theorem readGroups_of_not_opensAssigns {a : ForAssign} {item tail : List Token}
    (h : a.SpelledBy item) (ht : EndsSegment tail) (hopens : a.target.opensAssigns = false) :
    readGroups (item ++ tail) =
      .error (.decl (.separatorExpected (Dimension.after (item ++ tail).tail)) (item ++ tail)) := by
  obtain ⟨honly, hindexed⟩ := Bool.or_eq_false_iff.1 hopens
  obtain ⟨name, pos, fs, pos', rfl, hfs, hidx⟩ := h.exists_selects honly
  have hany : fs.any (·.lexeme.isIndexed) = true := by
    rw [hidx] at hindexed
    simpa using hindexed
  rw [List.cons_append, List.append_assoc, List.singleton_append, readGroups,
    DeclGroup.takeAll_of_isIndexed hfs hany ht]
  rfl

/-! ### Initializations that assign -/

/-- **A list of assignments is read as it is spelled if it is known from its first target, and
refused as a declaration otherwise.** -/
theorem readForInit_of_assigns (options : Options) {a : ForAssign} {as : List ForAssign}
    {items : List (List Token)} {ts : List Token}
    (hs : List.Forall₂ ForAssign.SpelledBy (a :: as) items) (hj : CommaJoin items ts) :
    readForInit options ts =
      if a.target.opensAssigns then .ok (.assigns (a :: as))
      else .error (.decl (.separatorExpected (Dimension.after ts.tail)) ts) := by
  have hplain := ForAssign.refuseImproperAssigns_of_commaJoin hs hj
  have hall := ForAssign.takeAll_of_commaJoin hs hj ts
  simp only [readForInit, hplain, hall, bind, Except.bind, pure, Except.pure]
  cases hs with
  | cons ha hs =>
      obtain ⟨tail, hts, htail⟩ := hj.exists_tail
      have hstarts := ForInit.startsAssigns_of_spelledBy ha htail
      rw [← hts] at hstarts
      rw [hstarts]
      cases hopens : a.target.opensAssigns with
      | true => rfl
      | false =>
          have hgroups := readGroups_of_not_opensAssigns ha htail hopens
          rw [← hts] at hgroups
          simp only [readDecls, hplain, hgroups, bind, Except.bind, Bool.false_eq_true, if_false]

/-- An assignment to an indexed part select is read behind another one, but not in front. -/
theorem readForInit_of_assigns_indexed :
    readForInit ⟨true⟩
      [⟨.ident "i", ⟨"loop.sv", 1, 6⟩⟩, ⟨.assign (.plain (.number "0")), ⟨"loop.sv", 1, 8⟩⟩,
        ⟨.comma, ⟨"loop.sv", 1, 11⟩⟩, ⟨.ident "x", ⟨"loop.sv", 1, 13⟩⟩,
        ⟨.range .indexedPlus ⟨.number "0", .number "4"⟩, ⟨"loop.sv", 1, 14⟩⟩,
        ⟨.assign (.plain (.number "1")), ⟨"loop.sv", 1, 21⟩⟩] =
      .ok (.assigns [⟨.ident "i", .number "0"⟩,
        ⟨.partSelect (.ident "x") .indexedPlus ⟨.number "0", .number "4"⟩, .number "1"⟩]) ∧
    readForInit ⟨true⟩
      [⟨.ident "x", ⟨"loop.sv", 1, 6⟩⟩,
        ⟨.range .indexedPlus ⟨.number "0", .number "4"⟩, ⟨"loop.sv", 1, 7⟩⟩,
        ⟨.assign (.plain (.number "1")), ⟨"loop.sv", 1, 14⟩⟩] =
      .error (.decl
        (.separatorExpected
          [⟨.range .indexedPlus ⟨.number "0", .number "4"⟩, ⟨"loop.sv", 1, 7⟩⟩,
            ⟨.assign (.plain (.number "1")), ⟨"loop.sv", 1, 14⟩⟩])
        [⟨.ident "x", ⟨"loop.sv", 1, 6⟩⟩,
          ⟨.range .indexedPlus ⟨.number "0", .number "4"⟩, ⟨"loop.sv", 1, 7⟩⟩,
          ⟨.assign (.plain (.number "1")), ⟨"loop.sv", 1, 14⟩⟩]) := by
  have hi : ForAssign.SpelledBy ⟨.ident "i", .number "0"⟩
      [⟨.ident "i", ⟨"loop.sv", 1, 6⟩⟩, ⟨.assign (.plain (.number "0")), ⟨"loop.sv", 1, 8⟩⟩] :=
    ⟨[⟨.ident "i", ⟨"loop.sv", 1, 6⟩⟩], _, rfl, rfl⟩
  have hx : ∀ column : Int, ForAssign.SpelledBy
      ⟨.partSelect (.ident "x") .indexedPlus ⟨.number "0", .number "4"⟩, .number "1"⟩
      [⟨.ident "x", ⟨"loop.sv", 1, column⟩⟩,
        ⟨.range .indexedPlus ⟨.number "0", .number "4"⟩, ⟨"loop.sv", 1, column + 1⟩⟩,
        ⟨.assign (.plain (.number "1")), ⟨"loop.sv", 1, column + 8⟩⟩] := by
    intro column
    exact ⟨[⟨.ident "x", ⟨"loop.sv", 1, column⟩⟩,
      ⟨.range .indexedPlus ⟨.number "0", .number "4"⟩, ⟨"loop.sv", 1, column + 1⟩⟩], _, rfl, rfl⟩
  constructor
  · exact readForInit_of_assigns ⟨true⟩ (List.Forall₂.cons hi (List.Forall₂.cons (hx 13) .nil))
      (CommaJoin.cons _ ⟨"loop.sv", 1, 11⟩ (CommaJoin.single _))
  · exact readForInit_of_assigns ⟨true⟩ (List.Forall₂.cons (hx 6) .nil) (CommaJoin.single _)

end VerilogDecl
