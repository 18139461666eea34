/-
**Readers of declarations commute with relabelings.**

A relabeling gives new names to the names in a list of tokens and new places to its tokens; it keeps
the kind of every token.  A reader of declarations looks at kinds only: names and places are copied
into what it returns.  So reading relabeled tokens gives the relabeled outcome, be it groups or a
fault.  Nothing is asked of the relabeling: different names may become equal.

Main definitions:

* `VerilogDecl.Relabeling` — new names and new places;
* `VerilogDecl.Token.relabel`, `VerilogDecl.DeclGroup.relabel`, `VerilogDecl.Fault.relabel` — its
  action on tokens, on groups and on faults.

Main results:

* `VerilogDecl.Dimension.after_relabel`, `VerilogDecl.Declarator.starts_relabel`,
  `VerilogDecl.TypeHead.namesType_relabel` — what is decided by looking ahead stays the same;
* `VerilogDecl.Declarator.takeList_relabel`, `VerilogDecl.DeclGroup.take_relabel` — names and
  groups;
* `VerilogDecl.readGroups_relabel` — **reading groups commutes with every relabeling**;
* `VerilogDecl.refuseImproperAssigns_relabel`, `VerilogDecl.Token.segments_relabel`,
  `VerilogDecl.bareNames?_relabel` — the same for the check of assignments, for segments and for
  lists of bare names.
-/

import VerilogDecl.PortList
import VerilogDecl.Proofs.SegmentReading

set_option relaxedAutoImplicit false
set_option autoImplicit false

namespace VerilogDecl

open Token

/-- New names and new places. -/
structure Relabeling where
  /-- The new name of a name. -/
  name : String → String
  /-- The new place of a place. -/
  place : Position → Position

/-! ### Relabeled data -/

/-- A base type with other names. -/
def TypeBase.rename (f : String → String) : TypeBase → TypeBase
  | typedef n => typedef (f n)
  | scopedTypedef s n => scopedTypedef (f s) (f n)
  | interface n m => interface (f n) (f m)
  | b => b

@[simp] theorem TypeBase.admitsSigning_rename (f : String → String) (b : TypeBase) :
    (b.rename f).admitsSigning = b.admitsSigning := by
  cases b <;> rfl

@[simp] theorem TypeBase.fits_rename {f : String → String} {b : TypeBase} {s : Signing} :
    (b.rename f).Fits s ↔ b.Fits s := by
  rw [Fits, Fits, admitsSigning_rename]

/-- A data type with other names. -/
def DataType.rename (f : String → String) (t : DataType) : DataType :=
  ⟨t.base.rename f, t.signing, t.ranges, TypeBase.fits_rename.2 t.fits⟩

/-- A misused signing with other names. -/
def SigningMisuse.rename (f : String → String) (m : SigningMisuse) : SigningMisuse :=
  ⟨m.signing, m.base.rename f⟩

/-- A lexeme with other names.  Expressions and targets inside it stay as they are. -/
def Lexeme.rename (f : String → String) : Lexeme → Lexeme
  | ident n => ident (f n)
  | scopedIdent s n => scopedIdent (f s) (f n)
  | member n => member (f n)
  | typeBase b => typeBase (b.rename f)
  | l => l

/-- A token with another name, at another place. -/
def Token.relabel (ρ : Relabeling) (t : Token) : Token :=
  ⟨t.lexeme.rename ρ.name, ρ.place t.pos⟩

/-- A base type and a signing with other names. -/
def TypeHead.rename (f : String → String) (h : TypeHead) : TypeHead :=
  ⟨h.base.rename f, h.signing⟩

/-- A declared name with another name. -/
def Declarator.rename (f : String → String) (d : Declarator) : Declarator :=
  { d with name := f d.name }

/-- A group with other names, at another place. -/
def DeclGroup.relabel (ρ : Relabeling) (g : DeclGroup) : DeclGroup :=
  ⟨ρ.place g.pos, g.dir, g.type.rename ρ.name, g.declarators.map (Declarator.rename ρ.name)⟩

/-- A fault of declarations, shown by the relabeled tokens. -/
def DeclFault.relabel (ρ : Relabeling) : DeclFault → DeclFault
  | incomplete => incomplete
  | trailingComma => trailingComma
  | nameExpected t => nameExpected (t.relabel ρ)
  | separatorExpected rest => separatorExpected (rest.map (Token.relabel ρ))
  | lifetime t => lifetime (t.relabel ρ)
  | signing misuse head => signing (misuse.rename ρ.name) (head.map (Token.relabel ρ))

/-- A fault, shown by the relabeled tokens. -/
def Fault.relabel (ρ : Relabeling) : Fault → Fault
  | operator t whole => operator (t.relabel ρ) (whole.map (Token.relabel ρ))
  | decl cause whole => decl (cause.relabel ρ) (whole.map (Token.relabel ρ))
  | arity n whole => arity n (whole.map (Token.relabel ρ))
  | elaborationTask whole => elaborationTask (whole.map (Token.relabel ρ))
  | instanceHead whole => instanceHead (whole.map (Token.relabel ρ))
  | emptyInstance whole => emptyInstance (whole.map (Token.relabel ρ))
  | badInstance segment => badInstance (segment.map (Token.relabel ρ))
  | notInstance segment => notInstance (segment.map (Token.relabel ρ))
  | emptyItem => emptyItem
  | target front pos => target (front.map (Token.relabel ρ)) (ρ.place pos)
  | assignExpected item => assignExpected (item.map (Token.relabel ρ))
  | assignSeparatorExpected item rest =>
      assignSeparatorExpected (item.map (Token.relabel ρ)) (rest.map (Token.relabel ρ))
  | assignTrailingComma whole => assignTrailingComma (whole.map (Token.relabel ρ))
  | uninitialized name whole => uninitialized (ρ.name name) (whole.map (Token.relabel ρ))

/-- A relabeling keeps the class of a fault. -/
@[simp] theorem Fault.kind_relabel (ρ : Relabeling) (f : Fault) : (f.relabel ρ).kind = f.kind := by
  cases f with
  | decl cause whole => cases cause <;> rfl
  | _ => rfl

/-- The relabeled fault is shown by the relabeled tokens. -/
theorem Fault.tokens_relabel (ρ : Relabeling) (f : Fault) :
    (f.relabel ρ).tokens = f.tokens.map (Token.relabel ρ) := by
  cases f with
  | decl cause whole => cases cause <;> rfl
  | _ => rfl

/-! ### The kinds of tokens -/

section Kinds

variable (f : String → String) (ρ : Relabeling)

@[simp] theorem Lexeme.isName_rename (l : Lexeme) : (l.rename f).isName = l.isName := by
  cases l <;> rfl

@[simp] theorem Lexeme.isImproperAssign_rename (l : Lexeme) :
    (l.rename f).isImproperAssign = l.isImproperAssign := by
  cases l <;> rfl

@[simp] theorem Dimension.isDimension_rename (l : Lexeme) :
    isDimension (l.rename f) = isDimension l := by
  cases l <;> rfl

@[simp] theorem Token.lexeme_relabel (t : Token) :
    (t.relabel ρ).lexeme = t.lexeme.rename ρ.name := rfl

@[simp] theorem Token.isSeparator_relabel (t : Token) :
    (t.relabel ρ).isSeparator = t.isSeparator := by
  obtain ⟨l, pos⟩ := t
  cases l <;> rfl

@[simp] theorem Token.isAssign_relabel (t : Token) : (t.relabel ρ).isAssign = t.isAssign := by
  obtain ⟨l, pos⟩ := t
  cases l <;> rfl

end Kinds

/-! ### Names -/

section Names

variable (ρ : Relabeling)

namespace Dimension

theorem after_relabel (ts : List Token) :
    after (ts.map (Token.relabel ρ)) = (after ts).map (Token.relabel ρ) := by
  rw [after, after, List.dropWhile_map]
  congr 2
  funext t
  exact isDimension_rename ρ.name t.lexeme

theorem implied?_relabel (ts : List Token) : implied? (ts.map (Token.relabel ρ)) = implied? ts := by
  cases ts with
  | nil => rfl
  | cons t ts =>
      obtain ⟨l, pos⟩ := t
      cases l <;> rfl

theorem ranges_relabel (ts : List Token) : ranges (ts.map (Token.relabel ρ)) = ranges ts := by
  induction ts with
  | nil => rfl
  | cons t ts ih =>
      cases ht : isDimension t.lexeme with
      | false =>
          have ht' : isDimension (t.relabel ρ).lexeme = false := by
            rw [Token.lexeme_relabel, isDimension_rename, ht]
          rw [List.map_cons, ranges_cons_of_not_isDimension ht' _,
            ranges_cons_of_not_isDimension ht ts]
      | true =>
          obtain ⟨l, pos⟩ := t
          obtain ⟨d, rfl⟩ := exists_lexeme_eq ht
          cases d with
          | bounded r => exact congrArg (r :: ·) ih
          | unsized =>
              exact congrArg₂ (fun o rs => Option.toList o ++ rs) (implied?_relabel ρ ts) ih

end Dimension

theorem takeInit_relabel (ts : List Token) :
    takeInit (ts.map (Token.relabel ρ)) =
      ((takeInit ts).1, (takeInit ts).2.map (Token.relabel ρ)) := by
  cases ts with
  | nil => rfl
  | cons t ts =>
      obtain ⟨l, pos⟩ := t
      cases l <;> rfl

namespace Declarator

/-- Whether a declarator starts here depends on the kinds of tokens only. -/
theorem starts_relabel (ts : List Token) : starts (ts.map (Token.relabel ρ)) = starts ts := by
  cases ts with
  | nil => rfl
  | cons t ts =>
      obtain ⟨l, pos⟩ := t
      cases l with
      | ident name =>
          simp only [List.map_cons, Token.relabel, Lexeme.rename, starts]
          rw [Dimension.after_relabel]
          cases Dimension.after ts with
          | nil => rfl
          | cons u us =>
              simp only [List.map_cons, Token.isAssign_relabel, Token.isSeparator_relabel]
      | _ => rfl

theorem take_relabel (ts : List Token) :
    take (ts.map (Token.relabel ρ)) =
      ((take ts).map (Prod.map (rename ρ.name) (List.map (Token.relabel ρ)))).mapError
        (DeclFault.relabel ρ) := by
  cases ts with
  | nil => rfl
  | cons t ts =>
      obtain ⟨l, pos⟩ := t
      cases l with
      | ident name =>
          simp only [List.map_cons, Token.relabel, Lexeme.rename, take]
          rw [Dimension.after_relabel, Dimension.ranges_relabel, takeInit_relabel]
          rfl
      | _ => rfl

/-- **The names of a group are read alike.** -/
theorem takeList_relabel (ts : List Token) :
    takeList (ts.map (Token.relabel ρ)) =
      ((takeList ts).map (Prod.map (List.map (rename ρ.name))
        (List.map (Token.relabel ρ)))).mapError (DeclFault.relabel ρ) := by
  -- the relabeled list is read once more; the cases are those of the list itself
  fun_induction takeList ts with
  | case1 ts fault htake =>
      rw [takeList_eq, take_relabel, htake]
      rfl
  | case2 ts d htake =>
      rw [takeList_eq, take_relabel, htake]
      rfl
  | case3 ts d sep rest htake hsep hempty =>
      obtain rfl := List.isEmpty_iff.1 hempty
      rw [takeList_eq, take_relabel, htake]
      simp [Except.map, Except.mapError, hsep, DeclFault.relabel]
  | case4 ts d sep rest htake hsep hne hstart ih =>
      rw [takeList_eq, take_relabel, htake]
      simp only [Except.map, Except.mapError, Prod.map, List.map_cons, Token.isSeparator_relabel,
        starts_relabel, List.isEmpty_map, if_pos hsep, if_neg hne, if_pos hstart, ih]
      cases takeList rest with
      | error fault => rfl
      | ok r => rfl
  | case5 ts d sep rest htake hsep hne hstart =>
      rw [takeList_eq, take_relabel, htake]
      simp only [Except.map, Except.mapError, Prod.map, List.map_cons, Token.isSeparator_relabel,
        starts_relabel, List.isEmpty_map, if_pos hsep, if_neg hne, if_neg hstart, List.map_nil]
  | case6 ts d sep rest htake hsep =>
      rw [takeList_eq, take_relabel, htake]
      simp only [Except.map, Except.mapError, Prod.map, List.map_cons, Token.isSeparator_relabel,
        if_neg hsep, DeclFault.relabel]

end Declarator

end Names

/-! ### The words in front of the names -/

section Heads

variable (ρ : Relabeling)

theorem takeDirection_relabel (ts : List Token) :
    takeDirection (ts.map (Token.relabel ρ)) =
      ((takeDirection ts).1, (takeDirection ts).2.map (Token.relabel ρ)) := by
  cases ts with
  | nil => rfl
  | cons t ts =>
      obtain ⟨l, pos⟩ := t
      cases l <;> rfl

theorem skipLifetime_relabel (ts : List Token) :
    skipLifetime (ts.map (Token.relabel ρ)) =
      ((skipLifetime ts).map (List.map (Token.relabel ρ))).mapError (DeclFault.relabel ρ) := by
  cases ts with
  | nil => rfl
  | cons t ts =>
      obtain ⟨l, pos⟩ := t
      cases l with
      | lifetime l => cases l <;> rfl
      | _ => rfl

theorem Token.beforeComma_relabel (ts : List Token) :
    beforeComma (ts.map (Token.relabel ρ)) = (beforeComma ts).map (Token.relabel ρ) := by
  rw [beforeComma, beforeComma, List.takeWhile_map]
  congr 2
  funext t
  exact congrArg not (Token.isSeparator_relabel ρ t)

namespace TypeHead

/-- Whether a name in front is a type depends on the kinds of tokens only. -/
theorem namesType_relabel (ts : List Token) :
    namesType (ts.map (Token.relabel ρ)) = namesType ts := by
  rw [namesType, namesType, beforeComma_relabel, List.any_map]
  congr 1
  funext t
  exact Lexeme.isName_rename ρ.name t.lexeme

/-- A name is an interface, a type or no type at all, and stays what it is. -/
theorem take_ident_relabel (name : String) (pos : Position) (rest : List Token) :
    take ((⟨.ident name, pos⟩ :: rest).map (Token.relabel ρ)) =
      ((take (⟨.ident name, pos⟩ :: rest)).1.rename ρ.name,
        (take (⟨.ident name, pos⟩ :: rest)).2.map (Token.relabel ρ)) := by
  have hident : (⟨.ident name, pos⟩ : Token).relabel ρ = ⟨.ident (ρ.name name), ρ.place pos⟩ := rfl
  cases rest with
  | nil => rfl
  | cons t rest =>
      have hnames := namesType_relabel ρ (t :: rest)
      obtain ⟨l, pos'⟩ := t
      cases l with
      | member m => rfl
      | _ =>
          rw [List.map_cons, hident, take_ident (by simp [Lexeme.rename]), hnames,
            take_ident (by simp)]
          split
          · rfl
          · rfl

theorem take_relabel (ts : List Token) :
    take (ts.map (Token.relabel ρ)) =
      ((take ts).1.rename ρ.name, (take ts).2.map (Token.relabel ρ)) := by
  cases ts with
  | nil => rfl
  | cons t ts =>
      obtain ⟨l, pos⟩ := t
      cases l with
      | ident name => exact take_ident_relabel ρ name pos ts
      | scopedIdent scope name =>
          have hnames := namesType_relabel ρ ts
          simp only [List.map_cons, Token.relabel, Lexeme.rename, take]
          rw [hnames]
          split
          · rfl
          · rfl
      | typeBase b =>
          cases ts with
          | nil => rfl
          | cons t ts =>
              obtain ⟨l, pos'⟩ := t
              cases l <;> rfl
      | _ => rfl

end TypeHead

/-! ### Groups -/

theorem TypeBase.resolve_rename (f : String → String) (b : TypeBase) (s : Signing)
    (rs : List Range) :
    (b.rename f).resolve s rs =
      ((b.resolve s rs).map (DataType.rename f)).mapError (SigningMisuse.rename f) := by
  by_cases h : b.Fits s
  · rw [resolve_of_fits h, resolve_of_fits (fits_rename.2 h)]
    rfl
  · rw [resolve_of_not_fits h, resolve_of_not_fits (mt fits_rename.1 h)]
    rfl

namespace DeclGroup

theorem takeDataType_relabel (ts : List Token) :
    takeDataType (ts.map (Token.relabel ρ)) =
      ((takeDataType ts).map (Prod.map (DataType.rename ρ.name)
        (List.map (Token.relabel ρ)))).mapError (DeclFault.relabel ρ) := by
  simp only [takeDataType, TypeHead.take_relabel, Dimension.after_relabel,
    Dimension.ranges_relabel, TypeHead.rename, TypeBase.resolve_rename, List.length_map]
  cases (TypeHead.take ts).1.base.resolve (TypeHead.take ts).1.signing
      (Dimension.ranges (TypeHead.take ts).2) with
  | error misuse => simp [Except.map, Except.mapError, DeclFault.relabel]
  | ok type => rfl

/-- **A group is read alike.** -/
theorem take_relabel (ts : List Token) :
    take (ts.map (Token.relabel ρ)) =
      ((take ts).map (Prod.map (relabel ρ) (List.map (Token.relabel ρ)))).mapError
        (DeclFault.relabel ρ) := by
  cases ts with
  | nil => rfl
  | cons first ts =>
      have hdir := takeDirection_relabel ρ (first :: ts)
      rw [List.map_cons] at hdir ⊢
      simp only [take, hdir, skipLifetime_relabel, bind, Except.bind, pure, Except.pure]
      cases skipLifetime (takeDirection (first :: ts)).2 with
      | error fault => rfl
      | ok us =>
          simp only [Except.map, Except.mapError, takeDataType_relabel]
          cases takeDataType us with
          | error fault => rfl
          | ok r =>
              simp only [Except.map, Except.mapError, Prod.map, Declarator.takeList_relabel]
              cases Declarator.takeList r.2 with
              | error fault => rfl
              | ok r' => rfl

theorem takeAll_relabel (ts : List Token) :
    takeAll (ts.map (Token.relabel ρ)) =
      ((takeAll ts).map (List.map (relabel ρ))).mapError (DeclFault.relabel ρ) := by
  fun_induction takeAll ts with
  | case1 ts hempty =>
      obtain rfl := List.isEmpty_iff.1 hempty
      exact takeAll_nil
  | case2 ts hne fault htake =>
      obtain ⟨t, ts, rfl⟩ := List.exists_cons_of_ne_nil (mt List.isEmpty_iff.2 hne)
      rw [List.map_cons, takeAll_cons, ← List.map_cons, take_relabel, htake]
      rfl
  | case3 ts hne g rest htake ih =>
      obtain ⟨t, ts, rfl⟩ := List.exists_cons_of_ne_nil (mt List.isEmpty_iff.2 hne)
      rw [List.map_cons, takeAll_cons, ← List.map_cons, take_relabel, htake]
      simp only [Except.map, Except.mapError, Prod.map, ih]
      cases takeAll rest with
      | error fault => rfl
      | ok gs => rfl

end DeclGroup

/-- **Reading groups commutes with every relabeling.** -/
theorem readGroups_relabel (ts : List Token) :
    readGroups (ts.map (Token.relabel ρ)) =
      ((readGroups ts).map (List.map (DeclGroup.relabel ρ))).mapError (Fault.relabel ρ) := by
  rw [readGroups, readGroups, DeclGroup.takeAll_relabel]
  cases DeclGroup.takeAll ts with
  | error cause => rfl
  | ok gs => rfl

end Heads

/-! ### Lists of names and assignments -/

section Lists

variable (ρ : Relabeling)

theorem refuseImproperAssigns_relabel (ts : List Token) :
    refuseImproperAssigns (ts.map (Token.relabel ρ)) =
      (refuseImproperAssigns ts).mapError (Fault.relabel ρ) := by
  have hfind : (ts.map (Token.relabel ρ)).find? (·.lexeme.isImproperAssign) =
      (ts.find? (·.lexeme.isImproperAssign)).map (Token.relabel ρ) := by
    rw [List.find?_map]
    congr 2
    funext t
    exact Lexeme.isImproperAssign_rename ρ.name t.lexeme
  rw [refuseImproperAssigns, refuseImproperAssigns, hfind]
  cases ts.find? (·.lexeme.isImproperAssign) with
  | none => rfl
  | some t => rfl

theorem Token.segments_relabel (ts : List Token) :
    segments (ts.map (Token.relabel ρ)) = (segments ts).map (List.map (Token.relabel ρ)) := by
  have hfree : ∀ seg : List Token, CommaFree seg → CommaFree (seg.map (Token.relabel ρ)) := by
    intro seg h u hu
    obtain ⟨t, ht, rfl⟩ := List.mem_map.1 hu
    rw [isSeparator_relabel, h t ht]
  induction ts using segment_induction with
  | single ts h => rw [h.segments_eq, (hfree ts h).segments_eq, List.map_singleton]
  | cons seg pos rest h ih =>
      have hcomma : (⟨.comma, pos⟩ : Token).relabel ρ = ⟨.comma, ρ.place pos⟩ := rfl
      rw [h.segments_append_comma, List.map_append, List.map_cons, hcomma,
        (hfree seg h).segments_append_comma, ih, List.map_cons]

theorem bareNames?_relabel (ts : List Token) :
    bareNames? (ts.map (Token.relabel ρ)) = (bareNames? ts).map (List.map ρ.name) := by
  fun_induction bareNames? ts with
  | case1 name pos => rfl
  | case2 name pos pos' ts ih =>
      have hstep : bareNames? ((⟨.ident name, pos⟩ :: ⟨.comma, pos'⟩ :: ts).map (Token.relabel ρ)) =
          (bareNames? (ts.map (Token.relabel ρ))).map (ρ.name name :: ·) := rfl
      rw [hstep, ih, Option.map_map, Option.map_map]
      rfl
  | case3 ts hsingle hcons =>
      rcases ts with _ | ⟨⟨l, pos⟩, _ | ⟨⟨l', pos'⟩, ts⟩⟩
      · rfl
      · cases l with
        | ident name => exact absurd rfl (hsingle name pos)
        | _ => rfl
      · cases l with
        | ident name =>
            cases l' with
            | comma => exact absurd rfl (hcons name pos pos' ts)
            | _ => rfl
        | _ => rfl

end Lists

end VerilogDecl
