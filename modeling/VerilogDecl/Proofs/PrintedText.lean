/-
**What is written is what was read.**

A value that was read has a text, and so have the tokens that it was read from.  The two are written
by different functions and differ in their blanks.  Without blanks they are the same: every word of
a declaration, of an assignment and of an instance comes back, once and in its place.  Three lexemes
are exceptions.  Brackets without bounds and lifetimes leave no trace in a declaration, and the
implicit type has a name among tokens only.

Main definitions:

* `VerilogDecl.Text.squeeze` — a text without its blanks;
* `VerilogDecl.Lexeme.joined` — the texts of lexemes, one right behind the other;
* `VerilogDecl.Lexeme.isUnprinted` — a lexeme that the text of a declaration does not repeat;
* `VerilogDecl.Segment.declared` — the variable that a segment declares by itself.

Main results:

* `VerilogDecl.Token.squeeze_listText` — without blanks the text of tokens is that of their lexemes;
* `VerilogDecl.Target.joined_lexemes`, `VerilogDecl.TypeWords.joined_lexemes`,
  `VerilogDecl.Dimension.joined_lexemes` — the texts of the parts;
* `VerilogDecl.Segment.squeeze_text`, `VerilogDecl.InstanceWords.squeeze_text` — **the text of a
  declared variable and of an instance**;
* `VerilogDecl.squeeze_text_of_read` — **a declaration, an assignment and an instance are written as
  they were read**.
-/

import VerilogDecl.Proofs.ForInitItems
import VerilogDecl.Proofs.GroupStretches
import VerilogDecl.Proofs.Instantiation
import VerilogDecl.Proofs.ReaderSuccess

set_option relaxedAutoImplicit false
set_option autoImplicit false

namespace VerilogDecl

open Token

/-! ### Texts without blanks -/

namespace Text

/-- A text without its blanks. -/
def squeeze (s : String) : String :=
  String.ofList (s.toList.filter (· ≠ ' '))

@[simp] theorem squeeze_blank : squeeze " " = "" := rfl

@[simp] theorem squeeze_append (s t : String) : squeeze (s ++ t) = squeeze s ++ squeeze t := by
  simp [squeeze]

theorem squeeze_intercalate (ws : List String) :
    squeeze (" ".intercalate ws) = squeeze (String.join ws) := by
  induction ws with
  | nil => simp
  | cons w ws ih =>
      cases ws with
      | nil => simp
      | cons v ws =>
          rw [String.intercalate_cons_cons, String.join_cons, squeeze_append, squeeze_append, ih,
            squeeze_append, squeeze_blank, String.append_empty]

theorem join_filter_ne_empty (ws : List String) :
    String.join (ws.filter (· ≠ "")) = String.join ws := by
  induction ws with
  | nil => rfl
  | cons w ws ih =>
      by_cases hw : w = ""
      · rw [List.filter_cons_of_neg (by simpa using hw), ih, hw, String.join_cons,
          String.empty_append]
      · rw [List.filter_cons_of_pos (by simpa using hw), String.join_cons, String.join_cons, ih]

theorem squeeze_words (ws : List String) : squeeze (words ws) = squeeze (String.join ws) := by
  rw [words, squeeze_intercalate, join_filter_ne_empty]

theorem squeeze_dimensioned (name : String) (rs : List Range) :
    squeeze (dimensioned name rs) = squeeze name ++ squeeze (Range.texts rs) := by
  simp [dimensioned, squeeze_words]

end Text

open Text

namespace Lexeme

/-- The texts of lexemes, one right behind the other. -/
def joined (ls : List Lexeme) : String :=
  String.join (ls.map text)

@[simp] theorem joined_nil : joined [] = "" := rfl

@[simp] theorem joined_cons (l : Lexeme) (ls : List Lexeme) :
    joined (l :: ls) = l.text ++ joined ls := by
  simp [joined]

@[simp] theorem joined_append (ls ks : List Lexeme) :
    joined (ls ++ ks) = joined ls ++ joined ks := by
  simp [joined]

/-- Is this a lexeme that the text of a declaration does not repeat? -/
def isUnprinted : Lexeme → Bool
  | unsized | lifetime _ | typeBase .implicit => true
  | _ => false

end Lexeme

open Lexeme (joined joined_cons joined_append isUnprinted)

/-- Without blanks the text of tokens is that of their lexemes. -/
theorem Token.squeeze_listText (ts : List Token) :
    squeeze (listText ts) = squeeze (joined (ts.map Token.lexeme)) := by
  rw [listText, squeeze_intercalate, joined, List.map_map]
  rfl

/-! ### Declarations -/

theorem TypeBase.word_of_ne_implicit {b : TypeBase} (h : b ≠ .implicit) : b.word = b.name := by
  cases b with
  | implicit => exact absurd rfl h
  | _ => rfl

/-- The words for a type are its base type and its signing. -/
theorem TypeWords.joined_lexemes {w : TypeWords} (h : ∀ l ∈ w.lexemes, l.isUnprinted = false) :
    joined w.lexemes = w.head.base.word ++ w.head.signing.text := by
  cases w with
  | interface name modport =>
      simp [lexemes, head, Lexeme.text, TypeBase.word, TypeBase.name, Signing.text,
        String.append_assoc]
  | typedef name => simp [lexemes, head, Lexeme.text, TypeBase.word, TypeBase.name, Signing.text]
  | scopedTypedef scope name =>
      simp [lexemes, head, Lexeme.text, TypeBase.word, TypeBase.name, Signing.text]
  | base b s hs =>
      have hb : b ≠ .implicit := by
        rintro rfl
        cases h (.typeBase .implicit) (List.mem_cons_self ..)
      rw [head, TypeBase.word_of_ne_implicit hb]
      cases s with
      | none => simp [lexemes, Lexeme.text, Signing.text]
      | some s => simp [lexemes, Lexeme.text]
  | signing s => simp [lexemes, head, Lexeme.text, TypeBase.word]
  | absent => simp [lexemes, head, TypeBase.word, Signing.text]

namespace Dimension

/-- Dimensions with bounds are written as their ranges. -/
theorem joined_lexemes {ds : List Dimension} (h : ∀ l ∈ ds.map lexeme, l.isUnprinted = false) :
    joined (ds.map lexeme) = Range.texts (ds.filterMap bounds?) := by
  induction ds with
  | nil => rfl
  | cons d ds ih =>
      obtain ⟨hd, hds⟩ := List.forall_mem_cons.1 h
      cases d with
      | bounded r => simp [ih hds, bounds?, lexeme, Lexeme.text, Range.texts, Range.text]
      | unsized => cases hd

/-- No dimension takes its bounds from an initializer if all have bounds. -/
theorem rangesWith_of_printed {ds : List Dimension}
    (h : ∀ l ∈ ds.map lexeme, l.isUnprinted = false) (implied : Option Range) :
    rangesWith implied ds = ds.filterMap bounds? := by
  have hlast : ds.getLast? ≠ some unsized := by
    intro hlast
    cases h _ (List.mem_map_of_mem (List.mem_of_getLast? hlast))
  unfold rangesWith
  split
  next heq => exact absurd heq hlast
  next => exact List.append_nil _

end Dimension

/-- The words in front of a name are its direction and its type. -/
theorem HeadWords.squeeze_joined_lexemes {h : HeadWords}
    (hp : ∀ l ∈ h.lexemes, l.isUnprinted = false) :
    squeeze (joined h.lexemes) = squeeze h.direction.text ++ squeeze h.dataType.text := by
  obtain ⟨dir, automatic, type, packed⟩ := h
  simp only [lexemes, List.forall_mem_append] at hp
  obtain ⟨-, hauto, htype, hpacked⟩ := hp
  have hdir : joined (dir.map Lexeme.direction).toList = (dir.getD .unspecified).text := by
    cases dir with
    | none => rfl
    | some d => simp [Lexeme.text]
  have hauto : automatic = false := by
    cases automatic with
    | false => rfl
    | true => cases hauto (.lifetime .automatic) (List.mem_singleton_self _)
  simp [lexemes, hdir, hauto, TypeWords.joined_lexemes htype, Dimension.joined_lexemes hpacked,
    direction, dataType, DataType.text, squeeze_words, String.append_assoc]

/-- A name is written with its dimensions and its initializer. -/
theorem NameWords.squeeze_joined_lexemes {n : NameWords}
    (hp : ∀ l ∈ n.lexemes, l.isUnprinted = false)
    (hplain : ∀ l ∈ n.lexemes, l.isImproperAssign = false) :
    squeeze (joined n.lexemes) = squeeze (dimensioned n.name n.declarator.ranges) ++
      squeeze ((n.declarator.init.map fun e => " = " ++ e.text).getD "") := by
  obtain ⟨name, dims, init⟩ := n
  simp only [lexemes, rear, List.forall_mem_cons, List.forall_mem_append] at hp hplain
  have hdims := hp.2.1
  have hinit : squeeze (joined (init.map Lexeme.assign).toList) =
      squeeze (((init.map (·.expr)).map fun e => " = " ++ e.text).getD "") := by
    cases init with
    | none => rfl
    | some a =>
        have himproper : (!a.isPlain) = false := hplain.2.2 (.assign a) (List.mem_singleton_self _)
        have ha : a = .plain a.expr := Assign.isPlain_iff.1 (by simpa using himproper)
        have hsign : squeeze " = " = squeeze "= " := rfl
        rw [ha]
        simp [Lexeme.text, Assign.text, Assign.plain, AssignOp.text, hsign]
  rw [lexemes, rear, joined_cons, joined_append, squeeze_append, squeeze_append, hinit,
    Dimension.joined_lexemes hdims, declarator, Dimension.rangesWith_of_printed hdims,
    squeeze_dimensioned, String.append_assoc]
  rfl

/-- The variable that a segment declares by itself. -/
def Segment.declared (s : Segment) : Variable :=
  ⟨s.head.direction, s.head.dataType, s.name.declarator.name, s.name.declarator.ranges,
    s.name.declarator.init⟩

/-- **The text of a declared variable is that of the tokens of its segment.** -/
theorem Segment.squeeze_text {s : Segment} (hp : ∀ l ∈ s.lexemes, l.isUnprinted = false)
    (hplain : ∀ l ∈ s.lexemes, l.isImproperAssign = false) :
    squeeze s.declared.text = squeeze (joined s.lexemes ++ ";") := by
  rw [lexemes, List.forall_mem_append] at hp hplain
  rw [lexemes, squeeze_append, joined_append, squeeze_append,
    HeadWords.squeeze_joined_lexemes hp.1, NameWords.squeeze_joined_lexemes hp.2 hplain.2,
    Variable.text, squeeze_append, squeeze_append, squeeze_words]
  simp [declared, NameWords.declarator, String.append_assoc]

/-- A single declaration is read from one segment. -/
theorem exists_segment_of_readDecl {ts : List Token} {d : Decl}
    (h : readDecl ⟨false⟩ ts = .ok [d]) :
    ∃ s : Segment, s.SpelledBy ts ∧ d = .var s.declared := by
  obtain ⟨-, g, hg, hd⟩ := readDecl_eq_ok_iff.1 h
  rcases spelled_of_readGroups hg with ⟨-, hnil⟩ | ⟨ss, hss, hgroups⟩
  · cases hnil
  -- there are as many segments as names, and one name as there is one declaration
  have hnames := Segment.declarators_groups ss
  rw [← hgroups, List.flatMap_singleton] at hnames
  have hlen : ss.length = 1 := by
    have hone : g.declarators.length = 1 := by
      simpa [DeclGroup.decls, eq_comm] using congrArg List.length hd
    have hcount : g.declarators.length = ss.length := by rw [hnames, List.length_map]
    omega
  obtain ⟨s, rfl⟩ := List.length_eq_one_iff.1 hlen
  obtain ⟨seg, hseg⟩ : ∃ seg, segments ts = [seg] := by
    have hsegs := hss.length_eq
    exact List.length_eq_one_iff.1 hsegs.symm
  have hjoin := commaJoin_segments ts
  rw [hseg] at hss hjoin
  cases hjoin
  refine ⟨s, (List.forall₂_cons.1 hss).1, ?_⟩
  obtain rfl : g = s.group := List.singleton_inj.1 hgroups
  exact List.singleton_inj.1 hd

theorem squeeze_text_of_readDecl {ts : List Token} {d : Decl}
    (hp : ∀ t ∈ ts, t.lexeme.isUnprinted = false) (h : readDecl ⟨false⟩ ts = .ok [d]) :
    squeeze d.text = squeeze (listText ts ++ ";") := by
  obtain ⟨hplain, -⟩ := readDecl_eq_ok_iff.1 h
  obtain ⟨s, hs, rfl⟩ := exists_segment_of_readDecl h
  rw [squeeze_append, squeeze_listText, hs.lexemes, ← squeeze_append]
  refine Segment.squeeze_text ?_ ?_
  · rw [← hs.lexemes]
    exact List.forall_mem_map.2 hp
  · rw [← hs.lexemes]
    exact List.forall_mem_map.2 hplain

/-! ### Assignments -/

/-- A target is written as the lexemes that spell it. -/
theorem Target.joined_lexemes : ∀ t : Target, joined t.lexemes = t.text
  | ident name => by simp [lexemes, Lexeme.text, text]
  | bit base e => by simp [lexemes, joined_lexemes base, Lexeme.text, text]
  | partSelect base mode r => by simp [lexemes, joined_lexemes base, Lexeme.text, text]
  | dot base name => by
      simp [lexemes, joined_lexemes base, Lexeme.text, text, String.append_assoc]
  | concat items => by simp [lexemes, Lexeme.text, text]
  | stream op size items => by simp [lexemes, Lexeme.text, text]

theorem squeeze_text_of_readBlockItem {ts : List Token} {target : Target} {a : Assign}
    (hfirst : ∀ t ∈ ts.head?, t.isAssign = false)
    (h : readBlockItem ⟨false⟩ ts = .ok (.stmts [.assign target a])) :
    squeeze (Stmt.assign target a).text = squeeze (listText ts ++ ";") := by
  have hmove : moveLeadingAssign ts = ts := by
    cases ts with
    | nil => rfl
    | cons t ts => exact moveLeadingAssign_of_not_isAssign (hfirst t rfl) ts
  rcases readBlockItem_eq_ok_iff.1 h with ⟨first, s, -, hs, hitem⟩ | ⟨-, -, ds, -, hitem⟩
  · obtain rfl : .assign target a = s := by simpa [Stmt.traced] using hitem
    rw [hmove] at hs
    have hspelled := Stmt.spelledBy_of_ofTokens hs
    generalize hls : ts.map Token.lexeme = ls at hspelled
    cases hspelled with
    | assign _ htarget =>
        rw [Target.ofLexemes?_eq_some_iff.1 htarget] at hls
        rw [squeeze_append, squeeze_listText, hls, joined_append, Target.joined_lexemes, Stmt.text]
        simp [Lexeme.text]
  · cases hitem

/-! ### Instances -/

/-- **The text of an instance is that of the tokens of its instantiation.** -/
theorem InstanceWords.squeeze_text {moduleName : String}
    {params : Option (List (Binding ParamValue))} (hparams : params ≠ some []) (w : InstanceWords) :
    squeeze (w.read moduleName (params.getD [])).text =
      squeeze (joined (.ident moduleName :: ((params.map Lexeme.params).toList ++ w.lexemes)) ++
        ";") := by
  have hopen : squeeze " (" = squeeze "(" := rfl
  have hclose : squeeze ");" = squeeze ")" ++ squeeze ";" := rfl
  have hhash : squeeze " #(" = squeeze "#(" := rfl
  have hlist : squeeze (if (params.getD []).isEmpty then "" else
      " #(" ++ Text.params (params.getD []) ++ ")") =
      squeeze (joined (params.map Lexeme.params).toList) := by
    cases params with
    | none => rfl
    | some bs =>
        have hbs : bs.isEmpty = false := by
          cases bs with
          | nil => exact absurd rfl hparams
          | cons b bs => rfl
        simp [hbs, Lexeme.text, hhash]
  have hrange : joined (w.range.map (Lexeme.range .nonIndexed)).toList =
      Range.texts w.range.toList := by
    cases w.range with
    | none => rfl
    | some r => simp [Lexeme.text, Range.texts, Range.text]
  change squeeze (Instance.text ⟨moduleName, params.getD [], w.name, w.range.toList, w.ports⟩) = _
  simp only [Instance.text, squeeze_append]
  rw [hlist]
  simp [lexemes, hrange, hopen, hclose, squeeze_dimensioned, Lexeme.text, String.append_assoc]

theorem squeeze_text_of_readModuleItems {options : Options} {ts : List Token} {i : Instance}
    (htask : leadingTask? ts = none)
    (hparams : ∀ t ∈ ts, ∀ bs, t.lexeme = .params bs → bs ≠ [])
    (h : readModuleItems options ts = .ok [.inst i]) :
    squeeze (ModuleItem.inst i).text = squeeze (listText ts ++ ";") := by
  obtain ⟨-, ⟨task, hsome, -⟩ | ⟨-, -, is, his, hitems⟩ | ⟨-, -, ds, -, hitems⟩⟩ :=
    readModuleItems_eq_ok_iff.1 h
  · rw [htask] at hsome
    cases hsome
  · obtain ⟨⟨moduleName, params, ws, hws⟩, hts, rfl⟩ := readInstances_eq_ok_iff.1 his
    obtain ⟨w, rfl, rfl⟩ : ∃ w, ws = [w] ∧ i = w.read moduleName (params.getD []) := by
      simpa [Instantiation.read, eq_comm] using hitems
    have hne : params ≠ some [] := by
      rintro rfl
      have hmem : Lexeme.params [] ∈ ts.map Token.lexeme := by
        rw [hts]
        exact List.mem_cons_of_mem _ (List.mem_cons_self ..)
      obtain ⟨t, ht, hl⟩ := List.mem_map.1 hmem
      exact hparams t ht [] hl rfl
    rw [Instantiation.lexemes, Instantiation.instanceLexemes, List.map_singleton,
      List.intercalate_singleton] at hts
    rw [squeeze_append, squeeze_listText, hts, ← squeeze_append]
    exact InstanceWords.squeeze_text hne w
  · cases ds with
    | nil => cases hitems
    | cons d ds => cases hitems

/-! ### What is written is what was read -/

/-- **Without blanks, a single declaration, an assignment and a single instance are written as the
tokens that they were read from, with a semicolon.  A declaration must not hold lexemes that its
text does not repeat, an assignment must not stand in front of its target, and a list of parameters
must not be empty.** -/
theorem squeeze_text_of_read (options : Options) (ts : List Token) :
    (∀ d, (∀ t ∈ ts, t.lexeme.isUnprinted = false) → readDecl ⟨false⟩ ts = .ok [d] →
      squeeze d.text = squeeze (listText ts ++ ";")) ∧
    (∀ target a, (∀ t ∈ ts.head?, t.isAssign = false) →
      readBlockItem ⟨false⟩ ts = .ok (.stmts [.assign target a]) →
      squeeze (Stmt.assign target a).text = squeeze (listText ts ++ ";")) ∧
    ∀ i, (∀ name ∈ ["$fatal", "$error", "$warning", "$info"],
        (ts.map Token.lexeme).head? ≠ some (.ident name)) →
      (∀ t ∈ ts, ∀ bs, t.lexeme = .params bs → bs ≠ []) →
      readModuleItems options ts = .ok [.inst i] →
      squeeze (ModuleItem.inst i).text = squeeze (listText ts ++ ";") := by
  refine ⟨?_, ?_, ?_⟩
  · intro d hp h
    exact squeeze_text_of_readDecl hp h
  · intro target a hfirst h
    exact squeeze_text_of_readBlockItem hfirst h
  · intro i htask hparams h
    exact squeeze_text_of_readModuleItems (leadingTask?_eq_none_iff.2 htask) hparams h

unseal Declarator.takeList DeclGroup.takeAll in
/-- A port with packed and unpacked dimensions, a compound assignment to an element, and an instance
with parameters are written as they were read. -/
theorem squeeze_text_of_read_port :
    (∃ d, readDecl ⟨false⟩
        [⟨.direction .output, ⟨"top.sv", 1, 1⟩⟩, ⟨.typeBase (.vector .logic), ⟨"top.sv", 1, 8⟩⟩,
          ⟨.range .nonIndexed ⟨.number "7", .number "0"⟩, ⟨"top.sv", 1, 14⟩⟩,
          ⟨.ident "x", ⟨"top.sv", 1, 20⟩⟩,
          ⟨.range .nonIndexed ⟨.number "0", .number "3"⟩, ⟨"top.sv", 1, 22⟩⟩] = .ok [d] ∧
      squeeze d.text = squeeze (listText
        [⟨.direction .output, ⟨"top.sv", 1, 1⟩⟩, ⟨.typeBase (.vector .logic), ⟨"top.sv", 1, 8⟩⟩,
          ⟨.range .nonIndexed ⟨.number "7", .number "0"⟩, ⟨"top.sv", 1, 14⟩⟩,
          ⟨.ident "x", ⟨"top.sv", 1, 20⟩⟩,
          ⟨.range .nonIndexed ⟨.number "0", .number "3"⟩, ⟨"top.sv", 1, 22⟩⟩] ++ ";")) ∧
    squeeze (Stmt.assign (.bit (.ident "m") (.ident "i"))
        ⟨.compound .add, none, .number "1"⟩).text =
      squeeze (listText
        [⟨.ident "m", ⟨"top.sv", 2, 1⟩⟩, ⟨.index (.ident "i"), ⟨"top.sv", 2, 2⟩⟩,
          ⟨.assign ⟨.compound .add, none, .number "1"⟩, ⟨"top.sv", 2, 6⟩⟩] ++ ";") ∧
    ∃ i, readModuleItems ⟨true⟩
        [⟨.ident "Fifo", ⟨"top.sv", 3, 1⟩⟩,
          ⟨.params [⟨"W", .expr (.number "8")⟩], ⟨"top.sv", 3, 6⟩⟩,
          ⟨.ident "a", ⟨"top.sv", 3, 15⟩⟩, ⟨.ports [⟨"", .ident "y"⟩], ⟨"top.sv", 3, 17⟩⟩] =
        .ok [.inst i] ∧
      squeeze (ModuleItem.inst i).text = squeeze (listText
        [⟨.ident "Fifo", ⟨"top.sv", 3, 1⟩⟩,
          ⟨.params [⟨"W", .expr (.number "8")⟩], ⟨"top.sv", 3, 6⟩⟩,
          ⟨.ident "a", ⟨"top.sv", 3, 15⟩⟩, ⟨.ports [⟨"", .ident "y"⟩], ⟨"top.sv", 3, 17⟩⟩] ++
        ";") := by
  refine ⟨?_, ?_, ?_⟩
  · refine ⟨_, rfl, (squeeze_text_of_read ⟨true⟩ _).1 _ ?_ rfl⟩
    simp [isUnprinted]
  · refine (squeeze_text_of_read ⟨true⟩ _).2.1 _ _ ?_ rfl
    simp [Token.isAssign, Lexeme.isAssign]
  · refine ⟨_, rfl, (squeeze_text_of_read ⟨true⟩ _).2.2 _ ?_ ?_ rfl⟩
    · simp
    · simp

end VerilogDecl
