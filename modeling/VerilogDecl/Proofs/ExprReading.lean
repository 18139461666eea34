/-
**Expressions are read back from their text.**

The text of an expression keeps no precedence: an operand is put in parentheses exactly if it is a
binary expression itself.  This module shows that nothing more is needed for expressions of names,
numbers, concatenations, selects and operators.  A reader goes over the text once, one character
after the other, with a stack of the expressions that wait for the one being read.  It gives back
the expression that was written, so that no two of them share a text.

The reader never looks ahead.  A word ends with the first mark behind it, and it depends on the mark
what the expression in front of it is: the base of a select behind `[` or `.`, a left operand behind
a blank, and all of what was opened last behind any other mark.

Main definitions:

* `VerilogDecl.Text.marks`, `VerilogDecl.Text.IsName`, `VerilogDecl.Text.IsNumber` — marks, and the
  words between them;
* `VerilogDecl.Expr.Formula` — expressions of names, numbers, concatenations, selects and operators;
* `VerilogDecl.Expr.Reader`, `VerilogDecl.Expr.Reader.step` — the reader and its steps;
* `VerilogDecl.Expr.ofText?` — the expression with a given text.

Main results:

* `VerilogDecl.Expr.Reader.Ends.exists_close` — behind an expression, the reader has all of it;
* `VerilogDecl.Expr.Reader.reads_of_formula` — the reader goes over the text of an expression,
  whatever waits for it;
* `VerilogDecl.Expr.ofText?_text` — **an expression is read back from its text**;
* `VerilogDecl.Expr.eq_of_text_eq` — **two expressions with one text are equal**.
-/

import VerilogDecl.Target

set_option relaxedAutoImplicit false
set_option autoImplicit false

namespace VerilogDecl

/-! ### Words and marks -/

namespace Text

/-- The characters that stand between words. -/
def marks : List Char :=
  [' ', ',', '.', ':', '[', ']', '\x7b', '\x7d', '(', ')', '+', '-', '*', '/', '%', '&', '|', '^',
    '<', '>', '=', '!']

/-- Does this character stand between words? -/
def isMark (c : Char) : Bool :=
  marks.contains c

/-- Letters, digits, `_`, `$` and the apostrophe are no marks. -/
theorem isMark_of_isAlphanum {c : Char}
    (h : (c.isAlphanum || ['_', '$', '\x27'].contains c) = true) : isMark c = false := by
  have hmarks : marks.all (fun m => !(m.isAlphanum || ['_', '$', '\x27'].contains m)) = true := by
    decide
  cases hmark : isMark c with
  | false => rfl
  | true =>
      have hc := List.all_eq_true.1 hmarks c (List.contains_iff_mem.1 hmark)
      rw [h] at hc
      cases hc

/-- A word: a text of letters, digits and other characters that are no marks, and not the empty
text. -/
structure IsWord (s : String) : Prop where
  ne_nil : s.toList ≠ []
  isMark_eq : ∀ c ∈ s.toList, isMark c = false

theorem isWord_iff {s : String} :
    IsWord s ↔ s.toList.isEmpty = false ∧ s.toList.any isMark = false := by
  rw [List.isEmpty_eq_false_iff, List.any_eq_false]
  constructor
  · intro h
    exact ⟨h.ne_nil, fun c hc => by simp [h.isMark_eq c hc]⟩
  · rintro ⟨hne, hmarks⟩
    exact ⟨hne, fun c hc => by simpa using hmarks c hc⟩

instance (s : String) : Decidable (IsWord s) :=
  decidable_of_iff _ isWord_iff.symm

/-- Is the first character a digit? -/
def startsWithDigit (cs : List Char) : Bool :=
  cs.head?.any Char.isDigit

/-- A word that does not start with a digit. -/
def IsName (s : String) : Prop :=
  IsWord s ∧ startsWithDigit s.toList = false

/-- A word that starts with a digit. -/
def IsNumber (s : String) : Prop :=
  IsWord s ∧ startsWithDigit s.toList = true

instance (s : String) : Decidable (IsName s) :=
  inferInstanceAs (Decidable (_ ∧ _))

instance (s : String) : Decidable (IsNumber s) :=
  inferInstanceAs (Decidable (_ ∧ _))

end Text

open Text

namespace BinaryOp

/-- The operator with the given spelling. -/
def ofText? (cs : List Char) : Option BinaryOp :=
  [add, sub, mul, div, mod, bitAnd, bitOr, bitXor, shl, shr, ashl, ashr, eq, ne, lt, le, gt, ge,
    logAnd, logOr].find? fun op => op.text.toList = cs

theorem ofText?_text (op : BinaryOp) : ofText? op.text.toList = some op := by
  cases op <;> decide

/-- Operators are spelled with marks, and without blanks. -/
theorem isMark_text (op : BinaryOp) : ∀ c ∈ op.text.toList, isMark c = true ∧ c ≠ ' ' := by
  have hall : op.text.toList.all (fun c => isMark c && c != ' ') = true := by
    cases op <;> decide
  intro c hc
  simpa using List.all_eq_true.1 hall c hc

end BinaryOp

namespace Expr

/-- An expression of names, numbers, concatenations, selects and operators, in which nothing is
selected from a binary expression. -/
inductive Formula : Expr → Prop
  | ident {name : String} (hname : IsName name) : Formula (.ident name)
  | number {text : String} (htext : IsNumber text) : Formula (.number text)
  | concat {items : List Expr} (hitems : ∀ e ∈ items, Formula e) : Formula (.concat items)
  | bit {base index : Expr} (hbase : Formula base) (hselect : base.isBinary = false)
      (hindex : Formula index) : Formula (.bit base index)
  | partSelect {base left right : Expr} (mode : SelectMode) (hbase : Formula base)
      (hselect : base.isBinary = false) (hleft : Formula left) (hright : Formula right) :
      Formula (.partSelect base mode left right)
  | dot {base : Expr} {name : String} (hbase : Formula base) (hselect : base.isBinary = false)
      (hname : IsName name) : Formula (.dot base name)
  | binary {left right : Expr} (op : BinaryOp) (hleft : Formula left) (hright : Formula right) :
      Formula (.binary op left right)

/-! ### The reader -/

/-- An expression that waits for the one that is being read. -/
inductive Pending where
  /-- A concatenation, with the items in front. -/
  | braces (items : List Expr)
  /-- A select from `base`, of a bit or of a part. -/
  | bracket (base : Expr)
  /-- A part select that has its left bound. -/
  | bound (base : Expr) (mode : SelectMode) (left : Expr)
  | parens
  /-- An operator that has its left operand. -/
  | operand (left : Expr) (op : BinaryOp)

/-- Where the reader stands. -/
inductive Stage where
  /-- In front of an expression. -/
  | before
  /-- In a word. -/
  | word (cs : List Char)
  /-- In the name of a member. -/
  | member (base : Expr) (cs : List Char)
  /-- Behind an expression. -/
  | behind (e : Expr)
  /-- In an operator. -/
  | operator (left : Expr) (cs : List Char)
  /-- In the sign of a part select. -/
  | sign (mode : SelectMode) (e : Expr)
  /-- Behind a comma. -/
  | comma

/-- The expression that a word is. -/
def ofWord (cs : List Char) : Expr :=
  if startsWithDigit cs then .number (String.ofList cs) else .ident (String.ofList cs)

namespace Stage

/-- The expression that ends here, if one does. -/
def value? : Stage → Option Expr
  | word cs => some (ofWord cs)
  | member base (c :: cs) => some (.dot base (String.ofList (c :: cs)))
  | behind e => some e
  | _ => none

/-- The stage behind one more character of a word. -/
def extend? : Stage → Char → Option Stage
  | before, c => some (word [c])
  | word cs, c => some (word (cs ++ [c]))
  | member base cs, c => some (member base (cs ++ [c]))
  | _, _ => none

end Stage

/-- A reader of expressions. -/
structure Reader where
  /-- Where it stands. -/
  stage : Stage
  /-- What waits for the expression that is being read, from the inside out. -/
  pending : List Pending

namespace Reader

/-- The expression `e` is complete; if it is a right operand, so is the binary expression. -/
def close (e : Expr) : List Pending → Expr × List Pending
  | .operand left op :: ps => (.binary op left e, ps)
  | ps => (e, ps)

/-- Behind the left bound of a part select and its sign. -/
def openBound? (mode : SelectMode) : Expr × List Pending → Option Reader
  | (e, .bracket base :: ps) => some ⟨.before, .bound base mode e :: ps⟩
  | _ => none

/-- Behind a mark that completes an expression. -/
def closeBy? : Char → Expr × List Pending → Option Reader
  | ',', (e, .braces items :: ps) => some ⟨.comma, .braces (items ++ [e]) :: ps⟩
  | '\x7d', (e, .braces items :: ps) => some ⟨.behind (.concat (items ++ [e])), ps⟩
  | ')', (e, .parens :: ps) => some ⟨.behind e, ps⟩
  | ']', (e, .bracket base :: ps) => some ⟨.behind (.bit base e), ps⟩
  | ']', (e, .bound base mode left :: ps) => some ⟨.behind (.partSelect base mode left e), ps⟩
  | _, _ => none

/-- Behind a mark that follows the expression `e`. -/
def stepBehind? (e : Expr) (ps : List Pending) : Char → Option Reader
  | '[' => some ⟨.before, .bracket e :: ps⟩
  | '.' => some ⟨.member e [], ps⟩
  | ' ' => some ⟨.operator e [], ps⟩
  | '+' => some ⟨.sign .indexedPlus e, ps⟩
  | '-' => some ⟨.sign .indexedMinus e, ps⟩
  | ':' => openBound? .nonIndexed (close e ps)
  | c => closeBy? c (close e ps)

/-- Behind a mark where no expression ends. -/
def stepBefore? : Reader → Char → Option Reader
  | ⟨.before, ps⟩, '\x7b' => some ⟨.before, .braces [] :: ps⟩
  | ⟨.before, .braces [] :: ps⟩, '\x7d' => some ⟨.behind (.concat []), ps⟩
  | ⟨.before, ps⟩, '(' => some ⟨.before, .parens :: ps⟩
  | ⟨.comma, ps⟩, ' ' => some ⟨.before, ps⟩
  | ⟨.sign mode e, ps⟩, ':' => openBound? mode (close e ps)
  | ⟨.operator left cs, ps⟩, ' ' =>
      (BinaryOp.ofText? cs).map fun op => ⟨.before, .operand left op :: ps⟩
  | ⟨.operator left cs, ps⟩, c => some ⟨.operator left (cs ++ [c]), ps⟩
  | _, _ => none

/-- One step of the reader. -/
def step (r : Reader) (c : Char) : Option Reader :=
  if isMark c then
    match r.stage.value? with
    | some e => stepBehind? e r.pending c
    | none => stepBefore? r c
  else (r.stage.extend? c).map fun stage => ⟨stage, r.pending⟩

/-- The steps of the reader over a text. -/
def run (r : Reader) (cs : List Char) : Option Reader :=
  cs.foldlM step r

/-- The expression that was read, if nothing waits any more. -/
def result? (r : Reader) : Option Expr :=
  match r.stage.value?.map (close · r.pending) with
  | some (e, []) => some e
  | _ => none

/-! ### Steps -/

variable {r r' : Reader} {c : Char} {cs : List Char} {ps : List Pending} {stage : Stage} {e : Expr}

theorem run_append (h : run r cs = some r') (ds : List Char) : run r (cs ++ ds) = run r' ds := by
  rw [run, List.foldlM_append]
  rw [run] at h
  rw [h]
  rfl

theorem run_cons (h : step r c = some r') (ds : List Char) : run r (c :: ds) = run r' ds := by
  rw [run, List.foldlM_cons, h]
  rfl

theorem run_singleton (r : Reader) (c : Char) : run r [c] = step r c := by
  simp [run]

/-- A stage that collects characters collects all of them. -/
theorem run_collect {stages : List Char → Stage} {ds : List Char}
    (h : ∀ cs, ∀ c ∈ ds, step ⟨stages cs, ps⟩ c = some ⟨stages (cs ++ [c]), ps⟩) (cs : List Char) :
    run ⟨stages cs, ps⟩ ds = some ⟨stages (cs ++ ds), ps⟩ := by
  induction ds generalizing cs with
  | nil =>
      rw [List.append_nil]
      rfl
  | cons d ds ih =>
      rw [run_cons (h cs d (List.mem_cons_self ..)),
        ih (fun cs c hc => h cs c (List.mem_cons_of_mem d hc)), List.append_assoc]
      rfl

theorem step_of_value (hmark : isMark c = true) (hvalue : stage.value? = some e) :
    step ⟨stage, ps⟩ c = stepBehind? e ps c := by
  simp only [step, hmark, if_true, hvalue]

theorem step_of_extend {stage' : Stage} (hmark : isMark c = false)
    (hextend : stage.extend? c = some stage') : step ⟨stage, ps⟩ c = some ⟨stage', ps⟩ := by
  simp only [step, hmark, hextend]
  rfl

/-! ### Words -/

theorem run_word {s : String} (h : IsWord s) :
    run ⟨.before, ps⟩ s.toList = some ⟨.word s.toList, ps⟩ := by
  obtain ⟨c, cs, hcs⟩ := List.exists_cons_of_ne_nil h.ne_nil
  have hmark := h.isMark_eq
  rw [hcs] at hmark ⊢
  rw [run_cons (step_of_extend (hmark c (List.mem_cons_self ..)) rfl)]
  exact run_collect (fun _ d hd => step_of_extend (hmark d (List.mem_cons_of_mem c hd)) rfl) [c]

theorem run_member {base : Expr} {s : String} (h : IsWord s) :
    run ⟨.member base [], ps⟩ s.toList = some ⟨.member base s.toList, ps⟩ :=
  run_collect (fun _ c hc => step_of_extend (h.isMark_eq c hc) rfl) []

theorem run_operator {left : Expr} (op : BinaryOp) :
    run ⟨.operator left [], ps⟩ (op.text.toList ++ [' ']) =
      some ⟨.before, .operand left op :: ps⟩ := by
  have hcollect : ∀ cs, ∀ c ∈ op.text.toList,
      step ⟨.operator left cs, ps⟩ c = some ⟨.operator left (cs ++ [c]), ps⟩ := by
    intro cs c hc
    obtain ⟨hmark, hblank⟩ := op.isMark_text c hc
    simp only [step, hmark, if_true, Stage.value?, stepBefore?]
  have hblank : step ⟨.operator left op.text.toList, ps⟩ ' ' =
      some ⟨.before, .operand left op :: ps⟩ := by
    have hmark : isMark ' ' = true := by decide
    simp only [step, hmark, if_true, Stage.value?, stepBefore?, BinaryOp.ofText?_text]
    rfl
  rw [run_append (run_collect hcollect [])]
  exact run_cons hblank []

/-! ### Behind an expression -/

/-- The reader stands behind `e`, and `ps` waits for it. -/
inductive Ends : Expr → List Pending → Reader → Prop
  | single {e : Expr} {ps : List Pending} {stage : Stage} (hsingle : e.isBinary = false)
      (hvalue : stage.value? = some e) : Ends e ps ⟨stage, ps⟩
  | binary {left right : Expr} {ps : List Pending} {stage : Stage} (op : BinaryOp)
      (hvalue : stage.value? = some right) :
      Ends (.binary op left right) ps ⟨stage, .operand left op :: ps⟩

/-- If it is not an operand that is waited for, the expression is closed as a whole. -/
theorem Ends.exists_close (h : Ends e ps r) (hps : ∀ v, close v ps = (v, ps)) :
    ∃ v, r.stage.value? = some v ∧ close v r.pending = (e, ps) := by
  cases h with
  | single hsingle hvalue => exact ⟨e, hvalue, hps e⟩
  | binary op hvalue => exact ⟨_, hvalue, rfl⟩

theorem Ends.step_close (h : Ends e ps r) (hps : ∀ v, close v ps = (v, ps))
    (hc : c ∈ [',', '\x7d', ')', ']']) : step r c = closeBy? c (e, ps) := by
  obtain ⟨v, hvalue, hclose⟩ := h.exists_close hps
  obtain ⟨stage, ps'⟩ := r
  rw [← hclose]
  simp only [List.mem_cons, List.not_mem_nil, or_false] at hc
  rcases hc with rfl | rfl | rfl | rfl
  all_goals
    rw [step_of_value (by decide) hvalue]
    rfl

theorem Ends.run_sign (h : Ends e ps r) (hps : ∀ v, close v ps = (v, ps)) (mode : SelectMode) :
    run r mode.text.toList = openBound? mode (e, ps) := by
  obtain ⟨v, hvalue, hclose⟩ := h.exists_close hps
  obtain ⟨stage, ps'⟩ := r
  rw [← hclose]
  cases mode with
  | nonIndexed =>
      have hcolon : step ⟨stage, ps'⟩ ':' = openBound? .nonIndexed (close v ps') :=
        step_of_value (by decide) hvalue
      exact (run_singleton _ _).trans hcolon
  | indexedPlus =>
      have hplus : step ⟨stage, ps'⟩ '+' = some ⟨.sign .indexedPlus v, ps'⟩ :=
        step_of_value (by decide) hvalue
      exact (run_cons hplus [':']).trans (run_singleton _ _)
  | indexedMinus =>
      have hminus : step ⟨stage, ps'⟩ '-' = some ⟨.sign .indexedMinus v, ps'⟩ :=
        step_of_value (by decide) hvalue
      exact (run_cons hminus [':']).trans (run_singleton _ _)

/-! ### Texts of expressions -/

/-- The reader goes over the text of `e`, whatever waits for it. -/
def Reads (e : Expr) : Prop :=
  ∀ ps, ∃ r, run ⟨.before, ps⟩ e.text.toList = some r ∧ Ends e ps r

/-- A text that is read as a single expression. -/
def ReadsAs (s : String) (e : Expr) : Prop :=
  ∀ ps, ∃ stage, run ⟨.before, ps⟩ s.toList = some ⟨stage, ps⟩ ∧ stage.value? = some e

theorem Reads.single (h : Reads e) (hsingle : e.isBinary = false) : ReadsAs e.text e := by
  intro ps
  obtain ⟨r, hrun, hends⟩ := h ps
  cases hends with
  | single hsingle hvalue => exact ⟨_, hrun, hvalue⟩
  | binary op hvalue => cases hsingle

theorem ReadsAs.reads (h : ReadsAs e.text e) (hsingle : e.isBinary = false) : Reads e := by
  intro ps
  obtain ⟨stage, hrun, hvalue⟩ := h ps
  exact ⟨⟨stage, ps⟩, hrun, Ends.single hsingle hvalue⟩

/-- An expression is read inside parentheses, brackets or braces as a whole. -/
theorem Reads.run_close (h : Reads e) (hps : ∀ v, close v ps = (v, ps))
    (hc : c ∈ [',', '\x7d', ')', ']']) (hclose : closeBy? c (e, ps) = some r) (ds : List Char) :
    run ⟨.before, ps⟩ (e.text.toList ++ c :: ds) = run r ds := by
  obtain ⟨r', hrun, hends⟩ := h ps
  rw [run_append hrun]
  exact run_cons ((hends.step_close hps hc).trans hclose) ds

/-- Operands are read as single expressions. -/
theorem Reads.operand (h : Reads e) : ReadsAs (parenthesizedIf e.isBinary e.text) e := by
  intro ps
  cases hbinary : e.isBinary with
  | false => exact h.single hbinary ps
  | true =>
      have hopen : step ⟨.before, ps⟩ '(' = some ⟨.before, .parens :: ps⟩ := rfl
      refine ⟨.behind e, ?_, rfl⟩
      have htext : (parenthesizedIf true e.text).toList = '(' :: (e.text.toList ++ [')']) := by
        simp
      rw [htext, run_cons hopen, h.run_close (fun _ => rfl) (by decide) rfl]
      rfl

theorem readsAs_ident {name : String} (h : IsName name) :
    ReadsAs (Expr.ident name).text (.ident name) := by
  intro ps
  refine ⟨.word name.toList, run_word h.1, ?_⟩
  simp [Stage.value?, ofWord, h.2]

theorem readsAs_number {s : String} (h : IsNumber s) :
    ReadsAs (Expr.number s).text (.number s) := by
  intro ps
  refine ⟨.word s.toList, run_word h.1, ?_⟩
  simp [Stage.value?, ofWord, h.2]

theorem readsAs_bit {base index : Expr} (hbase : ReadsAs base.text base) (hindex : Reads index) :
    ReadsAs (Expr.bit base index).text (.bit base index) := by
  intro ps
  obtain ⟨stage, hrun, hvalue⟩ := hbase ps
  have hopen : step ⟨stage, ps⟩ '[' = some ⟨.before, .bracket base :: ps⟩ :=
    step_of_value (by decide) hvalue
  refine ⟨.behind (.bit base index), ?_, rfl⟩
  have htext : (Expr.bit base index).text.toList =
      base.text.toList ++ '[' :: (index.text.toList ++ [']']) := by
    simp [text, Text.index]
  rw [htext, run_append hrun, run_cons hopen, hindex.run_close (fun _ => rfl) (by decide) rfl]
  rfl

theorem readsAs_partSelect {base left right : Expr} (mode : SelectMode)
    (hbase : ReadsAs base.text base) (hleft : Reads left) (hright : Reads right) :
    ReadsAs (Expr.partSelect base mode left right).text (.partSelect base mode left right) := by
  intro ps
  obtain ⟨stage, hrun, hvalue⟩ := hbase ps
  have hopen : step ⟨stage, ps⟩ '[' = some ⟨.before, .bracket base :: ps⟩ :=
    step_of_value (by decide) hvalue
  obtain ⟨r, hrunLeft, hends⟩ := hleft (.bracket base :: ps)
  have hsign : run r mode.text.toList = some ⟨.before, .bound base mode left :: ps⟩ :=
    hends.run_sign (fun _ => rfl) mode
  refine ⟨.behind (.partSelect base mode left right), ?_, rfl⟩
  have htext : (Expr.partSelect base mode left right).text.toList = base.text.toList ++
      '[' :: (left.text.toList ++ (mode.text.toList ++ (right.text.toList ++ [']']))) := by
    simp [text, Text.range, Text.index]
  rw [htext, run_append hrun, run_cons hopen, run_append hrunLeft, run_append hsign,
    hright.run_close (fun _ => rfl) (by decide) rfl]
  rfl

theorem readsAs_dot {base : Expr} {name : String} (hbase : ReadsAs base.text base)
    (hname : IsName name) : ReadsAs (Expr.dot base name).text (.dot base name) := by
  intro ps
  obtain ⟨stage, hrun, hvalue⟩ := hbase ps
  have hopen : step ⟨stage, ps⟩ '.' = some ⟨.member base [], ps⟩ :=
    step_of_value (by decide) hvalue
  refine ⟨.member base name.toList, ?_, ?_⟩
  · have htext : (Expr.dot base name).text.toList = base.text.toList ++ '.' :: name.toList := by
      simp [text]
    rw [htext, run_append hrun, run_cons hopen, run_member hname.1]
  · obtain ⟨c, cs, hcs⟩ := List.exists_cons_of_ne_nil hname.1.ne_nil
    rw [hcs, Stage.value?, ← hcs, String.ofList_toList]

theorem reads_binary {left right : Expr} (op : BinaryOp) (hleft : Reads left)
    (hright : Reads right) : Reads (.binary op left right) := by
  intro ps
  obtain ⟨stage, hrun, hvalue⟩ := hleft.operand ps
  have hblank : step ⟨stage, ps⟩ ' ' = some ⟨.operator left [], ps⟩ :=
    step_of_value (by decide) hvalue
  -- behind its right operand the operator still waits, until a mark closes both
  obtain ⟨stage', hrun', hvalue'⟩ := hright.operand (.operand left op :: ps)
  refine ⟨⟨stage', .operand left op :: ps⟩, ?_, Ends.binary op hvalue'⟩
  have htext : (Expr.binary op left right).text.toList =
      (parenthesizedIf left.isBinary left.text).toList ++
        ' ' :: ((op.text.toList ++ [' ']) ++
          (parenthesizedIf right.isBinary right.text).toList) := by
    simp [text]
  rw [htext, run_append hrun, run_cons hblank, run_append (run_operator op), hrun']

/-- The items of a concatenation, up to its end. -/
theorem run_items {items : List Expr} (hitems : ∀ e ∈ items, Reads e) (hne : items ≠ [])
    (done : List Expr) :
    run ⟨.before, .braces done :: ps⟩ ((commaList (items.map text)).toList ++ ['\x7d']) =
      some ⟨.behind (.concat (done ++ items)), ps⟩ := by
  -- the items that are done wait in the braces, so the induction is over all of them
  induction items generalizing done with
  | nil => cases hne rfl
  | cons e items ih =>
      have he := hitems e (List.mem_cons_self ..)
      cases items with
      | nil =>
          rw [List.map_singleton, commaList_singleton, he.run_close (fun _ => rfl) (by decide) rfl]
          rfl
      | cons e' items =>
          have hmore := ih (fun e h => hitems e (List.mem_cons_of_mem _ h)) (List.cons_ne_nil _ _)
            (done ++ [e])
          have hblank : step ⟨.comma, .braces (done ++ [e]) :: ps⟩ ' ' =
              some ⟨.before, .braces (done ++ [e]) :: ps⟩ := rfl
          have htext : (commaList ((e :: e' :: items).map text)).toList ++ ['\x7d'] =
              e.text.toList ++
                ',' :: ' ' :: ((commaList ((e' :: items).map text)).toList ++ ['\x7d']) := by
            simp [commaList]
          rw [htext, he.run_close (fun _ => rfl) (by decide) rfl, run_cons hblank, hmore,
            List.append_assoc]
          rfl

theorem readsAs_concat {items : List Expr} (hitems : ∀ e ∈ items, Reads e) :
    ReadsAs (Expr.concat items).text (.concat items) := by
  intro ps
  have hopen : step ⟨.before, ps⟩ '\x7b' = some ⟨.before, .braces [] :: ps⟩ := rfl
  refine ⟨.behind (.concat items), ?_, rfl⟩
  have htext : (Expr.concat items).text.toList =
      '\x7b' :: ((commaList (items.map text)).toList ++ ['\x7d']) := by
    simp [text, braced]
  rw [htext, run_cons hopen]
  cases items with
  | nil => rfl
  | cons e items => exact run_items hitems (List.cons_ne_nil _ _) []

/-- **The reader goes over the text of every formula.** -/
theorem reads_of_formula (h : e.Formula) : Reads e := by
  induction h with
  | ident hname => exact (readsAs_ident hname).reads rfl
  | number htext => exact (readsAs_number htext).reads rfl
  | concat hitems ih => exact (readsAs_concat ih).reads rfl
  | bit hbase hselect hindex ihbase ihindex =>
      exact (readsAs_bit (ihbase.single hselect) ihindex).reads rfl
  | partSelect mode hbase hselect hleft hright ihbase ihleft ihright =>
      exact (readsAs_partSelect mode (ihbase.single hselect) ihleft ihright).reads rfl
  | dot hbase hselect hname ihbase =>
      exact (readsAs_dot (ihbase.single hselect) hname).reads rfl
  | binary op hleft hright ihleft ihright => exact reads_binary op ihleft ihright

end Reader

/-- The expression with the given text, if there is one. -/
def ofText? (s : String) : Option Expr :=
  (Reader.run ⟨.before, []⟩ s.toList).bind Reader.result?

/-- **An expression is read back from its text.** -/
theorem ofText?_text {e : Expr} (h : e.Formula) : ofText? e.text = some e := by
  obtain ⟨r, hrun, hends⟩ := Reader.reads_of_formula h []
  obtain ⟨v, hvalue, hclose⟩ := hends.exists_close fun _ => rfl
  rw [ofText?, hrun, Option.bind_some, Reader.result?, hvalue, Option.map_some, hclose]

example : ofText? "a[b + c+:4]" =
    some (.partSelect (.ident "a") .indexedPlus (.binary .add (.ident "b") (.ident "c"))
      (.number "4")) := by
  rfl

/-- **Two expressions with one text are equal.**  Parentheses around binary operands are enough to
tell expressions apart, at any depth and for all operators and selects. -/
theorem eq_of_text_eq {e e' : Expr} (h : e.Formula) (h' : e'.Formula) (htext : e.text = e'.text) :
    e = e' := by
  have hread := ofText?_text h
  rw [htext, ofText?_text h'] at hread
  exact (Option.some.inj hread).symm

/-- The target `m[i - (j - 1)].f` is the expression that is written like it, and the two ways to
subtract twice are written differently. -/
theorem eq_of_text_eq_member :
    (let index : Expr := .binary .sub (.ident "i") (.binary .sub (.ident "j") (.number "1"))
    let target : Target := .dot (.bit (.ident "m") index) "f"
    let e : Expr := .dot (.bit (.ident "m") index) "f"
    target.toExpr.Formula ∧ e.Formula ∧ target.toExpr.text = e.text ∧ target.toExpr = e) ∧
    (Expr.binary .sub (.ident "i") (.binary .sub (.ident "j") (.number "1"))).text ≠
      (Expr.binary .sub (.binary .sub (.ident "i") (.ident "j")) (.number "1")).text := by
  have hi : Formula (.ident "i") := .ident (by decide)
  have hj : Formula (.ident "j") := .ident (by decide)
  have hone : Formula (.number "1") := .number (by decide)
  have hindex := Formula.binary .sub hi (Formula.binary .sub hj hone)
  have hmember : Formula (.dot (.bit (.ident "m") _) "f") :=
    .dot (.bit (.ident (by decide)) rfl hindex) rfl (by decide)
  refine ⟨⟨hmember, hmember, rfl, eq_of_text_eq hmember hmember rfl⟩, ?_⟩
  intro htext
  cases eq_of_text_eq hindex (.binary .sub (.binary .sub hi hj) hone) htext

end Expr

end VerilogDecl
