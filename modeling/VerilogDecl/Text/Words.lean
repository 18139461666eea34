/-
**Lines of words.**

Most texts of this library are a few words with one blank between them, where a word that is not
there is the empty text.  This module fixes that joining once.

Main definitions:

* `VerilogDecl.Text.words` — the non-empty texts, one blank between neighbours;
* `VerilogDecl.Text.commaList` — texts joined by a comma and a blank;
* `VerilogDecl.Text.parenthesizedIf` — a text, in parentheses on demand.
-/

set_option relaxedAutoImplicit false
set_option autoImplicit false

namespace VerilogDecl

namespace Text

/-- The non-empty texts of a list, one blank between neighbours. -/
def words (ws : List String) : String :=
  " ".intercalate (ws.filter (· ≠ ""))

/-- Texts joined by a comma and a blank. -/
def commaList (ts : List String) : String :=
  ", ".intercalate ts

/-- The text `s`, in parentheses if `b` holds. -/
def parenthesizedIf (b : Bool) (s : String) : String :=
  if b then "(" ++ s ++ ")" else s

@[simp] theorem words_nil : words [] = "" := rfl

@[simp] theorem words_cons_empty (ws : List String) : words ("" :: ws) = words ws := by
  simp [words]

@[simp] theorem commaList_nil : commaList [] = "" := rfl

@[simp] theorem commaList_singleton (s : String) : commaList [s] = s := by
  simp [commaList]

@[simp] theorem parenthesizedIf_true (s : String) : parenthesizedIf true s = "(" ++ s ++ ")" := rfl

@[simp] theorem parenthesizedIf_false (s : String) : parenthesizedIf false s = s := rfl

end Text

end VerilogDecl
