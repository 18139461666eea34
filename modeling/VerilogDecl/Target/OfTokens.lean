/-
**Reading an assignment target.**

A target is read from a whole list of tokens: the first one starts it, and each of the others wraps
what was read so far in a select or a member access.  Positions play no part, so the reading is
defined on lexemes.

Main definitions:

* `VerilogDecl.Target.start?`, `VerilogDecl.Target.extend?` — the first token and the others;
* `VerilogDecl.Target.ofLexemes?`, `VerilogDecl.Target.ofTokens?` — the target of a list;
* `VerilogDecl.Target.lexemes` — the lexemes that spell a target.

Main results:

* `VerilogDecl.Target.ofLexemes?_append_singleton` — the last token is the outermost select;
* `VerilogDecl.Target.ofLexemes?_lexemes` — what spells a target is read as that target.
-/

import VerilogDecl.Token

set_option relaxedAutoImplicit false
set_option autoImplicit false

namespace VerilogDecl

namespace Target

/-- The target that a first token starts. -/
def start? : Lexeme → Option Target
  | .ident name => some (.ident name)
  | .concat items => some (.concat items)
  | .stream op size items => some (.stream op size items)
  | _ => none

/-- A target under one more select or member access. -/
def extend? (t : Target) : Lexeme → Option Target
  | .index e => some (.bit t e)
  | .range mode r => some (.partSelect t mode r)
  | .member name => some (.dot t name)
  | _ => none

/-- The target that a list of lexemes spells. -/
def ofLexemes? : List Lexeme → Option Target
  | [] => none
  | l :: ls => (start? l).bind fun t => ls.foldlM extend? t

/-- The target that a list of tokens spells. -/
def ofTokens? (ts : List Token) : Option Target :=
  ofLexemes? (ts.map (·.lexeme))

/-- The lexemes that spell a target. -/
def lexemes : Target → List Lexeme
  | ident name => [.ident name]
  | bit base index => base.lexemes ++ [.index index]
  | partSelect base mode range => base.lexemes ++ [.range mode range]
  | dot base name => base.lexemes ++ [.member name]
  | concat items => [.concat items]
  | stream op size items => [.stream op size items]

@[simp] theorem ofLexemes?_nil : ofLexemes? [] = none := rfl

@[simp] theorem ofLexemes?_singleton (l : Lexeme) : ofLexemes? [l] = start? l := by
  simp [ofLexemes?]

@[simp] theorem ofTokens?_nil : ofTokens? [] = none := rfl

/-- The last token is the outermost select. -/
theorem ofLexemes?_append_singleton {ls : List Lexeme} (h : ls ≠ []) (l : Lexeme) :
    ofLexemes? (ls ++ [l]) = (ofLexemes? ls).bind (extend? · l) := by
  cases ls with
  | nil => exact absurd rfl h
  | cons k ks =>
    simp only [List.cons_append, ofLexemes?, List.foldlM_append, List.foldlM_cons,
      List.foldlM_nil, bind_pure]
    cases start? k with
    | none => rfl
    | some t => rfl

theorem lexemes_ne_nil (t : Target) : t.lexemes ≠ [] := by
  cases t <;> simp [lexemes]

/-- The lexemes that spell a target are read as that target. -/
theorem ofLexemes?_lexemes : ∀ t : Target, ofLexemes? t.lexemes = some t
  | ident _ => rfl
  | concat _ => rfl
  | stream .. => rfl
  | bit base index => by
      rw [lexemes, ofLexemes?_append_singleton base.lexemes_ne_nil, ofLexemes?_lexemes base]
      rfl
  | partSelect base mode range => by
      rw [lexemes, ofLexemes?_append_singleton base.lexemes_ne_nil, ofLexemes?_lexemes base]
      rfl
  | dot base name => by
      rw [lexemes, ofLexemes?_append_singleton base.lexemes_ne_nil, ofLexemes?_lexemes base]
      rfl

end Target

end VerilogDecl
