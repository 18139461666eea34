/-
**Targets as tokens and as expressions.**

A target can be met in three forms: as the tokens that spell it, as a tree, and as the expression that
is called where the target stands in front of arguments.  The forms differ in more than notation:
tokens are read from the front, each of them around what stands before it, while the tree is taken
apart from its outermost select.  This module shows that no form loses anything.  Tokens and trees
determine each other, an expression comes from one target only, and all three are written alike.

Main results:

* `VerilogDecl.Target.ofTokens?_inverts_lexemes` — **reading and spelling a target are inverse to
  each other**, up to the places of tokens;
* `VerilogDecl.Target.text_toExpr` — a target and its expression are written alike;
* `VerilogDecl.Target.toExpr_injective` — two targets are never the same expression;
* `VerilogDecl.Target.text_of_ofTokens?` — a target is written like its tokens, without blanks;
* `VerilogDecl.Target.text_preserved` — **a target keeps its text and its identity**.
-/

import VerilogDecl.Proofs.PrintedText

set_option relaxedAutoImplicit false
set_option autoImplicit false

namespace VerilogDecl

namespace Target

/-! ### Reading and spelling -/

/-- **Reading and spelling a target are inverse to each other.**  A list is read as a target exactly
if its lexemes are those that spell the target.  So every target is read from some list, wherever its
tokens stand; two lists that are read as one target differ in places only; and the lists that are
read as no target are those that spell none. -/
theorem ofTokens?_inverts_lexemes :
    (∀ (ts : List Token) (t : Target), ofTokens? ts = some t ↔ ts.map Token.lexeme = t.lexemes) ∧
    (∀ (t : Target) (pos : Position), ofTokens? (t.lexemes.map (Token.mk · pos)) = some t) ∧
    (∀ (ts us : List Token) (t : Target), ofTokens? ts = some t → ofTokens? us = some t →
      ts.map Token.lexeme = us.map Token.lexeme) ∧
    ∀ ts : List Token, ofTokens? ts = none ↔ ∀ t : Target, ts.map Token.lexeme ≠ t.lexemes := by
  refine ⟨fun ts t => ofTokens?_eq_some_iff, fun t pos => ?_, fun ts us t hts hus => ?_,
    fun ts => ?_⟩
  · refine ofTokens?_eq_some_iff.2 ?_
    rw [List.map_map]
    exact List.map_id t.lexemes
  · rw [ofTokens?_eq_some_iff.1 hts, ofTokens?_eq_some_iff.1 hus]
  · rw [Option.eq_none_iff_forall_ne_some]
    exact forall_congr' fun t => not_congr ofTokens?_eq_some_iff

/-- The tokens `a`, `[0]`, `.f` are read as the member `f` of an element. -/
theorem ofTokens?_inverts_lexemes_member :
    ofTokens?
      [⟨.ident "a", ⟨"top.sv", 5, 3⟩⟩, ⟨.index (.number "0"), ⟨"top.sv", 5, 4⟩⟩,
        ⟨.member "f", ⟨"top.sv", 5, 7⟩⟩] = some (.dot (.bit (.ident "a") (.number "0")) "f") :=
  (ofTokens?_inverts_lexemes.1 _ _).2 rfl

/-! ### Targets as expressions -/

mutual

/-- A target and its expression are written alike. -/
theorem text_toExpr : ∀ t : Target, t.toExpr.text = t.text
  | ident _ => rfl
  | bit base index => by rw [toExpr, Expr.text, text, text_toExpr base]
  | partSelect base mode range => by
      rw [toExpr, Expr.text, text, text_toExpr base, Range.textWith]
  | dot base name => by rw [toExpr, Expr.text, text, text_toExpr base]
  | concat items => by rw [toExpr, Expr.text, text, texts_toExprs items]
  | stream op size items => by rw [toExpr, Expr.text, text, texts_toExprs items]

theorem texts_toExprs : ∀ ts : List Target, Expr.texts (toExprs ts) = texts ts
  | [] => rfl
  | t :: ts => by rw [toExprs, Expr.texts, texts, text_toExpr t, texts_toExprs ts]

end

mutual

theorem eq_of_toExpr_eq : ∀ {t u : Target}, t.toExpr = u.toExpr → t = u
  | ident name, u, h => by
      cases u with
      | ident name' => rw [Expr.ident.inj h]
      | _ => cases h
  | bit base index, u, h => by
      cases u with
      | bit base' index' =>
          obtain ⟨hbase, hindex⟩ := Expr.bit.inj h
          rw [eq_of_toExpr_eq hbase, hindex]
      | _ => cases h
  | partSelect base mode ⟨left, right⟩, u, h => by
      cases u with
      | partSelect base' mode' range' =>
          obtain ⟨hbase, rfl, rfl, rfl⟩ := Expr.partSelect.inj h
          rw [eq_of_toExpr_eq hbase]
      | _ => cases h
  | dot base name, u, h => by
      cases u with
      | dot base' name' =>
          obtain ⟨hbase, hname⟩ := Expr.dot.inj h
          rw [eq_of_toExpr_eq hbase, hname]
      | _ => cases h
  | concat items, u, h => by
      cases u with
      | concat items' => rw [eq_of_toExprs_eq (Expr.concat.inj h)]
      | _ => cases h
  | stream op size items, u, h => by
      cases u with
      | stream op' size' items' =>
          obtain ⟨hop, hsize, hitems⟩ := Expr.stream.inj h
          rw [hop, hsize, eq_of_toExprs_eq hitems]
      | _ => cases h

theorem eq_of_toExprs_eq : ∀ {ts us : List Target}, toExprs ts = toExprs us → ts = us
  | [], us, h => by
      cases us with
      | nil => rfl
      | cons u us => cases h
  | t :: ts, us, h => by
      cases us with
      | nil => cases h
      | cons u us =>
          obtain ⟨ht, hts⟩ := List.cons.inj h
          rw [eq_of_toExpr_eq ht, eq_of_toExprs_eq hts]

end

/-- **Two targets are never the same expression.** -/
theorem toExpr_injective : Function.Injective toExpr :=
  fun _ _ h => eq_of_toExpr_eq h

/-! ### Targets and the texts of tokens -/

/-- A target is written like its tokens, one right behind the other. -/
theorem text_of_ofTokens? {ts : List Token} {t : Target} (h : ofTokens? ts = some t) :
    t.text = String.join (ts.map Token.text) := by
  rw [← joined_lexemes t, ← ofTokens?_eq_some_iff.1 h, Lexeme.joined, List.map_map]
  rfl

/-- **A target keeps its text and its identity.**  Its expression is written like the target, and no
other target has the same expression; the tokens that it was read from are written like it, with
nothing between them. -/
theorem text_preserved :
    (∀ t : Target, t.toExpr.text = t.text) ∧ Function.Injective toExpr ∧
    ∀ (ts : List Token) (t : Target), ofTokens? ts = some t →
      t.text = String.join (ts.map Token.text) :=
  ⟨text_toExpr, toExpr_injective, fun _ _ => text_of_ofTokens?⟩

/-- The member `f` of an element is written like the tokens `a`, `[0]`, `.f`. -/
theorem text_preserved_member :
    (Target.dot (.bit (.ident "a") (.number "0")) "f").text =
      String.join ([⟨.ident "a", ⟨"top.sv", 5, 3⟩⟩, ⟨.index (.number "0"), ⟨"top.sv", 5, 4⟩⟩,
        ⟨.member "f", ⟨"top.sv", 5, 7⟩⟩].map Token.text) :=
  text_preserved.2.2 _ _ rfl

end Target

end VerilogDecl
