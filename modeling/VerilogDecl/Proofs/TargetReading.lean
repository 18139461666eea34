/-
**Targets and the lexemes that spell them.**

Each target is spelled by one list of lexemes, and reading that list gives the target back.  Hence a
reader of statements can cut a list anywhere and still know what the words in front can be: a name,
a concatenation or a stream first, then selects and member accesses only.

Main definitions:

* `VerilogDecl.Lexeme.startsTarget`, `VerilogDecl.Lexeme.isSelect` — the first word of a target, and
  the words behind it;
* `VerilogDecl.Target.partSelects` — a target under part selects with fixed bounds.

Main results:

* `VerilogDecl.Target.ofLexemes?_eq_some_iff`, `VerilogDecl.Target.ofTokens?_eq_some_iff` — **a list
  is read as a target exactly if it spells that target**;
* `VerilogDecl.Target.exists_cons_lexemes` — only selects stand behind the first word.
-/

import VerilogDecl.Target.OfTokens
import VerilogDecl.Proofs.CommaJoin
import Mathlib.Data.List.Induction

set_option relaxedAutoImplicit false
set_option autoImplicit false

namespace VerilogDecl

/-- Can this lexeme start a target? -/
def Lexeme.startsTarget : Lexeme → Bool
  | ident _ | concat _ | stream .. => true
  | _ => false

/-- Does this lexeme select from the target in front of it? -/
def Lexeme.isSelect : Lexeme → Bool
  | index _ | range .. | member _ => true
  | _ => false

/-- Can this lexeme stand in a target? -/
def Lexeme.isTargetWord (l : Lexeme) : Bool :=
  l.startsTarget || l.isSelect

namespace Target

/-! ### Reading and spelling -/

theorem lexemes_of_start? {l : Lexeme} {t : Target} (h : start? l = some t) : t.lexemes = [l] := by
  cases l <;> cases h <;> rfl

theorem lexemes_of_extend? {t u : Target} {l : Lexeme} (h : t.extend? l = some u) :
    u.lexemes = t.lexemes ++ [l] := by
  cases l <;> cases h <;> rfl

/-- What is read as a target spells it. -/
theorem lexemes_of_ofLexemes? {ls : List Lexeme} {t : Target} (h : ofLexemes? ls = some t) :
    t.lexemes = ls := by
  -- the last lexeme is the outermost select, so the list is taken apart from its end
  induction ls using List.reverseRecOn generalizing t with
  | nil => cases h
  | append_singleton ls l ih =>
      by_cases hls : ls = []
      · subst hls
        rw [List.nil_append, ofLexemes?_singleton] at h
        exact lexemes_of_start? h
      · rw [ofLexemes?_append_singleton hls] at h
        obtain ⟨u, hu, hext⟩ := Option.bind_eq_some_iff.1 h
        rw [lexemes_of_extend? hext, ih hu]

/-- **A list of lexemes is read as a target exactly if it spells that target.** -/
theorem ofLexemes?_eq_some_iff {ls : List Lexeme} {t : Target} :
    ofLexemes? ls = some t ↔ ls = t.lexemes := by
  constructor
  · intro h
    exact (lexemes_of_ofLexemes? h).symm
  · rintro rfl
    exact ofLexemes?_lexemes t

theorem ofTokens?_eq_some_iff {ts : List Token} {t : Target} :
    ofTokens? ts = some t ↔ ts.map Token.lexeme = t.lexemes :=
  ofLexemes?_eq_some_iff

theorem lexemes_injective : Function.Injective lexemes := by
  intro t u h
  have hread := ofLexemes?_lexemes t
  rw [h, ofLexemes?_lexemes u] at hread
  exact (Option.some.inj hread).symm

/-! ### The words of a target -/

/-- Behind the first word of a target stand selects only. -/
theorem exists_cons_lexemes : ∀ t : Target, ∃ l ls, t.lexemes = l :: ls ∧
    l.startsTarget = true ∧ ∀ k ∈ ls, k.isSelect = true
  | ident name => ⟨.ident name, [], rfl, rfl, List.forall_mem_nil _⟩
  | concat items => ⟨.concat items, [], rfl, rfl, List.forall_mem_nil _⟩
  | stream op size items => ⟨.stream op size items, [], rfl, rfl, List.forall_mem_nil _⟩
  | bit base index => by
      obtain ⟨l, ls, h, hl, hls⟩ := exists_cons_lexemes base
      refine ⟨l, ls ++ [.index index], ?_, hl, ?_⟩
      · rw [lexemes, h, List.cons_append]
      · exact List.forall_mem_append.2 ⟨hls, List.forall_mem_singleton.2 rfl⟩
  | partSelect base mode range => by
      obtain ⟨l, ls, h, hl, hls⟩ := exists_cons_lexemes base
      refine ⟨l, ls ++ [.range mode range], ?_, hl, ?_⟩
      · rw [lexemes, h, List.cons_append]
      · exact List.forall_mem_append.2 ⟨hls, List.forall_mem_singleton.2 rfl⟩
  | dot base name => by
      obtain ⟨l, ls, h, hl, hls⟩ := exists_cons_lexemes base
      refine ⟨l, ls ++ [.member name], ?_, hl, ?_⟩
      · rw [lexemes, h, List.cons_append]
      · exact List.forall_mem_append.2 ⟨hls, List.forall_mem_singleton.2 rfl⟩

theorem isTargetWord_of_mem_lexemes {t : Target} {k : Lexeme} (h : k ∈ t.lexemes) :
    k.isTargetWord = true := by
  obtain ⟨l, ls, ht, hl, hls⟩ := t.exists_cons_lexemes
  rw [ht] at h
  rcases List.mem_cons.1 h with rfl | h
  · rw [Lexeme.isTargetWord, hl, Bool.true_or]
  · rw [Lexeme.isTargetWord, hls k h, Bool.or_true]

/-- What is read as a target has only words of a target. -/
theorem isTargetWord_of_ofLexemes? {ls : List Lexeme} {t : Target} {k : Lexeme}
    (h : ofLexemes? ls = some t) (hk : k ∈ ls) : k.isTargetWord = true := by
  rw [ofLexemes?_eq_some_iff.1 h] at hk
  exact isTargetWord_of_mem_lexemes hk

/-! ### Part selects -/

/-- The target `t` under part selects with the bounds `rs`, the first of them innermost. -/
def partSelects (t : Target) (rs : List Range) : Target :=
  rs.foldl (fun u r => .partSelect u .nonIndexed r) t

theorem lexemes_partSelects (t : Target) (rs : List Range) :
    (t.partSelects rs).lexemes = t.lexemes ++ rs.map (.range .nonIndexed) := by
  induction rs generalizing t with
  | nil => exact (List.append_nil _).symm
  | cons r rs ih =>
      have hstep : (t.partSelects (r :: rs)) = (partSelect t .nonIndexed r).partSelects rs := rfl
      rw [hstep, ih, lexemes, List.append_assoc, List.map_cons, List.singleton_append]

end Target

/-- The tokens of a target hold no comma. -/
theorem Token.commaFree_of_target {ts : List Token} {t : Target}
    (h : Target.ofTokens? ts = some t) : CommaFree ts := by
  refine commaFree_of_lexemes fun l hl => ?_
  rw [Target.ofTokens?_eq_some_iff.1 h] at hl
  have hword := Target.isTargetWord_of_mem_lexemes hl
  cases l with
  | comma => cases hword
  | _ => rfl

end VerilogDecl
