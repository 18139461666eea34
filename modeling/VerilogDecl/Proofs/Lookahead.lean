/-
**What the two lookaheads see.**

Two questions decide how a name is read: does a declarator start here, and is the name in front a
type?  The first one walks over dimensions and an initial value, the second one looks for another
name before the next comma.  Both look at a list whose end they do not know.  This module shows that
neither looks beyond the segment it stands in, so that appending an item never changes how the
segments before it are read, and that in a well-formed segment the two answers exclude each other.

Main definitions:

* `VerilogDecl.Token.OpensDeclarator` — a name and its dimensions, with nothing or an assignment
  behind them.

Main results:

* `VerilogDecl.Dimension.after_append_of_endsSegment` — a run of dimensions ends with its segment;
* `VerilogDecl.Declarator.starts_append_iff` — a declarator starts exactly where the segment opens
  with one;
* `VerilogDecl.starts_eq_not_namesType` — **a well-formed segment starts with a declarator exactly
  if no name follows its first word**;
* `VerilogDecl.lookaheads_see_segment` — **both lookaheads see one segment only, and complement each
  other**.
-/

import VerilogDecl.Proofs.FirstFault

set_option relaxedAutoImplicit false
set_option autoImplicit false

namespace VerilogDecl

namespace Token

/-- The segment opens with a name and its dimensions, and nothing or an assignment stands behind
them. -/
def OpensDeclarator (seg : List Token) : Prop :=
  ∃ (name : String) (dims : List Dimension) (more : List Lexeme),
    seg.map lexeme = .ident name :: (dims.map Dimension.lexeme ++ more) ∧
      ∀ l ∈ more.head?, l.isAssign = true

end Token

open Token

variable {seg rest : List Token}

/-- No run of dimensions goes on behind its segment. -/
theorem Dimension.after_append_of_endsSegment (ts : List Token) (hrest : EndsSegment rest) :
    after (ts ++ rest) = after ts ++ rest := by
  induction ts with
  | nil =>
      rcases hrest.eq_nil_or_comma with rfl | ⟨pos, rest, rfl⟩
      · rfl
      · rfl
  | cons t ts ih =>
      cases ht : isDimension t.lexeme with
      | true =>
          simp only [after, List.cons_append, List.dropWhile_cons, ht] at ih ⊢
          exact ih
      | false => simp only [after, List.cons_append, List.dropWhile_cons, ht]; rfl

namespace Declarator

/-- **A declarator starts exactly where the segment opens with one.** -/
theorem starts_append_iff (hseg : CommaFree seg) (hrest : EndsSegment rest) :
    starts (seg ++ rest) = true ↔ OpensDeclarator seg := by
  constructor
  · intro h
    cases seg with
    | nil =>
        rcases hrest.eq_nil_or_comma with rfl | ⟨pos, rest, rfl⟩
        · cases h
        · cases h
    | cons t tail =>
        obtain ⟨l, pos⟩ := t
        cases l with
        | ident name =>
            obtain ⟨ds, dims, htail, hds⟩ := Dimension.exists_dims tail
            refine ⟨name, dims, (Dimension.after tail).map lexeme, ?_, ?_⟩
            · rw [List.map_cons, ← hds, ← List.map_append, ← htail]
            · rw [List.cons_append, starts, Dimension.after_append_of_endsSegment tail hrest] at h
              intro l hl
              cases hafter : Dimension.after tail with
              | nil => simp [hafter] at hl
              | cons u us =>
                  obtain rfl : u.lexeme = l := by simpa [hafter] using hl
                  have hmem : u ∈ tail := (Dimension.after_suffix tail).subset (by simp [hafter])
                  have hu := hseg u (List.mem_cons_of_mem _ hmem)
                  have hassign : u.isAssign = true := by simpa [hafter, hu] using h
                  exact hassign
        | _ => cases h
  · rintro ⟨name, dims, more, hlexemes, hmore⟩
    obtain ⟨⟨l, pos⟩, us, rfl, rfl, hus⟩ := List.map_eq_cons_iff.1 hlexemes
    obtain ⟨ds, ms, rfl, hds, rfl⟩ := List.map_eq_append_iff.1 hus
    have hstop : ∀ t ∈ ms.head?, Dimension.isDimension t.lexeme = false := by
      intro t ht
      have hassign := hmore t.lexeme (by simpa using ⟨t, ht, rfl⟩)
      cases hl : t.lexeme with
      | assign a => rfl
      | _ => simp [hl, Lexeme.isAssign] at hassign
    have hafter : Dimension.after (ds ++ ms ++ rest) = ms ++ rest := by
      rw [Dimension.after_append_of_endsSegment _ hrest, Dimension.after_append hds hstop]
    rw [List.cons_append, starts, hafter]
    cases ms with
    | nil =>
        rcases hrest.eq_nil_or_comma with rfl | ⟨pos, rest, rfl⟩
        · rfl
        · rfl
    | cons m ms =>
        have hassign : m.isAssign = true := hmore m.lexeme rfl
        simp [hassign]

end Declarator

theorem TypeHead.namesType_append_iff (hseg : CommaFree seg) (hrest : EndsSegment rest) :
    namesType (seg ++ rest) = true ↔ ∃ t ∈ seg, t.lexeme.isName = true := by
  rw [namesType_append hseg hrest, List.any_map, List.any_eq_true]
  rfl

/-- **A well-formed segment starts with a declarator exactly if no name follows its first word.** -/
theorem starts_eq_not_namesType {first : Token} {tail : List Token} (hrest : EndsSegment rest)
    (hwell : WellFormed (first :: tail)) :
    Declarator.starts (first :: tail ++ rest) = !TypeHead.namesType (tail ++ rest) := by
  obtain ⟨s, hs⟩ := hwell
  obtain ⟨hs', ns, hseg, hh, hn, -⟩ := hs.exists_tokens
  by_cases hempty : s.head = .empty
  · obtain rfl : hs' = [] := by simpa [hempty] using hh
    rw [List.nil_append] at hseg
    subst hseg
    obtain ⟨-, hrear⟩ := List.cons.inj hn
    rw [Declarator.starts_append hn hrest, TypeHead.namesType_rear hrear hrest]
    rfl
  · obtain ⟨t, hs', rfl⟩ : ∃ t us, hs' = t :: us := by
      refine List.exists_cons_of_ne_nil ?_
      rintro rfl
      exact hempty (HeadWords.lexemes_eq_nil_iff.1 hh.symm)
    rw [List.cons_append] at hseg
    obtain ⟨rfl, rfl⟩ := List.cons.inj hseg
    have hstart := Declarator.starts_head_append hh hn hempty rest
    have hfree : CommaFree (hs' ++ ns) :=
      commaFree_append.2 ⟨(commaFree_cons.1 (s.head.commaFree hh)).2, s.name.commaFree hn⟩
    have htype : TypeHead.namesType (hs' ++ ns ++ rest) = true := by
      -- the declared name stands behind the words of the head
      obtain ⟨pos, ds, is, rfl, -, -⟩ := s.name.exists_tokens hn
      exact (TypeHead.namesType_append_iff hfree hrest).2
        ⟨⟨.ident s.name.name, pos⟩, by simp, rfl⟩
    rw [htype]
    simpa using hstart

/-- **Both lookaheads see one segment only, and complement each other.**  A declarator starts
exactly where the segment opens with one, and a name in front is a type exactly if a name stands in
the segment; what follows the segment matters to neither.  At the first word of a well-formed
segment, either a declarator starts or the words behind make a name a type, never both. -/
theorem lookaheads_see_segment (hseg : CommaFree seg) (hrest : EndsSegment rest) :
    (Declarator.starts (seg ++ rest) = true ↔ OpensDeclarator seg) ∧
    (TypeHead.namesType (seg ++ rest) = true ↔ ∃ t ∈ seg, t.lexeme.isName = true) ∧
    (∀ rest', EndsSegment rest' →
      Declarator.starts (seg ++ rest) = Declarator.starts (seg ++ rest') ∧
      TypeHead.namesType (seg ++ rest) = TypeHead.namesType (seg ++ rest')) ∧
    ∀ first tail, seg = first :: tail → WellFormed seg →
      Declarator.starts (seg ++ rest) = !TypeHead.namesType (tail ++ rest) := by
  refine ⟨Declarator.starts_append_iff hseg hrest, TypeHead.namesType_append_iff hseg hrest, ?_, ?_⟩
  · intro rest' hrest'
    constructor
    · rw [Bool.eq_iff_iff, Declarator.starts_append_iff hseg hrest,
        Declarator.starts_append_iff hseg hrest']
    · rw [TypeHead.namesType_append hseg hrest, TypeHead.namesType_append hseg hrest']
  · rintro first tail rfl hwell
    exact starts_eq_not_namesType hrest hwell

/-- In front of a comma, `three [1:0]` starts a declarator and `three` is no type; with `four`
behind the dimension it is a type. -/
theorem lookaheads_see_segment_three :
    Declarator.starts
      [⟨.ident "three", ⟨"top.sv", 9, 12⟩⟩,
        ⟨.range .nonIndexed ⟨.number "1", .number "0"⟩, ⟨"top.sv", 9, 18⟩⟩,
        ⟨.comma, ⟨"top.sv", 9, 23⟩⟩, ⟨.ident "four", ⟨"top.sv", 9, 25⟩⟩] = true ∧
    TypeHead.namesType
      [⟨.range .nonIndexed ⟨.number "1", .number "0"⟩, ⟨"top.sv", 9, 18⟩⟩,
        ⟨.comma, ⟨"top.sv", 9, 23⟩⟩, ⟨.ident "four", ⟨"top.sv", 9, 25⟩⟩] = false ∧
    TypeHead.namesType
      [⟨.range .nonIndexed ⟨.number "1", .number "0"⟩, ⟨"top.sv", 9, 18⟩⟩,
        ⟨.ident "four", ⟨"top.sv", 9, 24⟩⟩] = true := by
  have hfree : CommaFree [⟨.ident "three", ⟨"top.sv", 9, 12⟩⟩,
      ⟨.range .nonIndexed ⟨.number "1", .number "0"⟩, ⟨"top.sv", 9, 18⟩⟩] :=
    commaFree_of_lexemes (by simp [Lexeme.isSeparator])
  obtain ⟨hstarts, -, -, hxor⟩ := lookaheads_see_segment hfree
    (endsSegment_comma ⟨"top.sv", 9, 23⟩ [⟨.ident "four", ⟨"top.sv", 9, 25⟩⟩])
  have hopens := hstarts.2 ⟨"three", [.bounded ⟨.number "1", .number "0"⟩], [], rfl, by simp⟩
  refine ⟨hopens, ?_, ?_⟩
  · have hnot := hxor _ _ rfl ⟨⟨_, .empty, ⟨"three", [.bounded ⟨.number "1", .number "0"⟩], none⟩⟩,
      rfl, rfl⟩
    rw [hopens] at hnot
    simpa using hnot
  · have hfree' : CommaFree [⟨.range .nonIndexed ⟨.number "1", .number "0"⟩, ⟨"top.sv", 9, 18⟩⟩,
        ⟨.ident "four", ⟨"top.sv", 9, 24⟩⟩] :=
      commaFree_of_lexemes (by simp [Lexeme.isSeparator])
    exact (lookaheads_see_segment hfree' endsSegment_nil).2.1.2
      ⟨⟨.ident "four", ⟨"top.sv", 9, 24⟩⟩, by simp, rfl⟩

end VerilogDecl
