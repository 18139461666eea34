/-
**Reading the words of a segment.**

Every reader takes one kind of words from the front of a list of tokens.  This module says so twice
for each of them.  In front of a spelled word, the reader takes exactly that word and leaves what is
behind it, provided that what is behind cannot prolong the word; and whatever a reader takes, it
spells a word of the grammar.  Because the readers are functions, the first half also shows that a
list of tokens is cut into words in only one way.

Main definitions:

* `VerilogDecl.Token.EndsSegment` — a segment may end in front of these tokens.

Main results:

* `VerilogDecl.Dimension.after_append`, `VerilogDecl.Dimension.ranges_append` — a run of dimensions;
* `VerilogDecl.Declarator.take_append`, `VerilogDecl.Declarator.exists_words_of_take` — a name;
* `VerilogDecl.Declarator.starts_append`, `VerilogDecl.Declarator.starts_head_append` — a name is
  told from the words of a new group;
* `VerilogDecl.DeclGroup.take_append`, `VerilogDecl.DeclGroup.exists_words_of_take` — the words in
  front of the names of a group;
* `VerilogDecl.Segment.SpelledBy.unique` — **a list of tokens spells at most one segment**.
-/

import VerilogDecl.Proofs.Segment

set_option relaxedAutoImplicit false
set_option autoImplicit false

namespace VerilogDecl

namespace Token

/-- A segment may end in front of these tokens: there are none, or the first one is a comma. -/
def EndsSegment (ts : List Token) : Prop :=
  ∀ t ∈ ts.head?, t.isSeparator = true

theorem endsSegment_nil : EndsSegment [] := by
  intro t ht
  cases ht

theorem endsSegment_comma (pos : Position) (ts : List Token) :
    EndsSegment (⟨.comma, pos⟩ :: ts) := by
  intro t ht
  obtain rfl : ⟨.comma, pos⟩ = t := by simpa using ht
  rfl

theorem EndsSegment.eq_nil_or_comma {ts : List Token} (h : EndsSegment ts) :
    ts = [] ∨ ∃ pos rest, ts = ⟨.comma, pos⟩ :: rest := by
  cases ts with
  | nil => exact Or.inl rfl
  | cons t ts =>
      have ht : t.isSeparator = true := h t rfl
      rw [eq_comma_of_isSeparator ht]
      exact Or.inr ⟨t.pos, ts, rfl⟩

end Token

open Token

/-! ### Dimensions -/

namespace Dimension

theorem isDimension_of_mem {ds : List Token} {dims : List Dimension}
    (hd : ds.map Token.lexeme = dims.map lexeme) : ∀ t ∈ ds, isDimension t.lexeme = true := by
  intro t ht
  have hmem : t.lexeme ∈ dims.map lexeme := hd ▸ List.mem_map_of_mem ht
  obtain ⟨d, -, hdt⟩ := List.mem_map.1 hmem
  rw [← hdt, isDimension_lexeme]

/-- A run of dimensions is taken up to its end. -/
theorem after_append {ds rest : List Token} {dims : List Dimension}
    (hd : ds.map Token.lexeme = dims.map lexeme)
    (hr : ∀ t ∈ rest.head?, isDimension t.lexeme = false) : after (ds ++ rest) = rest := by
  rw [after, List.dropWhile_append_of_pos (isDimension_of_mem hd)]
  cases rest with
  | nil => rfl
  | cons t rest =>
      have ht : isDimension t.lexeme = false := hr t rfl
      rw [List.dropWhile_cons_of_neg (by simp [ht])]

/-- The ranges of a run of dimensions depend on the token behind the run only through the bounds
that it gives to the last dimension. -/
theorem ranges_append {ds rest : List Token} {dims : List Dimension}
    (hd : ds.map Token.lexeme = dims.map lexeme)
    (hr : ∀ t ∈ rest.head?, isDimension t.lexeme = false) :
    ranges (ds ++ rest) = rangesWith (implied? rest) dims := by
  induction dims generalizing ds with
  | nil =>
      obtain rfl : ds = [] := by simpa using hd
      cases rest with
      | nil => rfl
      | cons t rest => exact ranges_cons_of_not_isDimension (hr t rfl) rest
  | cons d dims ih =>
      obtain ⟨⟨l, pos⟩, ds, rfl, rfl, hds⟩ := List.map_eq_cons_iff.1 hd
      have htail := ih hds
      cases d with
      | bounded r =>
          rw [rangesWith_bounded_cons, ← htail]
          rfl
      | unsized =>
          have hstep : ranges (⟨lexeme unsized, pos⟩ :: (ds ++ rest)) =
              (implied? (ds ++ rest)).toList ++ ranges (ds ++ rest) := rfl
          rw [List.cons_append, hstep, htail]
          cases dims with
          | nil =>
              obtain rfl : ds = [] := by simpa using hds
              rw [List.nil_append, rangesWith_nil, List.append_nil, rangesWith_unsized]
          | cons d' dims =>
              -- another dimension stands behind this one, so no initializer does
              obtain ⟨⟨l, pos'⟩, ds, rfl, rfl, -⟩ := List.map_eq_cons_iff.1 hds
              rw [rangesWith_unsized_cons_cons]
              cases d' <;> rfl

theorem exists_dims (ts : List Token) : ∃ (ds : List Token) (dims : List Dimension),
    ts = ds ++ after ts ∧ ds.map Token.lexeme = dims.map lexeme := by
  induction ts with
  | nil => exact ⟨[], [], rfl, rfl⟩
  | cons t ts ih =>
      cases ht : isDimension t.lexeme with
      | true =>
          obtain ⟨ds, dims, hts, hds⟩ := ih
          obtain ⟨d, hd⟩ := exists_lexeme_eq ht
          refine ⟨t :: ds, d :: dims, ?_, by simp [hd, hds]⟩
          rw [after, List.dropWhile_cons_of_pos (by simpa using ht), List.cons_append, ← after,
            ← hts]
      | false =>
          refine ⟨[], [], ?_, rfl⟩
          rw [after, List.dropWhile_cons_of_neg (by simp [ht]), List.nil_append]

end Dimension

/-! ### Names -/

theorem NameWords.exists_tokens {n : NameWords} {ns : List Token}
    (h : ns.map Token.lexeme = n.lexemes) :
    ∃ pos ds is, ns = ⟨.ident n.name, pos⟩ :: (ds ++ is) ∧
      ds.map Token.lexeme = n.dims.map Dimension.lexeme ∧
      is.map Token.lexeme = (n.init.map Lexeme.assign).toList := by
  obtain ⟨⟨l, pos⟩, us, rfl, rfl, hus⟩ := List.map_eq_cons_iff.1 h
  obtain ⟨ds, is, rfl, hd, hi⟩ := List.map_eq_append_iff.1 hus
  exact ⟨pos, ds, is, rfl, hd, hi⟩

theorem NameWords.isDimension_head {n : NameWords} {ns : List Token}
    (hn : ns.map Token.lexeme = n.lexemes) (tail : List Token) :
    ∀ t ∈ (ns ++ tail).head?, Dimension.isDimension t.lexeme = false := by
  obtain ⟨⟨l, pos⟩, rears, rfl, rfl, -⟩ := List.map_eq_cons_iff.1 hn
  intro t h
  obtain rfl : ⟨.ident n.name, pos⟩ = t := by simpa using h
  rfl

section Init

variable {init : Option Assign} {is tail : List Token}

/-- Behind the dimensions of a name stands its initializer, or the segment ends there. -/
theorem init_cases (hi : is.map Token.lexeme = (init.map Lexeme.assign).toList)
    (ht : EndsSegment tail) :
    (init = none ∧ is = [] ∧ tail = []) ∨
      (∃ pos rest, init = none ∧ is = [] ∧ tail = ⟨.comma, pos⟩ :: rest) ∨
      ∃ a pos, init = some a ∧ is = [⟨.assign a, pos⟩] := by
  cases init with
  | none =>
      obtain rfl : is = [] := by simpa using hi
      rcases ht.eq_nil_or_comma with rfl | ⟨pos, rest, rfl⟩
      · exact Or.inl ⟨rfl, rfl, rfl⟩
      · exact Or.inr (Or.inl ⟨pos, rest, rfl, rfl, rfl⟩)
  | some a =>
      obtain ⟨⟨l, pos⟩, rfl, rfl⟩ := List.map_eq_singleton_iff.1 hi
      exact Or.inr (Or.inr ⟨a, pos, rfl, rfl⟩)

theorem takeInit_append (hi : is.map Token.lexeme = (init.map Lexeme.assign).toList)
    (ht : EndsSegment tail) : takeInit (is ++ tail) = (init.map (·.expr), tail) := by
  rcases init_cases hi ht with ⟨rfl, rfl, rfl⟩ | ⟨pos, rest, rfl, rfl, rfl⟩ | ⟨a, pos, rfl, rfl⟩
  · rfl
  · rfl
  · rfl

/-- An unsized dimension takes its bounds from the initializer behind it and from nothing else. -/
theorem Dimension.implied?_append (hi : is.map Token.lexeme = (init.map Lexeme.assign).toList)
    (ht : EndsSegment tail) : implied? (is ++ tail) = init.bind ofInit? := by
  rcases init_cases hi ht with ⟨rfl, rfl, rfl⟩ | ⟨pos, rest, rfl, rfl, rfl⟩ | ⟨a, pos, rfl, rfl⟩
  · rfl
  · rfl
  · rfl

theorem isDimension_head_init (hi : is.map Token.lexeme = (init.map Lexeme.assign).toList)
    (ht : EndsSegment tail) :
    ∀ t ∈ (is ++ tail).head?, Dimension.isDimension t.lexeme = false := by
  rcases init_cases hi ht with ⟨rfl, rfl, rfl⟩ | ⟨pos, rest, rfl, rfl, rfl⟩ | ⟨a, pos, rfl, rfl⟩
  · rintro t ⟨⟩
  · rintro t ⟨⟩
    rfl
  · rintro t ⟨⟩
    rfl

end Init

namespace Declarator

/-- **A name is read with all that belongs to it.** -/
theorem take_append {n : NameWords} {ns tail : List Token} (hn : ns.map Token.lexeme = n.lexemes)
    (ht : EndsSegment tail) : take (ns ++ tail) = .ok (n.declarator, tail) := by
  obtain ⟨pos, ds, is, rfl, hd, hi⟩ := n.exists_tokens hn
  have hstop := isDimension_head_init hi ht
  have hafter : Dimension.after (ds ++ is ++ tail) = is ++ tail := by
    rw [List.append_assoc, Dimension.after_append hd hstop]
  have hranges : Dimension.ranges (ds ++ is ++ tail) =
      Dimension.rangesWith (n.init.bind Dimension.ofInit?) n.dims := by
    rw [List.append_assoc, Dimension.ranges_append hd hstop, Dimension.implied?_append hi ht]
  simp only [List.cons_append, take, hafter, hranges, takeInit_append hi ht]
  rfl

/-- A declarator starts where a name stands without words in front of it. -/
theorem starts_append {n : NameWords} {ns tail : List Token}
    (hn : ns.map Token.lexeme = n.lexemes) (ht : EndsSegment tail) :
    starts (ns ++ tail) = true := by
  obtain ⟨pos, ds, is, rfl, hd, hi⟩ := n.exists_tokens hn
  have hafter : Dimension.after (ds ++ is ++ tail) = is ++ tail := by
    rw [List.append_assoc, Dimension.after_append hd (isDimension_head_init hi ht)]
  simp only [List.cons_append, starts, hafter]
  rcases init_cases hi ht with ⟨-, rfl, rfl⟩ | ⟨pos, rest, -, rfl, rfl⟩ | ⟨a, pos, -, rfl⟩
  · rfl
  · rfl
  · rfl

/-- What is read as a declarator spells a name with what belongs to it. -/
theorem exists_words_of_take {ts rest : List Token} {d : Declarator}
    (h : take ts = .ok (d, rest)) :
    ∃ (n : NameWords) (ns : List Token), ts = ns ++ rest ∧ ns.map Token.lexeme = n.lexemes := by
  unfold take at h
  split at h
  · cases h
  next name pos ts =>
    obtain ⟨-, rfl⟩ := Prod.mk.inj (Except.ok.inj h)
    obtain ⟨ds, dims, hts, hd⟩ := Dimension.exists_dims ts
    generalize Dimension.after ts = us at hts
    subst hts
    -- whether there is an initializer is seen from the first token behind the dimensions
    split
    next a pos' us =>
      refine ⟨⟨name, dims, some a⟩, ⟨.ident name, pos⟩ :: (ds ++ [⟨.assign a, pos'⟩]), ?_, ?_⟩
      · simp
      · simp [NameWords.lexemes, NameWords.rear, hd]
    next =>
      refine ⟨⟨name, dims, none⟩, ⟨.ident name, pos⟩ :: ds, rfl, ?_⟩
      simp [NameWords.lexemes, NameWords.rear, hd]
  · cases h

end Declarator

/-! ### Direction and lifetime -/

theorem takeDirection_append {dir : Option Direction} {dirs rest : List Token}
    (hd : dirs.map Token.lexeme = (dir.map Lexeme.direction).toList)
    (hr : ∀ d, (rest.map Token.lexeme).head? ≠ some (.direction d)) :
    takeDirection (dirs ++ rest) = (dir.getD .unspecified, rest) := by
  cases dir with
  | none =>
      obtain rfl : dirs = [] := by simpa using hd
      cases rest with
      | nil => rfl
      | cons t rest =>
          obtain ⟨l, pos⟩ := t
          cases l with
          | direction d => exact absurd rfl (hr d)
          | _ => rfl
  | some d =>
      obtain ⟨⟨l, pos⟩, rfl, rfl⟩ := List.map_eq_singleton_iff.1 hd
      rfl

theorem skipLifetime_append {automatic : Bool} {lifes rest : List Token}
    (hl : lifes.map Token.lexeme = if automatic then [.lifetime .automatic] else [])
    (hr : ∀ l, (rest.map Token.lexeme).head? ≠ some (.lifetime l)) :
    skipLifetime (lifes ++ rest) = .ok rest := by
  cases automatic with
  | false =>
      obtain rfl : lifes = [] := by simpa using hl
      cases rest with
      | nil => rfl
      | cons t rest =>
          obtain ⟨l, pos⟩ := t
          cases l with
          | lifetime l => exact absurd rfl (hr l)
          | _ => rfl
  | true =>
      obtain ⟨⟨l, pos⟩, rfl, rfl⟩ := List.map_eq_singleton_iff.1 hl
      rfl

theorem exists_words_of_takeDirection (ts : List Token) :
    ∃ (dir : Option Direction) (dirs : List Token), ts = dirs ++ (takeDirection ts).2 ∧
      dirs.map Token.lexeme = (dir.map Lexeme.direction).toList := by
  unfold takeDirection
  split
  next d pos ts => exact ⟨some d, [⟨.direction d, pos⟩], rfl, rfl⟩
  next => exact ⟨none, [], rfl, rfl⟩

theorem exists_words_of_skipLifetime {ts rest : List Token} (h : skipLifetime ts = .ok rest) :
    ∃ (automatic : Bool) (lifes : List Token), ts = lifes ++ rest ∧
      lifes.map Token.lexeme = if automatic then [.lifetime .automatic] else [] := by
  unfold skipLifetime at h
  split at h
  next pos ts =>
    obtain rfl := Except.ok.inj h
    exact ⟨true, [⟨.lifetime .automatic, pos⟩], rfl, rfl⟩
  next => cases h
  next =>
    obtain rfl := Except.ok.inj h
    exact ⟨false, [], rfl, rfl⟩

/-! ### The words for a type -/

theorem Token.beforeComma_append {seg tail : List Token} (hs : CommaFree seg)
    (ht : EndsSegment tail) : beforeComma (seg ++ tail) = seg := by
  have hpos : ∀ t ∈ seg, (!t.isSeparator) = true := by
    intro t h
    rw [hs t h]
    rfl
  rw [beforeComma, List.takeWhile_append_of_pos hpos]
  rcases ht.eq_nil_or_comma with rfl | ⟨pos, rest, rfl⟩
  · rw [List.takeWhile_nil, List.append_nil]
  · rw [List.takeWhile_cons_of_neg (by simp), List.append_nil]

namespace TypeHead

/-- Whether a name in front is a type depends on the rest of its segment only. -/
theorem namesType_append {seg tail : List Token} (hs : CommaFree seg) (ht : EndsSegment tail) :
    namesType (seg ++ tail) = (seg.map Token.lexeme).any Lexeme.isName := by
  rw [namesType, beforeComma_append hs ht, List.any_map]
  rfl

/-- A name that no member access follows is a type or stays in place. -/
theorem take_ident {name : String} {pos : Position} {rest : List Token}
    (h : ∀ m, (rest.map Token.lexeme).head? ≠ some (.member m)) :
    take (⟨.ident name, pos⟩ :: rest) =
      if namesType rest then (⟨.typedef name, .unspecified⟩, rest)
      else (⟨.implicit, .unspecified⟩, ⟨.ident name, pos⟩ :: rest) := by
  cases rest with
  | nil => rfl
  | cons t rest =>
      obtain ⟨l, pos'⟩ := t
      cases l with
      | member m => exact absurd rfl (h m)
      | _ => rfl

theorem take_typeBase {base : TypeBase} {pos : Position} {rest : List Token}
    (h : ∀ s, (rest.map Token.lexeme).head? ≠ some (.signing s)) :
    take (⟨.typeBase base, pos⟩ :: rest) = (⟨base, .unspecified⟩, rest) := by
  cases rest with
  | nil => rfl
  | cons t rest =>
      obtain ⟨l, pos'⟩ := t
      cases l with
      | signing s => exact absurd rfl (h s)
      | _ => rfl

end TypeHead

/-- Behind a name no other name and no member access follows in its segment. -/
theorem NameWords.isName_of_mem_rear {n : NameWords} {l : Lexeme} (h : l ∈ n.rear) :
    l.isName = false ∧ ∀ m, l ≠ .member m := by
  rcases List.mem_append.1 h with h | h
  · obtain ⟨d, -, rfl⟩ := List.mem_map.1 h
    cases d <;> simp [Dimension.lexeme, Lexeme.isName]
  · obtain ⟨a, -, rfl⟩ : ∃ a, n.init = some a ∧ .assign a = l := by simpa using h
    simp [Lexeme.isName]

section Body

variable {packed : List Dimension} {n : NameWords} {packs ns tail : List Token}

theorem head_body (hp : packs.map Token.lexeme = packed.map Dimension.lexeme)
    (hn : ns.map Token.lexeme = n.lexemes) {l : Lexeme}
    (hl : ((packs ++ (ns ++ tail)).map Token.lexeme).head? = some l) :
    Dimension.isDimension l = true ∨ l.isName = true := by
  rw [List.map_append, List.map_append, hp, hn] at hl
  cases packed with
  | nil =>
      obtain rfl : .ident n.name = l := by simpa [NameWords.lexemes] using hl
      exact Or.inr rfl
  | cons d packed =>
      obtain rfl : d.lexeme = l := by simpa using hl
      exact Or.inl d.isDimension_lexeme

theorem commaFree_body (hp : packs.map Token.lexeme = packed.map Dimension.lexeme)
    (hn : ns.map Token.lexeme = n.lexemes) : CommaFree (packs ++ ns) := by
  refine commaFree_of_isDeclWord fun l hl => ?_
  rw [List.map_append, hp, hn] at hl
  rcases List.mem_append.1 hl with hl | hl
  · exact Lexeme.isDeclWord_of_isHeadWord (Dimension.isHeadWord_of_mem_map hl)
  · exact NameWords.isDeclWord_of_mem_lexemes hl

/-- In front of packed dimensions and a name, a name is a type. -/
theorem TypeHead.namesType_body (hp : packs.map Token.lexeme = packed.map Dimension.lexeme)
    (hn : ns.map Token.lexeme = n.lexemes) (ht : EndsSegment tail) :
    namesType (packs ++ (ns ++ tail)) = true := by
  rw [← List.append_assoc, namesType_append (commaFree_body hp hn) ht, List.map_append, hn,
    List.any_append, NameWords.lexemes, List.any_cons]
  simp [Lexeme.isName]

/-- In front of what belongs to a name, the name is no type. -/
theorem TypeHead.namesType_rear {rears : List Token} (hr : rears.map Token.lexeme = n.rear)
    (ht : EndsSegment tail) : namesType (rears ++ tail) = false := by
  have hfree : CommaFree rears := by
    refine commaFree_of_isDeclWord fun l hl => ?_
    rw [hr] at hl
    exact NameWords.isDeclWord_of_mem_lexemes (List.mem_cons_of_mem _ hl)
  rw [namesType_append hfree ht, hr, List.any_eq_false]
  intro l hl
  rw [(NameWords.isName_of_mem_rear hl).1]
  exact Bool.false_ne_true

theorem head_rear_ne_member {rears : List Token} (hr : rears.map Token.lexeme = n.rear)
    (ht : EndsSegment tail) (m : String) :
    ((rears ++ tail).map Token.lexeme).head? ≠ some (.member m) := by
  intro h
  rw [List.map_append, hr] at h
  cases hrear : n.rear with
  | nil =>
      rw [hrear] at h
      rcases ht.eq_nil_or_comma with rfl | ⟨pos, rest, rfl⟩
      · cases h
      · cases h
  | cons l ls =>
      obtain rfl : l = .member m := by simpa [hrear] using h
      exact (NameWords.isName_of_mem_rear (hrear ▸ List.mem_cons_self ..)).2 m rfl

/-- **The words for a type are read as the type that they stand for.** -/
theorem TypeHead.take_append {w : TypeWords} {types : List Token}
    (hw : types.map Token.lexeme = w.lexemes)
    (hp : packs.map Token.lexeme = packed.map Dimension.lexeme)
    (hn : ns.map Token.lexeme = n.lexemes) (ht : EndsSegment tail) :
    take (types ++ (packs ++ (ns ++ tail))) = (w.head, packs ++ (ns ++ tail)) := by
  have hbody : ∀ l, ((packs ++ (ns ++ tail)).map Token.lexeme).head? = some l →
      Dimension.isDimension l = true ∨ l.isName = true := fun l hl => head_body hp hn hl
  cases w with
  | interface name modport =>
      obtain ⟨⟨l, pos⟩, us, rfl, rfl, hus⟩ := List.map_eq_cons_iff.1 hw
      obtain ⟨⟨l, pos'⟩, rfl, rfl⟩ := List.map_eq_singleton_iff.1 hus
      rfl
  | typedef name =>
      obtain ⟨⟨l, pos⟩, rfl, rfl⟩ := List.map_eq_singleton_iff.1 hw
      have hmember : ∀ m, ((packs ++ (ns ++ tail)).map Token.lexeme).head? ≠ some (.member m) := by
        intro m h
        rcases hbody _ h with h | h
        · cases h
        · cases h
      rw [List.singleton_append, take_ident hmember, namesType_body hp hn ht, if_pos rfl]
      rfl
  | scopedTypedef scope name =>
      obtain ⟨⟨l, pos⟩, rfl, rfl⟩ := List.map_eq_singleton_iff.1 hw
      rw [List.singleton_append, take, namesType_body hp hn ht, if_pos rfl]
      rfl
  | base b s hs =>
      obtain ⟨⟨l, pos⟩, us, rfl, rfl, hus⟩ := List.map_eq_cons_iff.1 hw
      cases s with
      | none =>
          obtain rfl : us = [] := by simpa using hus
          have hsigning : ∀ s, ((packs ++ (ns ++ tail)).map Token.lexeme).head? ≠
              some (.signing s) := by
            intro s h
            rcases hbody _ h with h | h
            · cases h
            · cases h
          rw [List.singleton_append, take_typeBase hsigning]
          rfl
      | some s =>
          obtain ⟨⟨l, pos'⟩, rfl, rfl⟩ := List.map_eq_singleton_iff.1 hus
          rfl
  | signing s =>
      obtain ⟨⟨l, pos⟩, rfl, rfl⟩ := List.map_eq_singleton_iff.1 hw
      rfl
  | absent =>
      obtain rfl : types = [] := by simpa [TypeWords.lexemes] using hw
      cases packed with
      | nil =>
          -- the declared name itself stands in front, and no other name follows it
          obtain rfl : packs = [] := by simpa using hp
          obtain ⟨⟨l, pos⟩, rears, rfl, rfl, hr⟩ := List.map_eq_cons_iff.1 hn
          simp only [List.nil_append, List.cons_append]
          rw [take_ident (head_rear_ne_member hr ht), namesType_rear hr ht]
          rfl
      | cons d packed =>
          obtain ⟨⟨l, pos⟩, us, rfl, rfl, -⟩ := List.map_eq_cons_iff.1 hp
          cases d <;> rfl

/-- The words for a type and its packed dimensions are read as the type that they stand for. -/
theorem DeclGroup.takeDataType_append {w : TypeWords} {types : List Token}
    (hw : types.map Token.lexeme = w.lexemes)
    (hp : packs.map Token.lexeme = packed.map Dimension.lexeme)
    (hn : ns.map Token.lexeme = n.lexemes) (ht : EndsSegment tail) :
    takeDataType (types ++ (packs ++ (ns ++ tail))) =
      .ok (⟨w.head.base, w.head.signing, packed.filterMap Dimension.bounds?, w.fits⟩,
        ns ++ tail) := by
  have hstop := n.isDimension_head hn tail
  have himplied : Dimension.implied? (ns ++ tail) = none := by
    obtain ⟨pos, ds, is, rfl, -, -⟩ := n.exists_tokens hn
    rfl
  have hranges := Dimension.ranges_append hp hstop
  rw [himplied, Dimension.rangesWith_none] at hranges
  simp only [takeDataType, TypeHead.take_append hw hp hn ht, Dimension.after_append hp hstop,
    hranges, TypeBase.resolve_of_fits w.fits]

end Body

/-- What is taken as base type and signing spells the words for a type, if the signing fits. -/
theorem TypeHead.exists_words_of_take (ts : List Token)
    (hf : (take ts).1.base.Fits (take ts).1.signing) :
    ∃ (w : TypeWords) (types : List Token), ts = types ++ (take ts).2 ∧
      types.map Token.lexeme = w.lexemes := by
  revert hf
  fun_cases take ts with
  | case1 name pos modport pos' ts =>
      intro _
      exact ⟨.interface name modport, [⟨.ident name, pos⟩, ⟨.member modport, pos'⟩], rfl, rfl⟩
  | case2 name pos ts =>
      intro _
      exact ⟨.typedef name, [⟨.ident name, pos⟩], rfl, rfl⟩
  | case3 name pos ts =>
      intro _
      exact ⟨.absent, [], rfl, rfl⟩
  | case4 scope name pos ts =>
      intro _
      exact ⟨.scopedTypedef scope name, [⟨.scopedIdent scope name, pos⟩], rfl, rfl⟩
  | case5 scope name pos ts =>
      intro _
      exact ⟨.absent, [], rfl, rfl⟩
  | case6 base pos s pos' ts =>
      intro hf
      exact ⟨.base base (some s) hf, [⟨.typeBase base, pos⟩, ⟨.signing s, pos'⟩], rfl, rfl⟩
  | case7 base pos ts =>
      intro hf
      exact ⟨.base base none hf, [⟨.typeBase base, pos⟩], rfl, rfl⟩
  | case8 s pos ts =>
      intro _
      exact ⟨.signing s, [⟨.signing s, pos⟩], rfl, rfl⟩
  | case9 =>
      intro _
      exact ⟨.absent, [], rfl, rfl⟩

/-! ### The words in front of the names of a group -/

theorem HeadWords.exists_tokens {h : HeadWords} {hs : List Token}
    (hh : hs.map Token.lexeme = h.lexemes) :
    ∃ dirs lifes types packs, hs = dirs ++ (lifes ++ (types ++ packs)) ∧
      dirs.map Token.lexeme = (h.dir.map Lexeme.direction).toList ∧
      (lifes.map Token.lexeme = if h.automatic then [.lifetime .automatic] else []) ∧
      types.map Token.lexeme = h.type.lexemes ∧
      packs.map Token.lexeme = h.packed.map Dimension.lexeme := by
  obtain ⟨dirs, us, rfl, hd, hus⟩ := List.map_eq_append_iff.1 hh
  obtain ⟨lifes, us, rfl, hl, hus⟩ := List.map_eq_append_iff.1 hus
  obtain ⟨types, packs, rfl, hw, hp⟩ := List.map_eq_append_iff.1 hus
  exact ⟨dirs, lifes, types, packs, rfl, hd, hl, hw, hp⟩

/-- Where the words for a type may stand, neither a direction nor a lifetime follows. -/
theorem TypeWords.head_lexemes {w : TypeWords} {packed : List Dimension} {n : NameWords}
    {more : List Lexeme} {l : Lexeme}
    (hl : (w.lexemes ++ (packed.map Dimension.lexeme ++ (n.lexemes ++ more))).head? = some l) :
    (∀ d, l ≠ .direction d) ∧ ∀ t, l ≠ .lifetime t := by
  cases w with
  | absent =>
      cases packed with
      | nil =>
          obtain rfl : .ident n.name = l := by
            simpa [TypeWords.lexemes, NameWords.lexemes] using hl
          simp
      | cons d packed =>
          obtain rfl : d.lexeme = l := by simpa [TypeWords.lexemes] using hl
          cases d <;> simp [Dimension.lexeme]
  | _ =>
      obtain rfl := Option.some.inj hl
      simp

section Head

variable {h : HeadWords} {n : NameWords} {dirs lifes types packs ns : List Token}

theorem HeadWords.takeDirection_eq (tail : List Token)
    (hd : dirs.map Token.lexeme = (h.dir.map Lexeme.direction).toList)
    (hl : lifes.map Token.lexeme = if h.automatic then [.lifetime .automatic] else [])
    (hw : types.map Token.lexeme = h.type.lexemes)
    (hp : packs.map Token.lexeme = h.packed.map Dimension.lexeme)
    (hn : ns.map Token.lexeme = n.lexemes) :
    takeDirection (dirs ++ (lifes ++ (types ++ (packs ++ (ns ++ tail))))) =
      (h.direction, lifes ++ (types ++ (packs ++ (ns ++ tail)))) := by
  refine takeDirection_append hd fun d hhead => ?_
  simp only [List.map_append, hl, hw, hp, hn] at hhead
  cases hauto : h.automatic with
  | false =>
      simp only [hauto, Bool.false_eq_true, if_false, List.nil_append] at hhead
      exact (TypeWords.head_lexemes hhead).1 d rfl
  | true => simp [hauto] at hhead

theorem HeadWords.skipLifetime_eq (tail : List Token)
    (hl : lifes.map Token.lexeme = if h.automatic then [.lifetime .automatic] else [])
    (hw : types.map Token.lexeme = h.type.lexemes)
    (hp : packs.map Token.lexeme = h.packed.map Dimension.lexeme)
    (hn : ns.map Token.lexeme = n.lexemes) :
    skipLifetime (lifes ++ (types ++ (packs ++ (ns ++ tail)))) =
      .ok (types ++ (packs ++ (ns ++ tail))) := by
  refine skipLifetime_append hl fun l hhead => ?_
  simp only [List.map_append, hw, hp, hn] at hhead
  exact (TypeWords.head_lexemes hhead).2 l rfl

end Head

namespace DeclGroup

/-- A group is read word by word; the names are left to the reader of declarators. -/
theorem take_of_read {first : Token} {ts us vs ws : List Token} {dir : Direction} {type : DataType}
    (hd : takeDirection (first :: ts) = (dir, us)) (hl : skipLifetime us = .ok vs)
    (ht : takeDataType vs = .ok (type, ws)) :
    take (first :: ts) = (Declarator.takeList ws).map
      fun r => (⟨first.pos, dir, type, r.1⟩, r.2) := by
  simp only [take, hd, hl, ht, bind, Except.bind]
  cases Declarator.takeList ws with
  | error fault => rfl
  | ok r => rfl

theorem exists_read_of_take {ts rest : List Token} {g : DeclGroup} (h : take ts = .ok (g, rest)) :
    ∃ us type ws, skipLifetime (takeDirection ts).2 = .ok us ∧
      takeDataType us = .ok (type, ws) ∧ Declarator.takeList ws = .ok (g.declarators, rest) := by
  cases ts with
  | nil => cases h
  | cons first ts =>
      simp only [take, bind, Except.bind, pure, Except.pure] at h
      split at h
      · cases h
      next us hl =>
        split at h
        · cases h
        next r ht =>
          split at h
          · cases h
          next r' hr =>
            obtain ⟨rfl, rfl⟩ := Prod.mk.inj (Except.ok.inj h)
            exact ⟨us, r.1, r.2, hl, ht, hr⟩

/-- What is taken as a type spells the words for a type and packed dimensions. -/
theorem exists_words_of_takeDataType {ts rest : List Token} {type : DataType}
    (h : takeDataType ts = .ok (type, rest)) :
    ∃ (w : TypeWords) (packed : List Dimension) (types packs : List Token),
      ts = types ++ (packs ++ rest) ∧ types.map Token.lexeme = w.lexemes ∧
      packs.map Token.lexeme = packed.map Dimension.lexeme := by
  simp only [takeDataType] at h
  split at h
  next type' hres =>
    obtain ⟨-, rfl⟩ := Prod.mk.inj (Except.ok.inj h)
    -- a signing that does not fit is a fault, so what was resolved fits
    have hf : (TypeHead.take ts).1.base.Fits (TypeHead.take ts).1.signing := by
      by_contra hf
      rw [TypeBase.resolve_of_not_fits hf] at hres
      cases hres
    obtain ⟨w, types, hts, hw⟩ := TypeHead.exists_words_of_take ts hf
    obtain ⟨packs, packed, hrest, hp⟩ := Dimension.exists_dims (TypeHead.take ts).2
    refine ⟨w, packed, types, packs, ?_, hw, hp⟩
    rw [← hrest, ← hts]
  next => cases h

/-- **The words in front of the names of a group are read as the direction and the type that they
stand for.** -/
theorem take_append {h : HeadWords} {n : NameWords} {hs ns tail : List Token}
    (hh : hs.map Token.lexeme = h.lexemes) (hn : ns.map Token.lexeme = n.lexemes)
    (ht : EndsSegment tail) {pos : Position}
    (hpos : (hs ++ ns).head?.map Token.pos = some pos) :
    take (hs ++ (ns ++ tail)) = (Declarator.takeList (ns ++ tail)).map
      fun r => (⟨pos, h.direction, h.dataType, r.1⟩, r.2) := by
  obtain ⟨dirs, lifes, types, packs, rfl, hd, hl, hw, hp⟩ := h.exists_tokens hh
  have hdir := HeadWords.takeDirection_eq tail hd hl hw hp hn
  have hlife := HeadWords.skipLifetime_eq tail hl hw hp hn
  have htype := takeDataType_append hw hp hn ht
  simp only [List.append_assoc] at hpos ⊢
  cases hall : dirs ++ (lifes ++ (types ++ (packs ++ ns))) with
  | nil => simp [hall] at hpos
  | cons first rest =>
      obtain rfl : first.pos = pos := by simpa [hall] using hpos
      have hsplit : dirs ++ (lifes ++ (types ++ (packs ++ (ns ++ tail)))) =
          first :: (rest ++ tail) := by
        rw [← List.cons_append, ← hall]
        simp only [List.append_assoc]
      rw [hsplit] at hdir ⊢
      exact take_of_read hdir hlife htype

/-- What is read in front of the names of a group spells the words that open a group. -/
theorem exists_words_of_take {ts rest : List Token} {g : DeclGroup}
    (h : take ts = .ok (g, rest)) :
    ∃ (w : HeadWords) (hs us : List Token), ts = hs ++ us ∧ hs.map Token.lexeme = w.lexemes ∧
      Declarator.takeList us = .ok (g.declarators, rest) := by
  obtain ⟨us, type, ws, hskip, ht, hr⟩ := exists_read_of_take h
  obtain ⟨dir, dirs, hts, hd⟩ := exists_words_of_takeDirection ts
  obtain ⟨automatic, lifes, hus, hl⟩ := exists_words_of_skipLifetime hskip
  obtain ⟨w, packed, types, packs, rfl, hw, hp⟩ := exists_words_of_takeDataType ht
  refine ⟨⟨dir, automatic, w, packed⟩, dirs ++ (lifes ++ (types ++ packs)), ws, ?_, ?_, hr⟩
  · rw [hts, hus]
    simp only [List.append_assoc]
  · simp only [List.map_append, hd, hl, hw, hp, HeadWords.lexemes]

end DeclGroup

/-- **No declarator starts where a new group does.** -/
theorem Declarator.starts_head_append {h : HeadWords} {n : NameWords} {hs ns : List Token}
    (hh : hs.map Token.lexeme = h.lexemes) (hn : ns.map Token.lexeme = n.lexemes)
    (hne : h ≠ .empty) (tail : List Token) : starts (hs ++ (ns ++ tail)) = false := by
  obtain ⟨dirs, lifes, types, packs, rfl, hd, hl, hw, hp⟩ := h.exists_tokens hh
  have hafter := Dimension.after_append hp (n.isDimension_head hn tail)
  obtain ⟨dir, automatic, type, packed⟩ := h
  -- the first token is a name only if it is a type, and then no comma stands behind its dimensions
  cases dir with
  | some d =>
      obtain ⟨⟨l, pos⟩, rfl, rfl⟩ := List.map_eq_singleton_iff.1 hd
      rfl
  | none =>
      obtain rfl : dirs = [] := by simpa using hd
      cases automatic with
      | true =>
          obtain ⟨⟨l, pos⟩, rfl, rfl⟩ := List.map_eq_singleton_iff.1 hl
          rfl
      | false =>
          obtain rfl : lifes = [] := by simpa using hl
          cases type with
          | interface name modport =>
              obtain ⟨⟨l, pos⟩, us, rfl, rfl, hus⟩ := List.map_eq_cons_iff.1 hw
              obtain ⟨⟨l, pos'⟩, rfl, rfl⟩ := List.map_eq_singleton_iff.1 hus
              rfl
          | typedef name =>
              obtain ⟨⟨l, pos⟩, rfl, rfl⟩ := List.map_eq_singleton_iff.1 hw
              obtain ⟨⟨l, pos'⟩, rears, rfl, rfl, -⟩ := List.map_eq_cons_iff.1 hn
              simp only [List.nil_append, List.cons_append] at hafter ⊢
              simp only [starts, hafter]
              rfl
          | base b s hs =>
              obtain ⟨⟨l, pos⟩, us, rfl, rfl, -⟩ := List.map_eq_cons_iff.1 hw
              rfl
          | absent =>
              obtain rfl : types = [] := by simpa [TypeWords.lexemes] using hw
              cases packed with
              | nil => exact absurd rfl hne
              | cons d packed =>
                  obtain ⟨⟨l, pos⟩, us, rfl, rfl, -⟩ := List.map_eq_cons_iff.1 hp
                  cases d <;> rfl
          | _ =>
              obtain ⟨⟨l, pos⟩, rfl, rfl⟩ := List.map_eq_singleton_iff.1 hw
              rfl

/-! ### A list of tokens is cut into words in only one way -/

theorem eq_of_toList_map_eq {α : Type} {f : α → Lexeme} (hf : Function.Injective f)
    {o o' : Option α} (h : (o.map f).toList = (o'.map f).toList) : o = o' := by
  cases o <;> cases o' <;> simp_all [hf.eq_iff]

/-- Words in front of a name end where the readers say. -/
theorem HeadWords.eq_of_append_eq {h h' : HeadWords} {n n' : NameWords} {hs hs' ns ns' : List Token}
    (hh : hs.map Token.lexeme = h.lexemes) (hn : ns.map Token.lexeme = n.lexemes)
    (hh' : hs'.map Token.lexeme = h'.lexemes) (hn' : ns'.map Token.lexeme = n'.lexemes)
    (he : hs ++ ns = hs' ++ ns') : h = h' ∧ ns = ns' := by
  obtain ⟨dirs, lifes, types, packs, rfl, hd, hl, hw, hp⟩ := h.exists_tokens hh
  obtain ⟨dirs', lifes', types', packs', rfl, hd', hl', hw', hp'⟩ := h'.exists_tokens hh'
  simp only [List.append_assoc] at he
  -- each reader leaves the same tokens, so the words that it took are the same
  have hdirs := HeadWords.takeDirection_eq [] hd hl hw hp hn
  have hdirs' := HeadWords.takeDirection_eq [] hd' hl' hw' hp' hn'
  have hlifes := HeadWords.skipLifetime_eq [] hl hw hp hn
  have hlifes' := HeadWords.skipLifetime_eq [] hl' hw' hp' hn'
  have htypes := TypeHead.take_append hw hp hn endsSegment_nil
  have htypes' := TypeHead.take_append hw' hp' hn' endsSegment_nil
  have hpacks := Dimension.after_append hp (n.isDimension_head hn [])
  have hpacks' := Dimension.after_append hp' (n'.isDimension_head hn' [])
  simp only [List.append_nil] at hdirs hdirs' hlifes hlifes' htypes htypes' hpacks hpacks'
  have hrest₁ := (Prod.mk.inj (hdirs.symm.trans ((congrArg takeDirection he).trans hdirs'))).2
  have hrest₂ := Except.ok.inj (hlifes.symm.trans ((congrArg skipLifetime hrest₁).trans hlifes'))
  have hrest₃ := (Prod.mk.inj (htypes.symm.trans ((congrArg TypeHead.take hrest₂).trans htypes'))).2
  have hrest₄ := hpacks.symm.trans ((congrArg Dimension.after hrest₃).trans hpacks')
  have hdirs_eq : dirs = dirs' := List.append_inj_left' he (congrArg _ hrest₁)
  have hlifes_eq : lifes = lifes' := List.append_inj_left' hrest₁ (congrArg _ hrest₂)
  have htypes_eq : types = types' := List.append_inj_left' hrest₂ (congrArg _ hrest₃)
  have hpacks_eq : packs = packs' := List.append_inj_left' hrest₃ (congrArg _ hrest₄)
  refine ⟨?_, hrest₄⟩
  obtain ⟨dir, automatic, type, packed⟩ := h
  obtain ⟨dir', automatic', type', packed'⟩ := h'
  obtain rfl : dir = dir' := by
    rw [← hdirs_eq, hd] at hd'
    exact eq_of_toList_map_eq (fun _ _ => Lexeme.direction.inj) hd'
  obtain rfl : automatic = automatic' := by
    rw [← hlifes_eq, hl] at hl'
    cases automatic <;> cases automatic' <;> simp_all
  obtain rfl : type = type' := TypeWords.lexemes_injective (by rw [← hw, ← hw', htypes_eq])
  obtain rfl : packed = packed' :=
    List.map_injective_iff.2 Dimension.lexeme_injective (by rw [← hp, ← hp', hpacks_eq])
  rfl

theorem NameWords.eq_of_lexemes {n n' : NameWords} {ns : List Token}
    (hn : ns.map Token.lexeme = n.lexemes) (hn' : ns.map Token.lexeme = n'.lexemes) : n = n' := by
  obtain ⟨pos, ds, is, rfl, hd, hi⟩ := n.exists_tokens hn
  obtain ⟨pos', ds', is', he, hd', hi'⟩ := n'.exists_tokens hn'
  have hname : n.name = n'.name := Lexeme.ident.inj (Token.mk.inj (List.cons.inj he).1).1
  have hrear : ds ++ is = ds' ++ is' := (List.cons.inj he).2
  have hdims := Dimension.after_append hd (isDimension_head_init hi endsSegment_nil)
  have hdims' := Dimension.after_append hd' (isDimension_head_init hi' endsSegment_nil)
  simp only [List.append_nil] at hdims hdims'
  have his_eq := hdims.symm.trans ((congrArg Dimension.after hrear).trans hdims')
  have hds_eq : ds = ds' := List.append_inj_left' hrear (congrArg _ his_eq)
  obtain ⟨name, dims, init⟩ := n
  obtain ⟨name', dims', init'⟩ := n'
  obtain rfl : name = name' := hname
  obtain rfl : dims = dims' :=
    List.map_injective_iff.2 Dimension.lexeme_injective (by rw [← hd, ← hd', hds_eq])
  obtain rfl : init = init' := by
    rw [← his_eq, hi] at hi'
    exact eq_of_toList_map_eq (fun _ _ => Lexeme.assign.inj) hi'
  rfl

/-- **A list of tokens spells at most one segment.** -/
theorem Segment.SpelledBy.unique {s s' : Segment} {ts : List Token} (h : s.SpelledBy ts)
    (h' : s'.SpelledBy ts) : s = s' := by
  obtain ⟨hs, ns, rfl, hh, hn⟩ := List.map_eq_append_iff.1 h.lexemes
  obtain ⟨hs', ns', he, hh', hn'⟩ := List.map_eq_append_iff.1 h'.lexemes
  obtain ⟨hhead, rfl⟩ := HeadWords.eq_of_append_eq hh hn hh' hn' he
  have hname := NameWords.eq_of_lexemes hn hn'
  have hpos : s.pos = s'.pos := Option.some.inj (h.pos.symm.trans h'.pos)
  obtain ⟨pos, head, name⟩ := s
  obtain ⟨pos', head', name'⟩ := s'
  obtain rfl : pos = pos' := hpos
  obtain rfl : head = head' := hhead
  obtain rfl : name = name' := hname
  rfl

end VerilogDecl
