/-
**The grammar of a segment.**

Between two commas of a list of declarations stands one declared name, with or without the words
that open a group in front of it: direction, lifetime, type and packed dimensions.  This module
writes that grammar down as data.  A segment is a value, and `Segment.lexemes` spells it; a list of
tokens is well-formed if its lexemes spell a segment.  Nothing here reads tokens.

Main definitions:

* `VerilogDecl.Dimension` — a dimension with bounds or without, and
  `VerilogDecl.Dimension.rangesWith`, the ranges that a run of them stands for;
* `VerilogDecl.TypeWords`, `VerilogDecl.HeadWords`, `VerilogDecl.NameWords` — the words for a type,
  the words in front of a name, and a name with what belongs to it;
* `VerilogDecl.Segment`, `VerilogDecl.Segment.SpelledBy` — segments, and the tokens that spell them;
* `VerilogDecl.Segment.IsName` — a segment that is only a name, without words in front.

Main results:

* `VerilogDecl.TypeWords.fits` — the words for a type never misuse a signing;
* `VerilogDecl.Segment.isDeclWord_of_mem_lexemes`, `VerilogDecl.Segment.exists_cons_lexemes` — the
  words that a segment holds, and the words that it starts with.
-/

import VerilogDecl.DeclGroup
import VerilogDecl.Proofs.CommaJoin

set_option relaxedAutoImplicit false
set_option autoImplicit false

namespace VerilogDecl

/-- Can this lexeme stand in front of a declared name? -/
def Lexeme.isHeadWord : Lexeme → Bool
  | direction _ | lifetime .automatic | ident _ | member _ | scopedIdent .. | typeBase _ | signing _
  | range .nonIndexed _ | unsized => true
  | _ => false

/-- Can this lexeme stand in a segment? -/
def Lexeme.isDeclWord : Lexeme → Bool
  | assign _ => true
  | l => l.isHeadWord

theorem Lexeme.isDeclWord_of_isHeadWord {l : Lexeme} (h : l.isHeadWord = true) :
    l.isDeclWord = true := by
  cases l with
  | assign a => rfl
  | _ => exact h

theorem Token.commaFree_of_isDeclWord {ts : List Token}
    (h : ∀ l ∈ ts.map Token.lexeme, l.isDeclWord = true) : CommaFree ts := by
  refine commaFree_of_lexemes fun l hl => ?_
  have hword := h l hl
  cases l with
  | comma => cases hword
  | _ => rfl

/-! ### Dimensions -/

/-- A dimension of a declaration. -/
inductive Dimension where
  | bounded (range : Range)
  /-- Brackets without bounds. -/
  | unsized

namespace Dimension

/-- The lexeme of a dimension. -/
def lexeme : Dimension → Lexeme
  | bounded r => .range .nonIndexed r
  | unsized => .unsized

/-- The bounds that a dimension gives by itself. -/
def bounds? : Dimension → Option Range
  | bounded r => some r
  | unsized => none

/-- The ranges of a run of dimensions, where `implied` are the bounds that an initializer behind
the run gives to an unsized dimension.  They count only if the last dimension is unsized. -/
def rangesWith (implied : Option Range) (ds : List Dimension) : List Range :=
  ds.filterMap bounds? ++
    match ds.getLast? with
    | some unsized => implied.toList
    | _ => []

@[simp] theorem isDimension_lexeme (d : Dimension) : isDimension d.lexeme = true := by
  cases d <;> rfl

theorem exists_lexeme_eq {l : Lexeme} (h : isDimension l = true) :
    ∃ d : Dimension, d.lexeme = l := by
  unfold isDimension at h
  split at h
  next r => exact ⟨bounded r, rfl⟩
  next => exact ⟨unsized, rfl⟩
  next => cases h

theorem isHeadWord_of_mem_map {ds : List Dimension} {l : Lexeme} (h : l ∈ ds.map lexeme) :
    l.isHeadWord = true := by
  obtain ⟨d, -, rfl⟩ := List.mem_map.1 h
  cases d <;> rfl

theorem lexeme_injective : Function.Injective lexeme := by
  intro d d' h
  cases d <;> cases d' <;> simp_all [lexeme]

@[simp] theorem rangesWith_nil (implied : Option Range) : rangesWith implied [] = [] := rfl

/-- Without bounds from an initializer only the dimensions with bounds count. -/
@[simp] theorem rangesWith_none (ds : List Dimension) :
    rangesWith none ds = ds.filterMap bounds? := by
  unfold rangesWith
  split <;> simp

theorem rangesWith_bounded_cons (implied : Option Range) (r : Range) (ds : List Dimension) :
    rangesWith implied (bounded r :: ds) = r :: rangesWith implied ds := by
  cases ds with
  | nil => rfl
  | cons d ds => simp [rangesWith, bounds?]

@[simp] theorem rangesWith_unsized (implied : Option Range) :
    rangesWith implied [unsized] = implied.toList := rfl

theorem rangesWith_unsized_cons_cons (implied : Option Range) (d : Dimension)
    (ds : List Dimension) :
    rangesWith implied (unsized :: d :: ds) = rangesWith implied (d :: ds) := by
  rw [rangesWith, rangesWith, List.filterMap_cons_none rfl, List.getLast?_cons_cons]

end Dimension

/-! ### The words for a type -/

/-- The words for a type, up to its packed dimensions. -/
inductive TypeWords where
  | interface (name modport : String)
  | typedef (name : String)
  | scopedTypedef (scope name : String)
  /-- A base type with a signing behind it or without. -/
  | base (base : TypeBase) (signing : Option Signing)
      (fits : base.Fits (signing.getD .unspecified))
  /-- A signing without a base type. -/
  | signing (signing : Signing)
  /-- No words at all. -/
  | absent

namespace TypeWords

/-- The lexemes of the words for a type. -/
def lexemes : TypeWords → List Lexeme
  | interface name modport => [.ident name, .member modport]
  | typedef name => [.ident name]
  | scopedTypedef scope name => [.scopedIdent scope name]
  | base b s _ => .typeBase b :: (s.map .signing).toList
  | signing s => [.signing s]
  | absent => []

/-- The base type and the signing that the words stand for. -/
def head : TypeWords → TypeHead
  | interface name modport => ⟨.interface name modport, .unspecified⟩
  | typedef name => ⟨.typedef name, .unspecified⟩
  | scopedTypedef scope name => ⟨.scopedTypedef scope name, .unspecified⟩
  | base b s _ => ⟨b, s.getD .unspecified⟩
  | signing s => ⟨.implicit, s⟩
  | absent => ⟨.implicit, .unspecified⟩

/-- The words for a type never put a signing on a base type that cannot carry it. -/
theorem fits : ∀ w : TypeWords, w.head.base.Fits w.head.signing
  | interface .. => TypeBase.fits_unspecified _
  | typedef _ => TypeBase.fits_unspecified _
  | scopedTypedef .. => TypeBase.fits_unspecified _
  | base _ _ h => h
  | signing _ => fun _ => rfl
  | absent => TypeBase.fits_unspecified _

theorem isHeadWord_of_mem_lexemes {w : TypeWords} {l : Lexeme} (h : l ∈ w.lexemes) :
    l.isHeadWord = true := by
  cases w with
  | interface name modport =>
      rcases List.mem_pair.1 h with rfl | rfl
      · rfl
      · rfl
  | base b s hs =>
      rcases List.mem_cons.1 h with rfl | h
      · rfl
      · obtain ⟨s', -, rfl⟩ : ∃ s', s = some s' ∧ .signing s' = l := by simpa using h
        rfl
  | absent => cases h
  | _ =>
      rw [List.mem_singleton.1 h]
      rfl

theorem lexemes_injective : Function.Injective lexemes := by
  intro w w' h
  cases w with
  | base b s hs =>
      cases w' with
      | base b' s' hs' => cases s <;> cases s' <;> simp_all [lexemes]
      | _ => simp [lexemes] at h
  | _ => cases w' <;> simp_all [lexemes]

end TypeWords

/-! ### The words of a segment -/

/-- The words in front of a name. -/
structure HeadWords where
  /-- The direction, if there is one. -/
  dir : Option Direction
  /-- Is there an automatic lifetime? -/
  automatic : Bool
  /-- The words for the type. -/
  type : TypeWords
  /-- The packed dimensions. -/
  packed : List Dimension

namespace HeadWords

/-- The lexemes of the words in front of a name. -/
def lexemes (h : HeadWords) : List Lexeme :=
  (h.dir.map .direction).toList ++ ((if h.automatic then [.lifetime .automatic] else []) ++
    (h.type.lexemes ++ h.packed.map Dimension.lexeme))

/-- No words in front of a name. -/
def empty : HeadWords :=
  ⟨none, false, .absent, []⟩

/-- The direction that the words stand for. -/
def direction (h : HeadWords) : Direction :=
  h.dir.getD .unspecified

/-- The type that the words stand for.  An unsized packed dimension adds nothing, because no
initializer can stand behind it. -/
def dataType (h : HeadWords) : DataType :=
  ⟨h.type.head.base, h.type.head.signing, h.packed.filterMap Dimension.bounds?, h.type.fits⟩

@[simp] theorem lexemes_empty : empty.lexemes = [] := rfl

theorem isHeadWord_of_mem_lexemes {h : HeadWords} {l : Lexeme} (hl : l ∈ h.lexemes) :
    l.isHeadWord = true := by
  rcases List.mem_append.1 hl with hl | hl
  · obtain ⟨d, -, rfl⟩ : ∃ d, h.dir = some d ∧ .direction d = l := by simpa using hl
    rfl
  rcases List.mem_append.1 hl with hl | hl
  · obtain ⟨-, rfl⟩ : h.automatic = true ∧ l = .lifetime .automatic := by simpa using hl
    rfl
  rcases List.mem_append.1 hl with hl | hl
  · exact TypeWords.isHeadWord_of_mem_lexemes hl
  · exact Dimension.isHeadWord_of_mem_map hl

theorem commaFree {h : HeadWords} {hs : List Token} (hh : hs.map Token.lexeme = h.lexemes) :
    Token.CommaFree hs := by
  refine Token.commaFree_of_isDeclWord fun l hl => ?_
  rw [hh] at hl
  exact Lexeme.isDeclWord_of_isHeadWord (isHeadWord_of_mem_lexemes hl)

/-- Only the empty words are spelled by nothing. -/
theorem lexemes_eq_nil_iff {h : HeadWords} : h.lexemes = [] ↔ h = empty := by
  constructor
  · intro he
    obtain ⟨dir, automatic, type, packed⟩ := h
    cases dir <;> cases automatic <;> cases type <;> cases packed <;>
      simp_all [lexemes, empty, TypeWords.lexemes]
  · intro he
    rw [he, lexemes_empty]

end HeadWords

/-- A name with its unpacked dimensions and its initializer. -/
structure NameWords where
  /-- The name. -/
  name : String
  /-- The unpacked dimensions. -/
  dims : List Dimension
  /-- The initializer, if there is one. -/
  init : Option Assign

namespace NameWords

/-- The lexemes behind a name. -/
def rear (n : NameWords) : List Lexeme :=
  n.dims.map Dimension.lexeme ++ (n.init.map .assign).toList

/-- The lexemes of a name with what belongs to it. -/
def lexemes (n : NameWords) : List Lexeme :=
  .ident n.name :: n.rear

/-- The declarator that a name stands for. -/
def declarator (n : NameWords) : Declarator :=
  ⟨n.name, Dimension.rangesWith (n.init.bind Dimension.ofInit?) n.dims, n.init.map (·.expr)⟩

theorem isDeclWord_of_mem_lexemes {n : NameWords} {l : Lexeme} (h : l ∈ n.lexemes) :
    l.isDeclWord = true := by
  rcases List.mem_cons.1 h with rfl | h
  · rfl
  rcases List.mem_append.1 h with h | h
  · exact Lexeme.isDeclWord_of_isHeadWord (Dimension.isHeadWord_of_mem_map h)
  · obtain ⟨a, -, rfl⟩ : ∃ a, n.init = some a ∧ .assign a = l := by simpa using h
    rfl

/-- The tokens of a name hold no comma. -/
theorem commaFree {n : NameWords} {ns : List Token} (hn : ns.map Token.lexeme = n.lexemes) :
    Token.CommaFree ns := by
  refine Token.commaFree_of_isDeclWord fun l hl => ?_
  rw [hn] at hl
  exact isDeclWord_of_mem_lexemes hl

end NameWords

/-! ### Segments -/

/-- A declared name with the words in front of it. -/
structure Segment where
  /-- The place of the first token. -/
  pos : Position
  /-- The words in front of the name. -/
  head : HeadWords
  /-- The name with what belongs to it. -/
  name : NameWords

namespace Segment

/-- The lexemes of a segment. -/
def lexemes (s : Segment) : List Lexeme :=
  s.head.lexemes ++ s.name.lexemes

/-- A segment without words in front of its name. -/
def IsName (s : Segment) : Prop :=
  s.head = .empty

/-- The tokens `ts` spell the segment `s`. -/
structure SpelledBy (s : Segment) (ts : List Token) : Prop where
  /-- The lexemes are those of the segment. -/
  lexemes : ts.map Token.lexeme = s.lexemes
  /-- The segment starts where its first token stands. -/
  pos : ts.head?.map Token.pos = some s.pos

/-- Every lexeme of a segment is a word of declarations. -/
theorem isDeclWord_of_mem_lexemes {s : Segment} {l : Lexeme} (h : l ∈ s.lexemes) :
    l.isDeclWord = true := by
  rcases List.mem_append.1 h with h | h
  · exact Lexeme.isDeclWord_of_isHeadWord (HeadWords.isHeadWord_of_mem_lexemes h)
  · exact NameWords.isDeclWord_of_mem_lexemes h

/-- A segment does not start with an assignment. -/
theorem exists_cons_lexemes (s : Segment) :
    ∃ l ls, s.lexemes = l :: ls ∧ l.isHeadWord = true := by
  cases hh : s.head.lexemes with
  | nil => exact ⟨.ident s.name.name, s.name.rear, by rw [lexemes, hh]; rfl, rfl⟩
  | cons l ls =>
      refine ⟨l, ls ++ s.name.lexemes, by rw [lexemes, hh]; rfl, ?_⟩
      exact HeadWords.isHeadWord_of_mem_lexemes (h := s.head) (hh ▸ List.mem_cons_self ..)

end Segment

end VerilogDecl
