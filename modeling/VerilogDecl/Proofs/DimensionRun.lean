/-
**The run of dimensions at a place.**

Dimensions are read one after the other.  Each unsized one is given bounds or not by the token right
behind it, which may be a dimension again.  This module says what comes out in the end, in terms of
the whole run: where it stops, and which ranges it gives.  Only the last dimension of a run can be
given bounds by an initializer, because behind every other one stands a dimension.

Main definitions:

* `VerilogDecl.Expr.ListsElements` — a pattern or a concatenation, with its number of elements;
* `VerilogDecl.Place.RunEndsAt` — the place where the run of dimensions ends;
* `VerilogDecl.Place.RunSizedBy` — the run ends with an unsized dimension, in front of a plain
  initializer with a number of elements.

Main results:

* `VerilogDecl.Dimension.implied?_eq_some_iff` — what gives bounds to an unsized dimension;
* `VerilogDecl.Dimension.exists_ranges_eq` — the ranges of a run, and one more for its last
  dimension or none;
* `VerilogDecl.Place.RunEndsAt.unique` — a run ends at one place only;
* `VerilogDecl.Place.read_dimensions_iff` — **the run of dimensions is read as far as it goes, and
  only its last dimension is sized by an initializer, which stays where it is**.
-/

import Mathlib.Order.Bounds.Basic
import VerilogDecl.Proofs.PlaceProgress

set_option relaxedAutoImplicit false
set_option autoImplicit false

namespace VerilogDecl

/-! ### Initializers that list elements -/

/-- The expression is a pattern or a concatenation of `n` items. -/
inductive Expr.ListsElements : Expr → Nat → Prop
  | pattern (items : List (PatternItem Expr)) : ListsElements (.pattern items) items.length
  | concat (items : List Expr) : ListsElements (.concat items) items.length

theorem Expr.elementCount?_eq_some_iff {e : Expr} {n : Nat} :
    e.elementCount? = some n ↔ e.ListsElements n := by
  constructor
  · intro h
    unfold elementCount? at h
    split at h
    next items =>
      obtain rfl := Option.some.inj h
      exact .pattern items
    next items =>
      obtain rfl := Option.some.inj h
      exact .concat items
    next => cases h
  · rintro (items | items)
    · rfl
    · rfl

/-- The range of a dimension with bounds or of a part select. -/
def Lexeme.range? : Lexeme → Option Range
  | .range _ r => some r
  | _ => none

namespace Dimension

@[simp] theorem range?_lexeme (d : Dimension) : d.lexeme.range? = d.bounds? := by
  cases d <;> rfl

theorem isDimension_eq_false_iff {l : Lexeme} :
    isDimension l = false ↔ l ≠ .unsized ∧ ∀ r, l ≠ .range .nonIndexed r := by
  constructor
  · intro h
    refine ⟨?_, ?_⟩
    · rintro rfl
      cases h
    · rintro r rfl
      cases h
  · rintro ⟨hunsized, hrange⟩
    unfold isDimension
    split
    next r => exact absurd rfl (hrange r)
    next => exact absurd rfl hunsized
    next => rfl

/-- Only a plain initializer that lists elements gives bounds to an unsized dimension in front. -/
theorem implied?_eq_some_iff {ts : List Token} {r : Range} :
    implied? ts = some r ↔ ∃ (e : Expr) (n : Nat),
      ts.head?.map Token.lexeme = some (.assign ⟨.eq, none, e⟩) ∧ e.ListsElements n ∧
        r = .ofCount n := by
  constructor
  · intro h
    unfold implied? at h
    split at h
    next a pos ts =>
      unfold ofInit? at h
      split at h
      next hplain =>
        obtain ⟨n, hn, rfl⟩ := Option.map_eq_some_iff.1 h
        refine ⟨a.expr, n, ?_, Expr.elementCount?_eq_some_iff.1 hn, rfl⟩
        rw [Assign.isPlain_iff.1 hplain]
        rfl
      next => cases h
    next => cases h
  · rintro ⟨e, n, hhead, hn, rfl⟩
    obtain ⟨⟨l, pos⟩, ht, rfl⟩ := Option.map_eq_some_iff.1 hhead
    obtain ⟨us, rfl⟩ := List.head?_eq_some_iff.1 ht
    have hinit : implied? (⟨.assign (.plain e), pos⟩ :: us) =
        e.elementCount?.map Range.ofCount := rfl
    rw [← Assign.plain, hinit, Expr.elementCount?_eq_some_iff.2 hn, Option.map_some]

/-- The ranges of a run of dimensions are those that it spells, and one more if the last dimension
is unsized and given bounds. -/
theorem exists_rangesWith_eq (implied : Option Range) (ds : List Dimension) :
    ∃ sized : Option Range, rangesWith implied ds = ds.filterMap bounds? ++ sized.toList ∧
      ∀ r, sized = some r ↔ ds.getLast? = some unsized ∧ implied = some r := by
  unfold rangesWith
  split
  next hlast => exact ⟨implied, rfl, fun r => by simp [hlast]⟩
  next hlast =>
    refine ⟨none, rfl, fun r => ⟨fun h => ?_, fun h => absurd h.1 hlast⟩⟩
    cases h

/-- Behind the run of dimensions in front stands none. -/
theorem isDimension_head_after (ts : List Token) :
    ∀ t ∈ (after ts).head?, isDimension t.lexeme = false := by
  intro t ht
  have hhead := List.head?_dropWhile_not (fun t : Token => isDimension t.lexeme) ts
  rw [← after, Option.mem_def.1 ht] at hhead
  exact hhead

/-- **The ranges of a run of dimensions are those that stand in it, and one more if its last token
is an unsized dimension and the token behind the run gives bounds to it.** -/
theorem exists_ranges_eq {ds rest : List Token} {dims : List Dimension}
    (hd : ds.map Token.lexeme = dims.map lexeme)
    (hrest : ∀ t ∈ rest.head?, isDimension t.lexeme = false) :
    ∃ sized : Option Range,
      ranges (ds ++ rest) = ds.filterMap (·.lexeme.range?) ++ sized.toList ∧
      ∀ r, sized = some r ↔
        ds.getLast?.map Token.lexeme = some .unsized ∧ implied? rest = some r := by
  have hbounds : ds.filterMap (·.lexeme.range?) = dims.filterMap bounds? := by
    have hcomp : Lexeme.range? ∘ lexeme = bounds? := funext range?_lexeme
    calc ds.filterMap (·.lexeme.range?)
        = (ds.map Token.lexeme).filterMap Lexeme.range? := by rw [List.filterMap_map]; rfl
      _ = dims.filterMap bounds? := by rw [hd, List.filterMap_map, hcomp]
  have hlast : ds.getLast?.map Token.lexeme = some .unsized ↔ dims.getLast? = some unsized := by
    rw [← List.getLast?_map, hd, List.getLast?_map]
    exact (Option.map_injective lexeme_injective).eq_iff (b := some unsized)
  obtain ⟨sized, hsized, hiff⟩ := exists_rangesWith_eq (implied? rest) dims
  refine ⟨sized, ?_, ?_⟩
  · rw [ranges_append hd hrest, hsized, hbounds]
  · intro r
    rw [hiff, hlast]

end Dimension

/-! ### The run at a place -/

namespace Place

variable {p q q' : Place}

/-- The run of dimensions at `p` ends at `q`, the first place from `p` on where no dimension stands
next.  At the end of the list nothing stands next. -/
structure RunEndsAt (p q : Place) : Prop where
  tokens_eq : q.tokens = p.tokens
  isLeast_index : IsLeast {i | p.index ≤ i ∧ ∀ t ∈ p.tokens[i]?,
    t.lexeme ≠ .unsized ∧ ∀ r, t.lexeme ≠ .range .nonIndexed r} q.index

/-- From `p` up to `q` the last token is an unsized dimension, and next at `q` stands an initializer
by `=` without a timing control, which lists `n` elements. -/
structure RunSizedBy (p q : Place) (n : Nat) : Prop where
  unsized : (p.upTo q).getLast?.map Token.lexeme = some .unsized
  init : ∃ e : Expr, (q.ahead? 0).map Token.lexeme = some (.assign ⟨.eq, none, e⟩) ∧
    e.ListsElements n

/-- A run of dimensions ends at one place only. -/
theorem RunEndsAt.unique (h : p.RunEndsAt q) (h' : p.RunEndsAt q') : q = q' :=
  Place.ext (h.tokens_eq.trans h'.tokens_eq.symm) (h.isLeast_index.unique h'.isLeast_index)

theorem getElem?_upTo {i : Nat} (hle : p.index ≤ i) (hlt : i < q.index) :
    (p.upTo q)[i - p.index]? = p.tokens[i]? := by
  rw [upTo, List.getElem?_take_of_lt (by omega), rest, List.getElem?_drop,
    Nat.add_sub_cancel' hle]

/-- What is read of the tokens ahead is a run of dimensions. -/
theorem exists_dims_upTo (p : Place) : ∃ dims : List Dimension,
    (p.upTo (p.leave (Dimension.after p.rest))).map Token.lexeme = dims.map Dimension.lexeme := by
  obtain ⟨ds, dims, hsplit, hd⟩ := Dimension.exists_dims p.rest
  have hupTo := upTo_append_rest (p.reaches_leave (Dimension.after p.rest))
  rw [rest_leave (Dimension.after_suffix p.rest)] at hupTo
  obtain rfl := List.append_cancel_right (hupTo.trans hsplit)
  exact ⟨dims, hd⟩

/-- **The run of dimensions is read as far as it goes.** -/
theorem runEndsAt_leave (p : Place) : p.RunEndsAt (p.leave (Dimension.after p.rest)) := by
  have hreach := p.reaches_leave (Dimension.after p.rest)
  have hrest := rest_leave (Dimension.after_suffix p.rest)
  obtain ⟨dims, hd⟩ := p.exists_dims_upTo
  generalize p.leave (Dimension.after p.rest) = q at hreach hrest hd
  refine ⟨hreach.tokens_eq, ⟨hreach.index_le, ?_⟩, ?_⟩
  · intro t ht
    have hhead : q.rest.head? = p.tokens[q.index]? := by
      rw [← ahead?_zero, ahead?, hreach.tokens_eq, Nat.add_zero]
    refine Dimension.isDimension_eq_false_iff.1 (Dimension.isDimension_head_after p.rest t ?_)
    rwa [← hrest, hhead]
  · -- every index before `q` holds a token of the run
    rintro i ⟨hle, hstop⟩
    refine Nat.le_of_not_lt ?_
    intro hlt
    have hlength : i < p.tokens.length := hlt.trans_le (hreach.tokens_eq ▸ q.index_le)
    have hget := List.getElem?_eq_getElem hlength
    have hmem : p.tokens[i] ∈ p.upTo q :=
      List.mem_of_getElem? ((getElem?_upTo hle hlt).trans hget)
    have hdim := Dimension.isDimension_of_mem hd _ hmem
    rw [Dimension.isDimension_eq_false_iff.2 (hstop _ hget)] at hdim
    cases hdim

/-- The bounds that the last dimension of a run is given are those for the elements of the
initializer behind the run. -/
theorem exists_runSizedBy_iff {r : Range} :
    (∃ n, p.RunSizedBy q n ∧ r = .ofCount n) ↔
      (p.upTo q).getLast?.map Token.lexeme = some .unsized ∧
        Dimension.implied? q.rest = some r := by
  rw [Dimension.implied?_eq_some_iff, ← ahead?_zero]
  constructor
  · rintro ⟨n, ⟨hlast, e, hinit, hn⟩, hr⟩
    exact ⟨hlast, e, n, hinit, hn, hr⟩
  · rintro ⟨hlast, e, n, hinit, hn, hr⟩
    exact ⟨n, ⟨hlast, e, hinit, hn⟩, hr⟩

/-- **The run of dimensions is read as far as it goes, and only its last dimension can be sized by
an initializer.**  Reading ends at the first place where no dimension stands next.  It gives the
ranges that stand in the run, in order.  Behind them comes one more range, from `0` to `n - 1`,
exactly if the last token of the run is an unsized dimension and next behind the run stands a plain
initializer of `n` elements, which is not read. -/
theorem read_dimensions_iff {rs : List Range} :
    p.read (fun ts => (Dimension.ranges ts, Dimension.after ts)) = (rs, q) ↔
      p.RunEndsAt q ∧ ∃ sized : Option Range,
        rs = (p.upTo q).filterMap (·.lexeme.range?) ++ sized.toList ∧
        ∀ r, sized = some r ↔ ∃ n : Nat, p.RunSizedBy q n ∧
          r = ⟨.number "0", .number (toString ((n : Int) - 1))⟩ := by
  have hends := p.runEndsAt_leave
  have hrest := rest_leave (Dimension.after_suffix p.rest)
  have hupTo := upTo_append_rest (p.reaches_leave (Dimension.after p.rest))
  obtain ⟨dims, hd⟩ := p.exists_dims_upTo
  rw [read_eq]
  generalize p.leave (Dimension.after p.rest) = q₀ at hends hrest hupTo hd
  have hstop : ∀ t ∈ q₀.rest.head?, Dimension.isDimension t.lexeme = false :=
    hrest ▸ Dimension.isDimension_head_after p.rest
  obtain ⟨sized, hranges, hsized⟩ := Dimension.exists_ranges_eq hd hstop
  rw [hupTo] at hranges
  constructor
  · intro h
    obtain ⟨rfl, rfl⟩ := Prod.mk.inj h
    refine ⟨hends, sized, hranges, fun r => ?_⟩
    rw [hsized, ← exists_runSizedBy_iff]
    rfl
  · -- the place and the bounds are known by what is said of them, so nothing else can be read
    rintro ⟨hends', sized', rfl, hsized'⟩
    obtain rfl := hends.unique hends'
    have heq : sized = sized' := by
      refine Option.ext fun r => ?_
      rw [hsized, hsized', ← exists_runSizedBy_iff]
      rfl
    rw [hranges, heq]

/-- In `[] [7:0] [] = {a, b}` the first dimension adds nothing, and the last one is sized. -/
example :
    let ts : List Token :=
      [⟨.unsized, ⟨"top.sv", 4, 9⟩⟩,
        ⟨.range .nonIndexed ⟨.number "7", .number "0"⟩, ⟨"top.sv", 4, 12⟩⟩,
        ⟨.unsized, ⟨"top.sv", 4, 18⟩⟩,
        ⟨.assign (.plain (.concat [.ident "a", .ident "b"])), ⟨"top.sv", 4, 21⟩⟩]
    (start ts).read (fun ts => (Dimension.ranges ts, Dimension.after ts)) =
      ([⟨.number "7", .number "0"⟩, ⟨.number "0", .number "1"⟩], ⟨ts, 3, by decide⟩) :=
  rfl

end Place

end VerilogDecl
