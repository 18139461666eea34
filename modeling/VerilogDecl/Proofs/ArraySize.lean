/-
**The size of an unsized dimension.**

An unsized dimension right in front of a plain initializer takes its bounds from the number of
elements that the initializer lists.  The bounds are found before the initializer is read, by a
reader that packed and unpacked dimensions share, and they reach the variable through its segment
and its group.  This module shows which bounds arrive there, and how many elements they hold: as
many as the initializer lists, unless it lists none.  Two bounds hold at least one element, and the
bounds `0` and `-1` that an empty initializer leads to hold two.

Main definitions:

* `VerilogDecl.Expr.literal?` — the integer that a decimal literal denotes;
* `VerilogDecl.Range.size?` — the number of elements between two literal bounds.

Main results:

* `VerilogDecl.Range.size?_ofCount_eq_iff` — bounds for `n` elements hold `n` elements exactly if
  `n` is not zero;
* `VerilogDecl.Segment.eq_of_unsized_suffix` — where a segment ends with an unsized dimension and an
  initializer, both belong to its name;
* `VerilogDecl.declarators_of_readDecls` — **the variables are those of the segments, in order**;
* `VerilogDecl.readDecls_sizes_unsized` — **an unsized dimension gets the size of its initializer,
  unless that is empty**.
-/

import Mathlib
import VerilogDecl.Proofs.GroupStretches
import VerilogDecl.Proofs.ReaderSuccess

set_option relaxedAutoImplicit false
set_option autoImplicit false

namespace VerilogDecl

open Token

/-! ### The number of elements between two bounds -/

/-- The integer that a decimal literal denotes. -/
def Expr.literal? : Expr → Option Int
  | .number text => text.toInt?
  | _ => none

namespace Range

/-- The number of elements between two literal bounds, both of them included. -/
def size? (r : Range) : Option Nat :=
  match r.left.literal?, r.right.literal? with
  | some left, some right => some ((right - left).natAbs + 1)
  | _, _ => none

theorem literal?_left_ofCount (n : Nat) : (ofCount n).left.literal? = some 0 :=
  Int.toInt?_repr 0

theorem literal?_right_ofCount (n : Nat) : (ofCount n).right.literal? = some ((n : Int) - 1) :=
  Int.toInt?_repr _

theorem size?_ofCount (n : Nat) : (ofCount n).size? = some (((n : Int) - 1).natAbs + 1) := by
  simp only [size?, literal?_left_ofCount, literal?_right_ofCount, Int.sub_zero]

/-- Bounds for `n` elements hold `n` elements exactly if there is one. -/
theorem size?_ofCount_eq_iff {n : Nat} : (ofCount n).size? = some n ↔ n ≠ 0 := by
  rw [size?_ofCount, Option.some_inj]
  omega

end Range

/-! ### The end of a segment -/

namespace Segment

/-- In front of an initializer stands the last dimension of the name, or the name. -/
theorem getLast?_front (s : Segment) :
    (s.head.lexemes ++ .ident s.name.name :: s.name.dims.map Dimension.lexeme).getLast? =
      some ((s.name.dims.getLast?.map Dimension.lexeme).getD (.ident s.name.name)) := by
  cases hdims : s.name.dims.getLast? with
  | none =>
      rw [List.getLast?_eq_none_iff.1 hdims]
      simp
  | some d =>
      obtain ⟨front, hfront⟩ := List.getLast?_eq_some_iff.1 hdims
      rw [hfront, List.map_append, ← List.cons_append, ← List.append_assoc]
      exact List.getLast?_concat

/-- **Where a segment ends with an unsized dimension and an initializer, both belong to its
name.** -/
theorem eq_of_unsized_suffix {s : Segment} {a : Assign}
    (h : [.unsized, .assign a] <:+ s.lexemes) :
    s.name.init = some a ∧ s.name.dims.getLast? = some .unsized := by
  obtain ⟨front, hfront⟩ := h
  have hlast := s.getLast?_front
  rw [lexemes, NameWords.lexemes, NameWords.rear, ← List.cons_append, ← List.append_assoc] at hfront
  cases hinit : s.name.init with
  | none =>
      -- the last word would be a dimension or the name
      rw [hinit, Option.map_none, Option.toList_none, List.append_nil] at hfront
      rw [← hfront, List.getLast?_append] at hlast
      cases hdims : s.name.dims.getLast? with
      | none => simp [hdims] at hlast
      | some d => cases d <;> simp [hdims, Dimension.lexeme] at hlast
  | some b =>
      rw [hinit, Option.map_some, Option.toList_some] at hfront
      have hsplit : front ++ [.unsized] ++ [.assign a] =
          s.head.lexemes ++ .ident s.name.name :: s.name.dims.map Dimension.lexeme ++
            [.assign b] := by
        rw [← hfront]
        simp
      obtain ⟨hrest, hassign⟩ := List.append_inj' hsplit rfl
      obtain rfl : a = b := by simpa using hassign
      rw [← hrest, List.getLast?_concat] at hlast
      refine ⟨rfl, ?_⟩
      cases hdims : s.name.dims.getLast? with
      | none => simp [hdims] at hlast
      | some d =>
          cases d with
          | unsized => rfl
          | bounded r => simp [hdims, Dimension.lexeme] at hlast

end Segment

/-- The bounds from an initializer are the last range of a name whose last dimension is unsized. -/
theorem NameWords.getLast?_ranges {n : NameWords} {a : Assign} {r : Range}
    (hinit : n.init = some a) (hdims : n.dims.getLast? = some .unsized)
    (hr : Dimension.ofInit? a = some r) : n.declarator.ranges.getLast? = some r := by
  simp [declarator, hinit, hr, Dimension.rangesWith, hdims]

/-! ### The variables of a list of declarations -/

/-- **The variables of a list of declarations are those of its segments, in order.** -/
theorem declarators_of_readDecls {options : Options} {ts : List Token} {ds : List Decl}
    (h : readDecls options ts = .ok ds) :
    (ts = [] ∧ ds = []) ∨ ∃ ss : List Segment, List.Forall₂ Segment.SpelledBy ss (segments ts) ∧
      (ds.filterMap Decl.declared?).map Variable.declarator = ss.map (·.name.declarator) := by
  obtain ⟨-, gs, hgs, rfl⟩ := readDecls_eq_ok_iff.1 h
  rcases spelled_of_readGroups hgs with ⟨rfl, rfl⟩ | ⟨ss, hss, rfl⟩
  · exact Or.inl ⟨rfl, rfl⟩
  · refine Or.inr ⟨ss, hss, ?_⟩
    rw [← Segment.declarators_groups ss, List.filterMap_flatMap, List.map_flatMap]
    simp only [DeclGroup.declarators_decls]

/-- Initializers of declarations are plain. -/
theorem isPlain_of_readDecls {options : Options} {ts : List Token} {ds : List Decl}
    (h : readDecls options ts = .ok ds) {a : Assign} (ha : .assign a ∈ ts.map Token.lexeme) :
    a.isPlain = true := by
  obtain ⟨t, ht, hta⟩ := List.mem_map.1 ha
  have hproper := (readDecls_eq_ok_iff.1 h).1 t ht
  simpa [hta, Lexeme.isImproperAssign] using hproper

/-- **An unsized dimension gets the size of its initializer, unless that is empty.**  Where the
tokens of a declared name end with an unsized dimension and an initializer of `n` elements, the last
range of its variable goes from `0` to `n - 1`.  This range holds `n` elements exactly if `n` is not
zero. -/
theorem readDecls_sizes_unsized {options : Options} {ts : List Token} {ds : List Decl}
    (h : readDecls options ts = .ok ds) {k : Nat} {seg : List Token}
    (hseg : (segments ts)[k]? = some seg) {a : Assign}
    (hend : [.unsized, .assign a] <:+ seg.map Token.lexeme) {n : Nat}
    (hn : a.expr.elementCount? = some n) :
    ∃ (v : Variable) (r : Range), (ds.filterMap Decl.declared?)[k]? = some v ∧
      v.init = some a.expr ∧ v.ranges.getLast? = some r ∧ r.left.literal? = some 0 ∧
      r.right.literal? = some ((n : Int) - 1) ∧ (r.size? = some n ↔ n ≠ 0) := by
  have hmem := List.mem_of_getElem? hseg
  have hbounds : Dimension.ofInit? a = some (.ofCount n) := by
    have hassign : .assign a ∈ seg.map Token.lexeme := hend.subset (by simp)
    have hplain := isPlain_of_readDecls h
      (List.map_subset Token.lexeme (infix_of_mem_segments hmem).subset hassign)
    simp [Dimension.ofInit?, hplain, hn]
  rcases declarators_of_readDecls h with ⟨rfl, -⟩ | ⟨ss, hss, hvars⟩
  · -- the only segment of the empty list is empty
    obtain rfl : seg = [] := by simpa using hmem
    simp at hend
  · obtain ⟨s, hs, hspelled⟩ : ∃ s, ss[k]? = some s ∧ s.SpelledBy seg := by
      obtain ⟨hk, rfl⟩ := List.getElem?_eq_some_iff.1 hseg
      have hk' : k < ss.length := hss.length_eq ▸ hk
      exact ⟨ss[k], List.getElem?_eq_getElem hk', hss.get hk' hk⟩
    rw [hspelled.lexemes] at hend
    obtain ⟨hinit, hdims⟩ := Segment.eq_of_unsized_suffix hend
    have hvar := congrArg (·[k]?) hvars
    simp only [List.getElem?_map, hs, Option.map_some] at hvar
    obtain ⟨v, hv, hdeclarator⟩ := Option.map_eq_some_iff.1 hvar
    refine ⟨v, .ofCount n, hv, ?_, ?_, Range.literal?_left_ofCount n,
      Range.literal?_right_ofCount n, Range.size?_ofCount_eq_iff⟩
    · have hvinit : v.init = s.name.declarator.init := congrArg Declarator.init hdeclarator
      rw [hvinit, NameWords.declarator, hinit, Option.map_some]
    · have hvranges : v.ranges = s.name.declarator.ranges := congrArg Declarator.ranges hdeclarator
      rw [hvranges, NameWords.getLast?_ranges hinit hdims hbounds]

unseal Declarator.takeList DeclGroup.takeAll in
/-- Of two arrays without size, the one with three elements gets a range for three, and the one
without elements gets the range from `0` to `-1`, which is not one for no elements. -/
theorem readDecls_sizes_unsized_pair :
    ∃ ds, readDecls ⟨false⟩
      [⟨.typeBase (.atom .int), ⟨"top.sv", 8, 3⟩⟩, ⟨.ident "a", ⟨"top.sv", 8, 7⟩⟩,
        ⟨.unsized, ⟨"top.sv", 8, 9⟩⟩,
        ⟨.assign (.plain (.concat [.number "1", .number "2", .number "3"])), ⟨"top.sv", 8, 12⟩⟩,
        ⟨.comma, ⟨"top.sv", 8, 24⟩⟩, ⟨.ident "b", ⟨"top.sv", 8, 26⟩⟩,
        ⟨.unsized, ⟨"top.sv", 8, 28⟩⟩, ⟨.assign (.plain (.pattern [])), ⟨"top.sv", 8, 31⟩⟩] =
      .ok ds ∧
    (∃ v r, (ds.filterMap Decl.declared?)[0]? = some v ∧ v.ranges.getLast? = some r ∧
      r.size? = some 3) ∧
    ∃ v r, (ds.filterMap Decl.declared?)[1]? = some v ∧ v.ranges.getLast? = some r ∧
      r.right.literal? = some (-1) ∧ r.size? ≠ some 0 := by
  refine Exists.imp (fun ds h => ⟨h, ?_, ?_⟩) ⟨_, rfl⟩
  · obtain ⟨v, r, hv, -, hr, -, -, hsize⟩ := readDecls_sizes_unsized (k := 0)
      (a := .plain (.concat [.number "1", .number "2", .number "3"])) h rfl
      ⟨[.typeBase (.atom .int), .ident "a"], rfl⟩ rfl
    exact ⟨v, r, hv, hr, hsize.2 (by decide)⟩
  · obtain ⟨v, r, hv, -, hr, -, hright, hsize⟩ := readDecls_sizes_unsized (k := 1)
      (a := .plain (.pattern [])) h rfl ⟨[.ident "b"], rfl⟩ rfl
    exact ⟨v, r, hv, hr, hright, fun h => hsize.1 h rfl⟩

end VerilogDecl
