/-
**Every group is read from a stretch of its own.**

The groups of a list are read one behind the other, and the reader leaves each group at a comma.
This module cuts the list at these commas.  Every group gets the stretch of tokens between two of
them; read by itself, the stretch is that group and nothing else, and the group is placed where the
stretch starts.

Main definitions:

* `VerilogDecl.Segment.groupWith` — the group that a segment opens, with the names behind it;
* `VerilogDecl.Variable.declarator` — what a variable has from its declared name;
* `VerilogDecl.DeclGroup.ReadFrom` — a stretch of tokens that is one group.

Main results:

* `VerilogDecl.Segment.exists_names_append` — behind a segment stand names, then a segment that
  opens a group;
* `VerilogDecl.Segment.groups_cons_append` — the first of the groups of a list of segments;
* `VerilogDecl.Segment.declarators_groups` — **each segment declares its name once, in order**;
* `VerilogDecl.DeclGroup.declarators_decls` — a group declares one variable for each of its names;
* `VerilogDecl.exists_stretches_of_readGroups` — **the groups of a list are read from stretches that
  it joins by commas**.
-/

import VerilogDecl.Proofs.GroupWriting

set_option relaxedAutoImplicit false
set_option autoImplicit false

namespace VerilogDecl

open Token

/-! ### The names of a group and the groups behind it -/

namespace Segment

/-- Behind a segment stand the other names of its group, and then the next group opens. -/
theorem exists_names_append (ss : List Segment) :
    ∃ names rest, ss = names ++ rest ∧ (∀ s ∈ names, s.IsName) ∧ ∀ s ∈ rest.head?, ¬ s.IsName := by
  induction ss with
  | nil => exact ⟨[], [], rfl, List.forall_mem_nil _, by rintro _ ⟨⟩⟩
  | cons s ss ih =>
      by_cases hs : s.IsName
      · obtain ⟨names, rest, rfl, hnames, hrest⟩ := ih
        exact ⟨s :: names, rest, rfl, List.forall_mem_cons.2 ⟨hs, hnames⟩, hrest⟩
      · refine ⟨[], s :: ss, rfl, List.forall_mem_nil _, ?_⟩
        rintro _ ⟨⟩
        exact hs

/-- The group that a segment opens, with the names behind it. -/
def groupWith (s : Segment) (names : List Segment) : DeclGroup :=
  { s.group with declarators := s.group.declarators ++ names.map (·.name.declarator) }

/-- The first group ends where the next one opens. -/
theorem groups_cons_append (s : Segment) {names rest : List Segment}
    (hnames : ∀ n ∈ names, n.IsName) (hrest : ∀ r ∈ rest.head?, ¬ r.IsName) :
    groups (s :: (names ++ rest)) = s.groupWith names :: groups rest := by
  rw [groups, groupsFrom_append hnames, groupsFrom_of_head hrest]
  rfl

/-- A segment with nothing but names behind it is one group. -/
theorem groups_cons_names (s : Segment) {names : List Segment} (hnames : ∀ n ∈ names, n.IsName) :
    groups (s :: names) = [s.groupWith names] := by
  have hrest : ∀ r ∈ ([] : List Segment).head?, ¬ r.IsName := by rintro _ ⟨⟩
  have h := groups_cons_append s hnames hrest
  rwa [List.append_nil] at h

theorem groups_cons_ne_nil (s : Segment) (ss : List Segment) : groups (s :: ss) ≠ [] := by
  obtain ⟨names, rest, rfl, hnames, hrest⟩ := exists_names_append ss
  rw [groups_cons_append s hnames hrest]
  exact List.cons_ne_nil _ _

theorem declarators_groupsFrom (g : DeclGroup) (ss : List Segment) :
    (groupsFrom g ss).flatMap (·.declarators) =
      g.declarators ++ ss.map (·.name.declarator) := by
  induction ss generalizing g with
  | nil => simp [groupsFrom]
  | cons s ss ih =>
      rw [groupsFrom]
      split
      · rw [ih, DeclGroup.add, List.append_assoc, List.map_cons, List.singleton_append]
      · rw [List.flatMap_cons, ih, group, List.map_cons, List.singleton_append]

/-- **The names that the groups declare are those of the segments, in order.** -/
theorem declarators_groups (ss : List Segment) :
    (groups ss).flatMap (·.declarators) = ss.map (·.name.declarator) := by
  cases ss with
  | nil => rfl
  | cons s ss => exact declarators_groupsFrom s.group ss

end Segment

/-! ### The declarations of a group -/

/-- What a variable has from its declared name. -/
def Variable.declarator (v : Variable) : Declarator :=
  ⟨v.name, v.ranges, v.init⟩

theorem DeclGroup.declarators_decls (options : Options) (g : DeclGroup) :
    ((g.decls options).filterMap Decl.declared?).map Variable.declarator = g.declarators := by
  have hcomment : (if options.markers then [Decl.comment g.pos.trace] else []).filterMap
      Decl.declared? = [] := by
    cases options.markers <;> rfl
  rw [decls, List.filterMap_append, hcomment, List.nil_append, List.filterMap_map,
    List.map_filterMap]
  exact List.filterMap_some

/-! ### Stretches -/

/-- The tokens `part` are read as the group `g` and nothing else, and `g` is placed where they
start. -/
structure DeclGroup.ReadFrom (g : DeclGroup) (part : List Token) : Prop where
  /-- The tokens are that one group. -/
  read : readGroups part = .ok [g]
  /-- The place of the group is that of the first token. -/
  pos : part.head?.map Token.pos = some g.pos

theorem readGroups_of_commaJoin {ss : List Segment} {segs : List (List Token)} {ts : List Token}
    (hss : List.Forall₂ Segment.SpelledBy ss segs) (hj : CommaJoin segs ts) :
    readGroups ts = .ok (Segment.groups ss) :=
  readGroups_eq_ok_iff.2 (DeclGroup.takeAll_of_commaJoin hss hj)

/-- A segment and the names behind it are a stretch of their own. -/
theorem Segment.readFrom_groupWith {s : Segment} {names : List Segment} {segs : List (List Token)}
    {part : List Token} (hnames : ∀ n ∈ names, n.IsName)
    (hss : List.Forall₂ SpelledBy (s :: names) segs) (hj : CommaJoin segs part) :
    (s.groupWith names).ReadFrom part := by
  refine ⟨?_, ?_⟩
  · rw [readGroups_of_commaJoin hss hj, groups_cons_names s hnames]
  · cases hss with
    | cons hs _ =>
        obtain ⟨tail, rfl, -⟩ := hj.exists_tail
        have hpos := hs.pos
        rw [Option.map_eq_some_iff] at hpos ⊢
        obtain ⟨t, ht, hpos⟩ := hpos
        exact ⟨t, by rw [List.head?_append, ht]; rfl, hpos⟩

theorem exists_stretches_of_commaJoin {ss : List Segment} {segs : List (List Token)}
    {ts : List Token} (hss : List.Forall₂ Segment.SpelledBy ss segs) (hj : CommaJoin segs ts) :
    ∃ parts, CommaJoin parts ts ∧
      List.Forall₂ DeclGroup.ReadFrom (Segment.groups ss) parts := by
  -- a group takes at least one segment, so the induction is on the number of segments
  induction hn : ss.length using Nat.strongRecOn generalizing ss segs ts with
  | _ n ih =>
      cases ss with
      | nil =>
          cases hss
          exact ⟨[], hj, List.Forall₂.nil⟩
      | cons s ss =>
          obtain ⟨names, rest, rfl, hnames, hrest⟩ := Segment.exists_names_append ss
          rw [Segment.groups_cons_append s hnames hrest]
          cases rest with
          | nil =>
              rw [List.append_nil] at hss
              refine ⟨[ts], CommaJoin.single ts, List.Forall₂.cons ?_ List.Forall₂.nil⟩
              exact Segment.readFrom_groupWith hnames hss hj
          | cons r rest =>
              rw [← List.cons_append] at hss
              have hfirst := List.forall₂_take (s :: names).length hss
              have hothers := List.forall₂_drop (s :: names).length hss
              rw [List.take_left] at hfirst
              rw [List.drop_left] at hothers
              rw [← List.take_append_drop (s :: names).length segs] at hj
              obtain ⟨us, pos, vs, rfl, hus, hvs⟩ := hj.split_append
                (by intro he; rw [he] at hfirst; cases hfirst)
                (by intro he; rw [he] at hothers; cases hothers)
              have hlt : (r :: rest).length < n := by
                simp only [← hn, List.length_cons, List.length_append]
                omega
              obtain ⟨parts, hparts, hread⟩ := ih _ hlt hothers hvs rfl
              obtain ⟨part, parts, rfl⟩ : ∃ part parts', parts = part :: parts' := by
                refine List.exists_cons_of_ne_nil ?_
                rintro rfl
                exact Segment.groups_cons_ne_nil r rest (List.forall₂_nil_right_iff.1 hread)
              refine ⟨us :: part :: parts, CommaJoin.cons us pos hparts, List.Forall₂.cons ?_ hread⟩
              exact Segment.readFrom_groupWith hnames hfirst hus

/-- **The groups of a list are read from stretches that the list joins by commas: each stretch by
itself is its group, placed at the first token of the stretch.** -/
theorem exists_stretches_of_readGroups {ts : List Token} {gs : List DeclGroup}
    (h : readGroups ts = .ok gs) :
    ∃ parts, CommaJoin parts ts ∧ List.Forall₂ DeclGroup.ReadFrom gs parts := by
  rcases spelled_of_readGroups h with ⟨rfl, rfl⟩ | ⟨ss, hss, rfl⟩
  · exact ⟨[], CommaJoin.nil, List.Forall₂.nil⟩
  · exact exists_stretches_of_commaJoin hss (commaJoin_segments ts)

end VerilogDecl
