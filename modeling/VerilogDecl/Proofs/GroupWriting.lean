/-
**Groups of declarations can be read back from what is written.**

A group is written as the words for its direction, its lifetime and its type, then its names with
commas between them; groups are written with commas between them as well.  The lists of tokens are
flat, so the borders of the groups can be told only from the words that open them.  This module
writes groups as lexemes and shows that reading gives the groups back, as long as every group but
the first has words that open it.  The lifetime is the one thing that a group does not keep.

Main definitions:

* `VerilogDecl.DataType.words`, `VerilogDecl.DeclGroup.words`, `VerilogDecl.Declarator.words` — the
  words for a type, in front of the names of a group, and for a name;
* `VerilogDecl.DeclGroup.lexemes` — a group as it is written;
* `VerilogDecl.Writing` — a group written at some places, with its tokens;
* `VerilogDecl.Writing.placed` — the group that is to be read there.

Main results:

* `VerilogDecl.DeclGroup.dataType_words`, `VerilogDecl.Declarator.declarator_words` — the words
  stand for what they were written for;
* `VerilogDecl.Segment.groupsFrom_append` — names join a group until a segment opens a new one;
* `VerilogDecl.readGroups_of_written` — **reading undoes writing**.
-/

import VerilogDecl.Proofs.GroupGrammar

set_option relaxedAutoImplicit false
set_option autoImplicit false

namespace VerilogDecl

open Token

/-! ### The words that are written -/

def Signing.given? : Signing → Option Signing
  | .unspecified => none
  | s => some s

@[simp] theorem Signing.getD_given? (s : Signing) : s.given?.getD .unspecified = s := by
  cases s <;> rfl

/-- The words for a type. -/
def DataType.words (t : DataType) : TypeWords :=
  match t.base with
  | .vector _ | .atom _ | .nonInteger _ =>
      .base t.base t.signing.given? (t.signing.getD_given?.symm ▸ t.fits)
  | .implicit => (t.signing.given?.map TypeWords.signing).getD .absent
  | .typedef name => .typedef name
  | .scopedTypedef scope name => .scopedTypedef scope name
  | .interface name modport => .interface name modport

/-- The words for a name. -/
def Declarator.words (d : Declarator) : NameWords :=
  ⟨d.name, d.ranges.map .bounded, d.init.map .plain⟩

namespace DeclGroup

/-- The words in front of the names of a group. -/
def words (automatic : Bool) (g : DeclGroup) : HeadWords :=
  ⟨if g.dir = .unspecified then none else some g.dir, automatic, g.type.words,
    g.type.ranges.map .bounded⟩

/-- The lexemes of a group, with an automatic lifetime or without. -/
def lexemes (automatic : Bool) (g : DeclGroup) : List Lexeme :=
  (g.words automatic).lexemes ++
    [Lexeme.comma].intercalate (g.declarators.map fun d => d.words.lexemes)

end DeclGroup

theorem filterMap_bounds?_map_bounded (rs : List Range) :
    (rs.map Dimension.bounded).filterMap Dimension.bounds? = rs := by
  rw [List.filterMap_map]
  exact List.filterMap_some

theorem DataType.signing_eq_of_not_admits {t : DataType} (h : t.base.admitsSigning = false) :
    t.signing = .unspecified := by
  by_contra hs
  rw [t.fits hs] at h
  cases h

theorem DataType.head_words (t : DataType) : t.words.head = ⟨t.base, t.signing⟩ := by
  obtain ⟨base, signing, ranges, fits⟩ := t
  cases base with
  | vector k => simp [words, TypeWords.head]
  | atom k => simp [words, TypeWords.head]
  | nonInteger k => simp [words, TypeWords.head]
  | implicit => cases signing <;> rfl
  | _ =>
      obtain rfl : signing = .unspecified :=
        signing_eq_of_not_admits (t := ⟨_, signing, ranges, fits⟩) rfl
      rfl

/-- The words in front of the names of a group stand for its type. -/
theorem DeclGroup.dataType_words (automatic : Bool) (g : DeclGroup) :
    (g.words automatic).dataType = g.type := by
  have hhead := g.type.head_words
  refine DataType.ext ?_ ?_ (filterMap_bounds?_map_bounded g.type.ranges)
  · exact congrArg TypeHead.base hhead
  · exact congrArg TypeHead.signing hhead

theorem DeclGroup.direction_words (automatic : Bool) (g : DeclGroup) :
    (g.words automatic).direction = g.dir := by
  by_cases h : g.dir = .unspecified
  · simp [words, HeadWords.direction, h]
  · simp [words, HeadWords.direction, h]

/-- The words for a name stand for the declarator that they were written for. -/
theorem Declarator.declarator_words (d : Declarator) : d.words.declarator = d := by
  obtain ⟨name, ranges, init⟩ := d
  have hlast : ∀ implied, Dimension.rangesWith implied (ranges.map .bounded) = ranges := by
    intro implied
    induction ranges with
    | nil => rfl
    | cons r rs ih => rw [List.map_cons, Dimension.rangesWith_bounded_cons, ih]
  have hinit : (init.map Assign.plain).map (·.expr) = init := by
    cases init <;> rfl
  simp only [words, NameWords.declarator, hlast, hinit]

/-! ### Written groups -/

/-- A group with names, written at some places. -/
structure Writing where
  /-- The group. -/
  group : DeclGroup
  /-- Is an automatic lifetime written? -/
  automatic : Bool
  /-- The tokens, wherever they stand. -/
  tokens : List Token
  /-- The group has names. -/
  names : group.declarators ≠ []
  /-- The tokens are those of the group. -/
  spelled : tokens.map Token.lexeme = group.lexemes automatic

namespace Writing

/-- Does the group have words in front of its names? -/
def HasHead (w : Writing) : Prop :=
  w.group.dir ≠ .unspecified ∨ w.automatic = true ∨ w.group.type ≠ .implicit

theorem tokens_ne_nil (w : Writing) : w.tokens ≠ [] := by
  intro hnil
  have hlex := w.spelled
  obtain ⟨d, ds, hd⟩ := List.exists_cons_of_ne_nil w.names
  rw [hnil, DeclGroup.lexemes, hd] at hlex
  cases ds <;> simp [NameWords.lexemes] at hlex

/-- The group, at the place of its first token. -/
def placed (w : Writing) : DeclGroup :=
  { w.group with pos := (w.tokens.head w.tokens_ne_nil).pos }

theorem HasHead.words_ne_empty {w : Writing} (h : w.HasHead) :
    w.group.words w.automatic ≠ .empty := by
  intro he
  rcases h with h | h | h
  · exact h (by rw [← w.group.direction_words w.automatic, he]; rfl)
  · have hauto : (w.group.words w.automatic).automatic = false := by rw [he]; rfl
    exact absurd (hauto.symm.trans h) Bool.false_ne_true
  · exact h (by rw [← w.group.dataType_words w.automatic, he]; rfl)

end Writing

/-! ### The segments of written groups -/

/-- Tokens that are written with commas between lists of lexemes are a join. -/
theorem exists_commaJoin_of_intercalate {lss : List (List Lexeme)} {ts : List Token}
    (h : ts.map Token.lexeme = [Lexeme.comma].intercalate lss) :
    ∃ segs, segs.map (List.map Token.lexeme) = lss ∧ CommaJoin segs ts := by
  induction lss generalizing ts with
  | nil =>
      obtain rfl : ts = [] := by simpa using h
      exact ⟨[], rfl, CommaJoin.nil⟩
  | cons ls lss ih =>
      cases lss with
      | nil =>
          rw [List.intercalate_singleton] at h
          exact ⟨[ts], by rw [List.map_singleton, h], CommaJoin.single ts⟩
      | cons ls' lss =>
          -- the first list ends at the first comma that was put in
          rw [List.intercalate_cons_cons, List.append_assoc] at h
          obtain ⟨seg, rest, rfl, hseg, hrest⟩ := List.map_eq_append_iff.1 h
          obtain ⟨c, rest, rfl, hc, hrest⟩ := List.map_eq_cons_iff.1 hrest
          obtain ⟨segs, hsegs, hj⟩ := ih hrest
          obtain ⟨next, segs, rfl, -, -⟩ := List.map_eq_cons_iff.1 hsegs
          obtain ⟨l, pos⟩ := c
          obtain rfl : l = .comma := hc
          exact ⟨seg :: next :: segs, by rw [List.map_cons, hseg, hsegs], CommaJoin.cons seg pos hj⟩

namespace Segment

/-- Names join the open group, one after the other. -/
theorem groupsFrom_append {names : List Segment} (hnames : ∀ s ∈ names, s.IsName)
    (g : DeclGroup) (ss : List Segment) :
    groupsFrom g (names ++ ss) =
      groupsFrom { g with declarators := g.declarators ++ names.map (·.name.declarator) } ss := by
  induction names generalizing g with
  | nil => rw [List.map_nil, List.append_nil, List.nil_append]
  | cons s names ih =>
      have hs : s.IsName := hnames s (List.mem_cons_self ..)
      have htail := ih fun s' hs' => hnames s' (List.mem_cons_of_mem _ hs')
      rw [List.cons_append, groupsFrom, if_pos hs, htail, List.map_cons, DeclGroup.add,
        List.append_assoc, List.singleton_append]

theorem groupsFrom_of_head {ss : List Segment} (h : ∀ s ∈ ss.head?, ¬ s.IsName) (g : DeclGroup) :
    groupsFrom g ss = g :: groups ss := by
  cases ss with
  | nil => rfl
  | cons s ss => rw [groupsFrom, if_neg (h s rfl), groups]

theorem exists_names {ds : List Declarator} {segs : List (List Token)}
    (h : segs.map (List.map Token.lexeme) = ds.map fun d => d.words.lexemes) :
    ∃ ss, List.Forall₂ SpelledBy ss segs ∧ (∀ s ∈ ss, s.IsName) ∧
      ss.map (·.name.declarator) = ds := by
  induction ds generalizing segs with
  | nil =>
      obtain rfl : segs = [] := by simpa using h
      exact ⟨[], List.Forall₂.nil, List.forall_mem_nil _, rfl⟩
  | cons d ds ih =>
      obtain ⟨seg, segs, rfl, hseg, hsegs⟩ := List.map_eq_cons_iff.1 h
      obtain ⟨ss, hss, hnames, hds⟩ := ih hsegs
      obtain ⟨t, ts, rfl, -, -⟩ := List.map_eq_cons_iff.1 hseg
      refine ⟨⟨t.pos, .empty, d.words⟩ :: ss, List.Forall₂.cons ⟨hseg, rfl⟩ hss, ?_, ?_⟩
      · exact List.forall_mem_cons.2 ⟨rfl, hnames⟩
      · rw [List.map_cons, hds, d.declarator_words]

end Segment

/-- A written group is spelled by segments: its first name with the words in front, then its other
names.  Behind them only a segment that is no name leaves the group as it is. -/
theorem Writing.exists_segments (w : Writing) :
    ∃ first names segs, List.Forall₂ Segment.SpelledBy (first :: names) segs ∧
      CommaJoin segs w.tokens ∧ (w.HasHead → ¬ first.IsName) ∧
      ∀ ss : List Segment, (∀ s ∈ ss.head?, ¬ s.IsName) →
        Segment.groups (first :: names ++ ss) = w.placed :: Segment.groups ss := by
  obtain ⟨d, ds, hd⟩ := List.exists_cons_of_ne_nil w.names
  have hspelled := w.spelled
  rw [DeclGroup.lexemes, hd] at hspelled
  obtain ⟨hs, rest, htokens, hh, hrest⟩ := List.map_eq_append_iff.1 hspelled
  obtain ⟨segs, hsegs, hj⟩ := exists_commaJoin_of_intercalate hrest
  obtain ⟨ns, segs, rfl, hn, hsegs⟩ := List.map_eq_cons_iff.1 hsegs
  obtain ⟨names, hnames, hname, hds⟩ := Segment.exists_names hsegs
  -- the place of the first segment is that of the first token of the group
  have hjoin : CommaJoin ((hs ++ ns) :: segs) w.tokens := htokens ▸ hj.append_head hs
  obtain ⟨t, us, ht⟩ : ∃ t us, hs ++ ns = t :: us := by
    refine List.exists_cons_of_ne_nil fun hnil => ?_
    rw [(List.append_eq_nil_iff.1 hnil).2] at hn
    cases hn
  have hpos : t.pos = w.placed.pos := by
    obtain ⟨tail, htail, -⟩ := hjoin.exists_tail
    rw [ht] at htail
    simp only [placed, htail, List.cons_append, List.head_cons]
  refine ⟨⟨t.pos, w.group.words w.automatic, d.words⟩, names, (hs ++ ns) :: segs,
    List.Forall₂.cons ⟨?_, ?_⟩ hnames, hjoin, fun h => h.words_ne_empty, ?_⟩
  · rw [List.map_append, hh, hn]
    rfl
  · rw [ht]
    rfl
  · intro ss hss
    rw [List.cons_append, Segment.groups, Segment.groupsFrom_append hname,
      Segment.groupsFrom_of_head hss, Segment.group, hds, hpos, d.declarator_words,
      w.group.direction_words, w.group.dataType_words, List.singleton_append, ← hd]
    rfl

/-- The segments of written groups, of which all but the first have words in front of their
names, are grouped as they were written. -/
theorem exists_segments_of_written {ws : List Writing} {ts : List Token}
    (hh : ∀ w ∈ ws.tail, w.HasHead) (hj : CommaJoin (ws.map (·.tokens)) ts) :
    ∃ ss segs, List.Forall₂ Segment.SpelledBy ss segs ∧ CommaJoin segs ts ∧
      (∀ s ∈ ss.head?, (∀ w ∈ ws.head?, w.HasHead) → ¬ s.IsName) ∧ (ws ≠ [] → segs ≠ []) ∧
      Segment.groups ss = ws.map Writing.placed := by
  induction ws generalizing ts with
  | nil =>
      cases hj
      refine ⟨[], [], List.Forall₂.nil, CommaJoin.nil, ?_, fun h => absurd rfl h, rfl⟩
      rintro _ ⟨⟩
  | cons w ws ih =>
      obtain ⟨first, names, segs, hspelled, hw, hfirst, hgroups⟩ := w.exists_segments
      have hsegs : segs ≠ [] := by
        rintro rfl
        cases hspelled
      cases ws with
      | nil =>
          cases hj
          refine ⟨first :: names, segs, hspelled, hw, ?_, fun _ => hsegs, ?_⟩
          · rintro _ ⟨⟩ hall
            exact hfirst (hall w rfl)
          · rw [← List.append_nil (first :: names), hgroups [] (by rintro _ ⟨⟩)]
            rfl
      | cons w' ws =>
          cases hj with
          | cons _ pos hj =>
              -- the next group opens with words, so that its first segment closes this group
              obtain ⟨hw', htail⟩ := List.forall_mem_cons.1 hh
              obtain ⟨ss, segs', hss, hjoin, hhead, hne, hplaced⟩ := ih htail hj
              refine ⟨first :: names ++ ss, segs ++ segs', List.rel_append hspelled hss,
                hw.append hsegs hjoin (hne (List.cons_ne_nil _ _)) pos, ?_, ?_, ?_⟩
              · rintro _ ⟨⟩ hall
                exact hfirst (hall w rfl)
              · exact fun _ => List.append_ne_nil_of_left_ne_nil hsegs _
              · rw [hgroups ss fun s hs => hhead s hs (by rintro _ ⟨⟩; exact hw'), hplaced]
                rfl

/-! ### Reading what is written -/

/-- **Groups that are written with commas between them are read back, each at the place of its
first token, if all but the first have words in front of their names.** -/
theorem readGroups_of_written {ws : List Writing} {ts : List Token}
    (hh : ∀ w ∈ ws.tail, w.HasHead) (hj : CommaJoin (ws.map (·.tokens)) ts) :
    readGroups ts = .ok (ws.map Writing.placed) := by
  obtain ⟨ss, segs, hss, hjoin, -, -, hplaced⟩ := exists_segments_of_written hh hj
  rw [readGroups_eq_ok_iff, DeclGroup.takeAll_of_commaJoin hss hjoin, hplaced]

/-- The names `a` and `b`, then `c` behind words of its own: nothing but these words keeps `c` out
of the first group. -/
theorem readGroups_of_written_pair :
    readGroups
      [⟨.ident "a", ⟨"top.sv", 1, 1⟩⟩, ⟨.comma, ⟨"top.sv", 1, 2⟩⟩, ⟨.ident "b", ⟨"top.sv", 1, 4⟩⟩,
        ⟨.assign (.plain (.number "0")), ⟨"top.sv", 1, 6⟩⟩, ⟨.comma, ⟨"top.sv", 1, 9⟩⟩,
        ⟨.lifetime .automatic, ⟨"top.sv", 2, 1⟩⟩, ⟨.ident "word", ⟨"top.sv", 2, 11⟩⟩,
        ⟨.range .nonIndexed ⟨.number "1", .number "0"⟩, ⟨"top.sv", 2, 15⟩⟩,
        ⟨.ident "c", ⟨"top.sv", 2, 21⟩⟩] =
      .ok
        [⟨⟨"top.sv", 1, 1⟩, .unspecified, .implicit,
            [⟨"a", [], none⟩, ⟨"b", [], some (.number "0")⟩]⟩,
          ⟨⟨"top.sv", 2, 1⟩, .unspecified,
            ⟨ TypeBase.typedef "word", .unspecified, [⟨.number "1", .number "0"⟩],
              TypeBase.fits_unspecified _⟩, [⟨"c", [], none⟩]⟩] := by
  let names : Writing :=
    ⟨⟨⟨"", 0, 0⟩, .unspecified, .implicit, [⟨"a", [], none⟩, ⟨"b", [], some (.number "0")⟩]⟩,
      false,
      [⟨.ident "a", ⟨"top.sv", 1, 1⟩⟩, ⟨.comma, ⟨"top.sv", 1, 2⟩⟩, ⟨.ident "b", ⟨"top.sv", 1, 4⟩⟩,
        ⟨.assign (.plain (.number "0")), ⟨"top.sv", 1, 6⟩⟩],
      List.cons_ne_nil _ _, rfl⟩
  let words : Writing :=
    ⟨⟨⟨"", 0, 0⟩, .unspecified,
        ⟨ TypeBase.typedef "word", .unspecified, [⟨.number "1", .number "0"⟩],
          TypeBase.fits_unspecified _⟩, [⟨"c", [], none⟩]⟩,
      true,
      [⟨.lifetime .automatic, ⟨"top.sv", 2, 1⟩⟩, ⟨.ident "word", ⟨"top.sv", 2, 11⟩⟩,
        ⟨.range .nonIndexed ⟨.number "1", .number "0"⟩, ⟨"top.sv", 2, 15⟩⟩,
        ⟨.ident "c", ⟨"top.sv", 2, 21⟩⟩],
      List.cons_ne_nil _ _, rfl⟩
  have hhead : ∀ w ∈ [words], w.HasHead := List.forall_mem_singleton.2 (Or.inr (Or.inl rfl))
  have hjoin := CommaJoin.cons names.tokens ⟨"top.sv", 1, 9⟩ (CommaJoin.single words.tokens)
  exact @readGroups_of_written [names, words] _ hhead hjoin

end VerilogDecl
