/-
**Lists of declarations are read by the grammar of segments.**

The reader of groups walks through its tokens once and decides at every name, by looking ahead,
whether it is a type, another name of the open group or the first word of a new group.  This module
shows that these decisions are those of the grammar.  A list of tokens is read exactly if each of
its segments is well-formed, and the groups are what the segments say when they are taken one after
the other: a segment that is only a name joins the open group, any other one opens a new group.

Main definitions:

* `VerilogDecl.Segment.group`, `VerilogDecl.Segment.groups` — the group that a segment opens, and
  the groups of a list of segments;
* `VerilogDecl.DeclGroup.resume` — reads on inside an open group.

Main results:

* `VerilogDecl.DeclGroup.resume_of_commaJoin`, `VerilogDecl.DeclGroup.takeAll_of_commaJoin` — what
  is spelled by segments is read as the groups of those segments;
* `VerilogDecl.Declarator.segments_of_takeList`, `VerilogDecl.DeclGroup.segments_of_takeAll` — what
  is read has well-formed segments;
* `VerilogDecl.readGroups_iff_spelled` — **exactly the lists of well-formed segments are read, and
  as the groups of their segments**.
-/

import VerilogDecl.DeclList
import VerilogDecl.Proofs.SegmentReading

set_option relaxedAutoImplicit false
set_option autoImplicit false

namespace VerilogDecl

open Token

/-! ### The groups of a list of segments -/

/-- The group `g` with one more name. -/
def DeclGroup.add (g : DeclGroup) (d : Declarator) : DeclGroup :=
  { g with declarators := g.declarators ++ [d] }

namespace Segment

instance (s : Segment) : Decidable s.IsName :=
  decidable_of_iff (s.head.lexemes.isEmpty = true) <| by
    rw [List.isEmpty_iff, HeadWords.lexemes_eq_nil_iff]
    rfl

/-- The group that a segment opens. -/
def group (s : Segment) : DeclGroup :=
  ⟨s.pos, s.head.direction, s.head.dataType, [s.name.declarator]⟩

/-- The group `g` and the groups of the segments behind it.  A name joins the group in front of it,
and any other segment opens a new one. -/
def groupsFrom (g : DeclGroup) : List Segment → List DeclGroup
  | [] => [g]
  | s :: ss =>
    if s.IsName then groupsFrom (g.add s.name.declarator) ss else g :: groupsFrom s.group ss

/-- The groups of a list of segments.  The first segment opens a group, also if it is a name. -/
def groups : List Segment → List DeclGroup
  | [] => []
  | s :: ss => groupsFrom s.group ss

end Segment

/-! ### What is spelled is read -/

theorem CommaJoin.exists_tail {seg ts : List Token} {segs : List (List Token)}
    (h : CommaJoin (seg :: segs) ts) : ∃ tail, ts = seg ++ tail ∧ EndsSegment tail := by
  cases h with
  | single => exact ⟨[], (List.append_nil seg).symm, endsSegment_nil⟩
  | cons _ pos h => exact ⟨_, rfl, endsSegment_comma pos _⟩

theorem Segment.SpelledBy.exists_tokens {s : Segment} {seg : List Token} (h : s.SpelledBy seg) :
    ∃ hs ns, seg = hs ++ ns ∧ hs.map Token.lexeme = s.head.lexemes ∧
      ns.map Token.lexeme = s.name.lexemes ∧ (hs ++ ns).head?.map Token.pos = some s.pos := by
  obtain ⟨hs, ns, rfl, hh, hn⟩ := List.map_eq_append_iff.1 h.lexemes
  exact ⟨hs, ns, rfl, hh, hn, h.pos⟩

namespace DeclGroup

/-- Reads the remaining names of the open group `g` and all groups behind it. -/
def resume (g : DeclGroup) (ts : List Token) : Except DeclFault (List DeclGroup) :=
  match Declarator.takeList ts with
  | .error fault => .error fault
  | .ok (ds, rest) => (takeAll rest).map ({ g with declarators := g.declarators ++ ds } :: ·)

section Resume

variable {n : NameWords} {ns : List Token}

theorem resume_single (hn : ns.map Token.lexeme = n.lexemes) (g : DeclGroup) :
    resume g ns = .ok [g.add n.declarator] := by
  have htake := Declarator.take_append hn endsSegment_nil
  rw [List.append_nil] at htake
  rw [resume, Declarator.takeList_eq, htake]
  simp only [takeAll_nil]
  rfl

/-- Where another declarator starts behind the comma, the group stays open. -/
theorem resume_of_starts (hn : ns.map Token.lexeme = n.lexemes) (g : DeclGroup) (pos : Position)
    {ts : List Token} (hs : Declarator.starts ts = true) :
    resume g (ns ++ ⟨.comma, pos⟩ :: ts) = resume (g.add n.declarator) ts := by
  have hne : ts.isEmpty = false := by
    cases ts with
    | nil => cases hs
    | cons t ts => rfl
  rw [resume, Declarator.takeList_eq, Declarator.take_append hn (endsSegment_comma pos ts), resume]
  simp only [isSeparator_comma, hne, hs, if_true, Bool.false_eq_true, if_false]
  cases Declarator.takeList ts with
  | error fault => rfl
  | ok r =>
      simp only [Except.map, add, List.append_assoc]
      rfl

/-- Where no declarator starts behind the comma, the group is closed. -/
theorem resume_of_not_starts (hn : ns.map Token.lexeme = n.lexemes) (g : DeclGroup)
    (pos : Position) {ts : List Token} (hne : ts ≠ []) (hs : Declarator.starts ts = false) :
    resume g (ns ++ ⟨.comma, pos⟩ :: ts) = (takeAll ts).map (g.add n.declarator :: ·) := by
  have hempty : ts.isEmpty = false := by simpa using hne
  rw [resume, Declarator.takeList_eq, Declarator.take_append hn (endsSegment_comma pos ts)]
  simp only [isSeparator_comma, hempty, hs, if_true, Bool.false_eq_true, if_false]
  rfl

theorem ne_nil_of_head_pos {hs ns : List Token} {pos : Position}
    (hpos : (hs ++ ns).head?.map Token.pos = some pos) (tail : List Token) :
    hs ++ (ns ++ tail) ≠ [] := by
  intro hnil
  rw [← List.append_assoc] at hnil
  rw [(List.append_eq_nil_iff.1 hnil).1] at hpos
  cases hpos

theorem takeAll_append {h : HeadWords} {hs tail : List Token}
    (hh : hs.map Token.lexeme = h.lexemes) (hn : ns.map Token.lexeme = n.lexemes)
    (ht : EndsSegment tail) {pos : Position}
    (hpos : (hs ++ ns).head?.map Token.pos = some pos) :
    takeAll (hs ++ (ns ++ tail)) = resume ⟨pos, h.direction, h.dataType, []⟩ (ns ++ tail) := by
  have htake := take_append hh hn ht hpos
  cases hall : hs ++ (ns ++ tail) with
  | nil => exact absurd hall (ne_nil_of_head_pos hpos tail)
  | cons t ts =>
      rw [hall] at htake
      rw [takeAll_cons, htake, resume]
      cases Declarator.takeList (ns ++ tail) with
      | error fault => rfl
      | ok r => rfl

end Resume

/-- **Reading on inside an open group gives the group and those of the segments behind it.** -/
theorem resume_of_commaJoin {ss : List Segment} {n : NameWords} {ns ts : List Token}
    {segs : List (List Token)} (hn : ns.map Token.lexeme = n.lexemes)
    (hss : List.Forall₂ Segment.SpelledBy ss segs) (hj : CommaJoin (ns :: segs) ts)
    (g : DeclGroup) : resume g ts = .ok (Segment.groupsFrom (g.add n.declarator) ss) := by
  -- the induction is on the segments behind the name, with the group in front of them left open
  induction ss generalizing n ns ts segs g with
  | nil =>
      cases hss
      cases hj
      exact resume_single hn g
  | cons s ss ih =>
      cases hss with
      | cons hs hss =>
          obtain ⟨hs', ns', rfl, hh, hn', hpos⟩ := hs.exists_tokens
          cases hj with
          | cons _ pos hj =>
              obtain ⟨rest, rfl, hrest⟩ := hj.split_head
              obtain ⟨tail, rfl, ht⟩ := hrest.exists_tail
              -- a name keeps the group open, and any other segment makes the reader close it
              by_cases hname : s.IsName
              · have hempty : s.head = .empty := hname
                obtain rfl : hs' = [] := by simpa [hempty] using hh
                have hstart := Declarator.starts_append hn' ht
                rw [List.nil_append, resume_of_starts hn g pos hstart, ih hn' hss hrest,
                  Segment.groupsFrom, if_pos hname]
              · have hstart := Declarator.starts_head_append hh hn' hname tail
                have hne := ne_nil_of_head_pos hpos tail
                rw [resume_of_not_starts hn g pos hne hstart, takeAll_append hh hn' ht hpos,
                  ih hn' hss hrest, Segment.groupsFrom, if_neg hname]
                rfl

/-- **What is spelled by segments is read as the groups of those segments.** -/
theorem takeAll_of_commaJoin {ss : List Segment} {ts : List Token} {segs : List (List Token)}
    (hss : List.Forall₂ Segment.SpelledBy ss segs) (hj : CommaJoin segs ts) :
    takeAll ts = .ok (Segment.groups ss) := by
  cases hss with
  | nil =>
      cases hj
      exact takeAll_nil
  | cons hs hss =>
      obtain ⟨hs', ns, rfl, hh, hn, hpos⟩ := hs.exists_tokens
      obtain ⟨rest, rfl, hrest⟩ := hj.split_head
      obtain ⟨tail, rfl, ht⟩ := hrest.exists_tail
      rw [takeAll_append hh hn ht hpos, resume_of_commaJoin hn hss hrest]
      rfl

end DeclGroup

/-! ### What is read is spelled -/

theorem Segment.exists_spelledBy {h : HeadWords} {n : NameWords} {hs ns : List Token}
    (hh : hs.map Token.lexeme = h.lexemes) (hn : ns.map Token.lexeme = n.lexemes) :
    ∃ s : Segment, s.SpelledBy (hs ++ ns) := by
  cases hall : hs ++ ns with
  | nil =>
      rw [(List.append_eq_nil_iff.1 hall).2] at hn
      cases hn
  | cons t ts =>
      refine ⟨⟨t.pos, h, n⟩, ?_, rfl⟩
      rw [← hall, List.map_append, hh, hn]
      rfl

theorem NameWords.exists_spelledBy {n : NameWords} {ns : List Token}
    (hn : ns.map Token.lexeme = n.lexemes) : ∃ s : Segment, s.SpelledBy ns :=
  Segment.exists_spelledBy (List.map_nil.trans HeadWords.lexemes_empty.symm) hn

/-- The first segment starts with the tokens in front. -/
theorem Token.CommaFree.segments_append {front ts seg : List Token} {segs : List (List Token)}
    (hf : CommaFree front) (hs : segments ts = seg :: segs) :
    segments (front ++ ts) = (front ++ seg) :: segs := by
  have hfree : ∀ s ∈ seg :: segs, CommaFree s := by
    intro s h
    exact commaFree_of_mem_segments (hs ▸ h)
  have hjoin : CommaJoin (seg :: segs) ts := hs ▸ commaJoin_segments ts
  refine (hjoin.append_head front).segments_eq (List.cons_ne_nil _ _) ?_
  intro s h
  rcases List.mem_cons.1 h with rfl | h
  · exact commaFree_append.2 ⟨hf, hfree seg (List.mem_cons_self ..)⟩
  · exact hfree s (List.mem_cons_of_mem _ h)

/-- The names of a group are names of the grammar, if what is left is well-formed. -/
theorem Declarator.segments_of_takeList {ts rest : List Token} {ds : List Declarator}
    (h : takeList ts = .ok (ds, rest))
    (hrest : rest = [] ∨ ∀ seg ∈ segments rest, ∃ s : Segment, s.SpelledBy seg) :
    ∃ (n : NameWords) (ns : List Token) (segs : List (List Token)), segments ts = ns :: segs ∧
      ns.map Token.lexeme = n.lexemes ∧ ∀ seg ∈ segs, ∃ s : Segment, s.SpelledBy seg := by
  -- the cases are those of the reader: a fault, the end, a trailing comma, one more name behind the
  -- comma, a new group behind it, and no comma at all
  fun_induction takeList ts generalizing ds rest with
  | case1 => cases h
  | case2 ts d htake =>
      obtain ⟨n, ns, hts, hn⟩ := exists_words_of_take htake
      rw [List.append_nil] at hts
      subst hts
      exact ⟨n, ts, [], (n.commaFree hn).segments_eq, hn, List.forall_mem_nil _⟩
  | case3 => cases h
  | case4 ts d sep tail htake hsep hne hstart ih =>
      obtain ⟨n, ns, rfl, hn⟩ := exists_words_of_take htake
      cases hr : takeList tail with
      | error fault => simp [hr, Except.map] at h
      | ok r =>
          obtain ⟨-, rfl⟩ : d :: r.1 = ds ∧ r.2 = rest := by simpa [hr, Except.map] using h
          obtain ⟨n', ns', segs, htail, hn', hsegs⟩ := ih hr hrest
          refine ⟨n, ns, ns' :: segs, ?_, hn, ?_⟩
          · rw [eq_comma_of_isSeparator hsep, (n.commaFree hn).segments_append_comma, htail]
          · intro seg hseg
            rcases List.mem_cons.1 hseg with rfl | hseg
            · exact NameWords.exists_spelledBy hn'
            · exact hsegs seg hseg
  | case5 ts d sep tail htake hsep hne hstart =>
      obtain ⟨n, ns, rfl, hn⟩ := exists_words_of_take htake
      obtain ⟨-, rfl⟩ : [d] = ds ∧ tail = rest := by simpa using h
      refine ⟨n, ns, segments tail, ?_, hn, ?_⟩
      · rw [eq_comma_of_isSeparator hsep, (n.commaFree hn).segments_append_comma]
      · rcases hrest with rfl | hrest
        · exact absurd rfl hne
        · exact hrest
  | case6 => cases h

/-- **What is read as groups has well-formed segments.** -/
theorem DeclGroup.segments_of_takeAll {ts : List Token} {gs : List DeclGroup}
    (h : takeAll ts = .ok gs) :
    ts = [] ∨ ∀ seg ∈ segments ts, ∃ s : Segment, s.SpelledBy seg := by
  fun_induction takeAll ts generalizing gs with
  | case1 ts hts => exact Or.inl (List.isEmpty_iff.1 hts)
  | case2 => cases h
  | case3 ts hne g rest htake ih =>
      cases hr : takeAll rest with
      | error fault => simp [hr, Except.map] at h
      | ok gs' =>
          obtain ⟨w, hs, us, rfl, hw, hlist⟩ := exists_words_of_take htake
          obtain ⟨n, ns, segs, hus, hn, hsegs⟩ := Declarator.segments_of_takeList hlist (ih hr)
          refine Or.inr fun seg hseg => ?_
          rw [(w.commaFree hw).segments_append hus] at hseg
          rcases List.mem_cons.1 hseg with rfl | hseg
          · exact Segment.exists_spelledBy hw hn
          · exact hsegs seg hseg

/-! ### The grammar of lists of declarations -/

theorem readGroups_eq_ok_iff {ts : List Token} {gs : List DeclGroup} :
    readGroups ts = .ok gs ↔ DeclGroup.takeAll ts = .ok gs := by
  unfold readGroups
  cases DeclGroup.takeAll ts with
  | error fault => simp [Except.mapError]
  | ok gs' => simp [Except.mapError]

@[simp] theorem readGroups_nil : readGroups [] = .ok [] :=
  readGroups_eq_ok_iff.2 DeclGroup.takeAll_nil

theorem Segment.exists_forall₂_spelledBy {segs : List (List Token)}
    (h : ∀ seg ∈ segs, ∃ s : Segment, s.SpelledBy seg) :
    ∃ ss, List.Forall₂ Segment.SpelledBy ss segs := by
  induction segs with
  | nil => exact ⟨[], List.Forall₂.nil⟩
  | cons seg segs ih =>
      obtain ⟨s, hs⟩ := h seg (List.mem_cons_self ..)
      obtain ⟨ss, hss⟩ := ih fun seg' h' => h seg' (List.mem_cons_of_mem _ h')
      exact ⟨s :: ss, List.Forall₂.cons hs hss⟩

theorem readGroups_of_spelled {ts : List Token} {ss : List Segment}
    (h : List.Forall₂ Segment.SpelledBy ss (segments ts)) :
    readGroups ts = .ok (Segment.groups ss) :=
  readGroups_eq_ok_iff.2 (DeclGroup.takeAll_of_commaJoin h (commaJoin_segments ts))

theorem spelled_of_readGroups {ts : List Token} {gs : List DeclGroup}
    (h : readGroups ts = .ok gs) : (ts = [] ∧ gs = []) ∨
      ∃ ss, List.Forall₂ Segment.SpelledBy ss (segments ts) ∧ gs = Segment.groups ss := by
  rcases DeclGroup.segments_of_takeAll (readGroups_eq_ok_iff.1 h) with rfl | hsegs
  · exact Or.inl ⟨rfl, Except.ok.inj (h.symm.trans readGroups_nil)⟩
  · obtain ⟨ss, hss⟩ := Segment.exists_forall₂_spelledBy hsegs
    exact Or.inr ⟨ss, hss, Except.ok.inj (h.symm.trans (readGroups_of_spelled hss))⟩

/-- A list that is read holds nothing but commas and words of declarations. -/
theorem isDeclWord_of_readGroups {ts : List Token} {gs : List DeclGroup}
    (h : readGroups ts = .ok gs) {t : Token} (ht : t ∈ ts) :
    t.isSeparator = true ∨ t.lexeme.isDeclWord = true := by
  rcases DeclGroup.segments_of_takeAll (readGroups_eq_ok_iff.1 h) with rfl | hsegs
  · cases ht
  rcases (commaJoin_segments ts).isSeparator_or_mem ht with hsep | ⟨seg, hseg, ht⟩
  · exact Or.inl hsep
  · obtain ⟨s, hs⟩ := hsegs seg hseg
    refine Or.inr (Segment.isDeclWord_of_mem_lexemes (s := s) ?_)
    rw [← hs.lexemes]
    exact List.mem_map_of_mem ht

/-- A list that is read does not start with an assignment. -/
theorem isHeadWord_of_readGroups {t : Token} {ts : List Token} {gs : List DeclGroup}
    (h : readGroups (t :: ts) = .ok gs) : t.lexeme.isHeadWord = true := by
  rcases DeclGroup.segments_of_takeAll (readGroups_eq_ok_iff.1 h) with hnil | hsegs
  · cases hnil
  obtain ⟨seg, segs, hseg⟩ := List.exists_cons_of_ne_nil (segments_ne_nil (t :: ts))
  obtain ⟨s, hs⟩ := hsegs seg (hseg ▸ List.mem_cons_self ..)
  obtain ⟨l, ls, hl, hword⟩ := s.exists_cons_lexemes
  obtain ⟨t', seg, rfl, rfl, -⟩ := List.map_eq_cons_iff.1 (hs.lexemes.trans hl)
  obtain ⟨tail, htail, -⟩ := (hseg ▸ commaJoin_segments (t :: ts)).exists_tail
  obtain ⟨rfl, -⟩ := List.cons.inj htail
  exact hword

/-- **A list of tokens is read exactly if it is empty or each of its segments is well-formed, a
well-formed segment is cut into words in only one way, and the groups that are read are those of
the segments.** -/
theorem readGroups_iff_spelled (ts : List Token) :
    (∀ seg ∈ segments ts, ∀ s s' : Segment, s.SpelledBy seg → s'.SpelledBy seg → s = s') ∧
    ((∃ gs, readGroups ts = .ok gs) ↔
      ts = [] ∨ ∀ seg ∈ segments ts, ∃ s : Segment, s.SpelledBy seg) ∧
    ∀ gs, readGroups ts = .ok gs ↔
      (ts = [] ∧ gs = []) ∨
        ∃ ss, List.Forall₂ Segment.SpelledBy ss (segments ts) ∧ gs = Segment.groups ss := by
  refine ⟨fun seg _ s s' h h' => h.unique h', ⟨?_, ?_⟩, fun gs => ⟨spelled_of_readGroups, ?_⟩⟩
  · rintro ⟨gs, h⟩
    exact DeclGroup.segments_of_takeAll (readGroups_eq_ok_iff.1 h)
  · rintro (rfl | h)
    · exact ⟨[], readGroups_nil⟩
    · obtain ⟨ss, hss⟩ := Segment.exists_forall₂_spelledBy h
      exact ⟨Segment.groups ss, readGroups_of_spelled hss⟩
  · rintro (⟨rfl, rfl⟩ | ⟨ss, hss, rfl⟩)
    · exact readGroups_nil
    · exact readGroups_of_spelled hss

/-! ### Declarations of one group -/

/-- Every group of a list of segments has a name. -/
theorem Segment.declarators_ne_nil {ss : List Segment} {g : DeclGroup} (h : g ∈ groups ss) :
    g.declarators ≠ [] := by
  have hfrom : ∀ (ss : List Segment) (g₀ : DeclGroup), g₀.declarators ≠ [] →
      g ∈ groupsFrom g₀ ss → g.declarators ≠ [] := by
    intro ss
    induction ss with
    | nil =>
        intro g₀ h₀ hg
        rwa [List.mem_singleton.1 hg]
    | cons s ss ih =>
        intro g₀ h₀ hg
        rw [groupsFrom] at hg
        split at hg
        · exact ih _ (List.append_ne_nil_of_right_ne_nil _ (List.cons_ne_nil _ _)) hg
        · rcases List.mem_cons.1 hg with rfl | hg
          · exact h₀
          · exact ih _ (List.cons_ne_nil _ _) hg
  cases ss with
  | nil => cases h
  | cons s ss => exact hfrom ss s.group (List.cons_ne_nil _ _) h

/-- The declarations of a group are read if all assignments are plain and there is one group. -/
theorem readDecl_eq_ok_iff {options : Options} {ts : List Token} {ds : List Decl} :
    readDecl options ts = .ok ds ↔ (∀ t ∈ ts, t.lexeme.isImproperAssign = false) ∧
      ∃ g, readGroups ts = .ok [g] ∧ ds = g.decls options := by
  rw [← refuseImproperAssigns_eq_ok_iff]
  unfold readDecl
  cases refuseImproperAssigns ts with
  | error fault =>
      constructor
      · intro h
        cases h
      · rintro ⟨h, -⟩
        cases h
  | ok u =>
      cases readGroups ts with
      | error fault =>
          constructor
          · intro h
            cases h
          · rintro ⟨-, g, hg, -⟩
            cases hg
      | ok gs =>
          constructor
          · intro h
            rcases gs with _ | ⟨g, _ | ⟨g', gs⟩⟩
            · cases h
            · exact ⟨rfl, g, rfl, (Except.ok.inj h).symm⟩
            · cases h
          · rintro ⟨-, g, hg, rfl⟩
            obtain rfl := Except.ok.inj hg
            rfl

/-- What is read as declarations of a group declares a name. -/
theorem ne_nil_of_readDecl {options : Options} {ts : List Token} {ds : List Decl}
    (h : readDecl options ts = .ok ds) : ds ≠ [] := by
  obtain ⟨-, g, hg, rfl⟩ := readDecl_eq_ok_iff.1 h
  rcases spelled_of_readGroups hg with ⟨-, hnil⟩ | ⟨ss, -, hss⟩
  · cases hnil
  · have hne : g.declarators ≠ [] :=
      Segment.declarators_ne_nil (hss ▸ List.mem_singleton_self g)
    refine List.append_ne_nil_of_right_ne_nil _ fun hnil => hne ?_
    exact List.map_eq_nil_iff.1 hnil

end VerilogDecl
