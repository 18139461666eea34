/-
**The first ill-formed segment decides what is wrong.**

A list of declarations that is not read has a segment that is not well-formed.  The reader meets the
segments from left to right, but what it checks first in a segment depends on how it got there: a
segment that looks like one more name of the open group is read as a name, any other one is checked
for its lifetime, then for its signing, and only then for a name.  This module shows that the way
does not matter.  The class of the fault is read off the first ill-formed segment, whatever stands
behind it: the fault is about a qualifier exactly if that segment starts with words that misuse one.

The empty list is not refused, although its only segment is empty.

Main definitions:

* `VerilogDecl.Token.WellFormed`, `VerilogDecl.Token.FirstIllFormed` — the tokens of a segment, and
  the first stretch between commas that is none;
* `VerilogDecl.MisusedQualifier`, `VerilogDecl.Token.Misqualified` — a lifetime or a signing that
  cannot apply, and tokens that start with one;
* `VerilogDecl.FaultOf` — a fault of the class that a segment calls for.

Main results:

* `VerilogDecl.misqualified_iff_refused` — **the words in front of a group are refused exactly if
  they misuse a qualifier**;
* `VerilogDecl.DeclGroup.kind_of_take` — the class of the fault of a group;
* `VerilogDecl.DeclGroup.resume_of_illFormed`, `VerilogDecl.DeclGroup.takeAll_of_illFormed` —
  behind well-formed segments, the first ill-formed one is at fault;
* `VerilogDecl.kind_of_firstIllFormed` — **the first ill-formed segment decides the class of the
  fault**.
-/

import VerilogDecl.Proofs.GroupGrammar

set_option relaxedAutoImplicit false
set_option autoImplicit false

namespace VerilogDecl

namespace Token

/-- The tokens spell a segment. -/
def WellFormed (seg : List Token) : Prop :=
  ∃ s : Segment, s.SpelledBy seg

/-- The stretch `seg` is the first one between commas of `ts` that is not well-formed. -/
def FirstIllFormed (ts seg : List Token) : Prop :=
  ∃ front back, segments ts = front ++ seg :: back ∧ (∀ s ∈ front, WellFormed s) ∧ ¬ WellFormed seg

theorem not_wellFormed_nil : ¬ WellFormed [] := by
  rintro ⟨s, hs⟩
  cases hs.pos

theorem exists_firstIllFormed {ts : List Token} (h : ∃ seg ∈ segments ts, ¬ WellFormed seg) :
    ∃ seg, FirstIllFormed ts seg := by
  classical
  have hfind : (segments ts).find? (fun seg => ¬ WellFormed seg) ≠ none := by
    obtain ⟨seg, hseg, hbad⟩ := h
    intro hnone
    have hgood := List.find?_eq_none.1 hnone seg hseg
    exact hgood (by simpa using hbad)
  obtain ⟨seg, hseg⟩ := Option.ne_none_iff_exists'.1 hfind
  obtain ⟨hbad, front, back, hsegs, hfront⟩ := List.find?_eq_some_iff_append.1 hseg
  refine ⟨seg, front, back, hsegs, fun s hs => ?_, by simpa using hbad⟩
  simpa using hfront s hs

theorem FirstIllFormed.mem_segments {ts seg : List Token} (h : FirstIllFormed ts seg) :
    seg ∈ segments ts := by
  obtain ⟨front, back, hsegs, -, -⟩ := h
  rw [hsegs]
  exact List.mem_append_right _ (List.mem_cons_self ..)

/-- A list is cut at its first comma in only one way. -/
theorem CommaFree.eq_of_append_eq {seg seg' tail tail' : List Token} (hs : CommaFree seg)
    (hs' : CommaFree seg') (ht : EndsSegment tail) (ht' : EndsSegment tail')
    (h : seg ++ tail = seg' ++ tail') : seg = seg' := by
  rw [← beforeComma_append hs ht, h, beforeComma_append hs' ht']

end Token

open Token

/-! ### Misused qualifiers -/

/-- Words in front of a group that end with a qualifier that cannot apply: a static lifetime, or a
signing on a base type that cannot carry one. -/
inductive MisusedQualifier : List Lexeme → Prop
  | lifetime (dir : Option Direction) :
      MisusedQualifier ((dir.map .direction).toList ++ [.lifetime .static])
  | signing (dir : Option Direction) (automatic : Bool) {base : TypeBase} {s : Signing}
      (base_admits : base.admitsSigning = false) (signing_given : s ≠ .unspecified) :
      MisusedQualifier ((dir.map .direction).toList ++
        ((if automatic then [.lifetime .automatic] else []) ++ [.typeBase base, .signing s]))

/-- The tokens start with a qualifier that cannot apply. -/
def Token.Misqualified (ts : List Token) : Prop :=
  ∃ front, MisusedQualifier front ∧ front <+: ts.map Token.lexeme

theorem TypeBase.not_fits_iff {b : TypeBase} {s : Signing} :
    ¬ b.Fits s ↔ b.admitsSigning = false ∧ s ≠ .unspecified := by
  rw [Fits, Classical.not_imp, Bool.not_eq_true, and_comm]

theorem MisusedQualifier.ne_nil {front : List Lexeme} (h : MisusedQualifier front) :
    front ≠ [] := by
  cases h <;> simp

theorem MisusedQualifier.isSeparator_eq {front : List Lexeme} (h : MisusedQualifier front)
    {l : Lexeme} (hl : l ∈ front) : l.isSeparator = false := by
  cases h with
  | lifetime dir => cases dir <;> grind [Lexeme.isSeparator]
  | signing dir automatic hbase hs =>
      cases dir <;> cases automatic <;> grind [Lexeme.isSeparator]

/-- A name in front is no qualifier. -/
theorem MisusedQualifier.not_prefix_ident {front : List Lexeme} (h : MisusedQualifier front)
    (name : String) (ls : List Lexeme) : ¬ front <+: .ident name :: ls := by
  cases h with
  | lifetime dir => cases dir <;> simp
  | signing dir automatic hbase hs => cases dir <;> cases automatic <;> simp

/-- What stands behind the segment does not matter. -/
theorem Token.misqualified_append {seg tail : List Token} (ht : EndsSegment tail) :
    Misqualified (seg ++ tail) ↔ Misqualified seg := by
  constructor
  · rintro ⟨front, hfront, hpre⟩
    refine ⟨front, hfront, ?_⟩
    rw [List.map_append] at hpre
    rcases List.prefix_or_prefix_of_prefix hpre (List.prefix_append _ _) with h | ⟨more, rfl⟩
    · exact h
    · -- what is left of the qualifier would start with the comma behind the segment
      have hmore := (List.prefix_append_right_inj _).1 hpre
      obtain rfl : more = [] := by
        rcases ht.eq_nil_or_comma with rfl | ⟨pos, rest, rfl⟩
        · exact List.prefix_nil.1 hmore
        · cases more with
          | nil => rfl
          | cons l more =>
              obtain ⟨rfl, -⟩ := List.cons_prefix_cons.1 hmore
              cases hfront.isSeparator_eq (List.mem_append_right _ (List.mem_cons_self ..))
      simp only [List.append_nil, List.prefix_refl]
  · rintro ⟨front, hfront, hpre⟩
    exact ⟨front, hfront, hpre.trans (by simp)⟩

theorem Token.not_misqualified_of_starts {ts : List Token} (h : Declarator.starts ts = true) :
    ¬ Misqualified ts := by
  rintro ⟨front, hfront, hpre⟩
  unfold Declarator.starts at h
  split at h
  next name pos ts => exact hfront.not_prefix_ident _ _ hpre
  next => cases h

/-! ### The words in front of a group -/

theorem eq_static_of_skipLifetime {ts : List Token} {fault : DeclFault}
    (h : skipLifetime ts = .error fault) :
    ∃ pos rest, ts = ⟨.lifetime .static, pos⟩ :: rest ∧ fault.kind = .qualifier := by
  unfold skipLifetime at h
  split at h
  · cases h
  next pos rest =>
    cases h
    exact ⟨pos, rest, rfl, rfl⟩
  · cases h

theorem TypeHead.eq_of_not_fits {ts : List Token}
    (h : ¬ (take ts).1.base.Fits (take ts).1.signing) :
    ∃ base s pos pos' rest, ts = ⟨.typeBase base, pos⟩ :: ⟨.signing s, pos'⟩ :: rest ∧
      ¬ base.Fits s := by
  revert h
  fun_cases take ts with
  | case6 base pos s pos' rest =>
      intro h
      exact ⟨base, s, pos, pos', rest, rfl, h⟩
  | case8 s pos rest => exact fun h => absurd (fun _ => rfl) h
  | _ => exact fun h => absurd (TypeBase.fits_unspecified _) h

namespace DeclGroup

theorem exists_not_fits_of_takeDataType {ts : List Token} {fault : DeclFault}
    (h : takeDataType ts = .error fault) :
    (∃ base s pos pos' rest, ts = ⟨.typeBase base, pos⟩ :: ⟨.signing s, pos'⟩ :: rest ∧
      ¬ base.Fits s) ∧ fault.kind = .qualifier := by
  simp only [takeDataType] at h
  by_cases hf : (TypeHead.take ts).1.base.Fits (TypeHead.take ts).1.signing
  · rw [TypeBase.resolve_of_fits hf] at h
    cases h
  · rw [TypeBase.resolve_of_not_fits hf] at h
    cases h
    exact ⟨TypeHead.eq_of_not_fits hf, rfl⟩

theorem takeDataType_of_not_fits {base : TypeBase} {s : Signing} (h : ¬ base.Fits s)
    (pos pos' : Position) (rest : List Token) :
    ∃ fault, takeDataType (⟨.typeBase base, pos⟩ :: ⟨.signing s, pos'⟩ :: rest) =
      .error fault := by
  simp only [takeDataType, TypeHead.take, TypeBase.resolve_of_not_fits h]
  exact ⟨_, rfl⟩

end DeclGroup

/-- **The words in front of a group are refused exactly if they misuse a qualifier.** -/
theorem misqualified_iff_refused {ts : List Token} :
    Misqualified ts ↔ (∃ fault, skipLifetime (takeDirection ts).2 = .error fault) ∨
      ∃ us fault, skipLifetime (takeDirection ts).2 = .ok us ∧
        DeclGroup.takeDataType us = .error fault := by
  constructor
  · rintro ⟨front, hfront, rest, hts⟩
    cases hfront with
    | lifetime dir =>
        rw [List.append_assoc] at hts
        obtain ⟨dirs, us, rfl, hdirs, hus⟩ := List.map_eq_append_iff.1 hts.symm
        obtain ⟨⟨_, pos⟩, us, rfl, rfl, -⟩ := List.map_eq_cons_iff.1 hus
        rw [takeDirection_append hdirs (by simp)]
        exact Or.inl ⟨_, rfl⟩
    | @signing dir automatic base s hbase hs =>
        rw [List.append_assoc, List.append_assoc] at hts
        obtain ⟨dirs, us₁, rfl, hdirs, hus₁⟩ := List.map_eq_append_iff.1 hts.symm
        obtain ⟨lifes, us₂, rfl, hlifes, hus₂⟩ := List.map_eq_append_iff.1 hus₁
        obtain ⟨⟨_, pos⟩, us₃, rfl, rfl, hus₃⟩ := List.map_eq_cons_iff.1 hus₂
        obtain ⟨⟨_, pos'⟩, us, rfl, rfl, -⟩ := List.map_eq_cons_iff.1 hus₃
        obtain ⟨fault, hfault⟩ :=
          DeclGroup.takeDataType_of_not_fits (TypeBase.not_fits_iff.2 ⟨hbase, hs⟩) pos pos' us
        have hdirection : ∀ d, ((lifes ++ ⟨.typeBase base, pos⟩ :: ⟨.signing s, pos'⟩ :: us).map
            Token.lexeme).head? ≠ some (.direction d) := by
          intro d
          rw [hus₁]
          cases automatic <;> simp
        rw [takeDirection_append hdirs hdirection]
        exact Or.inr ⟨_, fault, skipLifetime_append hlifes (by simp), hfault⟩
  · obtain ⟨dir, dirs, hts, hdirs⟩ := exists_words_of_takeDirection ts
    rintro (⟨fault, hlife⟩ | ⟨us, fault, hlife, htype⟩)
    · obtain ⟨pos, rest, hus, -⟩ := eq_static_of_skipLifetime hlife
      refine ⟨_, .lifetime dir, rest.map Token.lexeme, ?_⟩
      rw [hts, hus, List.map_append, hdirs, List.append_assoc]
      rfl
    · obtain ⟨automatic, lifes, hlifes, hl⟩ := exists_words_of_skipLifetime hlife
      obtain ⟨⟨base, s, pos, pos', rest, rfl, hf⟩, -⟩ :=
        DeclGroup.exists_not_fits_of_takeDataType htype
      obtain ⟨hbase, hs⟩ := TypeBase.not_fits_iff.1 hf
      refine ⟨_, .signing dir automatic hbase hs, rest.map Token.lexeme, ?_⟩
      rw [hts, hlifes, List.map_append, List.map_append, hdirs, hl, List.append_assoc,
        List.append_assoc]
      rfl

/-! ### The class of a fault -/

/-- Only words in front of the names can misuse a qualifier. -/
theorem Declarator.kind_of_takeList {ts : List Token} {fault : DeclFault}
    (h : takeList ts = .error fault) : fault.kind = .shape := by
  fun_induction takeList ts with
  | case1 ts fault' htake =>
      obtain rfl := Except.error.inj h
      unfold take at htake
      split at htake
      · cases htake
        rfl
      · cases htake
      · cases htake
        rfl
  | case2 => cases h
  | case3 =>
      cases h
      rfl
  | case4 ts d sep rest htake hsep hne hstart ih =>
      cases hr : takeList rest with
      | error fault' =>
          rw [hr] at h
          obtain rfl := Except.error.inj h
          exact ih hr
      | ok r =>
          rw [hr] at h
          cases h
  | case5 => cases h
  | case6 =>
      cases h
      rfl

/-- The fault of a group is about a qualifier exactly if the group starts with a misused one. -/
theorem DeclGroup.kind_of_take {ts : List Token} {fault : DeclFault} (hne : ts ≠ [])
    (h : take ts = .error fault) : fault.kind = .qualifier ↔ Misqualified ts := by
  obtain ⟨first, ts, rfl⟩ := List.exists_cons_of_ne_nil hne
  rw [misqualified_iff_refused]
  simp only [take, bind, Except.bind, pure, Except.pure] at h
  cases hlife : skipLifetime (takeDirection (first :: ts)).2 with
  | error fault' =>
      rw [hlife] at h
      obtain rfl := Except.error.inj h
      obtain ⟨-, -, -, hkind⟩ := eq_static_of_skipLifetime hlife
      exact iff_of_true hkind (Or.inl ⟨fault', rfl⟩)
  | ok us =>
      simp only [hlife] at h
      cases htype : takeDataType us with
      | error fault' =>
          rw [htype] at h
          obtain rfl := Except.error.inj h
          exact iff_of_true (exists_not_fits_of_takeDataType htype).2
            (Or.inr ⟨us, fault', rfl, htype⟩)
      | ok r =>
          simp only [htype] at h
          cases hlist : Declarator.takeList r.2 with
          | error fault' =>
              rw [hlist] at h
              obtain rfl := Except.error.inj h
              refine iff_of_false ?_ ?_
              · simp [Declarator.kind_of_takeList hlist]
              · rintro (⟨_, hfault⟩ | ⟨_, _, hus, hfault⟩)
                · cases hfault
                · obtain rfl := Except.ok.inj hus
                  rw [htype] at hfault
                  cases hfault
          | ok r' =>
              rw [hlist] at h
              cases h

/-! ### What is read in front is well-formed -/

/-- The names of a group start with a name that ends its segment. -/
theorem Declarator.exists_name_of_takeList {ts rest : List Token} {ds : List Declarator}
    (h : takeList ts = .ok (ds, rest)) :
    ∃ (n : NameWords) (ns tail : List Token), ts = ns ++ tail ∧ ns.map Token.lexeme = n.lexemes ∧
      EndsSegment tail := by
  rw [takeList_eq] at h
  split at h
  · cases h
  next d htake =>
    obtain ⟨n, ns, hts, hn⟩ := exists_words_of_take htake
    exact ⟨n, ns, [], hts, hn, endsSegment_nil⟩
  next d sep tail htake =>
    obtain ⟨n, ns, hts, hn⟩ := exists_words_of_take htake
    split at h
    next hsep =>
      rw [eq_comma_of_isSeparator hsep] at hts
      exact ⟨n, ns, _, hts, hn, endsSegment_comma _ _⟩
    · cases h

section Front

variable {seg tail : List Token}

/-- A segment in front of which names are read is well-formed. -/
theorem wellFormed_of_takeList {hs us rest : List Token} {w : HeadWords} {ds : List Declarator}
    (hfree : CommaFree seg) (ht : EndsSegment tail) (heq : seg ++ tail = hs ++ us)
    (hw : hs.map Token.lexeme = w.lexemes) (h : Declarator.takeList us = .ok (ds, rest)) :
    WellFormed seg := by
  obtain ⟨n, ns, tail', rfl, hn, ht'⟩ := Declarator.exists_name_of_takeList h
  have hfree' : CommaFree (hs ++ ns) := commaFree_append.2 ⟨w.commaFree hw, n.commaFree hn⟩
  rw [← List.append_assoc] at heq
  rw [hfree.eq_of_append_eq hfree' ht ht' heq]
  exact Segment.exists_spelledBy hw hn

theorem wellFormed_of_take {rest : List Token} {g : DeclGroup} (hfree : CommaFree seg)
    (ht : EndsSegment tail) (h : DeclGroup.take (seg ++ tail) = .ok (g, rest)) :
    WellFormed seg := by
  obtain ⟨w, hs, us, heq, hw, hlist⟩ := DeclGroup.exists_words_of_take h
  exact wellFormed_of_takeList hfree ht heq hw hlist

end Front

/-! ### Behind well-formed segments -/

/-- The result is a fault, and it is about a qualifier exactly if `seg` misuses one. -/
def FaultOf {α : Type} (seg : List Token) (r : Except DeclFault α) : Prop :=
  ∃ fault, r = .error fault ∧ (fault.kind = .qualifier ↔ Misqualified seg)

theorem FaultOf.map {α β : Type} {seg : List Token} {r : Except DeclFault α} (h : FaultOf seg r)
    (f : α → β) : FaultOf seg (r.map f) := by
  obtain ⟨fault, rfl, hkind⟩ := h
  exact ⟨fault, rfl, hkind⟩

namespace DeclGroup

section Head

variable {seg tail : List Token}

/-- An ill-formed segment in front is at fault. -/
theorem takeAll_of_illFormed_head (hbad : ¬ WellFormed seg) (hfree : CommaFree seg)
    (ht : EndsSegment tail) (hne : seg ++ tail ≠ []) : FaultOf seg (takeAll (seg ++ tail)) := by
  cases htake : take (seg ++ tail) with
  | ok r => exact absurd (wellFormed_of_take hfree ht htake) hbad
  | error fault =>
      have hkind := kind_of_take hne htake
      rw [misqualified_append ht] at hkind
      obtain ⟨t, ts, hts⟩ := List.exists_cons_of_ne_nil hne
      refine ⟨fault, ?_, hkind⟩
      rw [hts] at htake ⊢
      rw [takeAll_cons, htake]

/-- An ill-formed segment is at fault if the reader takes it for one more name. -/
theorem resume_of_illFormed_starts (hbad : ¬ WellFormed seg) (hfree : CommaFree seg)
    (ht : EndsSegment tail) (hstart : Declarator.starts (seg ++ tail) = true) (g : DeclGroup) :
    FaultOf seg (resume g (seg ++ tail)) := by
  rw [resume]
  cases hlist : Declarator.takeList (seg ++ tail) with
  | ok r =>
      have hgood := wellFormed_of_takeList hfree ht (List.nil_append _).symm
        (List.map_nil.trans HeadWords.lexemes_empty.symm) hlist
      exact absurd hgood hbad
  | error fault =>
      refine ⟨fault, rfl, iff_of_false ?_ ?_⟩
      · simp [Declarator.kind_of_takeList hlist]
      · rw [← misqualified_append ht]
        exact not_misqualified_of_starts hstart

/-- **An ill-formed segment behind a comma is at fault, whether it looks like a name or not.** -/
theorem resume_of_illFormed_next {n : NameWords} {ns : List Token}
    (hn : ns.map Token.lexeme = n.lexemes) (hbad : ¬ WellFormed seg) (hfree : CommaFree seg)
    (ht : EndsSegment tail) (g : DeclGroup) (pos : Position) :
    FaultOf seg (resume g (ns ++ ⟨.comma, pos⟩ :: (seg ++ tail))) := by
  by_cases hne : seg ++ tail = []
  · -- the list ends with the comma
    obtain ⟨rfl, rfl⟩ := List.append_eq_nil_iff.1 hne
    rw [resume, Declarator.takeList_eq, Declarator.take_append hn (endsSegment_comma pos _)]
    refine ⟨.trailingComma, rfl, iff_of_false (by simp [DeclFault.kind]) ?_⟩
    rintro ⟨front, hfront, hpre⟩
    exact hfront.ne_nil (List.prefix_nil.1 hpre)
  · cases hstart : Declarator.starts (seg ++ tail) with
    | true =>
        rw [resume_of_starts hn g pos hstart]
        exact resume_of_illFormed_starts hbad hfree ht hstart _
    | false =>
        rw [resume_of_not_starts hn g pos hne hstart]
        exact (takeAll_of_illFormed_head hbad hfree ht hne).map _

end Head

variable {front back : List (List Token)} {seg ts : List Token}

/-- **Reading on inside an open group, the first ill-formed segment is at fault.** -/
theorem resume_of_illFormed {n : NameWords} {ns : List Token}
    (hn : ns.map Token.lexeme = n.lexemes) (hfront : ∀ s ∈ front, WellFormed s)
    (hbad : ¬ WellFormed seg) (hfree : CommaFree seg)
    (hj : CommaJoin (ns :: (front ++ seg :: back)) ts) (g : DeclGroup) :
    FaultOf seg (resume g ts) := by
  -- the induction is on the well-formed segments between the open group and the fault
  induction front generalizing n ns ts g with
  | nil =>
      cases hj with
      | cons _ pos hj =>
          obtain ⟨tail, rfl, ht⟩ := hj.exists_tail
          exact resume_of_illFormed_next hn hbad hfree ht g pos
  | cons s front ih =>
      obtain ⟨⟨w, hw⟩, hfront'⟩ := List.forall_mem_cons.1 hfront
      obtain ⟨hs, ns', rfl, hh, hn', hpos⟩ := hw.exists_tokens
      cases hj with
      | cons _ pos hj =>
          obtain ⟨rest, rfl, hrest⟩ := hj.split_head
          obtain ⟨tail, rfl, ht⟩ := hrest.exists_tail
          by_cases hname : w.IsName
          · have hempty : w.head = .empty := hname
            obtain rfl : hs = [] := by simpa [hempty] using hh
            rw [List.nil_append, resume_of_starts hn g pos (Declarator.starts_append hn' ht)]
            exact ih hn' hfront' hrest _
          · have hstart := Declarator.starts_head_append hh hn' hname tail
            have hne := ne_nil_of_head_pos hpos tail
            rw [resume_of_not_starts hn g pos hne hstart, takeAll_append hh hn' ht hpos]
            exact (ih hn' hfront' hrest _).map _

/-- **The first ill-formed segment of a list is at fault.** -/
theorem takeAll_of_illFormed (hfront : ∀ s ∈ front, WellFormed s) (hbad : ¬ WellFormed seg)
    (hfree : CommaFree seg) (hj : CommaJoin (front ++ seg :: back) ts) (hne : ts ≠ []) :
    FaultOf seg (takeAll ts) := by
  cases front with
  | nil =>
      obtain ⟨tail, rfl, ht⟩ := hj.exists_tail
      exact takeAll_of_illFormed_head hbad hfree ht hne
  | cons s front =>
      obtain ⟨⟨w, hw⟩, hfront'⟩ := List.forall_mem_cons.1 hfront
      obtain ⟨hs, ns, rfl, hh, hn, hpos⟩ := hw.exists_tokens
      obtain ⟨rest, rfl, hrest⟩ := hj.split_head
      obtain ⟨tail, rfl, ht⟩ := hrest.exists_tail
      rw [takeAll_append hh hn ht hpos]
      exact resume_of_illFormed hn hfront' hbad hfree hrest _

end DeclGroup

/-! ### Lists of declarations -/

/-- The fault of a list is of the class that its first ill-formed segment calls for. -/
theorem readGroups_of_firstIllFormed {ts seg : List Token} (hne : ts ≠ [])
    (h : FirstIllFormed ts seg) :
    ∃ f, readGroups ts = .error f ∧ (f.kind = .qualifier ↔ Misqualified seg) ∧
      (f.kind = .shape ↔ ¬ Misqualified seg) := by
  have hfree := commaFree_of_mem_segments h.mem_segments
  obtain ⟨front, back, hsegs, hfront, hbad⟩ := h
  have hj : CommaJoin (front ++ seg :: back) ts := hsegs ▸ commaJoin_segments ts
  obtain ⟨fault, hfault, hkind⟩ := DeclGroup.takeAll_of_illFormed hfront hbad hfree hj hne
  refine ⟨.decl fault ts, by rw [readGroups, hfault]; rfl, hkind, ?_⟩
  rw [← hkind]
  cases fault <;> simp [Fault.kind, DeclFault.kind]

/-- **A list that is not empty and has an ill-formed segment is refused, and the first such segment
decides the class of the fault**: it is a qualifier if the segment starts with a misused one, and
the shape otherwise, whatever the other segments are. -/
theorem kind_of_firstIllFormed {ts : List Token} (hne : ts ≠ [])
    (h : ∃ seg ∈ segments ts, ¬ WellFormed seg) :
    ∃ f, readGroups ts = .error f ∧ (∃ seg, FirstIllFormed ts seg) ∧
      ∀ seg, FirstIllFormed ts seg →
        (f.kind = .qualifier ↔ Misqualified seg) ∧ (f.kind = .shape ↔ ¬ Misqualified seg) ∧
        ∀ us, us ≠ [] → FirstIllFormed us seg →
          ∃ g, readGroups us = .error g ∧ g.kind = f.kind := by
  obtain ⟨seg₀, hseg₀⟩ := exists_firstIllFormed h
  obtain ⟨f, hf, -⟩ := readGroups_of_firstIllFormed hne hseg₀
  refine ⟨f, hf, ⟨seg₀, hseg₀⟩, fun seg hseg => ?_⟩
  obtain ⟨f', hf', hqualifier, hshape⟩ := readGroups_of_firstIllFormed hne hseg
  obtain rfl := Except.error.inj (hf.symm.trans hf')
  refine ⟨hqualifier, hshape, fun us hus hfirst => ?_⟩
  obtain ⟨g, hg, hqualifier', hshape'⟩ := readGroups_of_firstIllFormed hus hfirst
  refine ⟨g, hg, ?_⟩
  by_cases hmis : Misqualified seg
  · rw [hqualifier'.2 hmis, hqualifier.2 hmis]
  · rw [hshape'.2 hmis, hshape.2 hmis]

unseal Declarator.takeList DeclGroup.takeAll in
/-- In `logic a, real signed z,` the signing is at fault, not the comma at the end. -/
theorem kind_of_firstIllFormed_signing :
    ∃ f, readGroups
      [⟨.typeBase (.vector .logic), ⟨"top.sv", 1, 1⟩⟩, ⟨.ident "a", ⟨"top.sv", 1, 7⟩⟩,
        ⟨.comma, ⟨"top.sv", 1, 8⟩⟩, ⟨.typeBase (.nonInteger .real), ⟨"top.sv", 1, 10⟩⟩,
        ⟨.signing .signed, ⟨"top.sv", 1, 15⟩⟩, ⟨.ident "z", ⟨"top.sv", 1, 22⟩⟩,
        ⟨.comma, ⟨"top.sv", 1, 23⟩⟩] = .error f ∧ f.kind = .qualifier := by
  have hbad : ¬ WellFormed
      [⟨.typeBase (.nonInteger .real), ⟨"top.sv", 1, 10⟩⟩, ⟨.signing .signed, ⟨"top.sv", 1, 15⟩⟩,
        ⟨.ident "z", ⟨"top.sv", 1, 22⟩⟩] := by
    rintro ⟨s, hs⟩
    cases DeclGroup.takeAll_of_commaJoin (List.Forall₂.cons hs List.Forall₂.nil) (.single _)
  have hgood : WellFormed
      [⟨.typeBase (.vector .logic), ⟨"top.sv", 1, 1⟩⟩, ⟨.ident "a", ⟨"top.sv", 1, 7⟩⟩] :=
    ⟨⟨⟨"top.sv", 1, 1⟩, ⟨none, false, .base (.vector .logic) none nofun, []⟩, ⟨"a", [], none⟩⟩,
      rfl, rfl⟩
  have hfirst : FirstIllFormed
      [⟨.typeBase (.vector .logic), ⟨"top.sv", 1, 1⟩⟩, ⟨.ident "a", ⟨"top.sv", 1, 7⟩⟩,
        ⟨.comma, ⟨"top.sv", 1, 8⟩⟩, ⟨.typeBase (.nonInteger .real), ⟨"top.sv", 1, 10⟩⟩,
        ⟨.signing .signed, ⟨"top.sv", 1, 15⟩⟩, ⟨.ident "z", ⟨"top.sv", 1, 22⟩⟩,
        ⟨.comma, ⟨"top.sv", 1, 23⟩⟩] _ :=
    ⟨[_], [[]], rfl, List.forall_mem_singleton.2 hgood, hbad⟩
  obtain ⟨f, hf, -, hkind⟩ :=
    kind_of_firstIllFormed (List.cons_ne_nil _ _) ⟨_, hfirst.mem_segments, hbad⟩
  have hmisused : MisusedQualifier [.typeBase (.nonInteger .real), .signing .signed] :=
    .signing none false rfl nofun
  exact ⟨f, hf, (hkind _ hfirst).1.2 ⟨_, hmisused, [.ident "z"], rfl⟩⟩

/-- The empty list has an empty segment and is read all the same. -/
theorem readGroups_nil_of_illFormed :
    (∃ seg ∈ segments [], ¬ WellFormed seg) ∧ ¬ ∃ f, readGroups [] = .error f := by
  refine ⟨⟨[], List.mem_singleton_self _, not_wellFormed_nil⟩, ?_⟩
  rintro ⟨f, hf⟩
  rw [readGroups_nil] at hf
  cases hf

end VerilogDecl
