/-
**Lists of tokens as segments between commas.**

Whatever is read from a list of tokens is read segment by segment.  This module says what the
segments of a list are: the comma-free lists that give the list back when a comma is put between
neighbours.  Places play no part in it, so the commas may stand anywhere.

Main definitions:

* `VerilogDecl.Token.CommaFree` — no token of the list is a comma;
* `VerilogDecl.CommaJoin` — lists of tokens joined by commas.

Main results:

* `VerilogDecl.Token.segment_induction` — induction along the segments of a list;
* `VerilogDecl.commaJoin_segments`, `VerilogDecl.CommaJoin.segments_eq` — **the segments of a list
  are the only comma-free lists that it joins**;
* `VerilogDecl.CommaJoin.split_head`, `VerilogDecl.CommaJoin.append_head` — what stands in front of
  a join belongs to its first list;
* `VerilogDecl.CommaJoin.append`, `VerilogDecl.CommaJoin.split_append` — two joins with a comma
  between them are one join, and a join of two lists of lists is cut into two joins.
-/

import VerilogDecl.Token
import Mathlib.Data.List.Forall2

set_option relaxedAutoImplicit false
set_option autoImplicit false

namespace VerilogDecl

namespace Token

/-- No token of the list is a comma. -/
def CommaFree (ts : List Token) : Prop :=
  ∀ t ∈ ts, t.isSeparator = false

@[simp] theorem isSeparator_comma (pos : Position) : isSeparator ⟨.comma, pos⟩ = true := rfl

theorem eq_comma_of_isSeparator {t : Token} (h : t.isSeparator = true) : t = ⟨.comma, t.pos⟩ := by
  obtain ⟨l, pos⟩ := t
  cases l with
  | comma => rfl
  | _ => cases h

@[simp] theorem commaFree_nil : CommaFree [] := by
  intro t ht
  cases ht

theorem commaFree_cons {t : Token} {ts : List Token} :
    CommaFree (t :: ts) ↔ t.isSeparator = false ∧ CommaFree ts :=
  List.forall_mem_cons

theorem commaFree_append {ts us : List Token} :
    CommaFree (ts ++ us) ↔ CommaFree ts ∧ CommaFree us :=
  List.forall_mem_append

theorem commaFree_of_lexemes {ts : List Token}
    (h : ∀ l ∈ ts.map Token.lexeme, l.isSeparator = false) : CommaFree ts := by
  intro t ht
  exact h t.lexeme (List.mem_map_of_mem ht)

theorem CommaFree.segments_eq {ts : List Token} (h : CommaFree ts) : segments ts = [ts] :=
  List.splitOnP_eq_singleton h

/-- The first segment ends at the first comma. -/
theorem CommaFree.segments_append_comma {seg : List Token} (h : CommaFree seg) (pos : Position)
    (ts : List Token) : segments (seg ++ ⟨.comma, pos⟩ :: ts) = seg :: segments ts :=
  List.splitOnP_append_cons_of_forall_mem h _ (isSeparator_comma pos) ts

/-- A list has only one segment, or it has a first segment and a comma behind it. -/
theorem commaFree_or_exists_comma (ts : List Token) :
    CommaFree ts ∨ ∃ seg pos rest, CommaFree seg ∧ ts = seg ++ ⟨.comma, pos⟩ :: rest := by
  induction ts with
  | nil => exact Or.inl commaFree_nil
  | cons t ts ih =>
      cases ht : t.isSeparator with
      | true =>
          refine Or.inr ⟨[], t.pos, ts, commaFree_nil, ?_⟩
          rw [List.nil_append, ← eq_comma_of_isSeparator ht]
      | false =>
          rcases ih with h | ⟨seg, pos, rest, h, rfl⟩
          · exact Or.inl (commaFree_cons.2 ⟨ht, h⟩)
          · exact Or.inr ⟨t :: seg, pos, rest, commaFree_cons.2 ⟨ht, h⟩, rfl⟩

/-- Induction along the segments of a list. -/
@[elab_as_elim] theorem segment_induction {motive : List Token → Prop}
    (single : ∀ ts, CommaFree ts → motive ts)
    (cons : ∀ seg pos rest, CommaFree seg → motive rest →
      motive (seg ++ ⟨.comma, pos⟩ :: rest)) (ts : List Token) : motive ts := by
  induction hn : ts.length using Nat.strongRecOn generalizing ts with
  | _ n ih =>
      rcases commaFree_or_exists_comma ts with h | ⟨seg, pos, rest, h, rfl⟩
      · exact single ts h
      · refine cons seg pos rest h (ih rest.length ?_ rest rfl)
        rw [← hn, List.length_append, List.length_cons]
        omega

end Token

open Token

/-- The lists `segs`, with a comma at any place between neighbours, are the tokens `ts`. -/
inductive CommaJoin : List (List Token) → List Token → Prop
  | nil : CommaJoin [] []
  | single (seg : List Token) : CommaJoin [seg] seg
  | cons (seg : List Token) (pos : Position) {next : List Token} {segs : List (List Token)}
      {ts : List Token} : CommaJoin (next :: segs) ts →
      CommaJoin (seg :: next :: segs) (seg ++ ⟨.comma, pos⟩ :: ts)

/-- Every list is the join of its segments. -/
theorem commaJoin_segments (ts : List Token) : CommaJoin (segments ts) ts := by
  induction ts using segment_induction with
  | single ts h =>
      rw [h.segments_eq]
      exact CommaJoin.single ts
  | cons seg pos rest h ih =>
      rw [h.segments_append_comma]
      obtain ⟨next, segs, hsegs⟩ := List.exists_cons_of_ne_nil (segments_ne_nil rest)
      rw [hsegs] at ih ⊢
      exact CommaJoin.cons seg pos ih

/-- No segment holds a comma. -/
theorem commaFree_of_mem_segments {ts seg : List Token} (h : seg ∈ segments ts) :
    CommaFree seg := by
  induction ts using segment_induction with
  | single ts hts =>
      rw [hts.segments_eq, List.mem_singleton] at h
      exact h ▸ hts
  | cons first pos rest hfirst ih =>
      rw [hfirst.segments_append_comma] at h
      rcases List.mem_cons.1 h with rfl | h
      · exact hfirst
      · exact ih h

/-- Every segment is a stretch of the list. -/
theorem infix_of_mem_segments {ts seg : List Token} (h : seg ∈ segments ts) : seg <:+: ts := by
  induction ts using segment_induction with
  | single ts hts =>
      rw [hts.segments_eq, List.mem_singleton] at h
      exact h ▸ List.infix_rfl
  | cons first pos rest hfirst ih =>
      rw [hfirst.segments_append_comma] at h
      rcases List.mem_cons.1 h with rfl | h
      · exact (List.prefix_append _ _).isInfix
      · exact (ih h).trans
          ((List.suffix_cons _ rest).trans (List.suffix_append first _)).isInfix

namespace CommaJoin

/-- Comma-free lists are the segments of their join. -/
theorem segments_eq {segs : List (List Token)} {ts : List Token} (h : CommaJoin segs ts)
    (hne : segs ≠ []) (hfree : ∀ seg ∈ segs, CommaFree seg) : segments ts = segs := by
  induction h with
  | nil => exact absurd rfl hne
  | single seg => exact (hfree seg (List.mem_singleton_self seg)).segments_eq
  | cons seg pos _ ih =>
      have hseg : CommaFree seg := hfree seg (List.mem_cons_self ..)
      have htail := ih (List.cons_ne_nil _ _) fun s hs => hfree s (List.mem_cons_of_mem _ hs)
      rw [hseg.segments_append_comma, htail]

theorem split_head {front back : List Token} {segs : List (List Token)} {ts : List Token}
    (h : CommaJoin ((front ++ back) :: segs) ts) :
    ∃ rest, ts = front ++ rest ∧ CommaJoin (back :: segs) rest := by
  cases h with
  | single => exact ⟨back, rfl, single back⟩
  | cons _ pos h => exact ⟨back ++ ⟨.comma, pos⟩ :: _, List.append_assoc .., cons back pos h⟩

theorem append_head (front : List Token) {seg : List Token} {segs : List (List Token)}
    {ts : List Token} (h : CommaJoin (seg :: segs) ts) :
    CommaJoin ((front ++ seg) :: segs) (front ++ ts) := by
  cases h with
  | single => exact single (front ++ seg)
  | cons _ pos h =>
      rw [← List.append_assoc]
      exact cons (front ++ seg) pos h

/-- Two joins with a comma between them are one join. -/
theorem append {segs segs' : List (List Token)} {ts ts' : List Token} (h : CommaJoin segs ts)
    (hne : segs ≠ []) (h' : CommaJoin segs' ts') (hne' : segs' ≠ []) (pos : Position) :
    CommaJoin (segs ++ segs') (ts ++ ⟨.comma, pos⟩ :: ts') := by
  obtain ⟨next, rest, rfl⟩ := List.exists_cons_of_ne_nil hne'
  induction h with
  | nil => exact absurd rfl hne
  | single seg => exact cons seg pos h'
  | cons seg p _ ih =>
      rw [List.append_assoc]
      exact cons seg p (ih (List.cons_ne_nil _ _))

/-- A join of two lists of lists is cut at the comma between them. -/
theorem split_append {segs segs' : List (List Token)} {ts : List Token}
    (h : CommaJoin (segs ++ segs') ts) (hne : segs ≠ []) (hne' : segs' ≠ []) :
    ∃ us pos vs, ts = us ++ ⟨.comma, pos⟩ :: vs ∧ CommaJoin segs us ∧ CommaJoin segs' vs := by
  obtain ⟨next, rest, rfl⟩ := List.exists_cons_of_ne_nil hne'
  induction segs generalizing ts with
  | nil => exact absurd rfl hne
  | cons seg segs ih =>
      cases segs with
      | nil =>
          cases h with
          | cons _ pos h => exact ⟨seg, pos, _, rfl, single seg, h⟩
      | cons seg' segs =>
          cases h with
          | cons _ pos h =>
              obtain ⟨us, pos', vs, rfl, hus, hvs⟩ := ih (List.cons_ne_nil _ _) h
              exact ⟨seg ++ ⟨.comma, pos⟩ :: us, pos', vs, by simp, cons seg pos hus, hvs⟩

/-- Every token of a join is a comma or stands in one of the lists. -/
theorem isSeparator_or_mem {segs : List (List Token)} {ts : List Token} (h : CommaJoin segs ts)
    {t : Token} (ht : t ∈ ts) : t.isSeparator = true ∨ ∃ seg ∈ segs, t ∈ seg := by
  induction h with
  | nil => cases ht
  | single seg => exact Or.inr ⟨seg, List.mem_singleton_self seg, ht⟩
  | cons seg pos _ ih =>
      rcases List.mem_append.1 ht with ht | ht
      · exact Or.inr ⟨seg, List.mem_cons_self .., ht⟩
      rcases List.mem_cons.1 ht with rfl | ht
      · exact Or.inl rfl
      rcases ih ht with hsep | ⟨seg', hseg', ht⟩
      · exact Or.inl hsep
      · exact Or.inr ⟨seg', List.mem_cons_of_mem _ hseg', ht⟩

end CommaJoin

end VerilogDecl
