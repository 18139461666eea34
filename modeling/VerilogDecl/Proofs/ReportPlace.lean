/-
**Reports point into the tokens that were read.**

The readers say in many ways which tokens show a fault: the whole list, what is left of it, one
token, a segment, the words of a type, the front of a statement.  Some of these lists may be empty,
and then the report needs a place from elsewhere.  This module goes through all of them.  A reader
of declarations works on a suffix of the list, so each of its lemmas is stated for a suffix `ts` of
the list `whole`; the invariant is that what shows a fault is a non-empty stretch of `whole`.

Main definitions:

* `VerilogDecl.Report.PointsInto` — the report shows tokens of a list and has the place of one;
* `VerilogDecl.DeclFault.PointsInto` — a fault of declarations shows some tokens of a list.

Main results:

* `VerilogDecl.Fault.pointsInto_of_tokens`, `VerilogDecl.Fault.pointsInto_target` — the two ways in
  which a fault comes by its place;
* `VerilogDecl.DeclGroup.pointsInto_of_takeAll`, `VerilogDecl.ForAssign.pointsInto_of_takeAll`,
  `VerilogDecl.pointsInto_of_readInstances` — the faults of the readers that run through a list;
* `VerilogDecl.report_pointsInto` — **every report points into the list, and only a fault of the
  empty list has no place**.
-/

import VerilogDecl.BlockItem
import VerilogDecl.ForInit
import VerilogDecl.PortList
import VerilogDecl.Proofs.Instantiation
import VerilogDecl.Report
import Mathlib.Data.List.Infix

set_option relaxedAutoImplicit false
set_option autoImplicit false

namespace VerilogDecl

open Token

/-! ### The place of a report -/

/-- The report `r` points into the tokens `ts`. -/
structure Report.PointsInto (r : Report) (ts : List Token) : Prop where
  /-- The tokens that show the fault stand side by side in the list. -/
  tokens : r.tokens <:+: ts
  /-- The place is missing exactly if there are no tokens. -/
  pos_eq_none_iff : r.pos = none ↔ ts = []
  /-- The place is that of a token. -/
  exists_mem : ∀ pos, r.pos = some pos → ∃ t ∈ ts, t.pos = pos

namespace Fault

/-- A fault without a place of its own is at the first token that shows it. -/
theorem pointsInto_of_tokens {f : Fault} {ts : List Token} (hpos : f.pos? = none)
    (h : f.tokens <:+: ts) (hne : ts ≠ [] → f.tokens ≠ []) : f.report.PointsInto ts := by
  have hreport : f.report.pos = f.tokens.head?.map Token.pos := by
    simp [report, Report.of, hpos]
  refine ⟨h, ?_, ?_⟩
  · rw [hreport, Option.map_eq_none_iff, List.head?_eq_none_iff]
    constructor
    · intro hnil
      by_contra hts
      exact hne hts hnil
    · rintro rfl
      exact List.eq_nil_of_infix_nil h
  · intro pos hp
    rw [hreport] at hp
    obtain ⟨t, ht, rfl⟩ := Option.map_eq_some_iff.1 hp
    exact ⟨t, h.subset (List.mem_of_head? ht), rfl⟩

/-- A fault that the whole list shows points into it. -/
theorem pointsInto_whole {f : Fault} {ts : List Token} (hpos : f.pos? = none)
    (h : f.tokens = ts) : f.report.PointsInto ts :=
  pointsInto_of_tokens hpos (h ▸ List.infix_rfl) fun hne => h ▸ hne

/-- The fault of a target has a place of its own, because there may be no tokens to show it. -/
theorem pointsInto_target {front ts : List Token} {t : Token} (h : front <:+: ts) (ht : t ∈ ts) :
    (target front t.pos).report.PointsInto ts := by
  refine ⟨h, ?_, ?_⟩
  · refine iff_of_false (by simp [report, Report.of, pos?]) ?_
    rintro rfl
    cases ht
  · intro pos hp
    obtain rfl : t.pos = pos := by simpa [report, Report.of, pos?] using hp
    exact ⟨t, ht, rfl⟩

end Fault

/-! ### Faults of declarations -/

/-- The fault `c` is shown by a non-empty stretch of `whole`. -/
def DeclFault.PointsInto (c : DeclFault) (whole : List Token) : Prop :=
  c.tokens whole <:+: whole ∧ c.tokens whole ≠ []

theorem Declarator.take_suffix {ts rest : List Token} {d : Declarator}
    (h : take ts = .ok (d, rest)) : rest <:+ ts :=
  (take_suffix_tail h).trans (List.tail_suffix ts)

theorem Declarator.takeList_suffix {ts rest : List Token} {ds : List Declarator}
    (h : takeList ts = .ok (ds, rest)) : rest <:+ ts := by
  fun_induction takeList ts generalizing ds rest with
  | case1 => cases h
  | case2 ts d htake =>
      obtain ⟨-, rfl⟩ : [d] = ds ∧ [] = rest := by simpa using h
      exact List.nil_suffix
  | case3 => cases h
  | case4 ts d sep tail htake hsep hne hstart ih =>
      have htail : tail <:+ ts := (List.suffix_cons sep tail).trans (take_suffix htake)
      cases hr : takeList tail with
      | error fault => simp [hr, Except.map] at h
      | ok r =>
          obtain ⟨-, rfl⟩ : d :: r.1 = ds ∧ r.2 = rest := by simpa [hr, Except.map] using h
          exact (ih hr).trans htail
  | case5 ts d sep tail htake =>
      obtain ⟨-, rfl⟩ : [d] = ds ∧ tail = rest := by simpa using h
      exact (List.suffix_cons sep tail).trans (take_suffix htake)
  | case6 => cases h

theorem DeclGroup.take_suffix {ts rest : List Token} {g : DeclGroup}
    (h : take ts = .ok (g, rest)) : rest <:+ ts := by
  obtain ⟨us, type, ws, hskip, htype, hlist⟩ := exists_read_of_take h
  have hws : ws <:+ ts :=
    (takeDataType_suffix htype).trans
      ((skipLifetime_suffix hskip).trans (takeDirection_suffix ts))
  exact (Declarator.takeList_suffix hlist).trans hws

/-- A signing is not read from nothing. -/
theorem TypeHead.length_take_lt {ts : List Token} (h : (take ts).1.signing ≠ .unspecified) :
    (take ts).2.length < ts.length := by
  revert h
  fun_cases take ts with
  | case6 base pos s pos' ts =>
      intro _
      simp only [List.length_cons]
      omega
  | case8 s pos ts =>
      intro _
      exact Nat.lt_succ_self _
  | _ =>
      intro h
      exact absurd rfl h

section DeclFault

variable {whole ts : List Token} {c : DeclFault}

theorem Declarator.pointsInto_of_take (hs : ts <:+ whole) (hne : whole ≠ [])
    (h : take ts = .error c) : c.PointsInto whole := by
  unfold take at h
  split at h
  next =>
    cases h
    exact ⟨List.infix_rfl, hne⟩
  next => cases h
  next t ts _ =>
    cases h
    exact ⟨(List.singleton_infix_iff _ _).2 (hs.subset (List.mem_cons_self ..)),
      List.cons_ne_nil _ _⟩

theorem Declarator.pointsInto_of_takeList (hs : ts <:+ whole) (hne : whole ≠ [])
    (h : takeList ts = .error c) : c.PointsInto whole := by
  fun_induction takeList ts generalizing c with
  | case1 ts fault htake =>
      cases h
      exact pointsInto_of_take hs hne htake
  | case2 => cases h
  | case3 =>
      cases h
      exact ⟨List.infix_rfl, hne⟩
  | case4 ts d sep tail htake hsep _ hstart ih =>
      have hrest : tail <:+ ts := (List.suffix_cons sep tail).trans (take_suffix htake)
      cases hr : takeList tail with
      | error fault =>
          obtain rfl : fault = c := by simpa [hr, Except.map] using h
          exact ih (hrest.trans hs) hr
      | ok r => simp [hr, Except.map] at h
  | case5 => cases h
  | case6 ts d sep tail htake hsep =>
      cases h
      exact ⟨((take_suffix htake).trans hs).isInfix, List.cons_ne_nil _ _⟩

theorem pointsInto_of_skipLifetime (hs : ts <:+ whole) (h : skipLifetime ts = .error c) :
    c.PointsInto whole := by
  unfold skipLifetime at h
  split at h
  next => cases h
  next pos ts =>
    cases h
    exact ⟨(List.singleton_infix_iff _ _).2 (hs.subset (List.mem_cons_self ..)),
      List.cons_ne_nil _ _⟩
  next => cases h

/-- The words of a type show a misused signing, because the signing is one of them. -/
theorem DeclGroup.pointsInto_of_takeDataType (hs : ts <:+ whole)
    (h : takeDataType ts = .error c) : c.PointsInto whole := by
  simp only [takeDataType] at h
  split at h
  next => cases h
  next misuse hres =>
    cases h
    have hfits : ¬ (TypeHead.take ts).1.base.Fits (TypeHead.take ts).1.signing := by
      intro hfits
      rw [TypeBase.resolve_of_fits hfits] at hres
      cases hres
    have hsigning : (TypeHead.take ts).1.signing ≠ .unspecified := by
      intro hnone
      exact hfits (hnone ▸ TypeBase.fits_unspecified _)
    have hlt := TypeHead.length_take_lt hsigning
    have hle := Dimension.length_after_le (TypeHead.take ts).2
    refine ⟨(List.take_prefix _ ts).isInfix.trans hs.isInfix, ?_⟩
    intro hnil
    have hlen := congrArg List.length hnil
    simp only [DeclFault.tokens, List.length_take, List.length_nil] at hlen
    omega

theorem DeclGroup.pointsInto_of_take (hs : ts <:+ whole) (hne : whole ≠ [])
    (h : take ts = .error c) : c.PointsInto whole := by
  cases ts with
  | nil =>
      cases h
      exact ⟨List.infix_rfl, hne⟩
  | cons first ts =>
      have hdir := (takeDirection_suffix (first :: ts)).trans hs
      simp only [take, bind, Except.bind, pure, Except.pure] at h
      split at h
      next fault hskip =>
        cases h
        exact pointsInto_of_skipLifetime hdir hskip
      next us hskip =>
        have hus := (skipLifetime_suffix hskip).trans hdir
        split at h
        next fault htype =>
          cases h
          exact pointsInto_of_takeDataType hus htype
        next r htype =>
          have hr := (takeDataType_suffix htype).trans hus
          split at h
          next fault hlist =>
            cases h
            exact Declarator.pointsInto_of_takeList hr hne hlist
          next => cases h

/-- **Some tokens of the list show each fault of a list of groups.** -/
theorem DeclGroup.pointsInto_of_takeAll (hs : ts <:+ whole) (hne : whole ≠ [])
    (h : takeAll ts = .error c) : c.PointsInto whole := by
  fun_induction takeAll ts generalizing c with
  | case1 => cases h
  | case2 ts _ fault htake =>
      cases h
      exact pointsInto_of_take hs hne htake
  | case3 ts _ g rest htake ih =>
      cases hr : takeAll rest with
      | error fault =>
          obtain rfl : fault = c := by simpa [hr, Except.map] using h
          exact ih ((take_suffix htake).trans hs) hr
      | ok gs => simp [hr, Except.map] at h

end DeclFault

/-! ### Lists of declarations -/

/-- A fault of two steps is that of the first one, or of the second one behind it. -/
theorem bind_eq_error_iff {ε α β : Type} {x : Except ε α} {k : α → Except ε β} {e : ε} :
    x >>= k = .error e ↔ x = .error e ∨ ∃ a, x = .ok a ∧ k a = .error e := by
  cases x with
  | error e' => simp [bind, Except.bind]
  | ok a => simp [bind, Except.bind]

section Lists

variable {options : Options} {ts : List Token} {f : Fault}

theorem pointsInto_of_refuseImproperAssigns (h : refuseImproperAssigns ts = .error f) :
    f.report.PointsInto ts := by
  unfold refuseImproperAssigns at h
  split at h
  next t ht =>
    cases h
    have hmid : [t] <:+: ts := (List.singleton_infix_iff t ts).2 (List.mem_of_find?_eq_some ht)
    exact Fault.pointsInto_of_tokens rfl hmid fun _ => List.cons_ne_nil _ _
  next => cases h

theorem pointsInto_of_readGroups (h : readGroups ts = .error f) : f.report.PointsInto ts := by
  unfold readGroups at h
  cases htake : DeclGroup.takeAll ts with
  | ok gs => simp [htake, Except.mapError] at h
  | error c =>
      obtain rfl : .decl c ts = f := by simpa [htake, Except.mapError] using h
      have hne : ts ≠ [] := by
        rintro rfl
        rw [DeclGroup.takeAll_nil] at htake
        cases htake
      obtain ⟨hmid, hcause⟩ := DeclGroup.pointsInto_of_takeAll (List.suffix_refl ts) hne htake
      exact Fault.pointsInto_of_tokens rfl hmid fun _ => hcause

theorem pointsInto_of_readDecls (h : readDecls options ts = .error f) :
    f.report.PointsInto ts := by
  unfold readDecls at h
  rcases bind_eq_error_iff.1 h with h | ⟨_, -, h⟩
  · exact pointsInto_of_refuseImproperAssigns h
  rcases bind_eq_error_iff.1 h with h | ⟨gs, -, h⟩
  · exact pointsInto_of_readGroups h
  · cases h

theorem pointsInto_of_readDecl (h : readDecl options ts = .error f) : f.report.PointsInto ts := by
  unfold readDecl at h
  rcases bind_eq_error_iff.1 h with h | ⟨_, -, h⟩
  · exact pointsInto_of_refuseImproperAssigns h
  rcases bind_eq_error_iff.1 h with h | ⟨gs, -, h⟩
  · exact pointsInto_of_readGroups h
  split at h
  · cases h
  · cases h
    exact Fault.pointsInto_whole rfl rfl

theorem pointsInto_of_readPorts (h : readPorts options ts = .error f) :
    f.report.PointsInto ts := by
  unfold readPorts at h
  rcases bind_eq_error_iff.1 h with h | ⟨_, -, h⟩
  · exact pointsInto_of_refuseImproperAssigns h
  split at h
  · cases h
  rcases bind_eq_error_iff.1 h with h | ⟨ds, -, h⟩
  · exact pointsInto_of_readDecls h
  · cases h

end Lists

/-! ### Items of a module body -/

theorem takeParams_suffix (ts : List Token) : (takeParams ts).2 <:+ ts := by
  obtain ⟨params, ps, hts, -, -⟩ := exists_words_of_takeParams ts
  exact ⟨ps, hts.symm⟩

theorem Instance.pointsInto_fault {whole seg : List Token} (h : seg <:+: whole) :
    (fault whole seg).report.PointsInto whole := by
  unfold fault
  split
  next => exact Fault.pointsInto_whole rfl rfl
  next hempty =>
    have hne : seg ≠ [] := by simpa using hempty
    split
    · exact Fault.pointsInto_of_tokens rfl h fun _ => hne
    · exact Fault.pointsInto_of_tokens rfl h fun _ => hne

theorem pointsInto_of_readInstances {ts : List Token} {f : Fault}
    (h : readInstances ts = .error f) : f.report.PointsInto ts := by
  unfold readInstances at h
  split at h
  next moduleName pos rest =>
    obtain ⟨seg, hseg, hfault⟩ := exists_mem_of_mapM_eq_error h
    rw [Instance.eq_fault_of_ofSegment hfault]
    refine Instance.pointsInto_fault ((infix_of_mem_segments hseg).trans ?_)
    exact ((takeParams_suffix rest).trans (List.suffix_cons _ rest)).isInfix
  next =>
    cases h
    exact Fault.pointsInto_whole rfl rfl

theorem pointsInto_of_readElaborationTask {task : ElaborationTask} {ts : List Token} {f : Fault}
    (h : readElaborationTask task ts = .error f) : f.report.PointsInto ts := by
  unfold readElaborationTask at h
  split at h
  · cases h
  · cases h
  · cases h
    exact Fault.pointsInto_whole rfl rfl

theorem pointsInto_of_readModuleItems {options : Options} {ts : List Token} {f : Fault}
    (h : readModuleItems options ts = .error f) : f.report.PointsInto ts := by
  unfold readModuleItems at h
  rcases bind_eq_error_iff.1 h with h | ⟨_, -, h⟩
  · exact pointsInto_of_refuseImproperAssigns h
  split at h
  next => exact pointsInto_of_readElaborationTask h
  next =>
    split at h
    next =>
      rcases bind_eq_error_iff.1 h with h | ⟨is, -, h⟩
      · exact pointsInto_of_readInstances h
      · cases h
    next =>
      rcases bind_eq_error_iff.1 h with h | ⟨ds, -, h⟩
      · exact pointsInto_of_readDecl h
      · cases h

/-! ### Items of a block -/

/-- All but the last token show that there is no target. -/
theorem Stmt.eq_dropLast_of_ofTokens {ts front : List Token} (h : ofTokens ts = .error front) :
    front = ts.dropLast := by
  unfold ofTokens at h
  split at h
  next => cases h
  next => cases h
  next => cases h
  next =>
    split at h
    next => cases h
    next =>
      split at h
      · cases h
      · exact (Except.error.inj h).symm
    next => cases h
    next => exact (Except.error.inj h).symm
    next => cases h

/-- Where an assignment was moved to the end, the others are what stood behind it. -/
theorem infix_of_dropLast_moveLeadingAssign (ts : List Token) :
    (moveLeadingAssign ts).dropLast <:+: ts := by
  rcases moveLeadingAssign_cases ts with ⟨t, rest, -, -, rfl, hmove⟩ | ⟨-, hmove⟩
  · rw [hmove, List.dropLast_concat]
    exact (List.suffix_cons t rest).isInfix
  · rw [hmove]
    exact (List.dropLast_prefix ts).isInfix

theorem pointsInto_of_readBlockItem {options : Options} {ts : List Token} {f : Fault}
    (h : readBlockItem options ts = .error f) : f.report.PointsInto ts := by
  unfold readBlockItem at h
  split at h
  next =>
    cases h
    exact Fault.pointsInto_whole rfl rfl
  next first ts =>
    split at h
    next front hfront =>
      cases h
      rw [Stmt.eq_dropLast_of_ofTokens hfront]
      exact Fault.pointsInto_target (infix_of_dropLast_moveLeadingAssign (first :: ts))
        (List.mem_cons_self ..)
    next => cases h
    next =>
      cases hread : readDecl options (first :: ts) with
      | ok ds => simp [hread, Except.map] at h
      | error fault =>
          obtain rfl : fault = f := by simpa [hread, Except.map] using h
          exact pointsInto_of_readDecl hread

/-! ### Initializations of loops -/

namespace ForAssign

theorem take_suffix {ts rest : List Token} {a : ForAssign} (h : take ts = .ok (a, rest)) :
    rest <:+ ts := by
  have hs : ts.dropWhile (!·.isAssign) <:+ ts := List.dropWhile_suffix _
  unfold take at h
  split at h
  next b pos rest' hdrop =>
    simp only at h
    split at h
    · obtain ⟨-, rfl⟩ := Prod.mk.inj (Except.ok.inj h)
      rw [hdrop] at hs
      exact (List.suffix_cons _ _).trans hs
    · cases h
  · cases h

/-- A missing target is at the place of its assignment; other faults show what is left. -/
theorem pointsInto_of_take {whole ts : List Token} {f : Fault} (hs : ts <:+ whole) (hne : ts ≠ [])
    (h : take ts = .error f) : f.report.PointsInto whole := by
  have hsuffix : ts.dropWhile (!·.isAssign) <:+ ts := List.dropWhile_suffix _
  have hfront : ts.takeWhile (!·.isAssign) <+: ts := List.takeWhile_prefix _
  unfold take at h
  split at h
  next b pos rest hdrop =>
    rw [hdrop] at hsuffix
    simp only at h
    split at h
    · cases h
    · cases h
      exact Fault.pointsInto_target (hfront.isInfix.trans hs.isInfix)
        ((hsuffix.trans hs).subset (List.mem_cons_self ..))
  next =>
    cases h
    exact Fault.pointsInto_of_tokens rfl hs.isInfix fun _ => hne

/-- **Each fault of a list of assignments points into the list.** -/
theorem pointsInto_of_takeAll {whole ts : List Token} {f : Fault} (hs : ts <:+ whole)
    (hne : ts ≠ []) (h : takeAll whole ts = .error f) : f.report.PointsInto whole := by
  fun_induction takeAll whole ts generalizing f with
  | case1 ts fault htake =>
      cases h
      exact pointsInto_of_take hs hne htake
  | case2 => cases h
  | case3 =>
      cases h
      exact Fault.pointsInto_whole rfl rfl
  | case4 ts a sep rest htake hsep hrest ih =>
      cases hr : takeAll whole rest with
      | error fault =>
          obtain rfl : fault = f := by simpa [hr, Except.map] using h
          have hsuffix := (List.suffix_cons sep rest).trans ((take_suffix htake).trans hs)
          exact ih hsuffix (by simpa using hrest) hr
      | ok as => simp [hr, Except.map] at h
  | case5 ts a sep rest htake hsep =>
      cases h
      exact Fault.pointsInto_of_tokens rfl ((take_suffix htake).trans hs).isInfix
        fun _ => List.cons_ne_nil _ _

end ForAssign

theorem ForInit.ne_nil_of_startsAssigns {ts : List Token} (h : startsAssigns ts = true) :
    ts ≠ [] := by
  rintro rfl
  cases h

theorem pointsInto_of_readForInit {options : Options} {ts : List Token} {f : Fault}
    (h : readForInit options ts = .error f) : f.report.PointsInto ts := by
  unfold readForInit at h
  rcases bind_eq_error_iff.1 h with h | ⟨_, -, h⟩
  · exact pointsInto_of_refuseImproperAssigns h
  split at h
  next hstarts =>
    rcases bind_eq_error_iff.1 h with h | ⟨as, -, h⟩
    · exact ForAssign.pointsInto_of_takeAll (List.suffix_refl ts)
        (ForInit.ne_nil_of_startsAssigns hstarts) h
    · cases h
  next =>
    rcases bind_eq_error_iff.1 h with h | ⟨ds, -, h⟩
    · exact pointsInto_of_readDecls h
    split at h
    · cases h
      exact Fault.pointsInto_whole rfl rfl
    · cases h

/-! ### All readers -/

/-- **Every report points into the list that was read: the tokens that show the fault stand side by
side in it, the place is that of one of its tokens, and it is missing only if there are none.** -/
theorem report_pointsInto (options : Options) (ts : List Token) :
    (∀ f, readGroups ts = .error f → f.report.PointsInto ts) ∧
    (∀ f, readDecls options ts = .error f → f.report.PointsInto ts) ∧
    (∀ f, readDecl options ts = .error f → f.report.PointsInto ts) ∧
    (∀ f, readPorts options ts = .error f → f.report.PointsInto ts) ∧
    (∀ f, readModuleItems options ts = .error f → f.report.PointsInto ts) ∧
    (∀ f, readBlockItem options ts = .error f → f.report.PointsInto ts) ∧
    ∀ f, readForInit options ts = .error f → f.report.PointsInto ts :=
  ⟨fun _ => pointsInto_of_readGroups, fun _ => pointsInto_of_readDecls,
    fun _ => pointsInto_of_readDecl, fun _ => pointsInto_of_readPorts,
    fun _ => pointsInto_of_readModuleItems, fun _ => pointsInto_of_readBlockItem,
    fun _ => pointsInto_of_readForInit⟩

/-- A lone assignment in a block has no token in front of it to show that there is no target, and
the report is at the assignment; a report on the empty list has no place. -/
theorem report_pointsInto_lone_assign :
    (readBlockItem ⟨true⟩ [⟨.assign ⟨.nonBlocking, none, .number "1"⟩, ⟨"top.sv", 3, 5⟩⟩] =
        .error (.target [] ⟨"top.sv", 3, 5⟩) ∧
      (Fault.target [] ⟨"top.sv", 3, 5⟩).report.PointsInto
        [⟨.assign ⟨.nonBlocking, none, .number "1"⟩, ⟨"top.sv", 3, 5⟩⟩]) ∧
    readDecl ⟨true⟩ [] = .error (.arity 0 []) ∧ (Fault.arity 0 []).report.PointsInto [] := by
  constructor
  · exact ⟨rfl, (report_pointsInto ⟨true⟩ _).2.2.2.2.2.1 _ rfl⟩
  · have h : readDecl ⟨true⟩ [] = .error (.arity 0 []) := by
      simp [readDecl, refuseImproperAssigns, readGroups_nil, bind, Except.bind]
    exact ⟨h, (report_pointsInto ⟨true⟩ _).2.2.1 _ h⟩

end VerilogDecl
