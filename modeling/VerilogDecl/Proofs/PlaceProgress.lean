/-
**Places only move forward.**

Reading by places could go wrong in ways that reading from lists cannot: a step could look at a
token that is behind, go back, or stand still, and a loop over such a step would never end.  This
module shows that nothing of this happens, on well-formed lists or others.  What a step does depends
on the tokens ahead alone.  No step goes back.  Every pass of a loop moves the place, and so the
loops end.  A group moves it to the end or right behind a comma, and the stretches of the groups are
the whole list, cut into pieces.

Main definitions:

* `VerilogDecl.Place.behind?` — the last token that is behind;
* `VerilogDecl.Place.Follows` — a walk gives from everywhere what its reader gives;
* `VerilogDecl.Place.Step` — single steps;
* `VerilogDecl.Place.Pass` — one more pass of a loop;
* `VerilogDecl.Place.GroupRun` — groups that are read one behind the other.

Main results:

* `VerilogDecl.Place.Step.reaches` — no step goes back or leaves the list;
* `VerilogDecl.Place.Pass.index_lt`, `VerilogDecl.Place.pass_wellFounded` — **each pass moves the
  place, so that every loop ends**;
* `VerilogDecl.Place.doneOrBehindComma_of_takeGroup` — a group ends at the end of the list or right
  behind a comma;
* `VerilogDecl.Place.exists_groupRun`, `VerilogDecl.Place.GroupRun.flatten_append` — **groups are
  read up to the end or the first fault, and their stretches make up what was read**;
* `VerilogDecl.Place.places_move_forward` — all of it together.
-/

import VerilogDecl.Proofs.PlaceWalk

set_option relaxedAutoImplicit false
set_option autoImplicit false

namespace VerilogDecl

namespace Place

variable {p q r : Place}

/-! ### What a walk depends on -/

/-- A walk that reads like `reader` from every place: it gives what it gives for the tokens ahead
alone, and it goes as far as it goes there. -/
structure Follows {α : Type} (walk : Place → α × Place) (reader : List Token → α × List Token) :
    Prop where
  read_eq : ∀ p, walk p = p.read reader
  value_eq : ∀ p, (walk p).1 = (walk (start p.rest)).1
  tokens_eq : ∀ p, (walk p).2.tokens = p.tokens
  index_eq : ∀ p, (walk p).2.index = p.index + (walk (start p.rest)).2.index

theorem follows_of_read {α : Type} {walk : Place → α × Place}
    {reader : List Token → α × List Token} (h : ∀ p, walk p = p.read reader) :
    Follows walk reader := by
  refine ⟨h, ?_, ?_, ?_⟩
  · intro p
    rw [h p, h (start p.rest)]
    rfl
  · intro p
    rw [h p]
    rfl
  · intro p
    rw [h p, h (start p.rest), Place.read_eq, Place.read_eq, index_leave, index_leave, rest_start]
    exact congrArg _ (Nat.zero_add _).symm

/-! ### Single steps -/

/-- The place `q` is where a step from `p` ends. -/
inductive Step : Place → Place → Prop
  /-- Over a name or a comma. -/
  | forward (p : Place) (count : Nat) : Step p (p.forward count)
  | direction (p : Place) : Step p p.takeDirection.2
  | lifetime {p q : Place} (h : p.skipLifetime = .ok q) : Step p q
  | typeHead (p : Place) : Step p p.takeTypeHead.2
  | ranges (p : Place) : Step p p.takeRanges.2
  | dataType {p q : Place} {type : DataType} (h : p.takeDataType = .ok (type, q)) : Step p q
  | init (p : Place) : Step p p.takeInit.2
  | declarator {p q : Place} {d : Declarator} (h : p.takeDeclarator = .ok (d, q)) : Step p q
  | declarators {p q : Place} {ds : List Declarator} (h : p.takeDeclarators = .ok (ds, q)) :
      Step p q
  | group {p q : Place} {g : DeclGroup} (h : p.takeGroup = .ok (g, q)) : Step p q

/-- **No step goes back or leaves the list.** -/
theorem Step.reaches (h : Step p q) : p.Reaches q := by
  cases h with
  | forward count => exact p.reaches_forward count
  | direction =>
      rw [takeDirection_eq]
      exact p.reaches_leave _
  | lifetime h =>
      rw [skipLifetime_eq] at h
      cases hskip : VerilogDecl.skipLifetime p.rest with
      | error fault =>
          rw [hskip] at h
          cases h
      | ok left =>
          rw [hskip] at h
          obtain rfl := Except.ok.inj h
          exact p.reaches_leave left
  | typeHead =>
      rw [takeTypeHead_eq]
      exact p.reaches_leave _
  | ranges =>
      rw [takeRanges_eq]
      exact p.reaches_leave _
  | dataType h =>
      rw [takeDataType_eq] at h
      exact (reader_of_tryRead DeclGroup.takeDataType_suffix h).2
  | init =>
      rw [takeInit_eq]
      exact p.reaches_leave _
  | declarator h => exact (take_of_takeDeclarator h).2
  | declarators h =>
      rw [takeDeclarators_eq] at h
      exact (reader_of_tryRead Declarator.takeList_suffix h).2
  | group h => exact (take_of_takeGroup h).2

/-! ### Passes of the loops -/

/-- From `p`, a loop goes on at `q`: over the next dimension, to the next name of a group, or to the
next group. -/
inductive Pass : Place → Place → Prop
  | dimension {p : Place} {t : Token} (hahead : p.ahead? 0 = some t)
      (hdim : Dimension.isDimension t.lexeme = true) : Pass p (p.forward 1)
  | declarator {p q : Place} {d : Declarator} {sep : Token}
      (hread : p.takeDeclarator = .ok (d, q)) (hahead : q.ahead? 0 = some sep)
      (hsep : sep.isSeparator = true) (hmore : (q.forward 1).isDone = false)
      (hstarts : (q.forward 1).startsDeclarator = true) : Pass p (q.forward 1)
  | group {p q : Place} {g : DeclGroup} (hmore : p.isDone = false)
      (hread : p.takeGroup = .ok (g, q)) : Pass p q

theorem Reaches.index_lt (h : p.Reaches q) (hlt : q.rest.length < p.rest.length) :
    p.index < q.index := by
  have hle := q.index_le
  rw [length_rest, length_rest, h.tokens_eq] at hlt
  omega

/-- A group takes at least one token. -/
theorem index_lt_of_takeGroup {g : DeclGroup} (h : p.takeGroup = .ok (g, q)) :
    p.index < q.index := by
  obtain ⟨htake, hreach⟩ := take_of_takeGroup h
  exact hreach.index_lt (DeclGroup.length_take_lt htake)

/-- **Each pass of a loop moves the place.** -/
theorem Pass.index_lt (h : Pass p q) : p.Reaches q ∧ p.index < q.index := by
  cases h with
  | dimension hahead hdim =>
      have hreach := p.reaches_forward 1
      exact ⟨hreach, hreach.index_lt (length_rest_forward_one_lt hahead)⟩
  | @declarator q d sep hread hahead hsep hmore hstarts =>
      obtain ⟨htake, hreach⟩ := take_of_takeDeclarator hread
      have hlt := hreach.index_lt (Declarator.length_take_lt htake)
      have hnext := q.reaches_forward 1
      exact ⟨hreach.trans hnext, Nat.lt_of_lt_of_le hlt hnext.index_le⟩
  | group hmore hread => exact ⟨(take_of_takeGroup hread).2, index_lt_of_takeGroup hread⟩

theorem Pass.length_rest_lt (h : Pass p q) : q.rest.length < p.rest.length := by
  obtain ⟨hreach, hlt⟩ := h.index_lt
  have hle := q.index_le
  rw [length_rest, length_rest, hreach.tokens_eq] at *
  omega

/-- **No loop goes on for ever.** -/
theorem pass_wellFounded : WellFounded fun q p => Pass p q :=
  Subrelation.wf Pass.length_rest_lt (measure fun p : Place => p.rest.length).wf

/-! ### Where a group ends -/

/-- The last token that is behind. -/
def behind? (p : Place) : Option Token :=
  (p.tokens.take p.index).getLast?

/-- One token further, the next token is the last one behind. -/
theorem behind?_forward_one {t : Token} (h : p.ahead? 0 = some t) :
    (p.forward 1).behind? = some t := by
  have hlt : p.index < p.tokens.length := (List.getElem?_eq_some_iff.1 h).1
  have hindex : (p.forward 1).index = p.index + 1 := by
    rw [index_forward]
    omega
  rw [ahead?, Nat.add_zero] at h
  rw [behind?, hindex, tokens_forward, List.take_add_one, h]
  simp

/-- No token is ahead, or the last one behind is a comma. -/
def DoneOrBehindComma (p : Place) : Prop :=
  p.isDone = true ∨ ∃ sep ∈ p.behind?, sep.isSeparator = true

theorem doneOrBehindComma_of_takeDeclarators {ds : List Declarator}
    (h : p.takeDeclarators = .ok (ds, q)) : q.DoneOrBehindComma := by
  -- the walk succeeds at the end, or at a comma with no further name behind it
  fun_induction takeDeclarators p generalizing ds q with
  | case1 => cases h
  | case2 p d r hread hahead =>
      obtain ⟨-, rfl⟩ := Prod.mk.inj (Except.ok.inj h)
      rw [ahead?_zero, List.head?_eq_none_iff] at hahead
      exact Or.inl ((isDone_iff r).2 hahead)
  | case3 => cases h
  | case4 p d r hread sep hahead hsep hdone hstarts ih =>
      cases hmore : (r.forward 1).takeDeclarators with
      | error fault =>
          rw [hmore] at h
          cases h
      | ok more =>
          rw [hmore] at h
          obtain ⟨-, rfl⟩ := Prod.mk.inj (Except.ok.inj h)
          exact ih hmore
  | case5 p d r hread sep hahead hsep =>
      obtain ⟨-, rfl⟩ := Prod.mk.inj (Except.ok.inj h)
      exact Or.inr ⟨sep, behind?_forward_one hahead, hsep⟩
  | case6 => cases h

/-- The last step of a group is the one over its names. -/
theorem exists_takeDeclarators_of_takeGroup {g : DeclGroup} (h : p.takeGroup = .ok (g, q)) :
    ∃ r : Place, r.takeDeclarators = .ok (g.declarators, q) := by
  rw [takeGroup] at h
  split at h
  · cases h
  · simp only [bind, Except.bind] at h
    split at h
    · cases h
    · split at h
      · cases h
      next type htype =>
        split at h
        · cases h
        next ds hread =>
          obtain ⟨rfl, rfl⟩ := Prod.mk.inj (Except.ok.inj h)
          exact ⟨type.2, hread⟩

/-- **A group ends at the end of the list or right behind a comma.** -/
theorem doneOrBehindComma_of_takeGroup {g : DeclGroup} (h : p.takeGroup = .ok (g, q)) :
    q.DoneOrBehindComma := by
  obtain ⟨r, hread⟩ := exists_takeDeclarators_of_takeGroup h
  exact doneOrBehindComma_of_takeDeclarators hread

/-! ### Runs over groups -/

/-- The groups `run`, each with its stretch of tokens, are read one behind the other from `p` to
`q`. -/
inductive GroupRun : Place → List (DeclGroup × List Token) → Place → Prop
  | refl (p : Place) : GroupRun p [] p
  | step {p q r : Place} {g : DeclGroup} {run : List (DeclGroup × List Token)}
      (hmore : p.isDone = false) (hread : p.takeGroup = .ok (g, q)) (hrun : GroupRun q run r) :
      GroupRun p ((g, p.upTo q) :: run) r

theorem upTo_append_rest (h : p.Reaches q) : p.upTo q ++ q.rest = p.rest := by
  have hrest : q.rest = p.rest.drop (q.index - p.index) := by
    rw [rest, rest, h.tokens_eq, List.drop_drop, Nat.add_sub_cancel' h.index_le]
  rw [upTo, hrest, List.take_append_drop]

variable {run : List (DeclGroup × List Token)}

/-- **The stretches of the groups make up what was read.** -/
theorem GroupRun.flatten_append (h : GroupRun p run q) :
    (run.map Prod.snd).flatten ++ q.rest = p.rest := by
  induction h with
  | refl p => rfl
  | step hmore hread hrun ih =>
      rw [List.map_cons, List.flatten_cons, List.append_assoc, ih]
      exact upTo_append_rest (take_of_takeGroup hread).2

/-- No group has an empty stretch. -/
theorem GroupRun.ne_nil_of_mem (h : GroupRun p run q) : ∀ part ∈ run.map Prod.snd, part ≠ [] := by
  induction h with
  | refl p => exact List.forall_mem_nil _
  | @step p q r g run hmore hread hrun ih =>
      refine List.forall_mem_cons.2 ⟨?_, ih⟩
      intro hempty
      have hlt := DeclGroup.length_take_lt (take_of_takeGroup hread).1
      rw [← upTo_append_rest (take_of_takeGroup hread).2] at hlt
      simp only at hempty
      simp [hempty] at hlt

theorem takeGroups_of_isDone (h : p.isDone = true) : p.takeGroups = .ok [] := by
  rw [takeGroups, if_pos h]

theorem takeGroups_of_error {fault : DeclFault} (hmore : p.isDone = false)
    (h : p.takeGroup = .error fault) : p.takeGroups = .error fault := by
  rw [takeGroups, hmore, if_neg Bool.false_ne_true]
  split <;> simp_all

theorem takeGroups_of_ok {g : DeclGroup} (hmore : p.isDone = false)
    (h : p.takeGroup = .ok (g, q)) : p.takeGroups = q.takeGroups.map (g :: ·) := by
  rw [takeGroups, hmore, if_neg Bool.false_ne_true]
  split <;> simp_all

/-- **From every place, groups are read up to the end or the first fault.** -/
theorem exists_groupRun (p : Place) :
    ∃ run q, GroupRun p run q ∧
      (q.isDone = true ∧ p.takeGroups = .ok (run.map Prod.fst) ∨
        q.isDone = false ∧ ∃ fault, q.takeGroup = .error fault ∧ p.takeGroups = .error fault) := by
  induction p using pass_wellFounded.induction with
  | _ p ih =>
      cases hmore : p.isDone with
      | true => exact ⟨[], p, GroupRun.refl p, Or.inl ⟨hmore, takeGroups_of_isDone hmore⟩⟩
      | false =>
          cases hread : p.takeGroup with
          | error fault =>
              refine ⟨[], p, GroupRun.refl p, Or.inr ⟨hmore, fault, hread, ?_⟩⟩
              exact takeGroups_of_error hmore hread
          | ok r =>
              obtain ⟨g, q⟩ := r
              obtain ⟨run, r, hrun, hend⟩ := ih q (Pass.group hmore hread)
              refine ⟨(g, p.upTo q) :: run, r, GroupRun.step hmore hread hrun, ?_⟩
              rw [takeGroups_of_ok hmore hread]
              rcases hend with ⟨hdone, hgroups⟩ | ⟨hmore, fault, hfault, hgroups⟩
              · exact Or.inl ⟨hdone, by rw [hgroups]; rfl⟩
              · exact Or.inr ⟨hmore, fault, hfault, by rw [hgroups]; rfl⟩

/-- **Places move forward over the tokens ahead, and so every list is read to its end or to a
fault.**  The walks over a direction, dimensions and an initial value and the two lookaheads find
from every place what they find for the tokens ahead alone.  No step goes back or leaves the list.
A group moves the place on, to the end or right behind a comma.  So no loop goes on for ever, and
the stretches of the groups, none of them empty, are the list cut into pieces. -/
theorem places_move_forward :
    (Follows takeDirection VerilogDecl.takeDirection ∧
      Follows takeRanges (fun ts => (Dimension.ranges ts, Dimension.after ts)) ∧
      Follows takeInit VerilogDecl.takeInit) ∧
    (∀ p : Place,
      (p.startsDeclarator = (start p.rest).startsDeclarator ∧
        p.startsDeclarator = Declarator.starts p.rest) ∧
      p.namesType = (start p.rest).namesType ∧ p.namesType = TypeHead.namesType p.rest) ∧
    (∀ p q : Place, Step p q →
      q.tokens = p.tokens ∧ p.index ≤ q.index ∧ q.index ≤ p.tokens.length) ∧
    (∀ p : Place, p.takeGroup = p.tryRead DeclGroup.take ∧
      ∀ (g : DeclGroup) (q : Place), p.takeGroup = .ok (g, q) →
        p.index < q.index ∧ q.index ≤ p.tokens.length ∧ q.DoneOrBehindComma) ∧
    WellFounded (fun q p => Pass p q) ∧
    ∀ ts : List Token, ∃ run q, GroupRun (start ts) run q ∧ (∀ part ∈ run.map Prod.snd, part ≠ []) ∧
      (DeclGroup.takeAll ts = .ok (run.map Prod.fst) ∧ (run.map Prod.snd).flatten = ts ∨
        ∃ fault, DeclGroup.takeAll ts = .error fault ∧ DeclGroup.take q.rest = .error fault ∧
          q.rest ≠ [] ∧ (run.map Prod.snd).flatten ++ q.rest = ts) := by
  refine ⟨⟨follows_of_read takeDirection_eq, follows_of_read takeRanges_eq,
    follows_of_read takeInit_eq⟩, ?_, ?_, ?_, pass_wellFounded, ?_⟩
  · intro p
    rw [startsDeclarator_eq, startsDeclarator_eq, namesType_eq, namesType_eq, rest_start]
    exact ⟨⟨rfl, rfl⟩, rfl, rfl⟩
  · intro p q hstep
    have hreach := hstep.reaches
    exact ⟨hreach.tokens_eq, hreach.index_le, hreach.tokens_eq ▸ q.index_le⟩
  · intro p
    refine ⟨takeGroup_eq p, ?_⟩
    intro g q hread
    have hreach := (Step.group hread).reaches
    exact ⟨index_lt_of_takeGroup hread, hreach.tokens_eq ▸ q.index_le,
      doneOrBehindComma_of_takeGroup hread⟩
  · intro ts
    obtain ⟨run, q, hrun, hend⟩ := exists_groupRun (start ts)
    have hflatten := hrun.flatten_append
    rw [takeGroups_eq, rest_start] at hend
    refine ⟨run, q, hrun, hrun.ne_nil_of_mem, ?_⟩
    rcases hend with ⟨hdone, hall⟩ | ⟨hmore, fault, hfault, hall⟩
    · rw [(isDone_iff q).1 hdone, List.append_nil] at hflatten
      exact Or.inl ⟨hall, hflatten⟩
    · rw [takeGroup_eq] at hfault
      have hne : q.rest ≠ [] := by
        intro hrest
        rw [(isDone_iff q).2 hrest] at hmore
        cases hmore
      exact Or.inr ⟨fault, hall, reader_of_tryRead_error hfault, hne, hflatten⟩

unseal Declarator.takeList in
/-- In `int a, logic b`, the first group moves the place from the start to the one right behind the
comma. -/
theorem places_move_forward_pair :
    let ts : List Token :=
      [⟨.typeBase (.atom .int), ⟨"top.sv", 2, 1⟩⟩, ⟨.ident "a", ⟨"top.sv", 2, 5⟩⟩,
        ⟨.comma, ⟨"top.sv", 2, 6⟩⟩, ⟨.typeBase (.vector .logic), ⟨"top.sv", 2, 8⟩⟩,
        ⟨.ident "b", ⟨"top.sv", 2, 14⟩⟩]
    ∃ g q, (start ts).isDone = false ∧ (start ts).takeGroup = .ok (g, q) ∧ Step (start ts) q ∧
      q.index = 3 ∧ 0 < q.index ∧ q.tokens = ts ∧ q.DoneOrBehindComma := by
  intro ts
  have hread : (start ts).takeGroup = .ok (⟨⟨"top.sv", 2, 1⟩, .unspecified,
      ⟨.atom .int, .unspecified, [], TypeBase.fits_unspecified _⟩, [⟨"a", [], none⟩]⟩,
      ⟨ts, 3, by decide⟩) := by
    rw [takeGroup_eq]
    rfl
  obtain ⟨-, -, hsteps, hgroups, -⟩ := places_move_forward
  obtain ⟨hlt, -, hcomma⟩ := (hgroups _).2 _ _ hread
  have hstep := Step.group hread
  exact ⟨_, _, rfl, hread, hstep, rfl, hlt, (hsteps _ _ hstep).1, hcomma⟩

end Place

end VerilogDecl
