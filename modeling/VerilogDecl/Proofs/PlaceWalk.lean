/-
**Reading by places.**

The readers of this library take a list of tokens and return what they leave of it.  The same can be
done by going through one list with a place that moves: one token ahead or two are looked at, the
place is moved, and nothing is cut off.  This module writes every reader of declarations in that way
and shows that both ways agree.  A walk from a place gives what the reader gives for the tokens
ahead, and it ends at the place in front of the tokens that the reader leaves.

The two walks over lists of names and of groups have no measure of their own.  They end because each
name and each group takes at least one token.

Main definitions:

* `VerilogDecl.Place.leave` — the place in front of what a reader leaves;
* `VerilogDecl.Place.takeDirection`, `VerilogDecl.Place.takeRanges`, `VerilogDecl.Place.takeInit` —
  single steps;
* `VerilogDecl.Place.startsDeclarator`, `VerilogDecl.Place.namesType` — the two lookaheads;
* `VerilogDecl.Place.takeDeclarators`, `VerilogDecl.Place.takeGroup`,
  `VerilogDecl.Place.takeGroups` — names, a group, and all groups.

Main results:

* `VerilogDecl.Place.takeRanges_eq`, `VerilogDecl.Place.startsDeclarator_eq`, … — each walk agrees
  with its reader;
* `VerilogDecl.Place.takeGroup_eq`, `VerilogDecl.Place.takeGroups_eq` — **groups are read the same
  way from a place and from the tokens ahead**.
-/

import VerilogDecl.Place
import VerilogDecl.Proofs.ReportPlace

set_option relaxedAutoImplicit false
set_option autoImplicit false

namespace VerilogDecl

namespace Place

/-! ### Places and the tokens ahead -/

@[simp] theorem tokens_forward (p : Place) (n : Nat) : (p.forward n).tokens = p.tokens := rfl

theorem index_forward (p : Place) (n : Nat) :
    (p.forward n).index = min (p.index + n) p.tokens.length := rfl

/-- A place is known by its list and the tokens ahead. -/
theorem eq_of_rest {p q : Place} (htokens : p.tokens = q.tokens) (hrest : p.rest = q.rest) :
    p = q := by
  have hlength := congrArg List.length hrest
  have hp := p.index_le
  have hq := q.index_le
  rw [length_rest, length_rest, htokens] at hlength
  refine Place.ext htokens ?_
  rw [htokens] at hp
  omega

theorem ahead?_zero (p : Place) : p.ahead? 0 = p.rest.head? := by
  rw [ahead?_eq_getElem?_rest, List.head?_eq_getElem?]

theorem isDone_eq_isEmpty (p : Place) : p.isDone = p.rest.isEmpty := by
  rw [Bool.eq_iff_iff, isDone_iff, List.isEmpty_iff]

/-- The place in front of the tokens `left` that a reader leaves of the tokens ahead. -/
def leave (p : Place) (left : List Token) : Place :=
  p.forward (p.rest.length - left.length)

theorem index_leave (p : Place) (left : List Token) :
    (p.leave left).index = p.index + (p.rest.length - left.length) := by
  have := p.index_le
  rw [leave, index_forward, length_rest]
  omega

theorem rest_leave {p : Place} {left : List Token} (h : left <:+ p.rest) :
    (p.leave left).rest = left := by
  rw [leave, rest_forward]
  exact (List.suffix_iff_eq_drop.1 h).symm

/-- A reader that takes nothing leaves the place where it is. -/
theorem leave_of_rest_eq {p : Place} {ts : List Token} (h : p.rest = ts) : p.leave ts = p :=
  eq_of_rest rfl (by rw [rest_leave (h ▸ List.suffix_refl _), h])

theorem leave_leave {p : Place} {left left' : List Token} (h : left <:+ p.rest)
    (h' : left' <:+ left) : (p.leave left).leave left' = p.leave left' := by
  have hleft : left' <:+ (p.leave left).rest := by rwa [rest_leave h]
  refine eq_of_rest rfl ?_
  rw [rest_leave hleft, rest_leave (h'.trans h)]

/-- One token further, all others are ahead. -/
theorem rest_forward_one {p : Place} {t : Token} {ts : List Token} (h : p.rest = t :: ts) :
    (p.forward 1).rest = ts := by
  rw [rest_forward, h]
  rfl

/-- The tokens ahead are the next one and those ahead of the place behind it. -/
theorem rest_eq_cons {p : Place} {t : Token} (h : p.ahead? 0 = some t) :
    p.rest = t :: (p.forward 1).rest := by
  obtain ⟨ts, hrest⟩ := List.head?_eq_some_iff.1 (p.ahead?_zero ▸ h)
  rw [rest_forward_one hrest, hrest]

theorem forward_eq_leave {p : Place} {n : Nat} {left : List Token} (h : p.rest.drop n = left) :
    p.forward n = p.leave left := by
  refine eq_of_rest rfl ?_
  rw [rest_forward, h, rest_leave (h ▸ List.drop_suffix n p.rest)]

theorem forward_one {p : Place} {t : Token} {ts : List Token} (h : p.rest = t :: ts) :
    p.forward 1 = p.leave ts :=
  forward_eq_leave (by rw [h]; rfl)

/-- The place `q` stands in the same list as `p`, and not before it. -/
structure Reaches (p q : Place) : Prop where
  tokens_eq : q.tokens = p.tokens
  index_le : p.index ≤ q.index

theorem reaches_forward (p : Place) (n : Nat) : p.Reaches (p.forward n) := by
  have := p.index_le
  refine ⟨rfl, ?_⟩
  rw [index_forward]
  omega

theorem reaches_leave (p : Place) (left : List Token) : p.Reaches (p.leave left) :=
  p.reaches_forward _

theorem Reaches.trans {p q r : Place} (h : p.Reaches q) (h' : q.Reaches r) : p.Reaches r :=
  ⟨h'.tokens_eq.trans h.tokens_eq, h.index_le.trans h'.index_le⟩

theorem Reaches.rest_suffix {p q : Place} (h : p.Reaches q) : q.rest <:+ p.rest := by
  rw [rest, rest, h.tokens_eq]
  exact List.drop_suffix_drop_left p.tokens h.index_le

/-- Further on, the same tokens can be left. -/
theorem Reaches.leave_eq {p q : Place} (h : p.Reaches q) {left : List Token}
    (hleft : left <:+ q.rest) : q.leave left = p.leave left := by
  refine eq_of_rest h.tokens_eq ?_
  rw [rest_leave hleft, rest_leave (hleft.trans h.rest_suffix)]

theorem Reaches.eq_leave {p q : Place} (h : p.Reaches q) : q = p.leave q.rest := by
  rw [← h.leave_eq (List.suffix_refl _), leave_of_rest_eq rfl]

/-- The tokens from `p` up to the place `q` further on. -/
def upTo (p q : Place) : List Token :=
  p.rest.take (q.index - p.index)

theorem upTo_leave (p : Place) (left : List Token) :
    p.upTo (p.leave left) = p.rest.take (p.rest.length - left.length) := by
  rw [upTo, index_leave, Nat.add_sub_cancel_left]

/-! ### Readers -/

theorem read_eq {α : Type} (p : Place) (reader : List Token → α × List Token) :
    p.read reader = ((reader p.rest).1, p.leave (reader p.rest).2) := rfl

/-- Reads from the tokens ahead with a reader that may fail. -/
def tryRead {ε α : Type} (p : Place) (reader : List Token → Except ε (α × List Token)) :
    Except ε (α × Place) :=
  (reader p.rest).map fun (value, left) => (value, p.leave left)

section TryRead

variable {ε α : Type} {p q : Place} {reader : List Token → Except ε (α × List Token)}

theorem tryRead_of_ok {a : α} {left : List Token} (h : reader p.rest = .ok (a, left)) :
    p.tryRead reader = .ok (a, p.leave left) := by
  rw [tryRead, h]
  rfl

theorem tryRead_of_error {fault : ε} (h : reader p.rest = .error fault) :
    p.tryRead reader = .error fault := by
  rw [tryRead, h]
  rfl

/-- A successful reading ends further on, in front of what the reader leaves. -/
theorem reader_of_tryRead {a : α}
    (hreader : ∀ {ts left : List Token} {a : α}, reader ts = .ok (a, left) → left <:+ ts)
    (h : p.tryRead reader = .ok (a, q)) : reader p.rest = .ok (a, q.rest) ∧ p.Reaches q := by
  cases hread : reader p.rest with
  | error fault =>
      rw [tryRead_of_error hread] at h
      cases h
  | ok r =>
      obtain ⟨b, left⟩ := r
      rw [tryRead_of_ok hread] at h
      obtain ⟨rfl, rfl⟩ := Prod.mk.inj (Except.ok.inj h)
      rw [rest_leave (hreader hread)]
      exact ⟨rfl, p.reaches_leave left⟩

theorem reader_of_tryRead_error {fault : ε} (h : p.tryRead reader = .error fault) :
    reader p.rest = .error fault := by
  cases hread : reader p.rest with
  | error fault' =>
      rw [tryRead_of_error hread] at h
      rw [Except.error.inj h]
  | ok r =>
      obtain ⟨b, left⟩ := r
      rw [tryRead_of_ok hread] at h
      cases h

/-- From further on, a reader leaves the same place as from here. -/
theorem tryRead_leave {us : List Token}
    (hreader : ∀ {ts left : List Token} {a : α}, reader ts = .ok (a, left) → left <:+ ts)
    (hus : us <:+ p.rest) :
    (p.leave us).tryRead reader = (reader us).map fun (a, left) => (a, p.leave left) := by
  rw [tryRead, rest_leave hus]
  cases hread : reader us with
  | error fault => rfl
  | ok r => simp only [Except.map, leave_leave hus (hreader hread)]

end TryRead

/-! ### Single steps -/

/-- The direction at a place. -/
def takeDirection (p : Place) : Direction × Place :=
  match p.ahead? 0 with
  | some ⟨.direction d, _⟩ => (d, p.forward 1)
  | _ => (.unspecified, p)

/-- The initial value at a place. -/
def takeInit (p : Place) : Option Expr × Place :=
  match p.ahead? 0 with
  | some ⟨.assign a, _⟩ => (some a.expr, p.forward 1)
  | _ => (none, p)

/-- The place behind the lifetime at a place. -/
def skipLifetime (p : Place) : Except DeclFault Place :=
  match p.ahead? 0 with
  | some ⟨.lifetime .automatic, _⟩ => .ok (p.forward 1)
  | some ⟨.lifetime .static, pos⟩ => .error (.lifetime ⟨.lifetime .static, pos⟩)
  | _ => .ok p

theorem takeDirection_eq (p : Place) : p.takeDirection = p.read VerilogDecl.takeDirection := by
  rw [takeDirection, read_eq, ahead?_zero]
  cases hrest : p.rest with
  | nil => simp [VerilogDecl.takeDirection, leave_of_rest_eq hrest]
  | cons t ts =>
      obtain ⟨l, pos⟩ := t
      cases l with
      | direction d => simp [VerilogDecl.takeDirection, forward_one hrest]
      | _ => simp [VerilogDecl.takeDirection, leave_of_rest_eq hrest]

theorem takeInit_eq (p : Place) : p.takeInit = p.read VerilogDecl.takeInit := by
  rw [takeInit, read_eq, ahead?_zero]
  cases hrest : p.rest with
  | nil => simp [VerilogDecl.takeInit, leave_of_rest_eq hrest]
  | cons t ts =>
      obtain ⟨l, pos⟩ := t
      cases l with
      | assign a => simp [VerilogDecl.takeInit, forward_one hrest]
      | _ => simp [VerilogDecl.takeInit, leave_of_rest_eq hrest]

theorem skipLifetime_eq (p : Place) :
    p.skipLifetime = (VerilogDecl.skipLifetime p.rest).map p.leave := by
  rw [skipLifetime, ahead?_zero]
  cases hrest : p.rest with
  | nil => simp [VerilogDecl.skipLifetime, leave_of_rest_eq hrest, Except.map]
  | cons t ts =>
      obtain ⟨l, pos⟩ := t
      cases l with
      | lifetime lifetime =>
          cases lifetime with
          | automatic => simp [VerilogDecl.skipLifetime, forward_one hrest, Except.map]
          | static => simp [VerilogDecl.skipLifetime, Except.map]
      | _ => simp [VerilogDecl.skipLifetime, leave_of_rest_eq hrest, Except.map]

/-! ### Dimensions -/

theorem length_rest_forward_one_lt {p : Place} {t : Token} (h : p.ahead? 0 = some t) :
    (p.forward 1).rest.length < p.rest.length := by
  rw [rest_eq_cons h]
  exact Nat.lt_succ_self _

/-- The run of dimensions at a place, one token after the other. -/
def takeRanges (p : Place) : List Range × Place :=
  match _h : p.ahead? 0 with
  | some ⟨.range .nonIndexed r, _⟩ =>
      let (rs, q) := takeRanges (p.forward 1)
      (r :: rs, q)
  | some ⟨.unsized, _⟩ =>
      let (rs, q) := takeRanges (p.forward 1)
      ((Dimension.implied? (p.ahead? 1).toList).toList ++ rs, q)
  | _ => ([], p)
termination_by p.rest.length
decreasing_by all_goals exact length_rest_forward_one_lt ‹_›

theorem takeRanges_of_range {p : Place} {r : Range} {pos : Position} {ts : List Token}
    (hrest : p.rest = ⟨.range .nonIndexed r, pos⟩ :: ts) :
    p.takeRanges = (r :: (p.forward 1).takeRanges.1, (p.forward 1).takeRanges.2) := by
  have hahead : p.ahead? 0 = some ⟨.range .nonIndexed r, pos⟩ := by rw [ahead?_zero, hrest]; rfl
  rw [takeRanges]
  split <;> simp_all

theorem takeRanges_of_unsized {p : Place} {pos : Position} {ts : List Token}
    (hrest : p.rest = ⟨.unsized, pos⟩ :: ts) :
    p.takeRanges = ((Dimension.implied? ts).toList ++ (p.forward 1).takeRanges.1,
      (p.forward 1).takeRanges.2) := by
  have hahead : p.ahead? 0 = some ⟨.unsized, pos⟩ := by rw [ahead?_zero, hrest]; rfl
  have hnext : p.ahead? 1 = ts.head? := by
    rw [ahead?_eq_getElem?_rest, hrest, List.head?_eq_getElem?]
    rfl
  have himplied : Dimension.implied? ts.head?.toList = Dimension.implied? ts := by
    cases ts with
    | nil => rfl
    | cons t ts =>
      obtain ⟨l, pos⟩ := t
      cases l <;> rfl
  rw [takeRanges]
  split <;> simp_all

theorem takeRanges_of_not_isDimension {p : Place}
    (hrest : ∀ t ∈ p.rest.head?, Dimension.isDimension t.lexeme = false) :
    p.takeRanges = ([], p) := by
  rw [takeRanges]
  split
  next r pos hahead =>
    rw [ahead?_zero] at hahead
    simp [hahead, Dimension.isDimension] at hrest
  next pos hahead =>
    rw [ahead?_zero] at hahead
    simp [hahead, Dimension.isDimension] at hrest
  next => rfl

/-- The walk over a run of dimensions finds its ranges and ends behind it. -/
theorem takeRanges_eq (p : Place) :
    p.takeRanges = p.read fun ts => (Dimension.ranges ts, Dimension.after ts) := by
  rw [read_eq]
  induction hrest : p.rest generalizing p with
  | nil =>
      rw [takeRanges_of_not_isDimension (by simp [hrest])]
      simp [leave_of_rest_eq hrest]
  | cons t ts ih =>
      have hwalk := ih (p.forward 1) (rest_forward_one hrest)
      have hleave : (p.forward 1).leave (Dimension.after ts) = p.leave (Dimension.after ts) := by
        rw [forward_one hrest,
          leave_leave (hrest ▸ List.suffix_cons t ts) (Dimension.after_suffix ts)]
      simp only [hleave] at hwalk
      obtain ⟨l, pos⟩ := t
      cases hdim : Dimension.isDimension l with
      | true =>
          have hafter : Dimension.after (⟨l, pos⟩ :: ts) = Dimension.after ts := by
            simp [Dimension.after, hdim]
          cases l with
          | range mode r =>
              cases mode with
              | nonIndexed => rw [takeRanges_of_range hrest, hwalk, hafter, Dimension.ranges]
              | _ => cases hdim
          | unsized => rw [takeRanges_of_unsized hrest, hwalk, hafter, Dimension.ranges]
          | _ => cases hdim
      | false =>
          have hafter : Dimension.after (⟨l, pos⟩ :: ts) = ⟨l, pos⟩ :: ts := by
            simp [Dimension.after, hdim]
          rw [takeRanges_of_not_isDimension (by simpa [hrest] using hdim), hafter,
            leave_of_rest_eq hrest, Dimension.ranges_cons_of_not_isDimension hdim]

/-- Behind the walk over a run of dimensions stands what follows the run. -/
theorem rest_takeRanges (p : Place) : p.takeRanges.2.rest = Dimension.after p.rest := by
  rw [takeRanges_eq, rest_read _ (Dimension.after_suffix p.rest)]

/-! ### Lookaheads -/

/-- Does a declarator start at a place? -/
def startsDeclarator (p : Place) : Bool :=
  match p.ahead? 0 with
  | some ⟨.ident _, _⟩ =>
      let q := (p.forward 1).takeRanges.2
      q.isDone || q.takeInit.1.isSome || (q.ahead? 0).any Token.isSeparator
  | _ => false

/-- Does a name stand before the first comma ahead? -/
def namesType (p : Place) : Bool :=
  match p.distance? (·.lexeme.isName), p.distance? Token.isSeparator with
  | none, _ => false
  | some _, none => true
  | some name, some comma => name < comma

theorem startsDeclarator_eq (p : Place) : p.startsDeclarator = Declarator.starts p.rest := by
  rw [startsDeclarator, ahead?_zero]
  cases hrest : p.rest with
  | nil => rfl
  | cons t ts =>
      obtain ⟨l, pos⟩ := t
      cases l with
      | ident name =>
          have hafter : (p.forward 1).takeRanges.2.rest = Dimension.after ts := by
            rw [rest_takeRanges, rest_forward_one hrest]
          simp only [List.head?_cons, Declarator.starts, isDone_eq_isEmpty, takeInit_eq, read_eq,
            ahead?_zero, hafter]
          cases Dimension.after ts with
          | nil => rfl
          | cons u us =>
              obtain ⟨l, pos⟩ := u
              cases l <;> rfl
      | _ => rfl

/-- A name stands before the first comma if it is nearer. -/
theorem namesType_eq (p : Place) : p.namesType = TypeHead.namesType p.rest := by
  rw [namesType, distance?, distance?]
  induction p.rest with
  | nil => rfl
  | cons t ts ih =>
      have hcons : TypeHead.namesType (t :: ts)
          = (!t.isSeparator && (t.lexeme.isName || TypeHead.namesType ts)) := by
        simp only [TypeHead.namesType, Token.beforeComma, List.takeWhile_cons]
        cases t.isSeparator <;> rfl
      rw [hcons, ← ih, List.findIdx?_cons, List.findIdx?_cons]
      cases hcomma : t.isSeparator with
      | true =>
          -- A comma right here is nearer than any name.
          have hname : t.lexeme.isName = false := by
            cases hl : t.lexeme <;> simp_all [Token.isSeparator, Lexeme.isSeparator, Lexeme.isName]
          cases ts.findIdx? (·.lexeme.isName) <;> simp [hname]
      | false =>
          -- Unless the name is right here, both distances are one more than from the next token.
          cases t.lexeme.isName <;> cases ts.findIdx? (·.lexeme.isName) <;>
            cases ts.findIdx? Token.isSeparator <;> simp

/-! ### The type and the names of a group -/

/-- The base type and the signing at a place. -/
def takeTypeHead (p : Place) : TypeHead × Place :=
  match p.ahead? 0, p.ahead? 1 with
  | some ⟨.ident name, _⟩, some ⟨.member modport, _⟩ =>
      (⟨.interface name modport, .unspecified⟩, p.forward 2)
  | some ⟨.ident name, _⟩, _ =>
      if (p.forward 1).namesType then (⟨.typedef name, .unspecified⟩, p.forward 1)
      else (⟨.implicit, .unspecified⟩, p)
  | some ⟨.scopedIdent scope name, _⟩, _ =>
      if (p.forward 1).namesType then (⟨.scopedTypedef scope name, .unspecified⟩, p.forward 1)
      else (⟨.implicit, .unspecified⟩, p)
  | some ⟨.typeBase base, _⟩, some ⟨.signing s, _⟩ => (⟨base, s⟩, p.forward 2)
  | some ⟨.typeBase base, _⟩, _ => (⟨base, .unspecified⟩, p.forward 1)
  | some ⟨.signing s, _⟩, _ => (⟨.implicit, s⟩, p.forward 1)
  | _, _ => (⟨.implicit, .unspecified⟩, p)

theorem takeTypeHead_eq (p : Place) : p.takeTypeHead = p.read TypeHead.take := by
  rw [takeTypeHead, read_eq, ahead?_eq_getElem?_rest, ahead?_eq_getElem?_rest]
  cases hrest : p.rest with
  | nil => simp [TypeHead.take, leave_of_rest_eq hrest]
  | cons t ts =>
      have hnext := forward_one hrest
      have hsecond : p.forward 2 = p.leave ts.tail :=
        forward_eq_leave (by rw [hrest, List.drop_succ_cons, List.drop_one])
      have hnames : (p.forward 1).namesType = TypeHead.namesType ts := by
        rw [namesType_eq, rest_forward_one hrest]
      have hstay := leave_of_rest_eq hrest
      obtain ⟨l, pos⟩ := t
      rw [hnames, hsecond, hnext]
      cases l with
      | ident name =>
          rcases ts with _ | ⟨⟨l, pos⟩, ts⟩
          · simp [TypeHead.take, TypeHead.namesType, hstay]
          · cases l with
            | member modport => simp [TypeHead.take]
            | _ =>
                simp only [TypeHead.take, List.getElem?_cons_zero, List.getElem?_cons_succ]
                split <;> simp [hstay]
      | scopedIdent scope name =>
          simp only [TypeHead.take, List.getElem?_cons_zero]
          split <;> simp [hstay]
      | typeBase base =>
          rcases ts with _ | ⟨⟨l, pos⟩, ts⟩
          · simp [TypeHead.take]
          · cases l <;> simp [TypeHead.take]
      | signing s => simp [TypeHead.take]
      | _ => simp [TypeHead.take, hstay]

/-- The type at a place, with its packed dimensions. -/
def takeDataType (p : Place) : Except DeclFault (DataType × Place) :=
  let (head, afterHead) := p.takeTypeHead
  let (ranges, q) := afterHead.takeRanges
  match head.base.resolve head.signing ranges with
  | .ok type => .ok (type, q)
  | .error misuse => .error (.signing misuse (p.upTo q))

/-- The declarator at a place. -/
def takeDeclarator (p : Place) : Except DeclFault (Declarator × Place) :=
  match p.ahead? 0 with
  | none => .error .incomplete
  | some ⟨.ident name, _⟩ =>
      let (ranges, q) := (p.forward 1).takeRanges
      let (init, q) := q.takeInit
      .ok (⟨name, ranges, init⟩, q)
  | some t => .error (.nameExpected t)

theorem takeDataType_eq (p : Place) : p.takeDataType = p.tryRead DeclGroup.takeDataType := by
  have hhead : (TypeHead.take p.rest).2 <:+ p.rest := TypeHead.take_suffix p.rest
  have hleave := leave_leave hhead (Dimension.after_suffix _)
  simp only [takeDataType, takeTypeHead_eq, takeRanges_eq, read_eq, rest_leave hhead, hleave,
    upTo_leave, tryRead, DeclGroup.takeDataType]
  split <;> simp [*, Except.map]

theorem takeDeclarator_eq (p : Place) : p.takeDeclarator = p.tryRead Declarator.take := by
  rw [takeDeclarator, tryRead, ahead?_zero]
  cases hrest : p.rest with
  | nil => rfl
  | cons t ts =>
      obtain ⟨l, pos⟩ := t
      cases l with
      | ident name =>
          have hts : ts <:+ p.rest := hrest ▸ List.suffix_cons _ ts
          have hafter := Dimension.after_suffix ts
          have hinit := takeInit_suffix (Dimension.after ts)
          simp only [List.head?_cons, takeRanges_eq, takeInit_eq, read_eq, forward_one hrest,
            rest_leave hts, leave_leave hts hafter, rest_leave (hafter.trans hts),
            leave_leave (hafter.trans hts) hinit]
          rfl
      | _ => rfl

theorem take_of_takeDeclarator {p q : Place} {d : Declarator}
    (h : p.takeDeclarator = .ok (d, q)) :
    Declarator.take p.rest = .ok (d, q.rest) ∧ p.Reaches q := by
  rw [takeDeclarator_eq] at h
  exact reader_of_tryRead Declarator.take_suffix h

/-- The declarators at a place.  Behind a comma the walk goes on for as long as one starts there. -/
def takeDeclarators (p : Place) : Except DeclFault (List Declarator × Place) :=
  match _h : p.takeDeclarator with
  | .error fault => .error fault
  | .ok (d, q) =>
      match q.ahead? 0 with
      | none => .ok ([d], q)
      | some sep =>
          if sep.isSeparator then
            if (q.forward 1).isDone then .error .trailingComma
            else if (q.forward 1).startsDeclarator then
              (takeDeclarators (q.forward 1)).map fun (ds, r) => (d :: ds, r)
            else .ok ([d], q.forward 1)
          else .error (.separatorExpected q.rest)
termination_by p.rest.length
decreasing_by
  have hlt := Declarator.length_take_lt (take_of_takeDeclarator ‹_›).1
  rw [rest_forward, List.length_drop]
  omega

theorem takeDeclarators_eq (p : Place) : p.takeDeclarators = p.tryRead Declarator.takeList := by
  fun_induction takeDeclarators p with
  | case1 p fault hread =>
      rw [takeDeclarator_eq] at hread
      rw [tryRead_of_error]
      rw [Declarator.takeList_eq, reader_of_tryRead_error hread]
  | case2 p d q hread hahead =>
      obtain ⟨htake, hreach⟩ := take_of_takeDeclarator hread
      have hrest : q.rest = [] := by simpa [ahead?_zero] using hahead
      have hlist : Declarator.takeList p.rest = .ok ([d], q.rest) := by
        rw [Declarator.takeList_eq, htake, hrest]
      rw [tryRead_of_ok hlist, ← hreach.eq_leave]
  | case3 p d q hread sep hahead hsep hdone =>
      obtain ⟨htake, -⟩ := take_of_takeDeclarator hread
      rw [isDone_eq_isEmpty] at hdone
      rw [tryRead_of_error]
      rw [Declarator.takeList_eq, htake, rest_eq_cons hahead]
      simp only [hsep, hdone, if_true]
  | case4 p d q hread sep hahead hsep hdone hstarts ih =>
      obtain ⟨htake, hreach⟩ := take_of_takeDeclarator hread
      rw [isDone_eq_isEmpty] at hdone
      rw [startsDeclarator_eq] at hstarts
      rw [ih, tryRead, tryRead, Declarator.takeList_eq p.rest, htake, rest_eq_cons hahead]
      simp only [hsep, hdone, hstarts, if_true, Bool.false_eq_true, if_false]
      cases hmore : Declarator.takeList (q.forward 1).rest with
      | error fault => rfl
      | ok r =>
          obtain ⟨ds, left⟩ := r
          have hleft := Declarator.takeList_suffix hmore
          have hnext := hreach.trans (q.reaches_forward 1)
          simp [Except.map, hnext.leave_eq hleft]
  | case5 p d q hread sep hahead hsep hdone hstarts =>
      obtain ⟨htake, hreach⟩ := take_of_takeDeclarator hread
      rw [isDone_eq_isEmpty] at hdone
      rw [startsDeclarator_eq] at hstarts
      have hlist : Declarator.takeList p.rest = .ok ([d], (q.forward 1).rest) := by
        rw [Declarator.takeList_eq, htake, rest_eq_cons hahead]
        simp only [hsep, hdone, hstarts, if_true, Bool.false_eq_true, if_false]
      rw [tryRead_of_ok hlist, ← (hreach.trans (q.reaches_forward 1)).eq_leave]
  | case6 p d q hread sep hahead hsep =>
      obtain ⟨htake, -⟩ := take_of_takeDeclarator hread
      rw [tryRead_of_error]
      rw [Declarator.takeList_eq, htake, rest_eq_cons hahead]
      simp only [hsep, Bool.false_eq_true, if_false]

/-! ### Groups -/

/-- The group at a place: direction, lifetime, type and declared names. -/
def takeGroup (p : Place) : Except DeclFault (DeclGroup × Place) :=
  match p.ahead? 0 with
  | none => .error .incomplete
  | some first => do
      let (dir, q) := p.takeDirection
      let q ← q.skipLifetime
      let (type, q) ← q.takeDataType
      let (declarators, q) ← q.takeDeclarators
      return (⟨first.pos, dir, type, declarators⟩, q)

/-- **A group is read the same way from a place and from the tokens ahead.** -/
theorem takeGroup_eq (p : Place) : p.takeGroup = p.tryRead DeclGroup.take := by
  rw [takeGroup, tryRead, ahead?_zero]
  cases hrest : p.rest with
  | nil => rfl
  | cons first ts =>
      have hdir : (VerilogDecl.takeDirection (first :: ts)).2 <:+ p.rest :=
        hrest ▸ takeDirection_suffix _
      simp only [List.head?_cons, takeDirection_eq, read_eq, skipLifetime_eq, hrest,
        rest_leave hdir, DeclGroup.take]
      cases hskip : VerilogDecl.skipLifetime (VerilogDecl.takeDirection (first :: ts)).2 with
      | error fault => rfl
      | ok us =>
          have hskipped := leave_leave hdir (skipLifetime_suffix hskip)
          have hus : us <:+ p.rest := (skipLifetime_suffix hskip).trans hdir
          have htype : (p.leave us).tryRead DeclGroup.takeDataType = _ :=
            tryRead_leave DeclGroup.takeDataType_suffix hus
          simp only [Except.map, bind, Except.bind, takeDataType_eq, hskipped, htype]
          cases hread : DeclGroup.takeDataType us with
          | error fault => rfl
          | ok r =>
              obtain ⟨type, vs⟩ := r
              have hvs : vs <:+ p.rest := (DeclGroup.takeDataType_suffix hread).trans hus
              have hlist : (p.leave vs).tryRead Declarator.takeList = _ :=
                tryRead_leave Declarator.takeList_suffix hvs
              simp only [takeDeclarators_eq, hlist]
              cases Declarator.takeList vs <;> rfl

theorem take_of_takeGroup {p q : Place} {g : DeclGroup} (h : p.takeGroup = .ok (g, q)) :
    DeclGroup.take p.rest = .ok (g, q.rest) ∧ p.Reaches q := by
  rw [takeGroup_eq] at h
  exact reader_of_tryRead DeclGroup.take_suffix h

/-- All groups from a place to the end. -/
def takeGroups (p : Place) : Except DeclFault (List DeclGroup) :=
  if p.isDone then .ok []
  else
    match _h : p.takeGroup with
    | .error fault => .error fault
    | .ok (g, q) => (takeGroups q).map (g :: ·)
termination_by p.rest.length
decreasing_by exact DeclGroup.length_take_lt (take_of_takeGroup ‹_›).1

/-- **All groups are read the same way from a place and from the tokens ahead.** -/
theorem takeGroups_eq (p : Place) : p.takeGroups = DeclGroup.takeAll p.rest := by
  fun_induction takeGroups p with
  | case1 p hdone => rw [(isDone_iff p).1 hdone, DeclGroup.takeAll_nil]
  | case2 p hdone fault hread =>
      obtain ⟨t, ts, hrest⟩ := List.exists_cons_of_ne_nil (mt (isDone_iff p).2 hdone)
      rw [takeGroup_eq] at hread
      have htake := reader_of_tryRead_error hread
      rw [hrest] at htake ⊢
      rw [DeclGroup.takeAll_cons, htake]
  | case3 p hdone g q hread ih =>
      obtain ⟨t, ts, hrest⟩ := List.exists_cons_of_ne_nil (mt (isDone_iff p).2 hdone)
      have htake := (take_of_takeGroup hread).1
      rw [hrest] at htake ⊢
      rw [DeclGroup.takeAll_cons, htake, ih]

end Place

end VerilogDecl
