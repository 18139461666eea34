/-
**Declared names.**

A declarator is a name with its unpacked dimensions and its initial value.  Behind a comma, one
cannot see from the next token alone whether it starts another declarator or the type of a new
group: `three` in `one two, three [1:0], four` is a name, in `one two, three [1:0] four` it is a
type.  What decides is the token behind the name and its dimensions.

Main definitions:

* `VerilogDecl.Declarator` — a declared name;
* `VerilogDecl.Declarator.starts` — does a declarator start here?
* `VerilogDecl.Declarator.take` — reads one declarator;
* `VerilogDecl.Declarator.takeList` — reads the declarators of one group.

Main results:

* `VerilogDecl.Declarator.length_take_lt`, `VerilogDecl.Declarator.length_takeList_lt` — reading
  takes at least one token.
-/

import VerilogDecl.Dimension
import VerilogDecl.Fault

set_option relaxedAutoImplicit false
set_option autoImplicit false

namespace VerilogDecl

/-- A declared name. -/
structure Declarator where
  /-- The name. -/
  name : String
  /-- The unpacked dimensions. -/
  ranges : List Range
  /-- The initial value, if there is one. -/
  init : Option Expr

/-- The initial value in front, if there is one, and the tokens behind it.  Every assignment counts
here; those that may not initialize a declaration are refused before. -/
def takeInit : List Token → Option Expr × List Token
  | ⟨.assign a, _⟩ :: ts => (some a.expr, ts)
  | ts => (none, ts)

/-- An initial value is taken from the front only. -/
theorem takeInit_suffix (ts : List Token) : (takeInit ts).2 <:+ ts := by
  unfold takeInit
  split
  · exact List.suffix_cons ..
  · exact List.suffix_refl _

namespace Declarator

/-- Does a declarator start here?  It does if a name and its dimensions are followed by the end, by
an initial value or by a comma; a type would be followed by a name. -/
def starts : List Token → Bool
  | ⟨.ident _, _⟩ :: ts =>
    match Dimension.after ts with
    | [] => true
    | t :: _ => t.isAssign || t.isSeparator
  | _ => false

/-- Reads one declarator. -/
def take : List Token → Except DeclFault (Declarator × List Token)
  | [] => .error .incomplete
  | ⟨.ident name, _⟩ :: ts =>
    let (init, rest) := takeInit (Dimension.after ts)
    .ok (⟨name, Dimension.ranges ts, init⟩, rest)
  | t :: _ => .error (.nameExpected t)

/-- A declarator is taken from the front, and its name is part of it. -/
theorem take_suffix_tail {ts rest : List Token} {d : Declarator} (h : take ts = .ok (d, rest)) :
    rest <:+ ts.tail := by
  unfold take at h
  split at h
  · exact nomatch h
  next name pos ts =>
    obtain ⟨-, rfl⟩ := Prod.mk.inj (Except.ok.inj h)
    exact (takeInit_suffix _).trans (Dimension.after_suffix ts)
  · exact nomatch h

/-- Reading a declarator takes at least one token. -/
theorem length_take_lt {ts rest : List Token} {d : Declarator} (h : take ts = .ok (d, rest)) :
    rest.length < ts.length := by
  cases ts with
  | nil => exact nomatch h
  | cons t ts => exact Nat.lt_succ_of_le (take_suffix_tail h).length_le

/-- Reads the declarators of one group.  The first is due; behind a comma more follow for as long
as one starts there. -/
def takeList (ts : List Token) : Except DeclFault (List Declarator × List Token) :=
  match _h : take ts with
  | .error fault => .error fault
  | .ok (d, []) => .ok ([d], [])
  | .ok (d, sep :: rest) =>
    if sep.isSeparator then
      if rest.isEmpty then .error .trailingComma
      else if starts rest then (takeList rest).map fun (ds, rest') => (d :: ds, rest')
      else .ok ([d], rest)
    else .error (.separatorExpected (sep :: rest))
termination_by ts.length
decreasing_by
  have := length_take_lt ‹_›
  simp only [List.length_cons] at this
  omega

/-- The declarators of a group are one declarator, and behind a comma maybe more. -/
theorem takeList_eq (ts : List Token) :
    takeList ts =
      match take ts with
      | .error fault => .error fault
      | .ok (d, []) => .ok ([d], [])
      | .ok (d, sep :: rest) =>
        if sep.isSeparator then
          if rest.isEmpty then .error .trailingComma
          else if starts rest then (takeList rest).map fun (ds, rest') => (d :: ds, rest')
          else .ok ([d], rest)
        else .error (.separatorExpected (sep :: rest)) := by
  rw [takeList]
  split <;> simp [*]

/-- Reading the declarators of a group takes at least one token. -/
theorem length_takeList_lt {ts rest : List Token} {ds : List Declarator}
    (h : takeList ts = .ok (ds, rest)) : rest.length < ts.length := by
  fun_induction takeList ts generalizing ds rest with
  | case1 => exact nomatch h
  | case2 ts d ht =>
    obtain ⟨-, rfl⟩ : [d] = ds ∧ [] = rest := by simpa using h
    exact length_take_lt ht
  | case3 => exact nomatch h
  | case4 ts d sep tail ht hsep hne hs ih =>
    have ht := length_take_lt ht
    simp only [List.length_cons] at ht
    cases hr : takeList tail with
    | error fault => simp [hr, Except.map] at h
    | ok r =>
      have hlt : r.2.length < tail.length := ih hr
      obtain ⟨-, rfl⟩ : d :: r.1 = ds ∧ r.2 = rest := by simpa [hr, Except.map] using h
      omega
  | case5 ts d sep tail ht =>
    have ht := length_take_lt ht
    obtain ⟨-, rfl⟩ : [d] = ds ∧ tail = rest := by simpa using h
    simp only [List.length_cons] at ht
    omega
  | case6 => exact nomatch h

end Declarator

end VerilogDecl
