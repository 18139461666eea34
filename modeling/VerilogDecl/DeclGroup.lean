/-
**Groups of declarations.**

A group is a list of declared names that share a direction and a type.  A list of tokens holds any
number of groups, with commas between them as between the names of one group.

Main definitions:

* `VerilogDecl.DeclGroup` — names with a direction and a type;
* `VerilogDecl.TypeHead`, `VerilogDecl.TypeHead.take` — the base type and the signing in front;
* `VerilogDecl.DeclGroup.take`, `VerilogDecl.DeclGroup.takeAll` — read one group, and all groups;
* `VerilogDecl.DeclGroup.decls` — the declarations of a group, behind a trace comment if wanted.

Main results:

* `VerilogDecl.DeclGroup.length_take_lt` — reading a group takes at least one token.
-/

import VerilogDecl.Declarator

set_option relaxedAutoImplicit false
set_option autoImplicit false

namespace VerilogDecl

/-- What a caller may choose. -/
structure Options where
  /-- Put a trace comment in front of each group of declarations and each statement? -/
  markers : Bool := true
deriving DecidableEq, Repr

/-- Names that are declared with one direction and one type. -/
structure DeclGroup where
  /-- The place of the first token. -/
  pos : Position
  /-- The direction. -/
  dir : Direction
  /-- The type. -/
  type : DataType
  /-- The declared names. -/
  declarators : List Declarator

/-! ### The words in front of the names -/

/-- The direction in front, if there is one, and the tokens behind it. -/
def takeDirection : List Token → Direction × List Token
  | ⟨.direction d, _⟩ :: ts => (d, ts)
  | ts => (.unspecified, ts)

/-- A direction is taken from the front only. -/
theorem takeDirection_suffix (ts : List Token) : (takeDirection ts).2 <:+ ts := by
  unfold takeDirection
  split
  · exact List.suffix_cons ..
  · exact List.suffix_refl _

/-- The tokens behind the lifetime in front.  Declarations accept the automatic one only. -/
def skipLifetime : List Token → Except DeclFault (List Token)
  | ⟨.lifetime .automatic, _⟩ :: ts => .ok ts
  | ⟨.lifetime .static, pos⟩ :: _ => .error (.lifetime ⟨.lifetime .static, pos⟩)
  | ts => .ok ts

/-- A lifetime is taken from the front only. -/
theorem skipLifetime_suffix {ts rest : List Token} (h : skipLifetime ts = .ok rest) :
    rest <:+ ts := by
  unfold skipLifetime at h
  split at h
  · obtain rfl := Except.ok.inj h
    exact List.suffix_cons ..
  · exact nomatch h
  · obtain rfl := Except.ok.inj h
    exact List.suffix_refl _

/-- A base type and the signing behind it. -/
structure TypeHead where
  /-- The base type. -/
  base : TypeBase
  /-- The signing. -/
  signing : Signing
deriving DecidableEq, Repr

namespace TypeHead

/-- Does a name stand before the first comma?  If so, a name in front of these tokens is a type. -/
def namesType (ts : List Token) : Bool :=
  (Token.beforeComma ts).any (·.lexeme.isName)

/-- The base type and the signing in front, and the tokens behind them.  A name that is not
followed by another one before the next comma is no type and stays in place. -/
def take : List Token → TypeHead × List Token
  | ⟨.ident name, _⟩ :: ⟨.member modport, _⟩ :: ts => (⟨.interface name modport, .unspecified⟩, ts)
  | ⟨.ident name, pos⟩ :: ts =>
    if namesType ts then (⟨.typedef name, .unspecified⟩, ts)
    else (⟨.implicit, .unspecified⟩, ⟨.ident name, pos⟩ :: ts)
  | ⟨.scopedIdent scope name, pos⟩ :: ts =>
    if namesType ts then (⟨.scopedTypedef scope name, .unspecified⟩, ts)
    else (⟨.implicit, .unspecified⟩, ⟨.scopedIdent scope name, pos⟩ :: ts)
  | ⟨.typeBase base, _⟩ :: ⟨.signing s, _⟩ :: ts => (⟨base, s⟩, ts)
  | ⟨.typeBase base, _⟩ :: ts => (⟨base, .unspecified⟩, ts)
  | ⟨.signing s, _⟩ :: ts => (⟨.implicit, s⟩, ts)
  | ts => (⟨.implicit, .unspecified⟩, ts)

/-- A base type and its signing are taken from the front only. -/
theorem take_suffix (ts : List Token) : (take ts).2 <:+ ts := by
  fun_cases take ts with
  | case1 => exact (List.suffix_cons ..).trans (List.suffix_cons ..)
  | case2 => exact List.suffix_cons ..
  | case3 => exact List.suffix_refl _
  | case4 => exact List.suffix_cons ..
  | case5 => exact List.suffix_refl _
  | case6 => exact (List.suffix_cons ..).trans (List.suffix_cons ..)
  | case7 => exact List.suffix_cons ..
  | case8 => exact List.suffix_cons ..
  | case9 => exact List.suffix_refl _

end TypeHead

/-! ### Reading groups -/

namespace DeclGroup

/-- Reads the type in front, with its packed dimensions. -/
def takeDataType (ts : List Token) : Except DeclFault (DataType × List Token) :=
  let (head, afterHead) := TypeHead.take ts
  let rest := Dimension.after afterHead
  match head.base.resolve head.signing (Dimension.ranges afterHead) with
  | .ok type => .ok (type, rest)
  | .error misuse => .error (.signing misuse (ts.take (ts.length - rest.length)))

/-- A type is taken from the front only. -/
theorem takeDataType_suffix {ts rest : List Token} {type : DataType}
    (h : takeDataType ts = .ok (type, rest)) : rest <:+ ts := by
  simp only [takeDataType] at h
  split at h
  · obtain ⟨-, rfl⟩ := Prod.mk.inj (Except.ok.inj h)
    exact (Dimension.after_suffix _).trans (TypeHead.take_suffix ts)
  · exact nomatch h

/-- Reads one group: direction, lifetime, type and declared names. -/
def take : List Token → Except DeclFault (DeclGroup × List Token)
  | [] => .error .incomplete
  | first :: ts => do
    let (dir, ts) := takeDirection (first :: ts)
    let ts ← skipLifetime ts
    let (type, ts) ← takeDataType ts
    let (declarators, rest) ← Declarator.takeList ts
    return (⟨first.pos, dir, type, declarators⟩, rest)

/-- Reading a group takes at least one token. -/
theorem length_take_lt {ts rest : List Token} {g : DeclGroup} (h : take ts = .ok (g, rest)) :
    rest.length < ts.length := by
  cases ts with
  | nil => exact nomatch h
  | cons first ts =>
    simp only [take, bind, Except.bind, pure, Except.pure] at h
    split at h
    · exact nomatch h
    next ts₁ h₁ =>
      split at h
      · exact nomatch h
      next r₂ h₂ =>
        split at h
        · exact nomatch h
        next r₃ h₃ =>
          obtain ⟨-, rfl⟩ := Prod.mk.inj (Except.ok.inj h)
          have hs := (takeDataType_suffix h₂).trans
            ((skipLifetime_suffix h₁).trans (takeDirection_suffix (first :: ts)))
          exact Nat.lt_of_lt_of_le (Declarator.length_takeList_lt h₃) hs.length_le

/-- Reads all groups, front to back. -/
def takeAll (ts : List Token) : Except DeclFault (List DeclGroup) :=
  if ts.isEmpty then .ok []
  else
    match _h : take ts with
    | .error fault => .error fault
    | .ok (g, rest) => (takeAll rest).map (g :: ·)
termination_by ts.length
decreasing_by exact length_take_lt ‹_›

@[simp] theorem takeAll_nil : takeAll [] = .ok [] := by
  simp [takeAll]

/-- The groups of a list are its first group and those behind it. -/
theorem takeAll_cons (t : Token) (ts : List Token) :
    takeAll (t :: ts) =
      match take (t :: ts) with
      | .error fault => .error fault
      | .ok (g, rest) => (takeAll rest).map (g :: ·) := by
  rw [takeAll]
  simp only [List.isEmpty_cons, Bool.false_eq_true, if_false]
  split <;> simp [*]

/-- The declarations of a group, behind a trace comment if wanted. -/
def decls (options : Options) (g : DeclGroup) : List Decl :=
  (if options.markers then [.comment g.pos.trace] else []) ++
    g.declarators.map fun d => .var ⟨g.dir, g.type, d.name, d.ranges, d.init⟩

end DeclGroup

end VerilogDecl
