/-
**Dimensions.**

A dimension is a range between two ends, or a pair of brackets without bounds.  An unsized
dimension takes its bounds from a plain initializer right behind it that lists the elements of the
array; otherwise it adds no range.  A run of dimensions is read as far as it goes.

Main definitions:

* `VerilogDecl.Dimension.isDimension` — is a lexeme a dimension?
* `VerilogDecl.Dimension.implied?` — the bounds that the next token gives to an unsized dimension;
* `VerilogDecl.Dimension.ranges`, `VerilogDecl.Dimension.after` — the ranges of the run of
  dimensions in front, and the tokens behind that run.

Main results:

* `VerilogDecl.Dimension.length_after_le` — the run takes tokens from the front only.
-/

import VerilogDecl.Token

set_option relaxedAutoImplicit false
set_option autoImplicit false

namespace VerilogDecl

namespace Dimension

/-- Is this lexeme a dimension? -/
def isDimension : Lexeme → Bool
  | .range .nonIndexed _ => true
  | .unsized => true
  | _ => false

/-- The bounds that an initializer gives to an unsized dimension in front of it. -/
def ofInit? (a : Assign) : Option Range :=
  if a.isPlain then a.expr.elementCount?.map Range.ofCount else none

/-- The bounds that the next token gives to an unsized dimension. -/
def implied? : List Token → Option Range
  | ⟨.assign a, _⟩ :: _ => ofInit? a
  | _ => none

/-- The ranges of the run of dimensions in front. -/
def ranges : List Token → List Range
  | [] => []
  | t :: ts =>
    match t.lexeme with
    | .range .nonIndexed r => r :: ranges ts
    | .unsized => (implied? ts).toList ++ ranges ts
    | _ => []

/-- The tokens behind the run of dimensions in front. -/
def after (ts : List Token) : List Token :=
  ts.dropWhile (isDimension ·.lexeme)

@[simp] theorem ranges_nil : ranges [] = [] := rfl

@[simp] theorem after_nil : after [] = [] := rfl

/-- A run of dimensions takes tokens from the front only. -/
theorem after_suffix (ts : List Token) : after ts <:+ ts :=
  List.dropWhile_suffix _

theorem length_after_le (ts : List Token) : (after ts).length ≤ ts.length :=
  (after_suffix ts).length_le

/-- Where no dimension stands in front there are no ranges. -/
theorem ranges_cons_of_not_isDimension {t : Token} (h : isDimension t.lexeme = false)
    (ts : List Token) : ranges (t :: ts) = [] := by
  unfold ranges
  split
  next r he => simp [isDimension, he] at h
  next he => simp [isDimension, he] at h
  next => rfl

end Dimension

end VerilogDecl
