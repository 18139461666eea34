/-
**Places in a list of tokens.**

A place is a list of tokens and a number of them that are behind.  Whatever reads from the front of
a list reads from a place as well: it reads the tokens that are ahead.

Main definitions:

* `VerilogDecl.Place` — a place in a list of tokens;
* `VerilogDecl.Place.rest`, `VerilogDecl.Place.ahead?`, `VerilogDecl.Place.distance?` — what is ahead;
* `VerilogDecl.Place.forward`, `VerilogDecl.Place.read` — moves.

Main results:

* `VerilogDecl.Place.rest_forward` — moving forward drops tokens from the front;
* `VerilogDecl.Place.rest_read` — after reading, the tokens ahead are those that were left.
-/

import VerilogDecl.Token

set_option relaxedAutoImplicit false
set_option autoImplicit false

namespace VerilogDecl

/-- A place in a list of tokens. -/
@[ext] structure Place where
  /-- The whole list. -/
  tokens : List Token
  /-- The number of tokens that are behind. -/
  index : Nat
  /-- No more tokens are behind than there are. -/
  index_le : index ≤ tokens.length

namespace Place

/-- The place in front of all tokens. -/
def start (ts : List Token) : Place :=
  ⟨ts, 0, Nat.zero_le _⟩

/-- The tokens ahead. -/
def rest (p : Place) : List Token :=
  p.tokens.drop p.index

/-- The token that is `offset` tokens ahead. -/
def ahead? (p : Place) (offset : Nat) : Option Token :=
  p.tokens[p.index + offset]?

/-- Is no token ahead? -/
def isDone (p : Place) : Bool :=
  p.index = p.tokens.length

/-- How many tokens ahead the first one with the property `q` stands. -/
def distance? (p : Place) (q : Token → Bool) : Option Nat :=
  p.rest.findIdx? q

/-- The place `count` tokens further, or the end. -/
def forward (p : Place) (count : Nat) : Place :=
  ⟨p.tokens, min (p.index + count) p.tokens.length, Nat.min_le_right ..⟩

/-- Reads from the tokens ahead with a reader that returns the tokens it left. -/
def read {α : Type} (p : Place) (reader : List Token → α × List Token) : α × Place :=
  let (value, left) := reader p.rest
  (value, p.forward (p.rest.length - left.length))

@[simp] theorem rest_start (ts : List Token) : (start ts).rest = ts := rfl

@[simp] theorem length_rest (p : Place) : p.rest.length = p.tokens.length - p.index := by
  simp [rest]

theorem ahead?_eq_getElem?_rest (p : Place) (offset : Nat) : p.ahead? offset = p.rest[offset]? := by
  simp [ahead?, rest]

/-- The end is where no token is ahead. -/
theorem isDone_iff (p : Place) : p.isDone = true ↔ p.rest = [] := by
  have := p.index_le
  simp only [isDone, rest, decide_eq_true_eq, List.drop_eq_nil_iff]
  omega

/-- Moving forward drops tokens from the front. -/
@[simp] theorem rest_forward (p : Place) (count : Nat) :
    (p.forward count).rest = p.rest.drop count := by
  simp only [forward, rest, List.drop_drop]
  by_cases h : p.index + count ≤ p.tokens.length
  · rw [Nat.min_eq_left h]
  · rw [Nat.min_eq_right (by omega), List.drop_eq_nil_of_le (Nat.le_refl _),
      List.drop_eq_nil_of_le (by omega)]

/-- After reading, the tokens ahead are those that the reader left. -/
theorem rest_read {α : Type} (p : Place) {reader : List Token → α × List Token}
    (h : (reader p.rest).2 <:+ p.rest) : (p.read reader).2.rest = (reader p.rest).2 := by
  simp only [read, rest_forward]
  exact (List.suffix_iff_eq_drop.1 h).symm

end Place

end VerilogDecl
