/-
**String literals.**

A string value is written between double quotes.  Double quote and backslash are escaped by a
backslash, five control characters have a letter of their own, and every other character below
U+0020 is written with four lower-case hexadecimal digits.  All other characters stand as they are.

Main definitions:

* `VerilogDecl.Text.escape` — how one character is written inside a literal;
* `VerilogDecl.Text.quoted` — the literal of a text.
-/

set_option relaxedAutoImplicit false
set_option autoImplicit false

namespace VerilogDecl

namespace Text

/-- The letter that stands for a control character after a backslash. -/
def controlLetter? (c : Char) : Option Char :=
  match c.toNat with
  | 8 => some 'b'
  | 9 => some 't'
  | 10 => some 'n'
  | 12 => some 'f'
  | 13 => some 'r'
  | _ => none

/-- One character as it is written inside a string literal. -/
def escape (c : Char) : List Char :=
  if c = '\x22' ∨ c = '\\' then ['\\', c]
  else match controlLetter? c with
    | some l => ['\\', l]
    | none =>
      if c.toNat < 32 then
        ['\\', 'u', '0', '0', Nat.digitChar (c.toNat / 16), Nat.digitChar (c.toNat % 16)]
      else [c]

/-- The string literal of a text. -/
def quoted (s : String) : String :=
  String.ofList ('\x22' :: (s.toList.flatMap escape ++ ['\x22']))

/-- Only the two delimiters and the control characters are escaped. -/
theorem escape_eq_singleton {c : Char} (hq : c ≠ '\x22') (hb : c ≠ '\\') (h : 32 ≤ c.toNat) :
    escape c = [c] := by
  have hl : controlLetter? c = none := by
    unfold controlLetter?
    split
    · omega
    · omega
    · omega
    · omega
    · omega
    · rfl
  have hn : ¬ c.toNat < 32 := by omega
  simp [escape, hq, hb, hl, hn]

@[simp] theorem toList_quoted (s : String) :
    (quoted s).toList = '\x22' :: (s.toList.flatMap escape ++ ['\x22']) := by
  simp [quoted]

end Text

end VerilogDecl
