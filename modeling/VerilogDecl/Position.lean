/-
**Positions in source files.**

Every token knows the place it was read from.  Positions label the trace comments that precede
what was read, and the spans of diagnostics; lines and columns are plain integers.

Main definitions:

* `VerilogDecl.Position` — file, line and column;
* `VerilogDecl.Position.text`, `VerilogDecl.Position.trace` — its text, alone and in a trace comment;
* `VerilogDecl.Position.span` — the span of one column that starts there.
-/

set_option relaxedAutoImplicit false
set_option autoImplicit false

namespace VerilogDecl

/-- A place in a source file. -/
structure Position where
  /-- The file. -/
  file : String
  /-- The line. -/
  line : Int
  /-- The column. -/
  column : Int
deriving DecidableEq, Repr

/-- A stretch of a source file. -/
structure Span where
  /-- The first place of the stretch. -/
  start : Position
  /-- The place just after the stretch. -/
  stop : Position
deriving DecidableEq, Repr

namespace Position

/-- File, line and column with colons between them. -/
def text (p : Position) : String :=
  p.file ++ ":" ++ toString p.line ++ ":" ++ toString p.column

/-- The text of the trace comment for what starts at `p`. -/
def trace (p : Position) : String :=
  "Trace: " ++ p.text

/-- The span of one column that starts at `p`. -/
def span (p : Position) : Span :=
  ⟨p, { p with column := p.column + 1 }⟩

@[simp] theorem span_start (p : Position) : p.span.start = p := rfl

end Position

end VerilogDecl
