import CheckedThrows.Text.CodePoint

/-!
# Positions, extents and spans

Lines and columns count from one and offsets from zero, all in characters;
only a line feed starts a new line.  An `Extent` is where something of a source
text stands.  A `Span` is what a report says about a place: the file and
whatever else is known of it.
-/

namespace CheckedThrows

structure Position where
  line : Nat
  column : Nat
  offset : Nat
  deriving DecidableEq, Repr

namespace Position

def start : Position := ⟨1, 1, 0⟩

def next (p : Position) (c : Char) : Position :=
  if c = '\n' then ⟨p.line + 1, 1, p.offset + 1⟩
  else ⟨p.line, p.column + 1, p.offset + 1⟩

def advance (p : Position) (cs : List Char) : Position :=
  cs.foldl next p

end Position

structure Extent where
  start : Position
  stop : Position
  deriving DecidableEq, Repr

structure Span where
  file : Option String := none
  line : Option Int := none
  column : Option Int := none
  endLine : Option Int := none
  endColumn : Option Int := none
  offset : Option Int := none
  endOffset : Option Int := none
  deriving DecidableEq, Repr

/-- What a reader of source text knows of a region: nothing if it is empty. -/
structure Region where
  isEmpty : Bool := false
  line : Option Int := none
  column : Option Int := none
  endLine : Option Int := none
  endColumn : Option Int := none
  offset : Option Int := none
  endOffset : Option Int := none

namespace Span

def length (s : Span) : Option Int := do
  return (← s.endOffset) - (← s.offset)

def withFile (s : Span) (file : Option String) : Span :=
  { s with file }

def ofRegion (region : Option Region) (file : Option String) : Span :=
  match region with
  | none => { file }
  | some r =>
    if r.isEmpty then { file }
    else ⟨file, r.line, r.column, r.endLine, r.endColumn, r.offset, r.endOffset⟩

def ofExtent (file : String) (e : Extent) : Span where
  file := file
  line := some e.start.line
  column := some e.start.column
  endLine := some e.stop.line
  endColumn := some e.stop.column
  offset := some e.start.offset
  endOffset := some e.stop.offset

def ofPosition (file : String) (p : Position) : Span where
  file := file
  line := some p.line
  column := some p.column
  offset := some p.offset

/-- The file, unless it has no name, and then line and column, as far as they
are known. -/
def render (s : Span) : String :=
  let file := (s.file.filter (· ≠ "")).toList
  let place := (s.line.map fun l => toString l ++ ":" ++ toString (s.column.getD 0)).toList
  match file ++ place with
  | [] => "<unknown location>"
  | parts => ":".intercalate parts

end Span

end CheckedThrows
