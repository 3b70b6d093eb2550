/-!
Places in a source file.
-/

namespace HotScript

/-- A stretch of source: start line and column counted from one, length on the first line, and the
last line it covers. -/
structure Span where
  line : Nat := 0
  col : Nat := 0
  len : Nat := 0
  endLine : Nat := 0
deriving Repr, DecidableEq, Inhabited

namespace Span

def on (line col len : Nat) : Span := ⟨line, col, len, line⟩

def point (line col : Nat) : Span := on line col 0

/-- Whole lines from `first` to `last`; a last line before the first counts as the first. -/
def lines (first last : Nat) : Span := ⟨first, 1, 0, max last first⟩

def isEmpty (s : Span) : Bool := s.len == 0

def lineCount (s : Span) : Nat := max s.endLine s.line + 1 - s.line

/-- The first lines a span touches, at most `n` of them. -/
def firstLines (s : Span) (n : Nat) : List Nat :=
  (List.range (min n s.lineCount)).map (s.line + ·)

def lineRange (s : Span) : List Nat := s.firstLines s.lineCount

def startsBefore (a b : Span) : Bool :=
  decide (a.line < b.line ∨ a.line = b.line ∧ a.col < b.col)

/-- The span that starts where the earlier of the two starts and covers both. -/
def merge (a b : Span) : Span :=
  let (first, second) := if b.startsBefore a then (b, a) else (a, b)
  let endLine := max first.endLine second.endLine
  if first.line = second.line then
    { first with len := max (second.col + second.len) (first.col + first.len) - first.col, endLine }
  else { first with endLine }

def text (s : Span) : String :=
  toString s.line ++ ":" ++ toString s.col

def header (s : Span) : Span := { s with endLine := s.line }

end Span

end HotScript
