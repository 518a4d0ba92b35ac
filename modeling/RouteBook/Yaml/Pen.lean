/-! A pen that writes indented text and keeps what decides on blanks and line breaks: the column,
whether a blank was just written, and whether only indentation stands on the line. -/
namespace RouteBook.Yaml

structure Pen where
  /-- What is written, last first. -/
  out : List Char := []
  column : Nat := 0
  blank : Bool := true
  indented : Bool := true

namespace Pen

def text (p : Pen) : String := String.ofList p.out.reverse

def write (p : Pen) (s : List Char) : Pen :=
  { p with out := s.reverse ++ p.out, column := p.column + s.length }

def lineBreak (p : Pen) (c : Char) : Pen :=
  { out := c :: p.out, column := 0, blank := true, indented := true }

/-- Goes to a column on a fresh line, or stays where only indentation stands before it. -/
def indent (p : Pen) (n : Nat) : Pen :=
  let q :=
    if !p.indented || n < p.column || (p.column == n && !p.blank) then p.lineBreak '\n' else p
  if q.column < n then { q.write (List.replicate (n - q.column) ' ') with blank := true } else q

/-- Writes a mark, after a blank where one is needed. `keeps` tells whether the line still counts
as indentation, `opens` whether the mark serves as a blank. -/
def mark (p : Pen) (s : List Char) (needsBlank opens keeps : Bool) : Pen :=
  let q := p.write (if p.blank || !needsBlank then s else ' ' :: s)
  { q with blank := opens, indented := p.indented && keeps }

def solid (p : Pen) : Pen := { p with blank := false, indented := false }

end Pen

end RouteBook.Yaml
