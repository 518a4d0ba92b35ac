import RouteBook.Yaml.Style

/-! A place in a text, with its line and column. -/
namespace RouteBook.Yaml

structure Cursor where
  rest : List Char
  index : Nat := 0
  line : Nat := 0
  column : Nat := 0

def isNewline (c : Char) : Bool := c == '\r' || isBreak c

namespace Cursor

/-- The character at a distance; the null character past the end. -/
def peek (c : Cursor) (n : Nat := 0) : Char := (c.rest.drop n).headD '\x00'

def atEnd (c : Cursor) : Bool := c.rest.isEmpty

/-- One character on. A carriage return before a line feed ends no line of its own, and a byte
order mark takes no column. -/
def next (c : Cursor) : Cursor :=
  match c.rest with
  | [] => c
  | ch :: rest =>
    if isBreak ch || (ch == '\r' && rest.headD '\x00' != '\n') then
      { rest, index := c.index + 1, line := c.line + 1, column := 0 }
    else
      { rest, index := c.index + 1, line := c.line,
        column := if ch == '\uFEFF' then c.column else c.column + 1 }

def skip : Nat → Cursor → Cursor
  | 0, c => c
  | n + 1, c => skip n c.next

def span (c : Cursor) (p : Char → Bool) : List Char × Cursor :=
  let run := c.rest.takeWhile p
  (run, c.skip run.length)

def skipWhile (c : Cursor) (p : Char → Bool) : Cursor := (c.span p).2

def skipSpaces (c : Cursor) : Cursor := c.skipWhile (· == ' ')

def blankAt (c : Cursor) (n : Nat) : Bool :=
  match c.rest.drop n with
  | [] => true
  | ch :: _ => isSpaceOrBreak ch

def atMarker (c : Cursor) : Bool := isMarker c.rest && c.blankAt 3

/-- The break at a place, read as a line feed where it is one of the plain ones. -/
def lineBreak (c : Cursor) : List Char × Cursor :=
  match c.rest with
  | '\r' :: '\n' :: _ => (['\n'], c.skip 2)
  | ch :: _ =>
    if ch == '\r' || ch == '\n' || ch == '\x85' then (['\n'], c.next)
    else if isBreak ch then ([ch], c.next)
    else ([], c)
  | [] => ([], c)

def skipComment (c : Cursor) : Cursor :=
  if c.peek == '#' then c.skipWhile (!isNewline ·) else c

def atLineEnd (c : Cursor) : Bool := c.atEnd || isNewline c.peek

end Cursor

end RouteBook.Yaml
