import RouteBook.Source.Tree
import RouteBook.Text.Utf8

/-! A place in a source text. Blanks and comments may stand between any two tokens; they are passed
just before a token is read, so that the place after a token is its very end. -/
namespace RouteBook.Source

open Text (Piece)

structure Cursor where
  rest : List Piece
  /-- The byte offset of the place. -/
  pos : Nat := 0
  /-- The comments passed so far, the last one first. -/
  comments : List Tree := []
  /-- Whether markup elements are part of the language, in place of casts in angle brackets. -/
  markup : Bool := true
  /-- Whether a colon after a parameter list cannot start a return type. -/
  noReturnType : Bool := false

def isSpace (c : Char) : Bool :=
  let n := c.toNat
  (9 ≤ n && n ≤ 13) || n == 0x20 || n == 0xA0 || n == 0x1680 || (0x2000 ≤ n && n ≤ 0x200B) ||
    n == 0x2028 || n == 0x2029 || n == 0x202F || n == 0x205F || n == 0x2060 || n == 0x3000 ||
    n == 0xFEFF

def isLineBreak (c : Char) : Bool :=
  c == '\n' || c == '\r' || c == '\u2028' || c == '\u2029'

def isA (p : Char → Bool) : Piece → Bool
  | .char c => p c
  | .stray _ => false

/-- Whether a piece is outside of a class; the null character is outside of nothing. -/
def isNotA (p : Char → Bool) : Piece → Bool
  | .char c => c != '\x00' && !p c
  | .stray _ => true

def startsWith (ps : List Piece) (s : String) : Bool := (Text.ofChars s.toList).isPrefixOf ps

def headIs (p : Char → Bool) : List Piece → Bool
  | q :: _ => isA p q
  | [] => false

def blockCommentEnd? : List Piece → Option Nat
  | [] => none
  | p :: rest =>
    if startsWith (p :: rest) "*/" then some 2
    else if isNotA (fun _ => false) p then (blockCommentEnd? rest).map (· + 1)
    else none

def commentLength? (ps : List Piece) : Option Nat :=
  if startsWith ps "//" then some (2 + ((ps.drop 2).takeWhile (isNotA isLineBreak)).length)
  else if startsWith ps "/*" then (blockCommentEnd? (ps.drop 2)).map (· + 2)
  else none

def pageCommentLength? (ps : List Piece) : Option Nat :=
  let ends (c : Char) : Bool := c == '\n' || c == '\u2028' || c == '\u2029'
  if startsWith ps "<!--" || startsWith ps "-->" then
    some (ps.takeWhile (isNotA ends)).length
  else none

namespace Cursor

def advance : Nat → Cursor → Cursor
  | 0, c => c
  | n + 1, c => match c.rest with
    | [] => c
    | p :: rest => advance n { c with rest, pos := c.pos + p.size }

theorem rest_advance (n : Nat) (c : Cursor) : (c.advance n).rest = c.rest.drop n := by
  induction n generalizing c with
  | zero => rfl
  | succ n ih =>
    rw [advance]
    split
    · simp_all
    · next h => rw [ih, h]; rfl

def skipSpace (c : Cursor) : Cursor := c.advance (c.rest.takeWhile (isA isSpace)).length

def takeComment (c : Cursor) (n : Nat) : Cursor :=
  let d := c.advance n
  { d with comments :=
      .comment d.pos (String.ofList (Text.pieceText (c.rest.take n))) :: d.comments }

theorem rest_takeComment (n : Nat) (c : Cursor) : (c.takeComment n).rest = c.rest.drop n :=
  rest_advance n c

theorem length_skipSpace (c : Cursor) : c.skipSpace.rest.length ≤ c.rest.length := by
  simp [skipSpace, rest_advance]

/-- Past a comment, if one is there after white space. -/
def comment? (c : Cursor) : Option Cursor :=
  let d := c.skipSpace
  match commentLength? d.rest with
  | some n => if 0 < n ∧ d.rest ≠ [] then some (d.takeComment n) else none
  | none => none

theorem length_comment? {c d : Cursor} (h : c.comment? = some d) :
    d.rest.length < c.rest.length := by
  simp only [comment?] at h
  split at h
  · split at h
    · next n _ hn =>
      cases h
      rw [rest_takeComment, List.length_drop]
      have := List.length_pos_iff.2 hn.2
      have := length_skipSpace c
      omega
    · cases h
  · cases h

def skipExtras (c : Cursor) : Cursor :=
  match _h : c.comment? with
  | some d => d.skipExtras
  | none => c.skipSpace
termination_by c.rest.length
decreasing_by exact length_comment? _h

/-- Past white space and comments, those of a page included, where an operand or a statement may
start. -/
def skipToOperand : Nat → Cursor → Cursor
  | 0, c => c.skipExtras
  | fuel + 1, c =>
    let d := c.skipExtras
    match pageCommentLength? d.rest with
    | some n => skipToOperand fuel (d.advance n)
    | none => d

end Cursor

/-- A parser; it may fail, and then nothing has been read. -/
abbrev Parse := StateT Cursor Option

/-- Whether a token with a fixed spelling comes next; it is read then. -/
def accept (s : String) : Parse Bool := fun c =>
  let d := c.skipExtras
  if startsWith d.rest s then some (true, d.advance s.length) else some (false, c)

def expect (s : String) : Parse Unit := do
  if ← accept s then return else failure

def sees (s : String) : Parse Bool := fun c => some (startsWith c.skipExtras.rest s, c)

/-- Moves to the next token; its start. -/
def tokenStart : Parse Nat := do
  modify fun c => c.skipToOperand 100
  return (← get).pos

def skipPieces (n : Nat) : Parse Unit := modify (·.advance n)

/-- Runs a parser if it succeeds. -/
def optionally {α : Type} (p : Parse α) : Parse (Option α) := (some <$> p) <|> pure none

/-- Whether a parser succeeds here; nothing is read. -/
def wouldParse {α : Type} (p : Parse α) : Parse Bool := fun c => some ((p c).isSome, c)

/-- Runs a parser as often as it succeeds, at most so many times. -/
def manyUpTo {α : Type} (p : Parse α) : Nat → Parse (List α)
  | 0 => pure []
  | n + 1 => do
    match ← optionally p with
    | some a => return a :: (← manyUpTo p n)
    | none => return []

def many {α : Type} (p : Parse α) : Parse (List α) := do manyUpTo p ((← get).rest.length + 1)

def commaListUpTo (close : String) (item : Parse Tree) : Nat → Parse (List Tree)
  | 0 => failure
  | n + 1 => do
    if ← accept close then return []
    let t ← item
    if ← accept close then return [t]
    expect ","
    return t :: (← commaListUpTo close item n)

def commaList (close : String) (item : Parse Tree) : Parse (List Tree) := do
  commaListUpTo close item ((← get).rest.length + 1)

def sparseListUpTo (close : String) (item : Parse Tree) : Nat → Parse (List Tree)
  | 0 => failure
  | n + 1 => do
    if ← accept close then return []
    if ← accept "," then return ← sparseListUpTo close item n
    let t ← item
    if ← accept close then return [t]
    expect ","
    return t :: (← sparseListUpTo close item n)

def sparseList (close : String) (item : Parse Tree) : Parse (List Tree) := do
  sparseListUpTo close item ((← get).rest.length + 1)

end RouteBook.Source
