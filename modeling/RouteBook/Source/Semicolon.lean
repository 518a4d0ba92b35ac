import RouteBook.Source.Cursor

/-! Statements may end without a semicolon: at the end of the text, before a closing brace, and at
a line end unless the next line goes on with the statement. -/
namespace RouteBook.Source

open Text (Piece)

def isWideSpace (c : Char) : Bool :=
  let n := c.toNat
  (9 ≤ n && n ≤ 13) || n == 0x20 || n == 0x1680 || (0x2000 ≤ n && n ≤ 0x2006) ||
    (0x2008 ≤ n && n ≤ 0x200A) || n == 0x2028 || n == 0x2029 || n == 0x205F || n == 0x3000

/-- The text after the end of a block comment; nothing if it has none. -/
def afterBlockComment : List Piece → List Piece
  | [] => []
  | p :: rest => if startsWith (p :: rest) "*/" then rest.drop 1 else afterBlockComment rest

theorem length_afterBlockComment (ps : List Piece) :
    (afterBlockComment ps).length ≤ ps.length := by
  induction ps with
  | nil => simp [afterBlockComment]
  | cons p rest ih =>
    rw [afterBlockComment]
    split
    · simp only [List.length_drop, List.length_cons]; omega
    · simp only [List.length_cons]; omega

/-- The first text of the next line, after white space and comments; nothing before a slash that
starts no comment. -/
def lineText? (ps : List Piece) : Option (List Piece) :=
  match _h : ps.dropWhile (isA isWideSpace) with
  | .char '/' :: .char '/' :: rest => lineText? (rest.dropWhile (isNotA (· == '\n')))
  | .char '/' :: .char '*' :: rest => lineText? (afterBlockComment rest)
  | .char '/' :: _ => none
  | rest => some rest
termination_by ps.length
decreasing_by
  · have h1 : (ps.dropWhile (isA isWideSpace)).length ≤ ps.length :=
      (List.dropWhile_sublist _).length_le
    have h2 : (rest.dropWhile (isNotA (· == '\n'))).length ≤ rest.length :=
      (List.dropWhile_sublist _).length_le
    rw [_h] at h1
    simp at h1
    omega
  · have h1 : (ps.dropWhile (isA isWideSpace)).length ≤ ps.length :=
      (List.dropWhile_sublist _).length_le
    have h2 := length_afterBlockComment rest
    rw [_h] at h1
    simp at h1
    omega

def isLetter (c : Char) : Bool := c.isAlpha || 127 < c.toNat

def startsWithWord (ps : List Piece) (s : String) : Bool :=
  startsWith ps s && !headIs isLetter (ps.drop s.length)

/-- Whether a line goes on with the statement of the line before. `inExpr` tells that an
expression has just ended, `inHeader` the head of a function. -/
def goesOn (inExpr inHeader : Bool) (ps : List Piece) : Bool :=
  if headIs (fun c => ['`', ',', '.', ';', '*', '%', '>', '<', '=', '?', '^', '|', '&', '/',
      ':'].contains c) ps then true
  else if startsWith ps "\x7b" then inHeader
  else if startsWith ps "(" || startsWith ps "[" then inExpr
  else if startsWith ps "+" then !startsWith ps "++"
  else if startsWith ps "-" then !startsWith ps "--"
  else if startsWith ps "!" then startsWith ps "!="
  else startsWithWord ps "in" || startsWithWord ps "instanceof"

/-- Whether a statement ends here without a semicolon. -/
def endsHere (inExpr inHeader : Bool) : List Piece → Bool
  | [] => true
  | .stray _ :: _ => false
  | .char c :: rest =>
    if c == '\x00' then true
    else if c == '\x7d' then !startsWith (rest.dropWhile (isA isWideSpace)) ":" || inExpr
    else if c == '\n' then
      match lineText? rest with
      | some ps => !goesOn inExpr inHeader ps
      | none => false
    else if isWideSpace c then endsHere inExpr inHeader rest
    else false

/-- The place after comments where a statement ends without a semicolon, if it does. -/
def Cursor.statementEnd? (inExpr inHeader : Bool) (c : Cursor) : Option Cursor :=
  if endsHere inExpr inHeader c.rest then some c
  else match _h : c.comment? with
    | some d => d.statementEnd? inExpr inHeader
    | none => none
termination_by c.rest.length
decreasing_by exact length_comment? _h

/-- Whether a statement ends here without a semicolon. -/
def breaksHere (inExpr : Bool) : Parse Bool := fun c =>
  some ((c.statementEnd? inExpr false).isSome, c)

/-- The end of a statement, with a semicolon or without. -/
def semicolon (inExpr : Bool) (inHeader : Bool := false) : Parse Unit := fun c =>
  match c.statementEnd? inExpr inHeader with
  | some d => some ((), d)
  | none => expect ";" c

end RouteBook.Source
