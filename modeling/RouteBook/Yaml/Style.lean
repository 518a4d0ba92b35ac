import RouteBook.Yaml.Scalar

/-! Which style a scalar is written in: bare where it reads back as the same value, else in single
quotes, else in double quotes. -/
namespace RouteBook.Yaml

inductive Style where
  | bare | single | double
deriving Repr, DecidableEq

def isBreak (c : Char) : Bool :=
  c == '\n' || c == '\x85' || c == '\u2028' || c == '\u2029'

def isSpaceOrBreak (c : Char) : Bool :=
  c == '\x00' || c == ' ' || c == '\t' || c == '\r' || isBreak c

/-- Characters that can only be written by escapes. -/
def isSpecial (c : Char) : Bool :=
  let n := c.toNat
  !(c == '\n' || (0x20 ≤ n && n ≤ 0x7E)) &&
    !((n == 0x85 || (0xA0 ≤ n && n ≤ 0xD7FF) || (0xE000 ≤ n && n ≤ 0xFFFD) ||
      (0x10000 ≤ n && n < 0x10FFFF)) && n != 0xFEFF)

def firstIs (p : Char → Bool) : List Char → Bool
  | [] => false
  | c :: _ => p c

def endsWord (rest : List Char) : Bool :=
  match rest with
  | [] => true
  | c :: _ => isSpaceOrBreak c

def badStart : List Char → Bool
  | [] => false
  | c :: rest =>
    ['#', ',', '[', ']', '{', '}', '&', '*', '!', '|', '>', '\'', '"', '%', '@', '`'].contains c ||
    ((c == '?' || c == ':' || c == '-') && endsWord rest)

/-- Whether a colon before a blank, or a number sign after one, stands after the first
character. -/
def badInside (previous : Char) : List Char → Bool
  | [] => false
  | c :: rest =>
    (c == ':' && endsWord rest) || (c == '#' && isSpaceOrBreak previous) || badInside c rest

def hasPair (p q : Char → Bool) : List Char → Bool
  | [] => false
  | [_] => false
  | a :: b :: rest => (p a && q b) || hasPair p q (b :: rest)

structure Analysis where
  empty : Bool
  multiline : Bool
  allowBare : Bool
  allowSingle : Bool
deriving Repr, DecidableEq

def isMarker (s : List Char) : Bool :=
  s.take 3 == ['-', '-', '-'] || s.take 3 == ['.', '.', '.']

def analyze (s : List Char) : Analysis :=
  match s with
  | [] => { empty := true, multiline := false, allowBare := true, allowSingle := true }
  | first :: rest =>
    let isSpace (c : Char) : Bool := c == ' '
    let edge (c : Char) : Bool := c == ' ' || isBreak c
    let multiline := s.any isBreak
    let special := s.any isSpecial || hasPair isSpace isBreak s
    let breakSpace := hasPair isBreak isSpace s
    { empty := false
      multiline
      allowBare := !(edge first || firstIs edge s.reverse || breakSpace || special || multiline ||
        isMarker s || badStart s || badInside first rest)
      allowSingle := !(breakSpace || special) }

/-- The style of a scalar; `plainOk` tells that it reads back when written bare. -/
def chooseStyle (a : Analysis) (plainOk simpleKey : Bool) : Style :=
  if plainOk && !(simpleKey && (a.empty || a.multiline)) && a.allowBare then .bare
  else if a.allowSingle && !(simpleKey && a.multiline) then .single
  else .double

end RouteBook.Yaml
