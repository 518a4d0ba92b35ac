import RouteBook.Text.Ranges

/-! Blank characters: the white space that is trimmed from lines and separates words. -/
namespace RouteBook.Text

def blankRanges : List (Nat × Nat) :=
  [(9, 13), (28, 32), (133, 133), (160, 160), (5760, 5760), (8192, 8202), (8232, 8233),
   (8239, 8239), (8287, 8287), (12288, 12288)]

/-- White space in the wide sense: the bidirectional separators and the Unicode space class. -/
def isBlank (c : Char) : Bool := inRanges blankRanges c.toNat

/-- A text without its leading and trailing blanks. -/
def trim (s : List Char) : List Char :=
  ((s.dropWhile isBlank).reverse.dropWhile isBlank).reverse

def isLineEnd (c : Char) : Bool :=
  let n := c.toNat
  (10 ≤ n && n ≤ 13) || (28 ≤ n && n ≤ 30) || n == 133 || n == 8232 || n == 8233

/-- Cuts a text into lines without their ends. `pending` holds the current line reversed. -/
def splitLinesFrom (pending : List Char) : List Char → List (List Char)
  | [] => if pending.isEmpty then [] else [pending.reverse]
  | '\r' :: '\n' :: rest => pending.reverse :: splitLinesFrom [] rest
  | c :: rest =>
    if isLineEnd c then pending.reverse :: splitLinesFrom [] rest
    else splitLinesFrom (c :: pending) rest

/-- The lines of a text; a final line end opens no further line. -/
def splitLines (s : List Char) : List (List Char) := splitLinesFrom [] s

end RouteBook.Text
