/-! Byte texts. A byte string is read as well-formed UTF-8 characters and stray bytes between
them; shown as text, every longest run of bytes that could have begun a character becomes one
replacement character. -/
namespace RouteBook.Text

/-- A piece of a byte string: a character, or a byte that belongs to none. -/
inductive Piece where
  | char (c : Char)
  | stray (b : UInt8)
deriving Repr, DecidableEq

def Piece.size : Piece → Nat
  | .char c => c.utf8Size
  | .stray _ => 1

def Piece.char? : Piece → Option Char
  | .char c => some c
  | .stray _ => none

def leadShape? (b : Nat) : Option (Nat × Nat × Nat) :=
  if 0xC2 ≤ b ∧ b ≤ 0xDF then some (1, 0x80, 0xBF)
  else if b = 0xE0 then some (2, 0xA0, 0xBF)
  else if b = 0xED then some (2, 0x80, 0x9F)
  else if 0xE1 ≤ b ∧ b ≤ 0xEF then some (2, 0x80, 0xBF)
  else if b = 0xF0 then some (3, 0x90, 0xBF)
  else if 0xF1 ≤ b ∧ b ≤ 0xF3 then some (3, 0x80, 0xBF)
  else if b = 0xF4 then some (3, 0x80, 0x8F)
  else none

/-- The bytes at the head of `rest` that may follow a lead byte of the given shape. -/
def tailBytes : Nat → Nat → Nat → List UInt8 → List UInt8
  | 0, _, _, _ => []
  | _, _, _, [] => []
  | n + 1, lo, hi, b :: rest =>
    if lo ≤ b.toNat ∧ b.toNat ≤ hi then b :: tailBytes n 0x80 0xBF rest else []

def firstPiece (b : UInt8) (rest : List UInt8) : Piece :=
  if b.toNat < 0x80 then .char (Char.ofNat b.toNat)
  else
    match leadShape? b.toNat with
    | none => .stray b
    | some (n, lo, hi) =>
      let tail := tailBytes n lo hi rest
      if tail.length = n then
        let lead := b.toNat % (if n = 1 then 32 else if n = 2 then 16 else 8)
        .char (Char.ofNat (tail.foldl (fun v t => v * 64 + t.toNat % 64) lead))
      else .stray b

def pieces : List UInt8 → List Piece
  | [] => []
  | b :: rest =>
    let p := firstPiece b rest
    p :: pieces (rest.drop (p.size - 1))
termination_by s => s.length
decreasing_by simp only [List.length_cons, List.length_drop]; omega

def strayText : List UInt8 → List Char
  | [] => []
  | b :: rest =>
    let n := match leadShape? b.toNat with
      | none => 0
      | some (n, lo, hi) => (tailBytes n lo hi rest).length
    Char.ofNat 0xFFFD :: strayText (rest.drop n)
termination_by s => s.length
decreasing_by simp only [List.length_cons, List.length_drop]; omega

/-- The text of a list of pieces; `strays` holds the stray bytes just passed, reversed. -/
def pieceTextFrom (strays : List UInt8) : List Piece → List Char
  | [] => strayText strays.reverse
  | .char c :: rest => strayText strays.reverse ++ c :: pieceTextFrom [] rest
  | .stray b :: rest => pieceTextFrom (b :: strays) rest

def pieceText (s : List Piece) : List Char := pieceTextFrom [] s

def decode? (bytes : List UInt8) : Option (List Char) := (pieces bytes).mapM Piece.char?

def ofChars (s : List Char) : List Piece := s.map .char

end RouteBook.Text
