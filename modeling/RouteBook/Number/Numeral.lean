import RouteBook.Number.Binary64
import RouteBook.Text.Blank
import RouteBook.Text.Digit

/-! Numbers read from free text: blanks around them, a sign, digits of any script and single low
lines between digits are accepted. -/
namespace RouteBook.Number

def maxDigits : Nat := 4300

/-- The value of a digit in a base up to 16; decimal digits may be of any script. -/
def digitIn? (base : Nat) (c : Char) : Option Nat :=
  match Text.digitValue? c <|> Text.hexValue? c with
  | some d => if d < base then some d else none
  | none => none

/-- Digits with single low lines between them; the low line must stand between two digits. -/
def digitsIn? (base : Nat) : List Char → Option (List Nat)
  | [] => none
  | [c] => (digitIn? base c).map fun d => [d]
  | c :: '_' :: rest => do return (← digitIn? base c) :: (← digitsIn? base rest)
  | c :: rest => do return (← digitIn? base c) :: (← digitsIn? base rest)

def splitSign : List Char → Bool × List Char
  | '-' :: rest => (true, rest)
  | '+' :: rest => (false, rest)
  | s => (false, s)

def baseMark : Nat → Option (Char × Char)
  | 2 => some ('b', 'B')
  | 8 => some ('o', 'O')
  | 16 => some ('x', 'X')
  | _ => none

/-- Drops a `0x`-like mark of the base, with one low line after it. -/
def dropBaseMark (base : Nat) (s : List Char) : List Char :=
  match baseMark base, s with
  | some (low, high), '0' :: c :: rest =>
    if c = low ∨ c = high then match rest with
      | '_' :: r => r
      | r => r
    else s
  | _, _ => s

/-- Reads an integer in a base. Texts of more than the greatest number of digits are refused
unless the base is a power of two. -/
def readInt? (base : Nat) (s : List Char) : Option Int := do
  let (negative, body) := splitSign (Text.trim s)
  let digits ← digitsIn? base (dropBaseMark base body)
  if base = 10 ∧ maxDigits < digits.length then none
  else
    let n : Nat := digits.foldl (fun n d => n * base + d) 0
    return if negative then -(n : Int) else n

/-- Cuts a text at its first `e` or `E`. -/
def splitExponent (s : List Char) : List Char × Option (List Char) :=
  let isMark (c : Char) : Bool := c == 'e' || c == 'E'
  match s.dropWhile (!isMark ·) with
  | [] => (s, none)
  | _ :: rest => (s.takeWhile (!isMark ·), some rest)

def readDigits? (s : List Char) : Option (List Nat) :=
  if s.isEmpty then some [] else digitsIn? 10 s

/-- The exponent of a number; without one it is zero. -/
def readExponent? : Option (List Char) → Option Int
  | none => some 0
  | some t =>
    let (minus, digits) := splitSign t
    (digitsIn? 10 digits).map fun ds =>
      let n : Nat := ds.foldl (fun n d => n * 10 + d) 0
      if minus then -(n : Int) else n

def readSigned? (opposite : Bool) (s : List Char) : Option Float := do
  let (minus, body) := splitSign (Text.trim s)
  let negative := minus != opposite
  let word := body.map Char.toLower
  if word == "inf".toList || word == "infinity".toList then
    return nearest negative (twoPow 2000) 1
  if word == "nan".toList then return Float.ofBits 0x7ff8000000000000
  let (mantissa, exponent) := splitExponent body
  let e ← readExponent? exponent
  let whole := mantissa.takeWhile (· != '.')
  let fraction := (mantissa.drop whole.length).drop 1
  if whole.isEmpty && fraction.isEmpty then none
  else
    let ws ← readDigits? whole
    let fs ← readDigits? fraction
    let n : Nat := (ws ++ fs).foldl (fun n d => n * 10 + d) 0
    return ofDecimal negative n (e - fs.length)

def readFloat? (s : List Char) : Option Float := readSigned? false s

end RouteBook.Number
