import RouteBook.Source.Cursor
import RouteBook.Text.Digit

/-! Words, numbers, strings and regular expressions. -/
namespace RouteBook.Source

open Text (Piece)

def marks : List Char :=
  [':', ';', '`', '"', '\'', '@', '#', '.', ',', '|', '^', '&', '<', '=', '>', '+', '-', '*', '/',
   '\\', '%', '?', '!', '~', '(', ')', '[', ']', '\x7b', '\x7d']

def isWordChar (c : Char) : Bool := 32 < c.toNat && !isSpace c && !marks.contains c

def unicodeEscape? (ps : List Piece) : Option Nat :=
  if startsWith ps "u\x7b" then
    let digits := (ps.drop 2).takeWhile (isA Text.isHex)
    if !digits.isEmpty && startsWith (ps.drop (2 + digits.length)) "\x7d" then
      some (digits.length + 3)
    else none
  else if startsWith ps "u" && ((ps.drop 1).take 4).length == 4 &&
      ((ps.drop 1).take 4).all (isA Text.isHex) then some 5
  else none

/-- The number of pieces of a word from some place on; `skip` pieces of an escape are left. -/
def wordLength (skip : Nat) : List Piece → Nat
  | [] => 0
  | p :: rest =>
    if 0 < skip then wordLength (skip - 1) rest + 1
    else if isA isWordChar p then wordLength 0 rest + 1
    else if isA (· == '\\') p then
      match unicodeEscape? rest with
      | some n => wordLength n rest + 1
      | none => 0
    else 0

/-- The word at the head; empty if there is none. -/
def wordAt (ps : List Piece) : String :=
  if headIs Char.isDigit ps then ""
  else String.ofList (Text.pieceText (ps.take (wordLength 0 ps)))

/-- The next token if it is a word, else an empty text. Nothing is read. -/
def peekWord : Parse String := fun c => some (wordAt c.skipExtras.rest, c)

def word : Parse String := fun c =>
  let d := c.skipExtras
  let w := wordAt d.rest
  if w == "" then none else some (w, d.advance w.length)

/-- Whether a certain word comes next; it is read then. -/
def acceptWord (s : String) : Parse Bool := do
  if (← peekWord) == s then
    discard word
    return true
  else return false

def expectWord (s : String) : Parse Unit := do
  if ← acceptWord s then return else failure

/-- What must follow a word, if the word comes next. -/
def afterWord {α : Type} (s : String) (p : Parse α) : Parse (Option α) := do
  if ← acceptWord s then some <$> p else return none

/-- Whether one of some words comes next; it is read then. -/
def acceptAnyWord (ws : List String) : Parse Bool := do
  if ws.contains (← peekWord) then
    discard word
    return true
  else return false

def privateName : Parse String := do
  expect "#"
  let c ← get
  let w := wordAt c.rest
  if w == "" then failure
  else
    skipPieces w.length
    return "#" ++ w

def digitsLength (isDigit : Char → Bool) : List Piece → Nat
  | [] => 0
  | p :: rest =>
    if isA isDigit p || (isA (· == '_') p && headIs isDigit rest) then
      digitsLength isDigit rest + 1
    else 0

def exponentLength (ps : List Piece) : Nat :=
  if headIs (fun c => c == 'e' || c == 'E') ps then
    let sign := if headIs (fun c => c == '+' || c == '-') (ps.drop 1) then 1 else 0
    let digits := if headIs Char.isDigit (ps.drop (1 + sign)) then
      digitsLength Char.isDigit (ps.drop (1 + sign)) else 0
    if digits = 0 then 0 else 1 + sign + digits
  else 0

def basedLength (ps : List Piece) : Nat :=
  let run (isDigit : Char → Bool) : Nat :=
    if headIs isDigit (ps.drop 2) then digitsLength isDigit (ps.drop 2) else 0
  if startsWith ps "0x" || startsWith ps "0X" then run Text.isHex
  else if startsWith ps "0b" || startsWith ps "0B" then run fun c => c == '0' || c == '1'
  else if startsWith ps "0o" || startsWith ps "0O" then run fun c => '0' ≤ c && c ≤ '7'
  else 0

/-- The number of pieces of a number at the head; zero if there is none. -/
def numberLength (ps : List Piece) : Nat :=
  let bigEnd (n : Nat) : Nat := if startsWith (ps.drop n) "n" then n + 1 else n
  if 0 < basedLength ps then bigEnd (2 + basedLength ps)
  else if headIs Char.isDigit ps then
    let whole := digitsLength Char.isDigit ps
    let rest := ps.drop whole
    if startsWith rest "." then
      let fraction := if headIs Char.isDigit (rest.drop 1) then
        digitsLength Char.isDigit (rest.drop 1) else 0
      whole + 1 + fraction + exponentLength (rest.drop (1 + fraction))
    else if 0 < exponentLength rest then whole + exponentLength rest
    else bigEnd whole
  else if startsWith ps "." && headIs Char.isDigit (ps.drop 1) then
    let fraction := digitsLength Char.isDigit (ps.drop 1)
    1 + fraction + exponentLength (ps.drop (1 + fraction))
  else 0

def number : Parse Tree := do
  discard tokenStart
  let n := numberLength (← get).rest
  if n = 0 then failure
  else
    skipPieces n
    return .leaf

def escapeLength? (ps : List Piece) : Option Nat :=
  match ps with
  | [] => none
  | .stray _ :: _ => some 1
  | .char c :: rest =>
    if c == '\x00' then none
    else if c == 'x' then
      if (rest.take 2).length == 2 && (rest.take 2).all (isA Text.isHex) then some 3 else none
    else if c == 'u' then unicodeEscape? ps
    else if '0' ≤ c && c ≤ '7' then
      some (1 + ((rest.take 2).takeWhile (isA fun d => '0' ≤ d && d ≤ '7')).length)
    else if (c == '\r' || c == '?') &&
        headIs (fun d => d == '\n' || d == '\u2028' || d == '\u2029') rest then some 2
    else some 1

/-- The number of pieces up to and with the closing quote of a string; `skip` pieces of an escape
are left. -/
def stringLength? (quote : Char) (skip : Nat) : List Piece → Option Nat
  | [] => none
  | p :: rest =>
    if 0 < skip then (stringLength? quote (skip - 1) rest).map (· + 1)
    else if isA (· == quote) p then some 1
    else if isA (· == '\\') p then
      match escapeLength? rest with
      | some n => (stringLength? quote n rest).map (· + 1)
      | none => none
    else if isNotA (fun c => c == '\r' || c == '\n') p then
      (stringLength? quote 0 rest).map (· + 1)
    else none

def rawText (ps : List Piece) : String := String.ofList (Text.pieceText ps)

def stringLiteral : Parse Tree := do
  let start ← tokenStart
  let c ← get
  let quote ← if startsWith c.rest "'" then pure '\''
    else if startsWith c.rest "\"" then pure '"' else failure
  match stringLength? quote 0 (c.rest.drop 1) with
  | some n =>
    skipPieces (n + 1)
    return .string start (rawText ((c.rest.drop 1).take (n - 1)))
  | none => failure

/-- The number of pieces up to and with the closing slash of a regular expression, of which some
have been passed. -/
def regexLength? (passed : Nat) (inClass escaped : Bool) : List Piece → Option Nat
  | [] => none
  | p :: rest =>
    if isNotA (· == '\n') p then
      if escaped then regexLength? (passed + 1) inClass false rest
      else if isA (· == '\\') p then regexLength? (passed + 1) inClass true rest
      else if inClass then regexLength? (passed + 1) (!isA (· == ']') p) false rest
      else if isA (· == '[') p then regexLength? (passed + 1) true false rest
      else if isA (· == '/') p then if passed = 0 then none else some (passed + 1)
      else regexLength? (passed + 1) false false rest
    else none

def regex : Parse Tree := do
  discard tokenStart
  let c ← get
  if !startsWith c.rest "/" then failure
  match regexLength? 0 false false (c.rest.drop 1) with
  | some n =>
    let flags := ((c.rest.drop (n + 1)).takeWhile (isA fun d => 'a' ≤ d && d ≤ 'z')).length
    skipPieces (n + 1 + flags)
    return .leaf
  | none => failure

def templateRun : List Piece → Nat
  | [] => 0
  | p :: rest =>
    if isA (fun c => c == '`' || c == '\\' || c == '\x00') p ||
        startsWith (p :: rest) "$\x7b" then 0
    else templateRun rest + 1

/-- The rest of a template literal after its opening quote: its substitutions. -/
def templateParts (substitution : Parse Tree) : Nat → Parse (List Tree)
  | 0 => failure
  | fuel + 1 => do
    skipPieces (templateRun (← get).rest)
    let rest := (← get).rest
    if startsWith rest "`" then
      skipPieces 1
      return []
    else if startsWith rest "\\" then
      match escapeLength? (rest.drop 1) with
      | some n =>
        skipPieces (n + 1)
        templateParts substitution fuel
      | none => failure
    else if startsWith rest "$\x7b" then
      skipPieces 2
      let t ← substitution
      expect "\x7d"
      return t :: (← templateParts substitution fuel)
    else failure

def templateLiteral (substitution : Parse Tree) : Parse Tree := do
  let start ← tokenStart
  let c ← get
  if !startsWith c.rest "`" then failure
  skipPieces 1
  let parts ← templateParts substitution (c.rest.length + 1)
  let size := c.rest.length - (← get).rest.length
  return .template start (rawText ((c.rest.drop 1).take (size - 2))) parts

end RouteBook.Source
