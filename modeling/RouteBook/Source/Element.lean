import RouteBook.Source.Type

/-! Elements of markup inside of source text. -/
namespace RouteBook.Source

open Text (Piece)

def tagWord : Parse Unit := do
  discard tokenStart
  let rest := (← get).rest
  if wordAt rest == "" then failure
  else skipPieces (rest.takeWhile (isA fun c => isWordChar c || c == '-')).length

/-- The name of an element: a name, or several with dots or a colon between. -/
def tagName : Parse Unit := do
  tagWord
  if ← accept ":" then tagWord
  else discard <| many do
    expect "."
    discard word

def referenceLength? (ps : List Piece) : Option Nat :=
  let closed (n least most : Nat) (digits : List Piece) : Option Nat :=
    if least ≤ digits.length && digits.length ≤ most &&
        startsWith (ps.drop (n + digits.length)) ";" then some (n + digits.length + 1)
    else none
  if startsWith ps "#x" || startsWith ps "#X" then
    closed 2 1 6 ((ps.drop 2).takeWhile (isA Text.isHex))
  else if startsWith ps "#" then closed 1 1 5 ((ps.drop 1).takeWhile (isA Char.isDigit))
  else closed 0 1 30 (ps.takeWhile (isA Char.isAlpha))

/-- The number of pieces up to and with the closing quote of an attribute; an ampersand before a
letter or a hash sign must start a character's name. -/
def attributeLength? (quote : Char) : List Piece → Option Nat
  | [] => none
  | p :: rest =>
    if isA (· == quote) p then some 1
    else if isA (· == '&') p && headIs (fun c => c == '#' || c.isAlpha) rest &&
        (referenceLength? rest).isNone then none
    else if isNotA (fun _ => false) p then (attributeLength? quote rest).map (· + 1)
    else none

def attributeText : Parse Tree := do
  discard tokenStart
  let rest := (← get).rest
  let quote ← if startsWith rest "'" then pure '\''
    else if startsWith rest "\"" then pure '"' else failure
  match attributeLength? quote (rest.drop 1) with
  | some n =>
    skipPieces (n + 1)
    return .leaf
  | none => failure

def braced (self : Grammar) : Parse Tree := do
  expect "\x7b"
  if ← accept "\x7d" then return .leaf
  let t ← if ← accept "..." then self (.expression false) else expressions self false
  expect "\x7d"
  return .group [t]

def tagAttribute (self : Grammar) : Parse Tree :=
  braced self <|> (do
    tagWord
    if ← accept ":" then tagWord
    if ← accept "=" then braced self <|> attributeText <|> self .element else return .leaf)

def elementContent (self : Grammar) : Nat → Parse (List Tree)
  | 0 => failure
  | fuel + 1 => do
    let inText (c : Char) : Bool := ['<', '>', '\x7b', '\x7d', '&'].contains c
    skipPieces ((← get).rest.takeWhile (isNotA inText)).length
    let rest := (← get).rest
    if startsWith rest "</" then
      skipPieces 2
      discard (optionally tagName)
      expect ">"
      return []
    else if startsWith rest "<" then
      let t ← self .element
      return t :: (← elementContent self fuel)
    else if startsWith rest "\x7b" then
      let t ← braced self
      return t :: (← elementContent self fuel)
    else if startsWith rest "&" then
      match referenceLength? (rest.drop 1) with
      | some n =>
        skipPieces (n + 1)
        elementContent self fuel
      | none => failure
    else failure

/-- An element with its content, or one that is closed at once. -/
def elementRule (self : Grammar) : Parse Tree := do
  expect "<"
  if ← accept ">" then
    return .group (← elementContent self ((← get).rest.length + 1))
  tagName
  let types ← optionally (typeArguments self)
  let attributes ← many (tagAttribute self)
  if ← accept "/>" then return .group (types.toList ++ attributes)
  expect ">"
  return .group (types.toList ++ attributes ++
    (← elementContent self ((← get).rest.length + 1)))

end RouteBook.Source
