import RouteBook.Number.Numeral
import RouteBook.Yaml.Token
import RouteBook.Yaml.Token.Scalar

/-! Cutting a text into tokens. Indentation opens and closes blocks; whatever may turn out to be a
key is remembered until its colon is found, and the key mark is then put before it. -/
namespace RouteBook.Yaml

def keyReach : Nat := 1024

structure KeyStart where
  /-- Its number among the tokens. -/
  place : Nat
  /-- Whether it must turn out so. -/
  required : Bool
  index : Nat
  line : Nat
  column : Nat

structure Scan where
  cursor : Cursor
  tokens : Array Token := #[]
  flowLevel : Nat := 0
  indent : Int := -1
  indents : List Int := []
  /-- Whether a key may start here. -/
  allowKey : Bool := true
  /-- The possible key of each flow level. -/
  keys : List (Nat × KeyStart) := []
  done : Bool := false

namespace Scan

def push (s : Scan) (t : Token) : Scan := { s with tokens := s.tokens.push t }

def toNextToken : Nat → Scan → Scan
  | 0, s => s
  | fuel + 1, s =>
    let c := s.cursor.skipSpaces.skipComment
    if !c.atEnd && isNewline c.peek then
      toNextToken fuel
        { s with cursor := c.lineBreak.2, allowKey := s.allowKey || s.flowLevel == 0 }
    else { s with cursor := c }

def dropStale (s : Scan) : Except LoadError Scan :=
  let stale (k : KeyStart) : Bool :=
    k.line != s.cursor.line || keyReach < s.cursor.index - k.index
  if s.keys.any fun k => stale k.2 && k.2.required then .error .malformed
  else .ok { s with keys := s.keys.filter fun k => !stale k.2 }

def dropKey (s : Scan) : Except LoadError Scan :=
  if s.keys.any fun k => k.1 == s.flowLevel && k.2.required then .error .malformed
  else .ok { s with keys := s.keys.filter fun k => k.1 != s.flowLevel }

def saveKey (s : Scan) : Except LoadError Scan := do
  if s.allowKey then
    let required := s.flowLevel == 0 && s.indent == s.cursor.column
    let s ← s.dropKey
    let c := s.cursor
    return { s with keys := (s.flowLevel,
      ⟨s.tokens.size, required, c.index, c.line, c.column⟩) :: s.keys }
  else return s

def unwind (s : Scan) (column : Int) : Scan :=
  if s.flowLevel != 0 then s
  else
    let closed := (s.indent :: s.indents).takeWhile (column < ·)
    let left := (s.indent :: s.indents).drop closed.length
    { s with
      tokens := s.tokens ++ Array.replicate closed.length .blockEnd
      indent := left.headD (-1)
      indents := left.drop 1 }

/-- Opens a block at a column, if it is indented more than the enclosing one. -/
def open? (s : Scan) (column : Int) : Option Scan :=
  if s.indent < column then some { s with indent := column, indents := s.indent :: s.indents }
  else none

def take (s : Scan) (n : Nat) (t : Token) : Scan :=
  { s with cursor := s.cursor.skip n }.push t

def streamEnd (s : Scan) : Except LoadError Scan := do
  let s ← (s.unwind (-1)).dropKey
  return { s.push .streamEnd with allowKey := false, keys := [], done := true }

def documentMark (s : Scan) (t : Token) : Except LoadError Scan := do
  let s ← (s.unwind (-1)).dropKey
  return { s with allowKey := false }.take 3 t

def directiveNumber (c : Cursor) : Except LoadError (Nat × Cursor) :=
  let (ds, d) := c.span Char.isDigit
  if ds.isEmpty then .error .malformed
  else if Number.maxDigits < ds.length then .error .badNumber
  else .ok (ds.foldl (fun n ch => n * 10 + (ch.toNat - 48)) 0, d)

def directiveBody (c : Cursor) : Except LoadError (Directive × Cursor) := do
  let ends (c : Cursor) : Bool := c.peek == ' ' || c.atLineEnd
  let (name, d) := c.span isNameChar
  if name.isEmpty || !ends d then .error .malformed
  else
    match String.ofList name with
    | "YAML" =>
      let (major, d) ← directiveNumber d.skipSpaces
      if d.peek != '.' then .error .malformed
      else
        let (minor, d) ← directiveNumber d.next
        if ends d then return (.version major minor, d) else .error .malformed
    | "TAG" =>
      let (handle, d) ← tagHandle d.skipSpaces
      if d.peek != ' ' then .error .malformed
      else
        let (uri, d) ← tagUri d.skipSpaces
        if ends d then return (.tag handle uri, d) else .error .malformed
    | _ => return (.other, d.skipWhile (!isNewline ·))

def directive (s : Scan) : Except LoadError Scan := do
  let s ← (s.unwind (-1)).dropKey
  let (d, c) ← directiveBody s.cursor.next
  let c := c.skipSpaces.skipComment
  if c.atLineEnd then
    return { s with cursor := c.lineBreak.2, allowKey := false }.push (.directive d)
  else .error .malformed

def flowOpen (s : Scan) (t : Token) : Except LoadError Scan := do
  let s ← s.saveKey
  return { s with flowLevel := s.flowLevel + 1, allowKey := true }.take 1 t

def flowClose (s : Scan) (t : Token) : Except LoadError Scan := do
  let s ← s.dropKey
  return { s with flowLevel := s.flowLevel - 1, allowKey := false }.take 1 t

def flowEntry (s : Scan) : Except LoadError Scan := do
  let s ← s.dropKey
  return { s with allowKey := true }.take 1 .flowEntry

def openFor (s : Scan) (t : Token) : Except LoadError Scan :=
  if s.flowLevel != 0 then .ok s
  else if !s.allowKey then .error .malformed
  else match s.open? s.cursor.column with
    | some s => .ok (s.push t)
    | none => .ok s

def blockEntry (s : Scan) : Except LoadError Scan := do
  let s ← s.openFor .blockSequenceStart
  let s ← s.dropKey
  return { s with allowKey := true }.take 1 .blockEntry

def explicitKey (s : Scan) : Except LoadError Scan := do
  let s ← s.openFor .blockMappingStart
  let s ← s.dropKey
  return { s with allowKey := s.flowLevel == 0 }.take 1 .key

/-- A colon: the possible key becomes one, else the key is empty. -/
def value (s : Scan) : Except LoadError Scan :=
  match s.keys.find? fun k => k.1 == s.flowLevel with
  | some (_, k) =>
    let s := { s with
      keys := s.keys.filter fun k => k.1 != s.flowLevel
      tokens := s.tokens.insertIdxIfInBounds k.place .key
      allowKey := false }
    let s := if s.flowLevel != 0 then s
      else match s.open? k.column with
        | some s => { s with tokens := s.tokens.insertIdxIfInBounds k.place .blockMappingStart }
        | none => s
    .ok (s.take 1 .value)
  | none => do
    let s ← s.openFor .blockMappingStart
    let s ← { s with allowKey := s.flowLevel == 0 }.dropKey
    return s.take 1 .value

def named (s : Scan) (make : String → Token) : Except LoadError Scan := do
  let s ← s.saveKey
  let (name, c) ← anchorName s.cursor.next
  return { s with cursor := c, allowKey := false }.push (make name)

def tagged (s : Scan) : Except LoadError Scan := do
  let s ← s.saveKey
  let ((handle, suffix), c) ← tag s.cursor
  return { s with cursor := c, allowKey := false }.push (.tag handle suffix)

def blockScalar (s : Scan) : Except LoadError Scan := do
  let s ← s.dropKey
  let (text, c) ← block s.indent s.cursor
  return { s with cursor := c, allowKey := true }.push (.scalar text false)

def quotedScalar (s : Scan) : Except LoadError Scan := do
  let s ← s.saveKey
  let (codes, c) ← quoted s.cursor
  return { s with cursor := c, allowKey := false }.push (.ofCodes codes)

def bareScalar (s : Scan) : Except LoadError Scan := do
  let s ← s.saveKey
  let (text, allowKey, c) := bare (s.flowLevel != 0) s.indent s.cursor
  return { s with cursor := c, allowKey }.push (.scalar text true)

def startsBare (s : Scan) : Bool :=
  let c := s.cursor
  let ch := c.peek
  let mark := ['-', '?', ':', ',', '[', ']', '{', '}', '#', '&', '*', '!', '|', '>', '\'', '"', '%',
    '@', '`'].contains ch
  (!isSpaceOrBreak ch && !mark) ||
    (!c.blankAt 1 && (ch == '-' || (s.flowLevel == 0 && (ch == '?' || ch == ':'))))

/-- Before the next token: the keys that are too far away are forgotten, and the blocks that end
here are closed. -/
def ready (s : Scan) : Except LoadError Scan := do
  let s ← (toNextToken s.cursor.rest.length.succ s).dropStale
  return s.unwind s.cursor.column

def takeToken (s : Scan) : Except LoadError Scan :=
  let c := s.cursor
  let ch := c.peek
  let inFlow := s.flowLevel != 0
  if c.atEnd then s.streamEnd
  else if ch == '%' && c.column == 0 then s.directive
  else if ch == '-' && c.column == 0 && c.atMarker then s.documentMark .documentStart
  else if ch == '.' && c.column == 0 && c.atMarker then s.documentMark .documentEnd
  else if ch == '[' then s.flowOpen .flowSequenceStart
  else if ch == '{' then s.flowOpen .flowMappingStart
  else if ch == ']' then s.flowClose .flowSequenceEnd
  else if ch == '}' then s.flowClose .flowMappingEnd
  else if ch == ',' then s.flowEntry
  else if ch == '-' && c.blankAt 1 then s.blockEntry
  else if ch == '?' && (inFlow || c.blankAt 1) then s.explicitKey
  else if ch == ':' && (inFlow || c.blankAt 1) then s.value
  else if ch == '*' then s.named .alias
  else if ch == '&' then s.named .anchor
  else if ch == '!' then s.tagged
  else if (ch == '|' || ch == '>') && !inFlow then s.blockScalar
  else if ch == '\'' || ch == '"' then s.quotedScalar
  else if s.startsBare then s.bareScalar
  else .error .malformed

def step (s : Scan) : Except LoadError Scan := do (← s.ready).takeToken

/-- The number of tokens that no key mark can come before any more. Only these are handed on before
the next token is taken in. -/
def settled (s : Scan) : Nat :=
  let nearby := s.keys.filter fun k =>
    k.2.line == s.cursor.line && s.cursor.index - k.2.index ≤ keyReach
  nearby.foldl (fun n k => min n k.2.place) s.tokens.size

/-- Takes in tokens until the end of the text or a fault. -/
def run : Nat → Scan → Array Token
  | 0, s => s.tokens.push (.fault .malformed)
  | fuel + 1, s =>
    if s.done then s.tokens
    else match s.step with
      | .ok s => run fuel s
      | .error e => (s.tokens.take s.settled).push (.fault e)

end Scan

def isReadable (c : Char) : Bool :=
  let n := c.toNat
  n == 9 || n == 10 || n == 13 || (0x20 ≤ n && n ≤ 0x7E) || n == 0x85 ||
    (0xA0 ≤ n && n ≤ 0xD7FF) || (0xE000 ≤ n && n ≤ 0xFFFD) || 0x10000 ≤ n

/-- The tokens of a text. A byte order mark at its start is skipped. -/
def Token.scan (text : List Char) : List Token :=
  if text.all isReadable then
    let c : Cursor := { rest := text }
    let c := if c.peek == '\uFEFF' then c.next else c
    (Scan.run (text.length + 2) { cursor := c }).toList
  else [.fault .malformed]

end RouteBook.Yaml
