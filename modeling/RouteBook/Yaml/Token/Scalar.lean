import RouteBook.Literal
import RouteBook.Text.Utf8
import RouteBook.Yaml.Cursor
import RouteBook.Yaml.Error

/-! Scalars, names and tags as they stand in a text. -/
namespace RouteBook.Yaml.Scan

def isNameChar (c : Char) : Bool := c.isAlphanum || c == '-' || c == '_'

def anchorName (c : Cursor) : Except LoadError (String × Cursor) :=
  let (name, d) := c.span isNameChar
  if name.isEmpty then .error .malformed
  else if d.blankAt 0 || ['?', ':', ',', ']', '}', '%', '@', '`'].contains d.peek then
    .ok (String.ofList name, d)
  else .error .malformed

def isUriChar (c : Char) : Bool :=
  c.isAlphanum || ['-', ';', '/', '?', ':', '@', '&', '=', '+', '$', ',', '_', '.', '!', '~', '*',
    '\'', '(', ')', '[', ']'].contains c

def percentBytes : List Char → Except LoadError (List UInt8 × List Char)
  | '%' :: a :: b :: rest =>
    match Text.hexValue? a, Text.hexValue? b with
    | some x, some y => do
      let (bytes, s) ← percentBytes rest
      return (UInt8.ofNat (x * 16 + y) :: bytes, s)
    | _, _ => .error .malformed
  | '%' :: _ => .error .malformed
  | s => .ok ([], s)

/-- The text of a tag's address; `fuel` bounds the number of its parts. -/
def uriParts : Nat → Cursor → Except LoadError (List Char × Cursor)
  | 0, c => .ok ([], c)
  | fuel + 1, c =>
    if c.peek == '%' then do
      let (bytes, _) ← percentBytes c.rest
      match Text.decode? bytes with
      | none => .error .malformed
      | some s =>
        let (more, d) ← uriParts fuel (c.skip (3 * bytes.length))
        return (s ++ more, d)
    else
      let (run, d) := c.span isUriChar
      if run.isEmpty then .ok ([], c)
      else do
        let (more, d) ← uriParts fuel d
        return (run ++ more, d)

def tagUri (c : Cursor) : Except LoadError (String × Cursor) := do
  let (s, d) ← uriParts c.rest.length c
  if d.index = c.index then .error .malformed else return (String.ofList s, d)

/-- A tag's handle: `!`, `!!` or `!name!`. -/
def tagHandle (c : Cursor) : Except LoadError (String × Cursor) :=
  if c.peek != '!' then .error .malformed
  else if c.peek 1 == ' ' then .ok ("!", c.next)
  else
    let name := (c.rest.drop 1).takeWhile isNameChar
    let d := c.skip (1 + name.length)
    if d.peek == '!' then .ok (String.ofList ('!' :: (name ++ ['!'])), d.next)
    else .error .malformed

/-- A tag, from its exclamation mark on: handle and suffix. -/
def tag (c : Cursor) : Except LoadError ((Option String × String) × Cursor) := do
  let (value, d) ←
    if c.peek 1 == '<' then do
      let (uri, d) ← tagUri (c.skip 2)
      if d.peek == '>' then pure ((none, uri), d.next) else .error .malformed
    else if c.blankAt 1 then pure ((none, "!"), c.next)
    else
      let word := (c.rest.drop 1).takeWhile fun ch => !(ch == ' ' || isNewline ch)
      if word.contains '!' then do
        let (handle, d) ← tagHandle c
        let (suffix, d) ← tagUri d
        pure ((some handle, suffix), d)
      else do
        let (suffix, d) ← tagUri c.next
        pure ((some "!", suffix), d)
  if d.peek == ' ' || d.atLineEnd then return (value, d) else .error .malformed

def quotedBreaks : Nat → Cursor → Except LoadError (List Char × Cursor)
  | 0, c => .ok ([], c)
  | fuel + 1, c =>
    if c.atMarker then .error .malformed
    else
      let d := c.skipWhile fun ch => ch == ' ' || ch == '\t'
      if !d.atEnd && isNewline d.peek then do
        let (b, d) := d.lineBreak
        let (more, d) ← quotedBreaks fuel d
        return (b ++ more, d)
      else .ok ([], d)

def codesOf (s : List Char) : List Nat := s.map Char.toNat

/-- What a one-letter escape in double quotes stands for. -/
def letterEscape? (c : Char) : Option Char :=
  match c with
  | '0' => some '\x00'
  | 'a' => some '\x07'
  | 'b' => some '\x08'
  | 't' => some '\t'
  | '\t' => some '\t'
  | 'n' => some '\n'
  | 'v' => some '\x0b'
  | 'f' => some '\x0c'
  | 'r' => some '\r'
  | 'e' => some '\x1b'
  | ' ' => some ' '
  | '"' => some '"'
  | '\\' => some '\\'
  | '/' => some '/'
  | 'N' => some '\x85'
  | '_' => some '\xa0'
  | 'L' => some '\u2028'
  | 'P' => some '\u2029'
  | _ => none

def escapeWidth? (c : Char) : Option Nat :=
  match c with
  | 'x' => some 2
  | 'u' => some 4
  | 'U' => some 8
  | _ => none

def escape (c : Cursor) : Except LoadError (List Nat × Cursor) :=
  if c.atEnd then .error .malformed
  else match letterEscape? c.peek with
    | some ch => .ok ([ch.toNat], c.next)
    | none => match escapeWidth? c.peek with
      | some n =>
        let digits := (c.rest.drop 1).take n
        if digits.length = n ∧ digits.all Text.isHex then
          match Literal.codePoint (Text.hexNumber digits) with
          | .ok p => .ok ([p], c.skip (n + 1))
          | .error .outOfRange => .error .escapeOutOfRange
          | .error .tooLarge => .error .escapeTooLarge
        else .error .malformed
      | none =>
        if isNewline c.peek then do
          let (_, d) := c.lineBreak
          let (breaks, d) ← quotedBreaks d.rest.length.succ d
          return (codesOf breaks, d)
        else .error .malformed

/-- The blanks and breaks inside a quoted scalar: one line feed is a blank, of several the first is
dropped. -/
def quotedSpaces (c : Cursor) : Except LoadError (List Nat × Cursor) :=
  let (blanks, d) := c.span fun ch => ch == ' ' || ch == '\t'
  if d.atEnd then .error .malformed
  else if isNewline d.peek then do
    let (b, d) := d.lineBreak
    let (breaks, d) ← quotedBreaks d.rest.length.succ d
    let lead := if b != ['\n'] then b else if breaks.isEmpty then [' '] else []
    return (codesOf (lead ++ breaks), d)
  else .ok (codesOf blanks, d)

def quotedBody (double : Bool) : Nat → Cursor → Except LoadError (List Nat × Cursor)
  | 0, _ => .error .malformed
  | fuel + 1, c => do
    let ch := c.peek
    if c.atEnd then .error .malformed
    else
      let (codes, d, done) ←
        if ch == '"' && double then pure ([], c.next, true)
        else if ch == '\'' && !double then
          if c.peek 1 == '\'' then pure (['\''.toNat], c.skip 2, false)
          else pure ([], c.next, true)
        else if ch == '\\' && double then do
          let (codes, d) ← escape c.next
          pure (codes, d, false)
        else if ch == ' ' || ch == '\t' || isNewline ch then do
          let (codes, d) ← quotedSpaces c
          pure (codes, d, false)
        else pure ([ch.toNat], c.next, false)
      if done then return ([], d)
      else
        let (more, d) ← quotedBody double fuel d
        return (codes ++ more, d)

def quoted (c : Cursor) : Except LoadError (List Nat × Cursor) :=
  quotedBody (c.peek == '"') c.rest.length.succ c.next

inductive Chomp where
  | clip | strip | keep
deriving DecidableEq

def chomp? (c : Cursor) : Option Chomp :=
  if c.peek == '+' then some .keep else if c.peek == '-' then some .strip else none

/-- The header of a block scalar: chomping and an explicit indentation. -/
def blockHeader (c : Cursor) : Except LoadError ((Chomp × Option Nat) × Cursor) := do
  let digit (c : Cursor) : Except LoadError (Option Nat × Cursor) :=
    if c.peek.isDigit then
      if c.peek == '0' then .error .malformed else .ok (some (c.peek.toNat - 48), c.next)
    else .ok (none, c)
  let (chomp, increment, d) ← match chomp? c with
    | some k => do
      let (n, d) ← digit c.next
      pure (k, n, d)
    | none => do
      let (n, d) ← digit c
      match n, chomp? d with
      | some _, some k => pure (k, n, d.next)
      | _, _ => pure (.clip, n, d)
  if !(d.peek == ' ' || d.atLineEnd) then .error .malformed
  else
    let d := d.skipSpaces.skipComment
    if d.atLineEnd then return ((chomp, increment), d.lineBreak.2) else .error .malformed

def blockLead : Nat → Nat → Cursor → List Char × Nat × Cursor
  | 0, widest, c => ([], widest, c)
  | fuel + 1, widest, c =>
    if c.peek == ' ' then
      let d := c.next
      blockLead fuel (max widest d.column) d
    else if !c.atEnd && isNewline c.peek then
      let (b, d) := c.lineBreak
      let (more, widest, d) := blockLead fuel widest d
      (b ++ more, widest, d)
    else ([], widest, c)

def skipTo (column : Nat) (c : Cursor) : Cursor :=
  let blanks := ((c.rest.takeWhile (· == ' ')).take (column - c.column)).length
  c.skip blanks

def blockBreaks (column : Nat) : Nat → Cursor → List Char × Cursor
  | 0, c => ([], c)
  | fuel + 1, c =>
    let c := skipTo column c
    if !c.atEnd && isNewline c.peek then
      let (b, d) := c.lineBreak
      let (more, d) := blockBreaks column fuel d
      (b ++ more, d)
    else ([], c)

/-- The lines of a block scalar: its text without the last break, that break, the empty lines
after it, and the place after them. `breaks` are the empty lines before. -/
def blockLines (folded : Bool) (column : Nat) :
    Nat → List Char → Cursor → List Char × List Char × List Char × Cursor
  | 0, breaks, c => ([], [], breaks, c)
  | fuel + 1, breaks, c =>
    if c.column == column && !c.atEnd then
      let isBlank (c : Cursor) : Bool := c.peek == ' ' || c.peek == '\t'
      let solid := !isBlank c
      let (line, d) := c.span (!isNewline ·)
      let (b, d) := d.lineBreak
      let (after, d) := blockBreaks column d.rest.length.succ d
      if d.column == column && !d.atEnd then
        let joint :=
          if folded && b == ['\n'] && solid && !isBlank d then
            if after.isEmpty then [' '] else []
          else b
        let (more, last, tail, d) := blockLines folded column fuel after d
        (breaks ++ line ++ joint ++ more, last, tail, d)
      else (breaks ++ line, b, after, d)
    else ([], [], breaks, c)

def block (indent : Int) (c : Cursor) : Except LoadError (String × Cursor) := do
  let folded := c.peek == '>'
  let ((chomp, increment), d) ← blockHeader c.next
  let least := max 1 (indent + 1).toNat
  let (breaks, column, d) := match increment with
    | none =>
      let (breaks, widest, d) := blockLead d.rest.length.succ 0 d
      (breaks, max least widest, d)
    | some n =>
      let column := least + n - 1
      let (breaks, d) := blockBreaks column d.rest.length.succ d
      (breaks, column, d)
  let (text, last, tail, d) := blockLines folded column d.rest.length.succ breaks d
  let ending := match chomp with
    | .strip => []
    | .clip => last
    | .keep => last ++ tail
  return (String.ofList (text ++ ending), d)

/-- The blanks and breaks inside a bare scalar; nothing at all before a document marker. The flag
tells that a line ended. -/
def bareSpaces (c : Cursor) : List Char × Bool × Cursor :=
  let (blanks, d) := c.span (· == ' ')
  if !d.atEnd && isNewline d.peek then
    let (b, d) := d.lineBreak
    if d.atMarker then ([], true, d)
    else match breaks d.rest.length.succ d with
      | (none, d) => ([], true, d)
      | (some bs, d) =>
        ((if b != ['\n'] then b else if bs.isEmpty then [' '] else []) ++ bs, true, d)
  else (blanks, false, d)
where
  breaks : Nat → Cursor → Option (List Char) × Cursor
    | 0, c => (some [], c)
    | fuel + 1, c =>
      if c.peek == ' ' then breaks fuel c.next
      else if !c.atEnd && isNewline c.peek then
        let (b, d) := c.lineBreak
        if d.atMarker then (none, d)
        else
          let (more, d) := breaks fuel d
          (more.map (b ++ ·), d)
      else (some [], c)

def isFlowMark (c : Char) : Bool := [',', '[', ']', '{', '}'].contains c

def bareRun (inFlow : Bool) : List Char → List Char
  | [] => []
  | c :: rest =>
    if isSpaceOrBreak c || (inFlow && (isFlowMark c || c == '?')) then []
    else if c == ':' && (endsWord rest || (inFlow && firstIs isFlowMark rest)) then []
    else c :: bareRun inFlow rest

/-- A bare scalar: its text, whether a new line may begin with a key, and the place after it. -/
def bareBody (inFlow : Bool) (column : Int) :
    Nat → List Char → Bool → Cursor → List Char × Bool × Cursor
  | 0, _, allowKey, c => ([], allowKey, c)
  | fuel + 1, spaces, allowKey, c =>
    let run := if c.peek == '#' then [] else bareRun inFlow c.rest
    if run.isEmpty then ([], allowKey, c)
    else
      let (gap, broke, d) := bareSpaces (c.skip run.length)
      if gap.isEmpty || d.peek == '#' || (!inFlow && (d.column : Int) < column) then
        (spaces ++ run, broke, d)
      else
        let (more, allowKey, d) := bareBody inFlow column fuel gap broke d
        (spaces ++ run ++ more, allowKey, d)

def bare (inFlow : Bool) (indent : Int) (c : Cursor) : String × Bool × Cursor :=
  let (s, allowKey, d) := bareBody inFlow (indent + 1) c.rest.length.succ [] false c
  (String.ofList s, allowKey, d)

end RouteBook.Yaml.Scan
