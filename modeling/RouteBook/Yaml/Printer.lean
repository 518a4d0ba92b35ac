import RouteBook.Number.Shortest
import RouteBook.Text.Digit
import RouteBook.Value.Basic
import RouteBook.Yaml.Pen
import RouteBook.Yaml.Style

/-! YAML text of a value in block style: two blanks a level, lists under a key not indented, long
texts folded after eighty columns. -/
namespace RouteBook.Yaml

def width : Nat := 80

def longKey : Nat := 128

/-- Writes a bare scalar; a single blank beyond the width becomes a line break when `split`.
`run` holds the pending characters and `spaces` tells that they are blanks. -/
def writeBare (split : Bool) (indent : Nat) (p : Pen) (run : List Char) (spaces : Bool) :
    List Char → Pen
  | [] => p.write run.reverse
  | c :: rest =>
    if spaces then
      if c == ' ' then writeBare split indent p (c :: run) true rest
      else if run.length == 1 && width < p.column && split then
        writeBare split indent (p.indent indent).solid [c] false rest
      else writeBare split indent (p.write run.reverse) [c] false rest
    else if c == ' ' then writeBare split indent (p.write run.reverse) [c] true rest
    else writeBare split indent p (c :: run) false rest

def bare (split : Bool) (indent : Nat) (p : Pen) (s : List Char) : Pen :=
  if s.isEmpty then p
  else
    let p := (if p.blank then p else p.write [' ']).solid
    writeBare split indent p [] false s

/-- Writes the breaks of a quoted text: the first line feed stands for two. -/
def writeBreaks (indent : Nat) (p : Pen) (breaks : List Char) : Pen :=
  let p := if firstIs (· == '\n') breaks then p.lineBreak '\n' else p
  (breaks.foldl Pen.lineBreak p).indent indent

inductive Run where
  | chars | spaces | breaks
deriving DecidableEq

/-- Ends the pending run of a text in single quotes. `whole` tells that the run is neither at the
start nor at the end of the text. -/
def endRun (split : Bool) (indent : Nat) (p : Pen) (kind : Run) (run : List Char) (whole : Bool) :
    Pen :=
  match kind with
  | .chars => p.write run
  | .spaces =>
    if run.length == 1 && width < p.column && split && whole then p.indent indent
    else p.write run
  | .breaks => writeBreaks indent p run

def runOf (c : Char) : Run :=
  if c == ' ' then .spaces else if isBreak c then .breaks else .chars

/-- Writes a text in single quotes; `first` tells that the pending run starts the text. -/
def writeSingle (split : Bool) (indent : Nat) (p : Pen) (kind : Run) (run : List Char)
    (first : Bool) : List Char → Pen
  | [] => endRun split indent p kind run.reverse false
  | c :: rest =>
    let piece := if c == '\'' then ['\'', '\''] else [c]
    if runOf c = kind then writeSingle split indent p kind (piece ++ run) first rest
    else
      let p := if run.isEmpty then p else endRun split indent p kind run.reverse (!first)
      writeSingle split indent p (runOf c) piece (first && run.isEmpty) rest

def single (split : Bool) (indent : Nat) (p : Pen) (s : List Char) : Pen :=
  let p := p.mark ['\''] true false false
  (writeSingle split indent p .chars [] true s).mark ['\''] false false false

def shortEscape? (c : Char) : Option Char :=
  match c with
  | '\x00' => some '0'
  | '\x07' => some 'a'
  | '\x08' => some 'b'
  | '\t' => some 't'
  | '\n' => some 'n'
  | '\x0b' => some 'v'
  | '\x0c' => some 'f'
  | '\r' => some 'r'
  | '\x1b' => some 'e'
  | '"' => some '"'
  | '\\' => some '\\'
  | '\x85' => some 'N'
  | '\xa0' => some '_'
  | '\u2028' => some 'L'
  | '\u2029' => some 'P'
  | _ => none

def isRaw (c : Char) : Bool :=
  let n := c.toNat
  !(c == '"' || c == '\\' || n == 0x85 || n == 0x2028 || n == 0x2029 || n == 0xFEFF) &&
    ((0x20 ≤ n && n ≤ 0x7E) || (0xA0 ≤ n && n ≤ 0xD7FF) || (0xE000 ≤ n && n ≤ 0xFFFD))

def upperHex (digits n : Nat) : List Char := (Text.hexDigits digits n).map Char.toUpper

def escaped (c : Char) : List Char :=
  match shortEscape? c with
  | some e => ['\\', e]
  | none =>
    let n := c.toNat
    if n ≤ 0xFF then '\\' :: 'x' :: upperHex 2 n
    else if n ≤ 0xFFFF then '\\' :: 'u' :: upperHex 4 n
    else '\\' :: 'U' :: upperHex 8 n

/-- Folds a text in double quotes before its next character: the pending run and a backslash, and
one more backslash before a blank. -/
def foldDouble (indent : Nat) (p : Pen) (run : List Char) (next : Option Char) : Pen :=
  let p := ((p.write (run.reverse ++ ['\\'])).indent indent).solid
  if next = some ' ' then p.write ['\\'] else p

/-- Writes a text in double quotes. `run` holds the pending raw characters, last first, and `index`
the number of characters before the rest. -/
def writeDouble (split : Bool) (indent : Nat) (p : Pen) (run : List Char) (index : Nat) :
    List Char → Pen
  | [] => p.write run.reverse
  | c :: rest =>
    let inner := 0 < index && !rest.isEmpty && split
    if isRaw c then
      if c == ' ' && inner && width < p.column + run.length then
        let p := foldDouble indent p run (some ' ')
        writeDouble split indent p [c] (index + 1) rest
      else if run.isEmpty && inner && width < p.column then
        let p := foldDouble indent p [] (some c)
        writeDouble split indent p [c] (index + 1) rest
      else writeDouble split indent p (c :: run) (index + 1) rest
    else
      let p := (p.write run.reverse).write (escaped c)
      let p := if inner && width < p.column - 1 then foldDouble indent p [] rest.head? else p
      writeDouble split indent p [] (index + 1) rest

def double (split : Bool) (indent : Nat) (p : Pen) (s : List Char) : Pen :=
  let p := p.mark ['"'] true false false
  (writeDouble split indent p [] 0 s).mark ['"'] false false false

/-- A scalar: its text, the type it has, and the length of the type's short name. -/
structure Scalar where
  text : String
  tag : ScalarTag
  tagLength : Nat

def specials : Number.Specials := ⟨".nan", ".inf", "-.inf"⟩

def floatText (x : Float) : String :=
  let s := (Number.renderFloat specials x).toList
  if s.contains '.' || !s.contains 'e' then String.ofList s
  else String.ofList (s.takeWhile (· != 'e') ++ ['.', '0'] ++ s.dropWhile (· != 'e'))

def scalarOf : Value → Scalar
  | .bool b => ⟨if b then "true" else "false", .bool, 6⟩
  | .int n => ⟨toString n, .int, 5⟩
  | .float x => ⟨floatText x, .float, 7⟩
  | .str s => ⟨s, .str, 5⟩
  | .date d => ⟨d.render, .timestamp, 11⟩
  | .datetime t => ⟨t.render, .timestamp, 11⟩
  | _ => ⟨"null", .null, 6⟩

def writeScalar (indent : Option Nat) (simpleKey : Bool) (p : Pen) (s : Scalar) : Pen :=
  let inner := match indent with
    | none => 2
    | some n => n + 2
  let cs := s.text.toList
  match chooseStyle (analyze cs) (ScalarTag.ofBare s.text == s.tag) simpleKey with
  | .bare => bare (!simpleKey) inner p cs
  | .single => single (!simpleKey) inner p cs
  | .double => double (!simpleKey) inner p cs

def isSimpleKey (s : Scalar) : Bool :=
  let a := analyze s.text.toList
  s.tagLength + s.text.length < longKey && !a.empty && !a.multiline

def writeKey (indent : Nat) (p : Pen) (key : Value) : Pen :=
  let s := scalarOf key
  let p := p.indent indent
  if isSimpleKey s then (writeScalar (some indent) true p s).mark [':'] false false false
  else
    let p := writeScalar (some indent) false (p.mark ['?'] true false true) s
    (p.indent indent).mark [':'] true false true

def blockIndent (outer : Option Nat) (flush : Bool) : Nat :=
  match outer with
  | none => 0
  | some n => if flush then n else n + 2

mutual
/-- Writes a value; `inMapping` tells that it is the value of a key. -/
def writeNode (indent : Option Nat) (inMapping : Bool) (p : Pen) : Value → Pen
  | .list [] | .tuple [] | .set [] =>
    (p.mark ['['] true true false).mark [']'] false false false
  | .map [] => (p.mark ['{'] true true false).mark ['}'] false false false
  | .list (v :: vs) | .tuple (v :: vs) | .set (v :: vs) =>
    let n := blockIndent indent (inMapping && !p.indented)
    let p := writeNode (some n) false ((p.indent n).mark ['-'] true false true) v
    writeItems n p vs
  | .map ((k, v) :: rest) =>
    let n := blockIndent indent false
    let p := writeNode (some n) true (writeKey n p k) v
    writeEntries n p rest
  | v => writeScalar indent false p (scalarOf v)
def writeItems (n : Nat) (p : Pen) : List Value → Pen
  | [] => p
  | v :: vs =>
    writeItems n (writeNode (some n) false ((p.indent n).mark ['-'] true false true) v) vs
def writeEntries (n : Nat) (p : Pen) : List (Value × Value) → Pen
  | [] => p
  | (k, v) :: rest => writeEntries n (writeNode (some n) true (writeKey n p k) v) rest
end

def isOpenEnded : Value → Bool
  | .list _ | .tuple _ | .set _ | .map _ => false
  | v =>
    let s := scalarOf v
    chooseStyle (analyze s.text.toList) (ScalarTag.ofBare s.text == s.tag) false = .bare

def print (v : Value) : String :=
  let p := (writeNode none false {} v).indent 0
  let p := if isOpenEnded v then (p.mark ['.', '.', '.'] true false false).indent 0 else p
  p.text

end RouteBook.Yaml
