import RouteBook.Number.Numeral
import RouteBook.Pairs
import RouteBook.Value.Basic

/-! Reading JSON text. Besides the standard numbers the words for infinities and for no number are
read; the last of several values for one key counts. -/
namespace RouteBook.Json

inductive Issue where
  | value
  | extraData
  | propertyName
  | colon
  | comma
  | unterminated
  | controlChar
  | badEscape
  | badUnicodeEscape
  | byteOrderMark
  /-- A whole number has more digits than can be read. -/
  | tooManyDigits
deriving Repr, DecidableEq

def Issue.message : Issue → String
  | value => "Expecting value"
  | extraData => "Extra data"
  | propertyName => "Expecting property name enclosed in double quotes"
  | colon => "Expecting ':' delimiter"
  | comma => "Expecting ',' delimiter"
  | unterminated => "Unterminated string starting at"
  | controlChar => "Invalid control character at"
  | badEscape => "Invalid \\escape"
  | badUnicodeEscape => "Invalid \\uXXXX escape"
  | byteOrderMark => "Unexpected UTF-8 BOM (decode using utf-8-sig)"
  | tooManyDigits => "Exceeds the limit for integer string conversion"

structure Fault where
  issue : Issue
  rest : List Char
deriving Repr, DecidableEq

def fail {α : Type} (issue : Issue) (rest : List Char) : Except Fault α := .error ⟨issue, rest⟩

def isSpace (c : Char) : Bool := c == ' ' || c == '\t' || c == '\n' || c == '\r'

def skipSpace (s : List Char) : List Char := s.dropWhile isSpace

/-- What a one-letter escape stands for. -/
def letterEscape? (c : Char) : Option Char :=
  match c with
  | '"' => some '"'
  | '\\' => some '\\'
  | '/' => some '/'
  | 'b' => some '\x08'
  | 'f' => some '\x0c'
  | 'n' => some '\n'
  | 'r' => some '\r'
  | 't' => some '\t'
  | _ => none

/-- The code of four hexadecimal digits; at least one further character must follow. -/
def fourDigits? : List Char → Option (Nat × List Char)
  | a :: b :: c :: d :: rest =>
    if [a, b, c, d].all Text.isHex && !rest.isEmpty then
      some (Text.hexNumber [a, b, c, d], rest)
    else none
  | _ => none

def joinHalves : List Nat → List Nat
  | n :: m :: rest =>
    if 0xD800 ≤ n ∧ n < 0xDC00 ∧ 0xDC00 ≤ m ∧ m < 0xE000 then
      (0x10000 + (n - 0xD800) * 0x400 + (m - 0xDC00)) :: joinHalves rest
    else n :: joinHalves (m :: rest)
  | s => s

/-- The code points of a string after its opening quote, which stands at `start`, and the text
after its closing quote. -/
def stringCodes (start : List Char) : List Char → Except Fault (List Nat × List Char)
  | [] => fail .unterminated start
  | '"' :: rest => .ok ([], rest)
  | ['\\'] => fail .unterminated start
  | '\\' :: 'u' :: a :: b :: c :: d :: rest =>
    match fourDigits? (a :: b :: c :: d :: rest) with
    | some (n, _) => do
      let (codes, s) ← stringCodes start rest
      return (n :: codes, s)
    | none => fail .badUnicodeEscape ('u' :: a :: b :: c :: d :: rest)
  | '\\' :: 'u' :: rest => fail .badUnicodeEscape ('u' :: rest)
  | '\\' :: c :: rest =>
    match letterEscape? c with
    | some ch => do
      let (codes, s) ← stringCodes start rest
      return (ch.toNat :: codes, s)
    | none => fail .badEscape ('\\' :: c :: rest)
  | c :: rest =>
    if c.toNat < 32 then fail .controlChar (c :: rest)
    else do
      let (codes, s) ← stringCodes start rest
      return (c.toNat :: codes, s)

def textOf (codes : List Nat) : Value :=
  let joined := joinHalves codes
  if joined.all Nat.isValidChar then .str (String.ofList (joined.map Char.ofNat))
  else .halves joined

def string (s : List Char) : Except Fault (Value × List Char) := do
  let (codes, rest) ← stringCodes ('"' :: s) s
  return (textOf codes, rest)

def decimal (digits : List Char) : Nat := digits.foldl (fun n c => n * 10 + (c.toNat - 48)) 0

/-- The digits after a point, if there are any, and the rest. -/
def fraction (s : List Char) : List Char × List Char :=
  match s with
  | '.' :: rest => match rest.takeWhile Char.isDigit with
    | [] => ([], s)
    | ds => (ds, rest.drop ds.length)
  | _ => ([], s)

/-- An exponent, if there is one, and the rest. -/
def exponent (s : List Char) : Option Int × List Char :=
  match s with
  | e :: rest =>
    if e == 'e' || e == 'E' then
      let (minus, body) := match rest with
        | '-' :: t => (true, t)
        | '+' :: t => (false, t)
        | t => (false, t)
      match body.takeWhile Char.isDigit with
      | [] => (none, s)
      | ds =>
        let n : Int := decimal ds
        (some (if minus then -n else n), body.drop ds.length)
    else (none, s)
  | [] => (none, s)

/-- The digits in front of the point: a zero, or digits that start with no zero. -/
def wholeDigits (s : List Char) : List Char :=
  match s with
  | '0' :: _ => ['0']
  | _ => s.takeWhile Char.isDigit

def number (start : List Char) (negative : Bool) (s : List Char) :
    Except Fault (Value × List Char) :=
  match wholeDigits s with
  | [] => fail .value start
  | ds =>
    let (fs, rest) := fraction (s.drop ds.length)
    let (e, rest) := exponent rest
    if fs.isEmpty && e.isNone then
      if Number.maxDigits < ds.length then fail .tooManyDigits start
      else
        let n : Int := decimal ds
        .ok (.int (if negative then -n else n), rest)
    else
      .ok (.float (Number.ofDecimal negative (decimal (ds ++ fs)) (e.getD 0 - fs.length)), rest)

/-- The words for values, with what they stand for. -/
def words : List (List Char × Value) :=
  [("null".toList, .null), ("true".toList, .bool true), ("false".toList, .bool false),
   ("NaN".toList, .float (Float.ofBits 0x7ff8000000000000)),
   ("Infinity".toList, .float (Float.ofBits 0x7ff0000000000000)),
   ("-Infinity".toList, .float (Float.ofBits 0xfff0000000000000))]

def atom (s : List Char) : Except Fault (Value × List Char) :=
  match words.find? fun w => w.1.isPrefixOf s with
  | some (w, v) => .ok (v, s.drop w.length)
  | none => match s with
    | '-' :: rest => number s true rest
    | _ => number s false s

mutual
/-- A value at the head of a text; `fuel` is more than the length of the text. -/
def value : Nat → List Char → Except Fault (Value × List Char)
  | 0, s => fail .value s
  | fuel + 1, s =>
    match s with
    | '"' :: rest => string rest
    | '\x7b' :: rest => do
      match skipSpace rest with
      | '\x7d' :: rest => return (.map [], rest)
      | rest =>
        let (entries, rest) ← members fuel rest
        return (.map (Pairs.ofList entries), rest)
    | '[' :: rest => do
      match skipSpace rest with
      | ']' :: rest => return (.list [], rest)
      | rest =>
        let (items, rest) ← elements fuel rest
        return (.list items, rest)
    | s => atom s
def elements : Nat → List Char → Except Fault (List Value × List Char)
  | 0, s => fail .value s
  | fuel + 1, s => do
    let (v, rest) ← value fuel s
    match skipSpace rest with
    | ']' :: rest => return ([v], rest)
    | ',' :: rest =>
      let (vs, rest) ← elements fuel (skipSpace rest)
      return (v :: vs, rest)
    | rest => fail .comma rest
def members : Nat → List Char → Except Fault (List (Value × Value) × List Char)
  | 0, s => fail .value s
  | fuel + 1, s => do
    match s with
    | '"' :: rest =>
      let (k, rest) ← string rest
      match skipSpace rest with
      | ':' :: rest =>
        let (v, rest) ← value fuel (skipSpace rest)
        match skipSpace rest with
        | '\x7d' :: rest => return ([(k, v)], rest)
        | ',' :: rest =>
          let (es, rest) ← members fuel (skipSpace rest)
          return ((k, v) :: es, rest)
        | rest => fail .comma rest
      | rest => fail .colon rest
    | s => fail .propertyName s
end

def parse (text : List Char) : Except Fault Value := do
  if text.head? == some '\uFEFF' then fail .byteOrderMark text
  else
    let (v, rest) ← value (text.length + 1) (skipSpace text)
    match skipSpace rest with
    | [] => return v
    | rest => fail .extraData rest

def Fault.before (f : Fault) (text : List Char) : List Char :=
  text.take (text.length - f.rest.length)

def Fault.line (f : Fault) (text : List Char) : Nat := (f.before text).count '\n' + 1

def Fault.column (f : Fault) (text : List Char) : Nat :=
  ((f.before text).reverse.takeWhile (· != '\n')).length + 1

def Fault.message (f : Fault) (text : List Char) : String :=
  f.issue.message ++ ": line " ++ toString (f.line text) ++ " column " ++
    toString (f.column text) ++ " (char " ++ toString (f.before text).length ++ ")"

end RouteBook.Json
