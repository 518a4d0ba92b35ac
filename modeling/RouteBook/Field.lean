import RouteBook.Number.Numeral
import RouteBook.Pairs
import RouteBook.Text.Blank
import RouteBook.Text.Printable
import RouteBook.Text.Utf8
import RouteBook.Value.Basic

/-! Reading the fields of a record from loosely typed values. A value is converted when it plainly
means the wanted type; all faults of a record are reported together, in field order. -/
namespace RouteBook

inductive Issue where
  | missing
  | notText
  | notUnicode
  | notList
  | notTuple
  | notMapping
  | notInteger
  | notIntegerText
  | tooLarge
  | notFinite
  | notWhole
  | notFlag
  | notFlagText
  | notRecord (name : String)
  | notMethod
  /-- A rule of the record itself is broken. -/
  | rejected (reason : String)
deriving Repr, DecidableEq

def Issue.code : Issue → String
  | missing => "missing"
  | notText => "string_type"
  | notUnicode => "string_unicode"
  | notList => "list_type"
  | notTuple => "tuple_type"
  | notMapping => "dict_type"
  | notInteger => "int_type"
  | notIntegerText => "int_parsing"
  | tooLarge => "int_parsing_size"
  | notFinite => "finite_number"
  | notWhole => "int_from_float"
  | notFlag => "bool_type"
  | notFlagText => "bool_parsing"
  | notRecord _ => "model_type"
  | notMethod => "enum"
  | rejected _ => "value_error"

def Issue.message : Issue → String
  | missing => "Field required"
  | notText => "Input should be a valid string"
  | notUnicode =>
    "Input should be a valid string, unable to parse raw data as a unicode string"
  | notList => "Input should be a valid list"
  | notTuple => "Input should be a valid tuple"
  | notMapping => "Input should be a valid dictionary"
  | notInteger => "Input should be a valid integer"
  | notIntegerText => "Input should be a valid integer, unable to parse string as an integer"
  | tooLarge => "Unable to parse input string as an integer, exceeded maximum size"
  | notFinite => "Input should be a finite number"
  | notWhole => "Input should be a valid integer, got a number with a fractional part"
  | notFlag => "Input should be a valid boolean"
  | notFlagText => "Input should be a valid boolean, unable to interpret input"
  | notRecord name => "Input should be a valid dictionary or instance of " ++ name
  | notMethod =>
    "Input should be 'GET', 'POST', 'PUT', 'PATCH', 'DELETE', 'OPTIONS' or 'HEAD'"
  | rejected reason => "Value error, " ++ reason

/-- An issue and the way to it from the record: field names, list indexes and keys. -/
structure FieldError where
  loc : List String
  issue : Issue
deriving Repr, DecidableEq

inductive Checked (α : Type) where
  | ok (a : α)
  | fail (errors : List FieldError)
deriving Repr, DecidableEq

namespace Checked
variable {α β : Type}

def map (f : α → β) : Checked α → Checked β
  | ok a => ok (f a)
  | fail es => fail es

def seq (f : Checked (α → β)) (x : Unit → Checked α) : Checked β :=
  match f, x () with
  | ok g, ok a => ok (g a)
  | ok _, fail es => fail es
  | fail es, ok _ => fail es
  | fail es, fail fs => fail (es ++ fs)

instance : Applicative Checked where
  pure := ok
  map := map
  seq := seq

def under (step : String) : Checked α → Checked α
  | ok a => ok a
  | fail es => fail (es.map fun e => { e with loc := step :: e.loc })

def issue (i : Issue) : Checked α := fail [⟨[], i⟩]

def ensure (rule : α → Option String) : Checked α → Checked α
  | ok a => match rule a with
    | none => ok a
    | some reason => issue (.rejected reason)
  | fail es => fail es

end Checked

namespace Field

abbrev Fields := List (Value × Value)

abbrev Reader (α : Type) := Value → Checked α

/-- A text that has halves of surrogate pairs could not be written, and is refused. -/
def text : Reader String
  | .str s => .ok s
  | .bytes b => match Text.decode? b with
    | some s => .ok (String.ofList s)
    | none => .issue .notUnicode
  | .halves _ => .issue .notUnicode
  | _ => .issue .notText

def optionalText : Reader (Option String)
  | .null => .ok none
  | v => (text v).map some

/-- Decimal digits without zeros in front. -/
def natural? (s : List Char) : Option Nat :=
  if s = ['0'] then some 0
  else if s = [] || s.head? == some '0' || !s.all Char.isDigit then none
  else some (s.foldl (fun n c => n * 10 + (c.toNat - 48)) 0)

/-- A minus sign, and the digits after it if they do not start with zero. -/
def integerHead (s : List Char) : List Char :=
  let digits (s : List Char) : List Char :=
    if s.head? == some '0' then [] else s.takeWhile Char.isDigit
  match s with
  | '-' :: s => '-' :: digits s
  | s => digits s

def plainInteger? (s : List Char) : Option Int :=
  if Number.maxDigits < s.length then none
  else match s with
    | '-' :: s => (natural? s).map fun n => -(n : Int)
    | s => (natural? s).map Int.ofNat

def dropZeros : List Char → Option (List Char)
  | '0' :: rest => go '0' rest
  | c :: rest => if c.isDigit then some (c :: rest) else none
  | [] => none
where
  go (last : Char) : List Char → Option (List Char)
    | [] => some [last]
    | '.' :: rest => some (last :: '.' :: rest)
    | c :: rest =>
      if c == '0' || c == '_' then go c rest
      else if c.isDigit || c == '-' then some (c :: rest)
      else none

/-- Drops a point that is followed by zeros only. -/
def dropDecimalZeros (s : List Char) : List Char :=
  let whole := s.takeWhile (· != '.')
  match s.drop whole.length with
  | '.' :: '0' :: zeros => if zeros.all (· == '0') then whole else s
  | _ => s

/-- Drops single low lines inside of a text; others are not allowed. -/
def dropLowLines (s : List Char) : Option (List Char) :=
  if s.head? == some '_' || s.getLast? == some '_' || (s.zip s.tail).contains ('_', '_') then none
  else some (s.filter (· != '_'))

def isSpace (c : Char) : Bool := Text.isBlank c && !(28 ≤ c.toNat && c.toNat ≤ 31)

def wholeNumber? (s : List Char) : Option Int := do
  let s := ((s.dropWhile isSpace).reverse.dropWhile isSpace).reverse
  let (sign, body) := match s with
    | '-' :: body => (['-'], body)
    | '+' :: body => ([], body)
    | body => ([], body)
  let digits ← dropLowLines (dropDecimalZeros (← dropZeros body))
  plainInteger? (sign ++ digits)

def integerText (s : List Char) : Checked Int :=
  if Number.maxDigits < (integerHead s).length then .issue .tooLarge
  else match wholeNumber? s with
    | some n => .ok n
    | none => .issue .notIntegerText

/-- Whether a number has at most 64 bits, its sign included. -/
def fitsWord (n : Int) : Bool :=
  let limit : Int := Number.twoPow 63
  n < limit && -limit ≤ n

def integerFloat (x : Float) : Checked Int :=
  if !x.isFinite then .issue .notFinite
  else match Number.toInt? x with
    | none => .issue .notWhole
    | some n => if n.natAbs < Number.twoPow 63 then .ok n else .issue .tooLarge

def integer : Reader Int
  | .bool b => .ok (if b then 1 else 0)
  | .int n => .ok n
  | .float x => integerFloat x
  | .str s => integerText s.toList
  | .bytes b => match Text.decode? b with
    | some s => integerText s
    | none => .issue .notIntegerText
  | .halves _ => .issue .notUnicode
  | _ => .issue .notInteger

def flagText (s : String) : Checked Bool :=
  let word := s.toLower
  if ["0", "f", "n", "no", "off", "false"].contains word then .ok false
  else if ["1", "t", "y", "on", "yes", "true"].contains word then .ok true
  else .issue .notFlagText

def flagNumber (n : Int) : Checked Bool :=
  if n = 0 then .ok false
  else if n = 1 then .ok true
  else if fitsWord n then .issue .notFlagText
  else .issue .notFlag

def flag : Reader Bool
  | .bool b => .ok b
  | .int n => flagNumber n
  | .float x => match integerFloat x with
    | .ok n => flagNumber n
    | .fail _ => .issue .notFlag
  | .str s => flagText s
  | .bytes b => match Text.decode? b with
    | some s => flagText (String.ofList s)
    | none => .issue .notFlagText
  | .halves _ => .issue .notUnicode
  | _ => .issue .notFlag

def itemsFrom {α : Type} (item : Reader α) (i : Nat) : List Value → Checked (List α)
  | [] => .ok []
  | v :: rest => (· :: ·) <$> (item v).under (toString i) <*> itemsFrom item (i + 1) rest

def row? : Value → Option (List Value)
  | .list vs | .tuple vs | .set vs => some vs
  | _ => none

def listOf {α : Type} (item : Reader α) : Reader (List α) := fun v =>
  match row? v with
  | some vs => itemsFrom item 0 vs
  | none => .issue .notList

def tupleOf {α : Type} (item : Reader α) : Reader (List α) := fun v =>
  match row? v with
  | some vs => itemsFrom item 0 vs
  | none => .issue .notTuple

def keyLabel : Value → String
  | .str s => s
  | .int n => toString n
  | .bool b => if b then "True" else "False"
  | .null => "None"
  | _ => "key"

def entriesOf : List (Value × Value) → Checked (List (String × String))
  | [] => .ok []
  | (k, v) :: rest =>
    (fun key value more => (key, value) :: more) <$>
      ((text k).under "[key]").under (keyLabel k) <*> (text v).under (keyLabel k) <*>
      entriesOf rest

def textMapping : Reader (List (String × String))
  | .map entries => (entriesOf entries).map Pairs.ofList
  | _ => .issue .notMapping

def record {α : Type} (name : String) (read : Fields → Checked α) : Reader α
  | .map fields => read fields
  | _ => .issue (.notRecord name)

def needed {α : Type} (name : String) (read : Reader α) (fields : Fields) : Checked α :=
  match Pairs.get? (.str name) fields with
  | some v => (read v).under name
  | none => (Checked.issue .missing).under name

/-- A field with a default; the default is taken as it is. -/
def orElse {α : Type} (name : String) (read : Reader α) (default : α) (fields : Fields) :
    Checked α :=
  match Pairs.get? (.str name) fields with
  | some v => (read v).under name
  | none => .ok default

end Field

end RouteBook
