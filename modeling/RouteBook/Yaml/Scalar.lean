import RouteBook.Yaml.Timestamp

/-! What a bare scalar is taken for: the first of the known spellings that fits, else text. -/
namespace RouteBook.Yaml

inductive ScalarTag where
  | str | null | bool | int | float | timestamp | merge | value | yaml
deriving Repr, DecidableEq

namespace Bare

def isDigitOrLow (c : Char) : Bool := c.isDigit || c == '_'

def dropSign : List Char → List Char
  | '-' :: s => s
  | '+' :: s => s
  | s => s

def boolWords : List String :=
  ["yes", "Yes", "YES", "no", "No", "NO", "true", "True", "TRUE", "false", "False", "FALSE",
   "on", "On", "ON", "off", "Off", "OFF"]

def nullWords : List String := ["", "~", "null", "Null", "NULL"]

/-- A text without the line feed at its end. -/
def dropLineEnd (s : List Char) : List Char :=
  if s.getLast? = some '\n' then s.dropLast else s

def isNumber : List Char → Bool
  | c :: s => c.isDigit && s.all isDigitOrLow
  | [] => false

/-- Digits in base sixty after a colon: one or two, the first of two below six. -/
def isSixtieth : List Char → Bool
  | [c] => c.isDigit
  | [b, c] => '0' ≤ b && b ≤ '5' && c.isDigit
  | _ => false

def splitColons (s : List Char) : List (List Char) := s.splitOn ':'

def isInt (s : List Char) : Bool :=
  let body := dropSign s
  match body with
  | '0' :: 'b' :: d :: ds => (d :: ds).all fun c => c == '0' || c == '1' || c == '_'
  | '0' :: 'x' :: d :: ds => (d :: ds).all fun c => c.isDigit || c == '_' ||
      ('a' ≤ c && c ≤ 'f') || ('A' ≤ c && c ≤ 'F')
  | '0' :: ds => ds.all fun c => ('0' ≤ c && c ≤ '7') || c == '_'
  | c :: _ =>
    c.isDigit && match splitColons body with
      | first :: parts => isNumber first && parts.all isSixtieth
      | [] => false
  | [] => false

/-- An exponent: a letter, a sign and digits. -/
def isExponent : List Char → Bool
  | [] => true
  | e :: sign :: d :: ds => (e == 'e' || e == 'E') && (sign == '+' || sign == '-') &&
      (d :: ds).all Char.isDigit
  | _ => false

def isFloat (s : List Char) : Bool :=
  let body := dropSign s
  let whole := body.takeWhile (· != '.')
  match body.drop whole.length with
  | '.' :: after =>
    let digits := after.takeWhile isDigitOrLow
    let rest := after.drop digits.length
    if whole.isEmpty then
      (String.ofList after == "inf" || String.ofList after == "Inf" ||
        String.ofList after == "INF") ||
      (body.length == s.length &&
        (String.ofList after == "nan" || String.ofList after == "NaN" ||
          String.ofList after == "NAN" || (isNumber digits && isExponent rest)))
    else if isNumber whole then isExponent rest
    else match splitColons whole with
      | first :: part :: parts =>
        isNumber first && (part :: parts).all isSixtieth && rest.isEmpty
      | _ => false
  | _ => false

end Bare

def ScalarTag.ofBare (s : String) : ScalarTag :=
  let cs := s.toList
  if Bare.boolWords.contains s then .bool
  else if Bare.isFloat cs then .float
  else if Bare.isInt cs then .int
  else if s == "<<" then .merge
  else if Bare.nullWords.contains s then .null
  else if Timestamp.isBare cs then .timestamp
  else if s == "=" then .value
  else if s == "!" || s == "&" || s == "*" then .yaml
  else .str

/-- What a text in any style is taken for. The spellings may have a line feed behind them, which no
bare scalar has. -/
def ScalarTag.ofText (s : String) : ScalarTag :=
  if s == "\n" then .str else ofBare (String.ofList (Bare.dropLineEnd s.toList))

end RouteBook.Yaml
