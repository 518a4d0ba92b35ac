import RouteBook.DocComment.Basic
import RouteBook.Text.Blank
import RouteBook.Text.Digit
import RouteBook.Text.Word

/-! The lines of a block comment, and what each of them says. -/
namespace RouteBook.DocComment

def dropStars (s : List Char) : List Char :=
  match s with
  | '*' :: _ =>
    match s.dropWhile (· == '*') with
    | ' ' :: rest => rest
    | rest => rest
  | _ => s

/-- The text between the delimiters of a block comment; a missing delimiter is not required. -/
def body (text : List Char) : List Char :=
  let s := match text with
    | '/' :: '*' :: rest => rest
    | s => s
  match s.reverse with
  | '/' :: '*' :: rest => rest.reverse
  | _ => s

/-- The lines of a block comment without delimiters, leading stars and outer blanks. -/
def lines (text : String) : List String :=
  (Text.splitLines (body text.toList)).map fun line =>
    String.ofList (Text.trim (dropStars (Text.trim line)))

inductive Entry where
  /-- Free text, or an empty line. -/
  | text (s : String)
  /-- A route line; the path is there when the line is well formed. -/
  | route (rest : String) (path : Option String)
  | summary (s : String)
  | description (s : String)
  | param (p : DocParam)
  | response (code description : String)
  | tag (s : String)
  | security (s : String)
  /-- A tag that is unknown or malformed. -/
  | other
deriving Repr, DecidableEq

/-- The path of a route line: a word, blanks, and a text without blanks that begins with a
slash. -/
def routePath? (rest : List Char) : Option String :=
  let word := rest.takeWhile Text.isWord
  let after := rest.drop word.length
  match word, after with
  | _ :: _, b :: _ =>
    if Text.isBlank b then
      match after.dropWhile Text.isBlank with
      | '/' :: path => some (String.ofList ('/' :: path.takeWhile (!Text.isBlank ·)))
      | _ => none
    else none
  | _, _ => none

/-- The description after a name or code: nothing, or blanks, an optional dash and a text. -/
def trailing? : List Char → Option String
  | [] => some ""
  | b :: rest =>
    if Text.isBlank b then
      match rest.dropWhile Text.isBlank with
      | '-' :: text => some (String.ofList (Text.trim text))
      | text => some (String.ofList (Text.trim text))
    else none

/-- The name of a parameter: `name`, `[name]` or `[name=default]`. Gives the name, whether it is
required, the default and the rest. -/
def paramName? : List Char → Option (String × Bool × Option String × List Char)
  | '[' :: s =>
    let name := s.takeWhile fun c => !(c == ']' || c == '=' || Text.isBlank c)
    match name, s.drop name.length with
    | _ :: _, ']' :: rest => some (String.ofList name, false, none, rest)
    | _ :: _, '=' :: t =>
      let default := t.takeWhile (· != ']')
      match t.drop default.length with
      | ']' :: rest => some (String.ofList name, false, some (String.ofList default), rest)
      | _ => none
    | _, _ => none
  | s =>
    let name := s.takeWhile fun c => !(c == '[' || c == ']' || Text.isBlank c)
    match name with
    | [] => none
    | _ => some (String.ofList name, true, none, s.drop name.length)

/-- A parameter: its type in braces, blanks, its name and a description. -/
def param? : List Char → Option DocParam
  | '{' :: s => do
    let type := s.takeWhile (· != '}')
    match type, s.drop type.length with
    | _ :: _, '}' :: b :: rest =>
      if Text.isBlank b then
        let (name, required, default, tail) ← paramName? (rest.dropWhile Text.isBlank)
        let description ← trailing? tail
        return { name, type := String.ofList (Text.trim type), required, description, default }
      else none
    | _, _ => none
  | _ => none

/-- A response: three digits and a description. -/
def response? : List Char → Option (String × String)
  | a :: b :: c :: rest =>
    if Text.isDigit a && Text.isDigit b && Text.isDigit c then
      (trailing? rest).map fun d => (String.ofList [a, b, c], d)
    else none
  | _ => none

def tagged? : List Char → Option (String × List Char)
  | '@' :: s =>
    match s.takeWhile Text.isWord with
    | [] => none
    | word => some (String.ofList word, Text.trim (s.drop word.length))
  | _ => none

def Entry.ofLine (line : String) : Entry :=
  match tagged? line.toList with
  | none => .text line
  | some (word, rest) =>
    let text := String.ofList rest
    match word with
    | "route" => .route text (routePath? rest)
    | "summary" => .summary text
    | "description" => .description text
    | "param" => match param? rest with
      | some p => .param p
      | none => .other
    | "response" => match response? rest with
      | some (code, d) => .response code d
      | none => .other
    | "tag" => .tag text
    | "security" => .security text
    | _ => .other

end RouteBook.DocComment
