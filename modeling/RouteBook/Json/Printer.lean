import RouteBook.Number.Shortest
import RouteBook.Text.Digit
import RouteBook.Value.Basic

/-! JSON text of a value, indented by two blanks a level. Only quotes, backslashes and control
characters are escaped. -/
namespace RouteBook.Json

def escapeChar (c : Char) : List Char :=
  match c with
  | '"' => ['\\', '"']
  | '\\' => ['\\', '\\']
  | '\n' => ['\\', 'n']
  | '\r' => ['\\', 'r']
  | '\t' => ['\\', 't']
  | '\x0c' => ['\\', 'f']
  | '\x08' => ['\\', 'b']
  | c => if c.toNat < 32 then '\\' :: 'u' :: Text.hexDigits 4 c.toNat else [c]

def renderString (s : String) : String :=
  String.ofList ('"' :: (s.toList.flatMap escapeChar ++ ['"']))

/-- JSON has no words for these; the common ones are used. -/
def specials : Number.Specials := ⟨"NaN", "Infinity", "-Infinity"⟩

/-- A key as text: numbers and the named values by their JSON spelling. -/
def keyText : Value → String
  | .str s => s
  | .int n => toString n
  | .float x => Number.renderFloat specials x
  | .bool b => if b then "true" else "false"
  | .null => "null"
  | _ => ""

def newline (depth : Nat) : String := "\n" ++ String.ofList (List.replicate (2 * depth) ' ')

mutual
def render (depth : Nat) : Value → String
  | .null => "null"
  | .bool b => if b then "true" else "false"
  | .int n => toString n
  | .float x => Number.renderFloat specials x
  | .str s => renderString s
  | .list [] | .tuple [] => "[]"
  | .list (v :: vs) | .tuple (v :: vs) =>
    "[" ++ newline (depth + 1) ++ render (depth + 1) v ++ renderItems (depth + 1) vs ++
      newline depth ++ "]"
  | .map [] => "\x7b\x7d"
  | .map ((k, v) :: rest) =>
    "\x7b" ++ newline (depth + 1) ++ renderString (keyText k) ++ ": " ++ render (depth + 1) v ++
      renderEntries (depth + 1) rest ++ newline depth ++ "\x7d"
  | _ => "null"
def renderItems (depth : Nat) : List Value → String
  | [] => ""
  | v :: vs => "," ++ newline depth ++ render depth v ++ renderItems depth vs
def renderEntries (depth : Nat) : List (Value × Value) → String
  | [] => ""
  | (k, v) :: rest =>
    "," ++ newline depth ++ renderString (keyText k) ++ ": " ++ render depth v ++
      renderEntries depth rest
end

/-- A JSON document: the text of a value and a line feed. -/
def print (v : Value) : String := render 0 v ++ "\n"

end RouteBook.Json
