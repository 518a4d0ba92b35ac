/-! Hypertext as markup and text. Text is escaped when the page is written, so it can hold no
markup. -/
namespace RouteBook.Html

def escapeChar (c : Char) : List Char :=
  match c with
  | '&' => ['&', 'a', 'm', 'p', ';']
  | '<' => ['&', 'l', 't', ';']
  | '>' => ['&', 'g', 't', ';']
  | '"' => ['&', '#', '3', '4', ';']
  | '\'' => ['&', '#', '3', '9', ';']
  | c => [c]

def escape (s : String) : String := String.ofList (s.toList.flatMap escapeChar)

inductive Part where
  | markup (s : String)
  | text (s : String)
deriving Repr, DecidableEq

def Part.render : Part → String
  | markup s => s
  | text s => escape s

def renderParts (parts : List Part) : String := String.join (parts.map Part.render)

end RouteBook.Html
