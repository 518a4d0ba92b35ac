import RouteBook.Source.Semicolon
import RouteBook.Source.Token

/-! What can be nested in the source language. Each rule is parsed by a function that is given the
parsers of all rules for what stands inside; the knot is tied where the whole text is parsed. -/
namespace RouteBook.Source

inductive Rule where
  | statement
  /-- Statements in braces. -/
  | block
  /-- An expression; a line end may end it if it is the last part of a statement. -/
  | expression (last : Bool)
  /-- An expression without binary operators outside of brackets. -/
  | operand (last : Bool)
  | type
  /-- What a declaration binds: a name or a pattern of names. -/
  | binding
  /-- What an assignment inside a pattern sets. -/
  | target
  | classBody
  /-- An element of markup. -/
  | element
deriving DecidableEq

abbrev Grammar := Rule → Parse Tree

def expressions (self : Grammar) (last : Bool) : Parse Tree := do
  let t ← self (.expression last)
  let more ← many do
    expect ","
    self (.expression last)
  return if more.isEmpty then t else .group (t :: more)

/-- Expressions in parentheses, where the first may have a type. -/
def parenthesized (self : Grammar) : Parse Tree := do
  expect "("
  let t ← expressions self false
  let type ← optionally do
    expect ":"
    self .type
  expect ")"
  return .group (t :: type.toList)

/-- An argument or an item of a list: an expression, perhaps a spread one. -/
def item (self : Grammar) : Parse Tree := do
  if ← accept "..." then return .group [← self (.expression false)]
  else self (.expression false)

def arguments (self : Grammar) : Parse (List Tree) := do
  expect "("
  sparseList ")" (item self)

def assignSign : Parse Unit := do
  if (← sees "==") || (← sees "=>") then failure else expect "="

def initializer (self : Grammar) (last : Bool) : Parse Tree := do
  assignSign
  self (.expression last)

def seesName : Parse Bool := fun c =>
  let rest := c.skipExtras.rest
  some (wordAt rest != "" || 0 < numberLength rest ||
    headIs (fun d => ['\'', '"', '[', '#', '*'].contains d) rest, c)

/-- The name of a property: a word, a literal, or an expression in brackets. -/
def propertyName (self : Grammar) : Parse Tree := do
  if ← accept "[" then
    let t ← self (.expression false)
    expect "]"
    return .group [t]
  else (do discard word; return .leaf) <|> stringLiteral <|> number <|>
    (do discard privateName; return .leaf)

def modifiers : Parse (List String) := many do
  let w ← word
  if memberModifiers.contains w && (← seesName) then return w else failure
where
  memberModifiers : List String :=
    ["public", "private", "protected", "static", "override", "readonly", "abstract", "declare",
     "accessor", "async", "get", "set"]

/-- Whether words can be taken one each from some lists, in the order of the lists. -/
def inOrder : List (List String) → List String → Bool
  | _, [] => true
  | [], _ :: _ => false
  | l :: ls, w :: ws => inOrder ls (if l.contains w then ws else w :: ws)

def access : List String := ["public", "private", "protected"]

/-- The orders of the words before a method. -/
def methodOrders : List (List (List String)) :=
  [[access, ["static"], ["override"], ["readonly"], ["async"], ["get", "set"]],
   [access, ["abstract"], ["override"], ["get", "set"]]]

/-- The order of the words before a property of an object type. -/
def propertyOrder : List (List String) := [access, ["static"], ["override"], ["readonly"]]

/-- The orders of the words before a field. -/
def fieldOrders : List (List (List String)) :=
  let starts := [[["declare"], access], [access, ["declare"]]]
  let ends := [[["static"], ["override"], ["readonly"]], [["abstract"], ["readonly"]],
    [["readonly"], ["abstract"]], [["accessor"]]]
  starts.flatMap fun s => ends.map (s ++ ·)

def statementWords : List String :=
  ["if", "for", "while", "do", "switch", "try", "return", "throw", "break", "continue", "debugger",
   "var", "const", "function", "class", "import", "with", "typeof", "void", "delete", "await",
   "yield", "this", "super", "null", "true", "false", "undefined", "interface", "enum", "abstract"]

/-- Statements in braces, or else something else that starts with a brace; with a statement's word
behind the brace there is no choice. -/
def blockOr {α : Type} (block other : Parse α) : Parse α := do
  let sure ← wouldParse do
    expect "\x7b"
    if statementWords.contains (← peekWord) then return else failure
  if sure then block else block <|> other

def memberOf (object : Tree) : Parse Tree := do
  let start ← tokenStart
  let name ← word <|> privateName
  return .member object start name

end RouteBook.Source
