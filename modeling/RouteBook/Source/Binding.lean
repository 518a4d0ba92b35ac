import RouteBook.Source.Type

/-! Names and patterns of names, as declarations bind and assignments set them. -/
namespace RouteBook.Source

def defaulted (self : Grammar) (target : Parse Tree) : Parse Tree := do
  let t ← target
  let value ← optionally (initializer self false)
  return .group (t :: value.toList)

def patternMember (self : Grammar) : Parse Tree :=
  (do
    expect "..."
    self .target) <|>
  (do
    let name ← propertyName self
    expect ":"
    return .group [name, ← defaulted self (self .target)]) <|>
  defaulted self (do
    discard word
    return .leaf)

def objectPattern (self : Grammar) : Parse Tree := do
  expect "\x7b"
  return .group (← sparseList "\x7d" (patternMember self))

def arrayPattern (self : Grammar) : Parse Tree := do
  expect "["
  return .group (← sparseList "]" (defaulted self (self .target)))

def destructuring (self : Grammar) : Parse Tree := objectPattern self <|> arrayPattern self

def bindingRule (self : Grammar) : Parse Tree := do
  if ← accept "..." then self .binding
  else destructuring self <|> (do
    discard word
    return .leaf)

def targetParts (self : Grammar) : Nat → Tree → Parse Tree
  | 0, t => return t
  | fuel + 1, t => do
    if (← accept ".") || (← accept "?.") then targetParts self fuel (← memberOf t)
    else if ← accept "[" then
      let i ← expressions self false
      expect "]"
      targetParts self fuel (.group [t, i])
    else return t

def targetRule (self : Grammar) : Parse Tree := do
  if ← accept "..." then self .target
  else destructuring self <|> (do
    let name ← word
    targetParts self ((← get).rest.length + 1) (.identifier name))

end RouteBook.Source
