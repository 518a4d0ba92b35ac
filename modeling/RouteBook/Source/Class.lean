import RouteBook.Source.Expression

/-! The bodies of classes. -/
namespace RouteBook.Source

def classMember (self : Grammar) : Parse Tree := do
  let words ← modifiers
  let starred ← accept "*"
  let name ← propertyName self
  if !(← accept "?") then
    if !(← sees "!=") then discard (accept "!")
  if ← seesSignature then
    if !methodOrders.any (inOrder · words) then failure
    let head ← signature self
    if ← sees "\x7b" then
      let body ← self .block
      discard (accept ";")
      return .group [name, head, body]
    else
      if !(← accept ",") then semicolon false true
      return .group [name, head]
  else
    if starred || !fieldOrders.any (inOrder · words) then failure
    let type ← optionally (typeMark self)
    let value ← optionally (initializer self true)
    if !(← accept ",") then semicolon value.isSome
    return .group (name :: type.toList ++ value.toList)

def staticBlock (self : Grammar) : Parse Tree := do
  expectWord "static"
  self .block

def indexedMember (self : Grammar) : Parse Tree := do
  let t ← indexSignature self
  if !(← accept ",") then semicolon false
  return t

def classMembers (self : Grammar) : Nat → Parse (List Tree)
  | 0 => failure
  | fuel + 1 => do
    if ← accept "\x7d" then return []
    if ← accept ";" then return ← classMembers self fuel
    let decorators ← many (decorator self)
    let m ← staticBlock self <|> indexedMember self <|> classMember self
    return decorators ++ m :: (← classMembers self fuel)

def classBodyRule (self : Grammar) : Parse Tree := do
  expect "\x7b"
  return .group (← classMembers self ((← get).rest.length + 1))

end RouteBook.Source
