import RouteBook.Source.Rule

/-! Types, and the heads of functions, which are made of types. -/
namespace RouteBook.Source

def typeArguments (self : Grammar) : Parse Tree := do
  expect "<"
  let ts ← commaList ">" (self .type)
  if ts.isEmpty then failure else return .group ts

def typeParameter (self : Grammar) : Parse Tree := do
  discard <| many do
    if ["const", "in", "out"].contains (← peekWord) then
      discard word
      if (← peekWord) == "" then failure else return
    else failure
  discard word
  let bound ← optionally do
    if (← acceptWord "extends") || (← accept ":") then self .type else failure
  let default ← optionally do
    expect "="
    self .type
  return .group (bound.toList ++ default.toList)

def typeParameters (self : Grammar) : Parse Tree := do
  expect "<"
  let ts ← commaList ">" (typeParameter self)
  if ts.isEmpty then failure else return .group ts

def typeMark (self : Grammar) : Parse Tree := do
  expect ":"
  self .type

/-- What a function may say of its result: that a parameter has a type, or a type. -/
def resultType (self : Grammar) : Parse Tree :=
  (do
    expectWord "asserts"
    discard word
    if ← acceptWord "is" then self .type else return .leaf) <|>
  (do
    discard word
    expectWord "is"
    self .type) <|>
  self .type

def returnType (self : Grammar) : Parse Tree := do
  expect ":"
  resultType self

/-- A decorator: a name, a member or a call of one. -/
def decorator (self : Grammar) : Parse Tree := do
  expect "@"
  let grouped ← accept "("
  let start ← tokenStart
  let name ← word
  let t ← dots ((← get).rest.length + 1) (.identifier name)
  let called ← optionally do
    let types ← optionally (typeArguments self)
    let args ← arguments self
    return Tree.call start (t.withTypes types) args
  if grouped then expect ")"
  return called.getD t
where
  dots : Nat → Tree → Parse Tree
    | 0, t => return t
    | n + 1, t => do
      if ← accept "." then dots n (← memberOf t) else return t

def parameter (self : Grammar) : Parse Tree := do
  let decorators ← many (decorator self)
  discard <| many do
    if ["public", "private", "protected", "override", "readonly"].contains (← peekWord) then
      discard word
      if (← peekWord) != "" || (← sees "\x7b") || (← sees "[") then return else failure
    else failure
  let target ← self .binding
  discard (accept "?")
  let type ← optionally (typeMark self)
  let value ← optionally (initializer self false)
  return .group (decorators ++ target :: type.toList ++ value.toList)

def parameters (self : Grammar) : Parse Tree := do
  expect "("
  return .group (← commaList ")" (parameter self))

def signature (self : Grammar) : Parse Tree := do
  let types ← optionally (typeParameters self)
  let params ← parameters self
  let result ← if (← get).noReturnType then pure none else optionally (returnType self)
  return .group (types.toList ++ params :: result.toList)

def seesSignature : Parse Bool := return (← sees "(") || (← sees "<")

def functionType (self : Grammar) : Parse Tree := do
  let types ← optionally (typeParameters self)
  let params ← parameters self
  expect "=>"
  return .group (types.toList ++ [params, ← resultType self])

/-- The parts of a name in the language of values: members, keys and calls. -/
def queryParts (self : Grammar) (start : Nat) : Nat → Tree → Parse Tree
  | 0, t => return t
  | fuel + 1, t => do
    if ← breaksHere false then return t
    else if (← accept "?.") || (← accept ".") then queryParts self start fuel (← memberOf t)
    else if ← sees "(" then
      let args ← arguments self
      queryParts self start fuel (.call start t args)
    else
      match ← optionally (key <|> typeArguments self) with
      | some k => queryParts self start fuel (.group [t, k])
      | none => return t
where
  key : Parse Tree := do
    expect "["
    let t ← self .type
    expect "]"
    return t

def query (self : Grammar) : Parse Tree := do
  let start ← tokenStart
  let name ← word
  queryParts self start ((← get).rest.length + 1) (.identifier name)

/-- The sign of a type in a mapped or indexed member: a colon, perhaps after a question mark. -/
def indexedType (self : Grammar) : Parse Tree := do
  if !((← accept "-?") || (← accept "+?")) then discard (accept "?")
  typeMark self

def indexSignature (self : Grammar) : Parse Tree := do
  discard (optionally do
    discard (accept "-")
    discard (accept "+")
    expectWord "readonly")
  expect "["
  discard word
  let key ← if ← acceptWord "in" then do
      let t ← self .type
      let renamed ← optionally do
        expectWord "as"
        self .type
      pure (Tree.group (t :: renamed.toList))
    else typeMark self
  expect "]"
  return .group [key, ← indexedType self]

def namedMember (self : Grammar) : Parse Tree := do
  let words ← modifiers
  let starred ← accept "*"
  let name ← propertyName self
  discard (accept "?")
  if ← seesSignature then
    if !methodOrders.any (inOrder · words) then failure
    return .group [name, ← signature self]
  else
    if starred || !inOrder propertyOrder words then failure
    return .group (name :: (← optionally (typeMark self)).toList)

def typeMember (self : Grammar) : Parse Tree :=
  indexSignature self <|>
  (do
    discard (optionally (expectWord "abstract"))
    expectWord "new"
    if ← seesSignature then signature self else failure) <|>
  (do if ← seesSignature then signature self else failure) <|>
  namedMember self

def typeMembers (self : Grammar) : Nat → Parse (List Tree)
  | 0 => failure
  | fuel + 1 => do
    if (← accept "\x7d") || (← accept "|\x7d") then return []
    let m ← typeMember self
    if !((← accept ",") || (← sees "\x7d") || (← sees "|\x7d")) then semicolon false
    return m :: (← typeMembers self fuel)

def objectType (self : Grammar) : Parse Tree := do
  if !(← accept "\x7b|") then expect "\x7b"
  if !(← accept ",") then discard (accept ";")
  return .group (← typeMembers self ((← get).rest.length + 1))

def tupleItem (self : Grammar) : Parse Tree := do
  discard (accept "...")
  let named ← optionally do
    discard word
    discard (accept "?")
    typeMark self
  match named with
  | some t => return t
  | none =>
    let t ← self .type
    discard (accept "?")
    return t

def namedType (self : Grammar) : Parse Tree := do
  discard word
  discard <| many do
    expect "."
    discard word
  return ((← optionally (typeArguments self)).getD .leaf)

def typeSuffixes (self : Grammar) : Nat → List Tree → Parse (List Tree)
  | 0, ts => return ts
  | fuel + 1, ts => do
    if ← breaksHere false then return ts
    else if ← accept "[" then
      if ← accept "]" then typeSuffixes self fuel ts
      else
        let t ← self .type
        expect "]"
        typeSuffixes self fuel (ts ++ [t])
    else return ts

def wordType (self : Grammar) (w : String) : Parse Tree :=
  match w with
  | "typeof" => do
    discard word
    query self
  | "import" => query self
  | "keyof" => do
    discard word
    self .type
  | "readonly" => (do
      discard word
      self .type) <|> namedType self
  | "unique" => (do
      discard word
      expectWord "symbol"
      return .leaf) <|> namedType self
  | "infer" => do
    discard word
    discard word
    return ((← optionally (do
      expectWord "extends"
      self .type)).getD .leaf)
  | "new" => do
    discard word
    functionType self
  | "abstract" => (do
      discard word
      expectWord "new"
      functionType self) <|> namedType self
  | _ => namedType self

/-- A type without operators. -/
def typeUnit (self : Grammar) : Parse Tree := do
  discard tokenStart
  let rest := (← get).rest
  let w := wordAt rest
  let base ←
    if w != "" then wordType self w
    else if startsWith rest "(" then
      functionType self <|> (do
        expect "("
        let t ← self .type
        expect ")"
        return t)
    else if startsWith rest "<" then functionType self
    else if startsWith rest "\x7b" then objectType self
    else if startsWith rest "[" then do
      expect "["
      pure (.group (← commaList "]" (tupleItem self)))
    else if startsWith rest "`" then templateLiteral (self .type)
    else if startsWith rest "'" || startsWith rest "\"" then stringLiteral
    else if startsWith rest "*" then do
      expect "*"
      pure .leaf
    else if startsWith rest "?" then do
      expect "?"
      self .type
    else do
      if !(← accept "-") then discard (accept "+")
      number
  return .group (base :: (← typeSuffixes self ((← get).rest.length + 1) []))

def typeOperator : Parse Unit := do
  if (← sees "||") || (← sees "&&") || (← sees "|\x7d") then failure
  else if ← accept "|" then return
  else expect "&"

def typeRule (self : Grammar) : Parse Tree := do
  discard (optionally typeOperator)
  let first ← typeUnit self
  let more ← many do
    typeOperator
    typeUnit self
  let condition ← if (← peekWord) == "extends" then optionally do
      expectWord "extends"
      let bound ← self .type
      expect "?"
      let yes ← self .type
      expect ":"
      return Tree.group [bound, yes, ← self .type]
    else pure none
  return .group (first :: more ++ condition.toList)

end RouteBook.Source
