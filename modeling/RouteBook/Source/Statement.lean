import RouteBook.Source.Class

/-! Statements and declarations. -/
namespace RouteBook.Source

def declarators (self : Grammar) : Parse (List Tree × Bool) := do
  let (first, valued) ← declarator
  let more ← many do
    expect ","
    declarator
  return (first :: more.map Prod.fst, ((more.getLast?).map Prod.snd).getD valued)
where
  declarator : Parse (Tree × Bool) := do
    let t ← destructuring self <|> (do
      discard word
      return .leaf)
    if !(← sees "!=") then discard (accept "!")
    let type ← optionally (typeMark self)
    let value ← optionally (initializer self true)
    return (.group (t :: type.toList ++ value.toList), value.isSome)

def variableDeclaration (self : Grammar) : Parse Tree := do
  if ← acceptAnyWord ["var", "let", "const"] then
    let (ts, valued) ← declarators self
    semicolon valued
    return .group ts
  else failure

/-- A function with a name; without a body it is only announced. -/
def functionDeclaration (self : Grammar) : Parse Tree := do
  discard (acceptWord "async")
  expectWord "function"
  discard (accept "*")
  discard word
  let head ← signature self
  if ← sees "\x7b" then return .group [head, ← self .block]
  else
    semicolon false true
    return head

def seesNamed : Parse Bool := wouldParse do
  discard (acceptWord "async")
  if !(← acceptAnyWord ["function", "class"]) then failure
  discard (accept "*")
  if ["extends", "implements"].contains (← word) then failure

/-- A function or a class with a name is declared; without one it is part of something else. -/
def namedOr {α : Type} (named other : Parse α) : Parse α := do
  if ← seesNamed then named else named <|> other

def classDeclaration (self : Grammar) : Parse Tree := do
  discard (acceptWord "abstract")
  expectWord "class"
  discard word
  classTail self

def dottedName : Parse Unit := do
  discard word
  discard <| many do
    expect "."
    discard word

def typeAlias (self : Grammar) : Parse Tree := do
  expectWord "type"
  discard word
  let types ← optionally (typeParameters self)
  expect "="
  let t ← self .type
  semicolon false
  return .group (types.toList ++ [t])

def interfaceDeclaration (self : Grammar) : Parse Tree := do
  expectWord "interface"
  discard word
  let types ← optionally (typeParameters self)
  let parents ← optionally do
    expectWord "extends"
    let t ← namedType self
    return .group (t :: (← many do
      expect ","
      namedType self))
  return .group (types.toList ++ parents.toList ++ [← objectType self])

def enumDeclaration (self : Grammar) : Parse Tree := do
  discard (acceptWord "const")
  expectWord "enum"
  discard word
  expect "\x7b"
  return .group (← commaList "\x7d" do
    let name ← propertyName self
    let value ← optionally (initializer self false)
    return .group (name :: value.toList))

def moduleDeclaration (self : Grammar) : Parse Tree := do
  if ← acceptAnyWord ["module", "namespace"] then
    discard stringLiteral <|> dottedName
    if ← sees "\x7b" then self .block
    else
      semicolon false
      return .leaf
  else failure

def importAlias : Parse Tree := do
  expectWord "import"
  discard word
  expect "="
  dottedName
  semicolon false
  return .leaf

def declaration (self : Grammar) : Nat → Parse Tree
  | 0 => failure
  | depth + 1 => do
    match ← peekWord with
    | "function" | "async" => functionDeclaration self
    | "class" | "abstract" => classDeclaration self
    | "const" => enumDeclaration self <|> variableDeclaration self
    | "let" | "var" => variableDeclaration self
    | "type" => typeAlias self
    | "interface" => interfaceDeclaration self
    | "enum" => enumDeclaration self
    | "module" | "namespace" => moduleDeclaration self
    | "import" => importAlias
    | "declare" =>
      discard word
      (do
        expectWord "global"
        self .block) <|>
      (do
        expectWord "module"
        expect "."
        discard word
        let t ← typeMark self
        semicolon false
        return t) <|> declaration self depth
    | _ => failure

def expressionStatement (self : Grammar) : Parse Tree := do
  let t ← expressions self true
  semicolon true
  return t

def specifierName : Parse Unit := (discard word) <|> (discard stringLiteral)

def specifier : Parse Tree :=
  (do
    if ← acceptAnyWord ["type", "typeof"] then entry else failure) <|> entry
where
  entry : Parse Tree := do
    specifierName
    discard (optionally do
      expectWord "as"
      specifierName)
    if (← sees ",") || (← sees "\x7d") then return .leaf else failure

def specifiers : Parse Unit := do
  expect "\x7b"
  discard (commaList "\x7d" specifier)

def fromClause (self : Grammar) : Parse Tree := do
  expectWord "from"
  discard stringLiteral
  attributes self
where
  attributes (self : Grammar) : Parse Tree := do
    if (← peekWord) == "with" || (← peekWord) == "assert" then
      (do
        discard word
        objectLiteral self) <|> pure .leaf
    else return .leaf

def wholeModule : Parse Unit := do
  expect "*"
  expectWord "as"
  specifierName

def importClause : Parse Unit := do
  wholeModule <|> specifiers <|> (do
    discard word
    if ← accept "," then wholeModule <|> specifiers)

def importStatement (self : Grammar) : Parse Tree := do
  let t ← (do
      expectWord "import"
      discard stringLiteral
      fromClause.attributes self) <|>
    (do
      expectWord "import"
      kind
      discard word
      expect "="
      expectWord "require"
      expect "("
      discard stringLiteral
      expect ")"
      return .leaf) <|>
    (do
      expectWord "import"
      kind
      importClause
      fromClause self) <|>
    (do
      expectWord "import"
      importClause
      fromClause self)
  semicolon false
  return t
where
  kind : Parse Unit := do
    if ["type", "typeof"].contains (← peekWord) then discard word

def exported (self : Grammar) : Parse Tree := do
  if ← sees "*" then
    wholeModule <|> expect "*"
    let t ← fromClause self
    semicolon false
    return t
  else if ← sees "\x7b" then names
  else if ← accept "=" then expressionStatement self
  else
    match ← peekWord with
    | "default" =>
      discard word
      decorated <|> namedOr (declaration self 5) (expressionStatement self)
    | "as" =>
      discard word
      expectWord "namespace"
      discard word
      semicolon false
      return .leaf
    | "type" => (do
        discard word
        names) <|> declaration self 5
    | _ => decorated <|> declaration self 5
where
  names : Parse Tree := do
    specifiers
    let t ← optionally (fromClause self)
    semicolon false
    return t.getD .leaf
  decorated : Parse Tree := do
    let d ← decorator self
    let ds ← many (decorator self)
    return .group (d :: ds ++ [← namedOr (classDeclaration self) (expressionStatement self)])

def exportStatement (self : Grammar) : Parse Tree := do
  expectWord "export"
  exported self

/-- What a loop over items binds. Only with `var` it may have a value before the loop. -/
def loopBinding (self : Grammar) : Parse Tree := do
  let kind ← word
  if kind ∉ ["var", "let", "const"] then failure
  if ["of", "in"].contains (← peekWord) then failure
  let t ← destructuring self <|> (do
    discard word
    return .leaf)
  if kind == "var" && (← wouldParse assignSign) then
    assignSign
    return .group [t, ← self (.operand false)]
  else return t

def loopItems (self : Grammar) : Parse Tree := do
  let target ← loopBinding self <|> self (.operand false) <|> destructuring self
  if ← acceptAnyWord ["of", "in"] then
    return .group [target, ← expressions self false]
  else failure

def loopSteps (self : Grammar) : Parse Tree := do
  let start ← variableDeclaration self <|> clause
  let condition ← clause
  let step ← optionally (expressions self false)
  return .group (start :: condition :: step.toList)
where
  clause : Parse Tree := do
    let t ← optionally (expressions self false)
    expect ";"
    return t.getD .leaf

def loop (self : Grammar) : Parse Tree := do
  expectWord "for"
  discard (acceptWord "await")
  expect "("
  let head ← (do
      let t ← loopItems self
      expect ")"
      return t) <|> (do
      let t ← loopSteps self
      expect ")"
      return t)
  return .group [head, ← self .statement]

def caseStatements (self : Grammar) : Parse (List Tree) := many do
  if ["case", "default"].contains (← peekWord) then failure else self .statement

def switchCase (self : Grammar) : Parse Tree := do
  if ← acceptWord "default" then
    expect ":"
    return .group (← caseStatements self)
  else
    expectWord "case"
    let t ← expressions self false
    expect ":"
    return .group (t :: (← caseStatements self))

def tryStatement (self : Grammar) : Parse Tree := do
  expectWord "try"
  let body ← self .block
  let handler ← afterWord "catch" do
    let caught ← optionally do
      expect "("
      let t ← self .binding
      let type ← optionally (typeMark self)
      expect ")"
      return Tree.group (t :: type.toList)
    return Tree.group (caught.toList ++ [← self .block])
  let last ← afterWord "finally" (self .block)
  return .group (body :: handler.toList ++ last.toList)

def jump (self : Grammar) : Parse Tree := do
  let w ← word
  if w == "throw" then return ← expressionStatement self
  if ← breaksHere false then return .leaf
  if ← accept ";" then return .leaf
  if w == "return" then expressionStatement self
  else
    discard word
    semicolon false
    return .leaf

def labelled (self : Grammar) : Parse Tree := do
  discard word
  expect ":"
  self .statement

def conditioned (self : Grammar) : Parse Tree := do
  discard word
  let condition ← parenthesized self
  return .group [condition, ← self .statement]

def ifStatement (self : Grammar) : Parse Tree := do
  let t ← conditioned self
  let other ← afterWord "else" (self .statement)
  return .group (t :: other.toList)

def doStatement (self : Grammar) : Parse Tree := do
  expectWord "do"
  let body ← self .statement
  expectWord "while"
  let condition ← parenthesized self
  discard (accept ";")
  return .group [body, condition]

def switchStatement (self : Grammar) : Parse Tree := do
  expectWord "switch"
  let value ← parenthesized self
  expect "\x7b"
  let cases ← many (switchCase self)
  expect "\x7d"
  return .group (value :: cases)

def plainStatement (self : Grammar) : Parse Tree := labelled self <|> expressionStatement self

def wordStatement (self : Grammar) (w : String) : Parse Tree :=
  match w with
  | "if" => ifStatement self
  | "for" => loop self
  | "while" | "with" => conditioned self
  | "do" => doStatement self
  | "switch" => switchStatement self
  | "try" => tryStatement self
  | "return" | "throw" | "break" | "continue" | "debugger" => jump self
  | "interface" | "enum" | "abstract" | "const" | "var" => declaration self 5
  | "function" | "class" | "async" => namedOr (declaration self 5) (plainStatement self)
  | "let" => declaration self 5 <|> (do
      if ← wouldParse (do expectWord "let"; expect "[") then failure else plainStatement self)
  | "type" | "module" | "namespace" | "declare" =>
    declaration self 5 <|> plainStatement self
  | "import" => importStatement self <|> importAlias <|> expressionStatement self
  | "export" => exportStatement self <|> plainStatement self
  | _ => plainStatement self

def decoratedStatement (self : Grammar) : Parse Tree := do
  let ds ← many (decorator self)
  let t ← exportStatement self <|> namedOr (classDeclaration self) (expressionStatement self)
  return .group (ds ++ [t])

def blockRule (self : Grammar) : Parse Tree := do
  expect "\x7b"
  let ts ← many (self .statement)
  expect "\x7d"
  return .group ts

def statementRule (self : Grammar) : Parse Tree := do
  discard tokenStart
  let rest := (← get).rest
  let w := wordAt rest
  if w != "" then wordStatement self w
  else if startsWith rest "\x7b" then blockOr (self .block) (expressionStatement self)
  else if startsWith rest ";" then
    expect ";"
    return .leaf
  else if startsWith rest "@" then decoratedStatement self
  else expressionStatement self

end RouteBook.Source
