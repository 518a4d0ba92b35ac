import RouteBook.Source.Binding
import RouteBook.Source.Element

/-! Expressions. Only calls, members, names and literals are told apart; operators of all kinds
bind what is around them into a group. -/
namespace RouteBook.Source

structure Head where
  tree : Tree
  /-- Whether it may be assigned to. -/
  assignable : Bool := false
  /-- Whether nothing that belongs to it can follow. -/
  closed : Bool := false

def arrowBody (self : Grammar) (last : Bool) : Parse Head := do
  expect "=>"
  if ← sees "\x7b" then
    blockOr (do return ⟨← self .block, false, false⟩)
      (do return ⟨← self (.expression last), false, true⟩)
  else return ⟨← self (.expression last), false, true⟩

def arrow (self : Grammar) (last : Bool) : Parse Head := do
  let params ← (do
      let w ← word
      if ← sees "=>" then return Tree.group [.identifier w] else failure) <|> signature self
  let body ← arrowBody self last
  return { body with tree := .group [params, body.tree] }

/-- A function with its name, if it has one. -/
def functionExpression (self : Grammar) : Parse Head := do
  expectWord "function"
  discard (accept "*")
  discard (optionally word)
  let head ← signature self
  return ⟨.group [head, ← self .block], false, false⟩

def classTail (self : Grammar) : Parse Tree := do
  let types ← optionally (typeParameters self)
  let parents ← optionally do
    expectWord "extends"
    separated do
      let value ← self (.operand false)
      let args ← optionally (typeArguments self)
      return .group (value :: args.toList)
  let interfaces ← optionally do
    expectWord "implements"
    separated (self .type)
  return .group (types.toList ++ parents.toList ++ interfaces.toList ++ [← self .classBody])
where
  separated (p : Parse Tree) : Parse Tree := do
    let t ← p
    return .group (t :: (← many do
      expect ","
      p))

/-- A class with its name, if it has one. -/
def classExpression (self : Grammar) : Parse Head := do
  expectWord "class"
  let w ← peekWord
  if w != "" && w != "extends" && w != "implements" then discard word
  return ⟨← classTail self, false, false⟩

def objectMember (self : Grammar) : Parse Tree := do
  if ← accept "..." then return .group [← self (.expression false)]
  let words ← modifiers
  let starred ← accept "*"
  let isWord := (← peekWord) != ""
  let name ← propertyName self
  discard (accept "?")
  if ← seesSignature then
    if !methodOrders.any (inOrder · words) then failure
    let head ← signature self
    return .group [name, head, ← self .block]
  else if words.isEmpty && !starred then
    if ← accept ":" then return .group [name, ← self (.expression false)]
    else if isWord then return .leaf
    else failure
  else failure

def objectLiteral (self : Grammar) : Parse Tree := do
  expect "\x7b"
  return .group (← sparseList "\x7d" (objectMember self))

def arrayLiteral (self : Grammar) : Parse Tree := do
  expect "["
  return .group (← sparseList "]" (item self))

def collection (self : Grammar) (last : Bool) : Parse Head :=
  (do
    let t ← objectLiteral self <|> arrayLiteral self
    if ← wouldParse assignSign then failure else return ⟨t, false, false⟩) <|>
  (do
    let t ← destructuring self
    return ⟨.group [t, ← initializer self last], false, true⟩)

def classParts (self : Grammar) : Nat → Tree → Parse Tree
  | 0, t => return t
  | fuel + 1, t => do
    if ← accept "." then classParts self fuel (← memberOf t)
    else if ← accept "[" then
      let i ← expressions self false
      expect "]"
      classParts self fuel (.group [t, i])
    else if ← sees "`" then
      let s ← templateLiteral (expressions self false)
      classParts self fuel (.group [t, s])
    else return t

def newExpression (self : Grammar) (unit : Parse Head) : Parse Head := do
  expectWord "new"
  if ← accept "." then
    discard word
    return ⟨.leaf, false, false⟩
  let made ← unit
  let t ← classParts self ((← get).rest.length + 1) made.tree
  let types ← optionally (do
    let ts ← typeArguments self
    if ← sees "(" then return ts else failure)
  let args ← if ← sees "(" then arguments self else pure []
  return ⟨.group (t :: types.toList ++ args), false, false⟩

def wordUnit (self : Grammar) (w : String) : Parse Head :=
  match w with
  | "function" => functionExpression self
  | "class" => classExpression self
  | "async" => (do
      discard word
      functionExpression self) <|> identifier
  | "import" => do
    discard word
    if ← accept "." then
      discard word
      return ⟨.leaf, false, false⟩
    else if ← sees "(" then return ⟨.leaf, false, false⟩
    else failure
  | "this" | "super" | "null" | "true" | "false" => do
    discard word
    return ⟨.leaf, false, false⟩
  | "undefined" => do
    discard word
    return ⟨.leaf, true, false⟩
  | _ => identifier
where
  identifier : Parse Head := do return ⟨.identifier (← word), true, false⟩

/-- An operand without what follows it. -/
def unitOf (self : Grammar) (last : Bool) : Parse Head := do
  discard tokenStart
  let rest := (← get).rest
  let w := wordAt rest
  if w != "" then wordUnit self w
  else if startsWith rest "(" then return ⟨← parenthesized self, true, false⟩
  else if startsWith rest "\x7b" || startsWith rest "[" then collection self last
  else if startsWith rest "'" || startsWith rest "\"" then return ⟨← stringLiteral, false, false⟩
  else if startsWith rest "`" then
    return ⟨← templateLiteral (expressions self false), false, false⟩
  else if startsWith rest "/" then return ⟨← regex, false, false⟩
  else if startsWith rest "#" then
    discard privateName
    if (← peekWord) == "in" then return ⟨.leaf, false, true⟩ else failure
  else if startsWith rest "@" then
    let decorators ← many (decorator self)
    let c ← classExpression self
    return { c with tree := .group (decorators ++ [c.tree]) }
  else return ⟨← number, false, false⟩

def seesOperand : Parse Bool := do
  let w ← peekWord
  if w != "" then return w ∉ ["in", "instanceof", "as", "satisfies"]
  let rest := (← get).skipExtras.rest
  return 0 < numberLength rest || headIs (fun c => ['(', '[', '\x7b', '<', '+', '-', '!', '~', '/',
    '#', '@', '`', '\'', '"'].contains c) rest

/-- Types in angle brackets after an operand: before the arguments of a call, or where no operand
can follow. -/
def suppliedTypes (self : Grammar) : Parse Tree := do
  let types ← typeArguments self
  if (← sees "(") || !(← seesOperand) || (← breaksHere true) then return types else failure

def trailing (self : Grammar) (last : Bool) (start : Nat) : Nat → Head → Parse Head
  | 0, h => return h
  | fuel + 1, h => do
    if last && (← breaksHere true) then return h
    let rest := (← get).skipExtras.rest
    let go (t : Tree) (assignable : Bool := false) : Parse Head :=
      trailing self last start fuel ⟨t, assignable, false⟩
    if startsWith rest "?." then
      expect "?."
      if ← sees "(" then go (.call start h.tree (← arguments self))
      else if ← accept "[" then
        let i ← expressions self false
        expect "]"
        go (.group [h.tree, i]) true
      else if ← sees "<" then
        let types ← typeArguments self
        go (.call start (h.tree.withTypes (some types)) (← arguments self))
      else go (← memberOf h.tree) true
    else if startsWith rest "." then
      expect "."
      go (← memberOf h.tree) true
    else if startsWith rest "(" then go (.call start h.tree (← arguments self))
    else if startsWith rest "[" then
      expect "["
      let i ← expressions self false
      expect "]"
      go (.group [h.tree, i]) true
    else if startsWith rest "`" then
      go (.group [h.tree, ← templateLiteral (expressions self false)])
    else if startsWith rest "!" && !startsWith rest "!=" then
      expect "!"
      go (.group [h.tree]) true
    else if startsWith rest "++" || startsWith rest "--" then
      discard (accept "++")
      discard (accept "--")
      go (.group [h.tree])
    else if startsWith rest "<" then
      match ← optionally (suppliedTypes self) with
      | some types =>
        if ← sees "(" then
          go (.call start (h.tree.withTypes (some types)) (← arguments self))
        else go (.group [h.tree, types])
      | none => return h
    else return h

def assignSigns : List String :=
  ["+=", "-=", "**=", "*=", "/=", "%=", "^=", "&&=", "&=", "||=", "|=", ">>>=", ">>=", "<<=",
   "??="]

def anyAssignSign : Parse Unit := do
  let rest := (← get).skipExtras.rest
  match assignSigns.find? (startsWith rest ·) with
  | some s => expect s
  | none => assignSign

/-- Leading operators; each needs an operand. -/
def leadSigns : List String := ["++", "--", "!", "~", "+", "-"]

def leadWords : List String := ["typeof", "void", "delete", "await"]

/-- A function with an arrow, if one starts here. -/
def arrowHere (self : Grammar) (last : Bool) : Parse Head :=
  (do
    expectWord "async"
    arrow self last) <|> arrow self last

/-- What stands in angle brackets before an operand: the types of a function, a cast, or an
element. -/
def angled (self : Grammar) (last : Bool) : Parse Head :=
  arrow self last <|> (do
    if (← get).markup then return ⟨← self .element, false, false⟩
    else
      let types ← typeArguments self
      return ⟨.group [types, ← self (.operand last)], false, true⟩)

/-- The value that a generator gives out, if any. -/
def yielded (self : Grammar) (last : Bool) : Parse Head := do
  expectWord "yield"
  if ← accept "*" then return ⟨.group [← self (.expression last)], false, true⟩
  if last && (← breaksHere false) then return ⟨.leaf, false, true⟩
  let t ← optionally (self (.expression last))
  return ⟨.group t.toList, false, true⟩

def mayBeArrow (w : String) (rest : List Text.Piece) : Parse Bool := do
  if w == "async" then return true
  if startsWith rest "(" then return true
  if w == "" then return false
  wouldParse do
    discard word
    expect "=>"

def head (self : Grammar) (last : Bool) : Parse Head := do
  let rest := (← get).rest
  let w := wordAt rest
  if ← mayBeArrow w rest then arrowHere self last <|> unitOf self last
  else if w == "new" then
    newExpression self (unitOrNew ((← get).rest.length + 1)) <|> unitOf self last
  else if w == "yield" then yielded self last
  else if startsWith rest "<" then angled self last
  else unitOf self last
where
  unitOrNew : Nat → Parse Head
    | 0 => failure
    | fuel + 1 => do
      if (← peekWord) == "new" then newExpression self (unitOrNew fuel) else unitOf self false

/-- An operand: leading operators, a head, what follows it, and an assignment to it. -/
def operandRule (self : Grammar) (last : Bool) : Parse Tree := do
  let start ← tokenStart
  let rest := (← get).rest
  match leadSigns.find? (startsWith rest ·) with
  | some s =>
    expect s
    return .group [← self (.operand last)]
  | none =>
    if leadWords.contains (wordAt rest) then
      discard word
      return .group [← self (.operand last)]
    let h ← head self last
    if h.closed then return h.tree
    let h ← trailing self last start ((← get).rest.length + 1) h
    if h.assignable && (← wouldParse anyAssignSign) then
      anyAssignSign
      return .group [h.tree, ← self (.expression last)]
    else return h.tree

def binarySigns : List String :=
  [">>>", "===", "!==", "**", "<<", ">>", "&&", "||", "??", "<=", ">=", "==", "!=", "+", "-", "*",
   "/", "%", "<", ">", "&", "|", "^"]

/-- Whether a question mark starts a choice: a type mark is followed by a colon, a comma or a
closing parenthesis. -/
def seesChoice : Parse Bool := do
  let rest := (← get).skipExtras.rest
  if !startsWith rest "?" || startsWith rest "??" || startsWith rest "?." then return false
  let next := (rest.drop 1).dropWhile (isA isWideSpace)
  if headIs (fun c => c == ':' || c == ')' || c == ',') next then return false
  return !startsWith next "." || headIs Char.isDigit (next.drop 1)

/-- The two ways of a choice. A parameter list in the first may not take its colon for a type's
if the colon is needed. -/
def choice (self : Grammar) (last : Bool) : Parse Tree := do
  let first : Parse Tree := do
    let t ← self (.expression false)
    expect ":"
    return t
  let outer := (← get).noReturnType
  let yes ← if outer then first else first <|> (do
    modify fun c => { c with noReturnType := true }
    first)
  modify fun c => { c with noReturnType := outer }
  return .group [yes, ← self (.expression last)]

def operator (self : Grammar) (last : Bool) : Parse Tree := do
  if last && (← breaksHere true) then failure
  let w ← peekWord
  if w == "as" || w == "satisfies" then
    discard word
    self .type
  else if w == "in" || w == "instanceof" then
    discard word
    self (.operand last)
  else if ← seesChoice then
    expect "?"
    choice self last
  else
    let rest := (← get).skipExtras.rest
    match binarySigns.find? (startsWith rest ·) with
    | some s =>
      if assignSigns.any (startsWith rest ·) then failure
      expect s
      self (.operand last)
    | none => failure

def expressionRule (self : Grammar) (last : Bool) : Parse Tree := do
  let t ← self (.operand last)
  let more ← many (operator self last)
  return if more.isEmpty then t else .group (t :: more)

end RouteBook.Source
