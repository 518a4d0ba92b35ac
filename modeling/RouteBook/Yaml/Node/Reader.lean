import RouteBook.Pairs
import RouteBook.Yaml.Node
import RouteBook.Yaml.Token

/-! Reading the nodes of a document off its tokens. -/
namespace RouteBook.Yaml.Node

structure Reading where
  tokens : List Token
  /-- What the handles of tags stand for. -/
  handles : List (String × String) := []
  /-- The names of nodes so far, those of nodes that are still being read included. -/
  anchors : List String := []

abbrev Reader := StateT Reading (Except LoadError)

inductive Place where
  | flow
  | block
  /-- In a block mapping, where the entries of a sequence need no further indentation. -/
  | entry
deriving DecidableEq

/-- The next token; past the last one the text is at its end. -/
def peek : Reader Token := do
  match (← get).tokens with
  | .fault e :: _ => throw e
  | t :: _ => return t
  | [] => return .streamEnd

def advance : Reader Unit := modify fun s => { s with tokens := s.tokens.drop 1 }

/-- Takes a token if it is the next one. -/
def accept (t : Token) : Reader Bool := do
  if (← peek) = t then
    advance
    return true
  else return false

def expect (t : Token) : Reader Unit := do
  if ← accept t then return else throw .malformed

def atOneOf (ts : List Token) : Reader Bool := return ts.contains (← peek)

def bareMark : Option String := some "!"

def address (handle : Option String) (suffix : String) : Reader String := do
  match handle with
  | none => return suffix
  | some h => match Pairs.get? h (← get).handles with
    | some base => return base ++ suffix
    | none => throw .malformed

def acceptAnchor : Reader (Option String) := do
  match ← peek with
  | .anchor name => advance; return some name
  | _ => return none

def acceptTag : Reader (Option (Option String × String)) := do
  match ← peek with
  | .tag handle suffix => advance; return some (handle, suffix)
  | _ => return none

/-- The name and the type's address in front of a node, in either order. The address is looked up
when both are there. -/
def properties : Reader (Option String × Option String) := do
  match ← acceptAnchor with
  | some name =>
    match ← acceptTag with
    | some (handle, suffix) => return (some name, some (← address handle suffix))
    | none => return (some name, none)
  | none =>
    match ← acceptTag with
    | some (handle, suffix) =>
      let name ← acceptAnchor
      return (name, some (← address handle suffix))
    | none => return (none, none)

def isImplied (address : Option String) : Bool := address.isNone || address == bareMark

def scalarTag (address : Option String) (text : String) (bare : Bool) : Tag :=
  match address with
  | none => .scalar (if bare then ScalarTag.ofBare text else .str)
  | some a => if isImplied address then .scalar (ScalarTag.ofText text) else Tag.ofAddress a

def collectionTag (address : Option String) (usual : Tag) : Tag :=
  match address with
  | none => usual
  | some a => if isImplied address then usual else Tag.ofAddress a

def announce (name : Option String) : Reader Unit := do
  match name with
  | none => return
  | some n =>
    let s ← get
    if s.anchors.contains n then throw .malformed
    else set { s with anchors := n :: s.anchors }

def withName (name : Option String) (node : Node) : Node :=
  match name with
  | none => node
  | some n => .named n node

def aliased (name : String) : Reader Node := do
  if (← get).anchors.contains name then return .alias name else throw .malformed

/-- Reads one node; `fuel` bounds the number of steps. -/
def read : Nat → Place → Reader Node
  | 0, _ => throw .malformed
  | fuel + 1, place => do
    if let .alias name ← peek then
      advance
      return ← aliased name
    let (name, address) ← properties
    match ← peek, place with
    | .scalar text bare, _ =>
      advance
      announce name
      return withName name (.scalar (scalarTag address text bare) text)
    | .halves codes, _ =>
      advance
      announce name
      return withName name (.halves (collectionTag address (.scalar .str)) codes)
    | .flowSequenceStart, _ =>
      advance
      announce name
      return withName name (.sequence (collectionTag address .seq) (← flowItems fuel true))
    | .flowMappingStart, _ =>
      advance
      announce name
      return withName name (.mapping (collectionTag address .map) (← flowEntries fuel true))
    | .blockSequenceStart, .block | .blockSequenceStart, .entry =>
      advance
      announce name
      let items ← blockItems fuel
      expect .blockEnd
      return withName name (.sequence (collectionTag address .seq) items)
    | .blockEntry, .entry =>
      announce name
      return withName name (.sequence (collectionTag address .seq) (← looseItems fuel))
    | .blockMappingStart, .block | .blockMappingStart, .entry =>
      advance
      announce name
      let entries ← blockEntries fuel
      expect .blockEnd
      return withName name (.mapping (collectionTag address .map) entries)
    | _, _ =>
      if name.isNone && address.isNone then throw .malformed
      else
        announce name
        return withName name (.scalar (scalarTag address "" true) "")
where
  /-- A node, or an empty one where one of some tokens follows. -/
  readOr : Nat → Place → List Token → Reader Node
    | 0, _, _ => throw .malformed
    | fuel + 1, place, ends => do
      if ← atOneOf ends then return .empty else read fuel place
  /-- The value after a colon; without a colon it is empty. -/
  readValue : Nat → Place → List Token → Reader Node
    | 0, _, _ => throw .malformed
    | fuel + 1, place, ends => do
      if ← accept .value then readOr fuel place ends else return .empty
  blockItems : Nat → Reader (List Node)
    | 0 => throw .malformed
    | fuel + 1 => do
      if ← accept .blockEntry then
        let item ← readOr fuel .block [.blockEntry, .blockEnd]
        return item :: (← blockItems fuel)
      else return []
  looseItems : Nat → Reader (List Node)
    | 0 => throw .malformed
    | fuel + 1 => do
      if ← accept .blockEntry then
        let item ← readOr fuel .block [.blockEntry, .key, .value, .blockEnd]
        return item :: (← looseItems fuel)
      else return []
  blockEntries : Nat → Reader (List (Node × Node))
    | 0 => throw .malformed
    | fuel + 1 => do
      if ← accept .key then
        let key ← readOr fuel .entry [.key, .value, .blockEnd]
        let value ← readValue fuel .entry [.key, .value, .blockEnd]
        return (key, value) :: (← blockEntries fuel)
      else return []
  /-- The items up to the closing bracket; a key in front of one makes it a mapping. -/
  flowItems : Nat → Bool → Reader (List Node)
    | 0, _ => throw .malformed
    | fuel + 1, first => do
      if ← accept .flowSequenceEnd then return []
      if !first then expect .flowEntry
      if ← accept .flowSequenceEnd then return []
      let item ←
        if ← accept .key then do
          let key ← readOr fuel .flow [.value, .flowEntry, .flowSequenceEnd]
          let value ← readValue fuel .flow [.flowEntry, .flowSequenceEnd]
          pure (.mapping .map [(key, value)])
        else read fuel .flow
      return item :: (← flowItems fuel false)
  /-- The entries up to the closing brace; one without a key mark has an empty value. -/
  flowEntries : Nat → Bool → Reader (List (Node × Node))
    | 0, _ => throw .malformed
    | fuel + 1, first => do
      if ← accept .flowMappingEnd then return []
      if !first then expect .flowEntry
      if ← accept .flowMappingEnd then return []
      let entry ←
        if ← accept .key then do
          let key ← readOr fuel .flow [.value, .flowEntry, .flowMappingEnd]
          let value ← readValue fuel .flow [.flowEntry, .flowMappingEnd]
          pure (key, value)
        else do
          let key ← read fuel .flow
          pure (key, .empty)
      return entry :: (← flowEntries fuel false)

def usualHandles : List (String × String) := [("!", "!"), ("!!", Tag.standard)]

/-- The directives in front of a document. A version must be of the first kind and stand once, and
a handle is declared once. -/
def directives : Nat → Bool → List (String × String) → Reader (List (String × String))
  | 0, _, handles => return handles
  | fuel + 1, versioned, handles => do
    match ← peek with
    | .directive (.version major _) =>
      if versioned || major != 1 then throw .malformed
      else
        advance
        directives fuel true handles
    | .directive (.tag handle uri) =>
      if Pairs.contains handle handles then throw .malformed
      else
        advance
        directives fuel versioned (Pairs.put handle uri handles)
    | .directive .other =>
      advance
      directives fuel versioned handles
    | _ => return handles

def isDirective : Token → Bool
  | .directive _ => true
  | _ => false

/-- The only document of a text, if it has one. -/
def document : Reader (Option Node) := do
  let size := (← get).tokens.length
  let first ← peek
  if first = .streamEnd then return none
  let node ←
    if isDirective first || first = .documentStart then do
      let declared ← directives size false []
      expect .documentStart
      let handles := declared ++ usualHandles.filter fun h => !Pairs.contains h.1 declared
      modify fun s => { s with handles }
      let next ← peek
      if isDirective next || [.documentStart, .documentEnd, .streamEnd].contains next then
        pure .empty
      else read (4 * size + 4) .block
    else do
      modify fun s => { s with handles := usualHandles }
      read (4 * size + 4) .block
  skipEnds size
  if (← peek) = .streamEnd then return some node
  else
    -- the start of another document is read before it is refused
    let _ ← directives size false []
    expect .documentStart
    throw .malformed
where
  skipEnds : Nat → Reader Unit
    | 0 => return
    | fuel + 1 => do
      if ← accept .documentEnd then skipEnds fuel else return

/-- The only document of a text given by its tokens, if it has one. -/
def ofTokens? (tokens : List Token) : Except LoadError (Option Node) :=
  return (← document.run { tokens }).1

end RouteBook.Yaml.Node
