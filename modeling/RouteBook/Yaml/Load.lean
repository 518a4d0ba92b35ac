import RouteBook.Yaml.Graph
import RouteBook.Yaml.Node.Reader
import RouteBook.Yaml.Token.Reader

/-! The value that a YAML text stands for. A collection is there before its parts: these are made
when its turn comes, after all collections that were found before it. So of several faults the one
that is least deep counts, and of those the first. How deeply nodes may be nested is not limited. -/
namespace RouteBook.Yaml

inductive Made where
  | value (v : Value)
  | list (items : List Nat)
  | tuples (items : List (Nat × Nat))
  | set (items : List Value)
  | map (entries : List (Value × Nat))

def Tag.empty? : Tag → Option Made
  | .seq => some (.list [])
  | .omap | .pairs => some (.tuples [])
  | .set => some (.set [])
  | .map => some (.map [])
  | _ => none

def Tag.isPlain : Tag → Bool
  | .scalar .merge | .scalar .value | .scalar .yaml | .foreign => false
  | t => t.empty?.isNone

structure Building where
  graph : Graph
  /-- The mappings whose merge keys are resolved. -/
  flat : List Nat := []
  made : List (Nat × Made) := []
  /-- The collections whose parts are still to be made. -/
  queue : List Nat := []

namespace Building

def scalar (b : Building) (n : Nat) : Except LoadError Value := do
  let type := b.graph.tag n
  if type.isPlain then
    let c ← b.graph.content (b.graph.shapes.size + 1) n
    match b.graph.shape n with
    | .scalar _ _ => c.value type
    | _ => if type = .scalar .timestamp then .error .badTimestamp else c.value type
  else .error .malformed

def put (b : Building) (n : Nat) (m : Made) : Building := { b with made := Pairs.put n m b.made }

/-- Makes a node, if that has not been done. -/
def visit (b : Building) (n : Nat) : Except LoadError Building :=
  if Pairs.contains n b.made then .ok b
  else match (b.graph.tag n).empty? with
    | some m => .ok { b.put n m with queue := b.queue ++ [n] }
    | none => do return b.put n (.value (← b.scalar n))

def setEntries (b : Building) (n : Nat) (entries : List (Nat × Nat)) : Building :=
  { b with graph := b.graph.set n ((b.graph.shape n).withEntries entries) }

def retag (b : Building) (n : Nat) : Building :=
  { b with graph := b.graph.set n ((b.graph.shape n).withTag (.scalar .str)) }

def sources (flatten : Nat → Building → Except LoadError Building) :
    List Nat → List (Nat × Nat) → Building → Except LoadError (List (Nat × Nat) × Building)
  | [], found, b => .ok (found, b)
  | n :: rest, found, b => match b.graph.shape n with
    | .mapping _ _ => do
      let b ← flatten n b
      sources flatten rest (b.graph.entries n ++ found) b
    | _ => .error .malformed

def source (flatten : Nat → Building → Except LoadError Building) (n : Nat) (b : Building) :
    Except LoadError (List (Nat × Nat) × Building) :=
  match b.graph.shape n with
  | .sequence _ items => sources flatten items [] b
  | _ => sources flatten [n] [] b

/-- Resolves the merge keys among the last entries of a mapping, with the entries before them and
those merged so far. A merge key is taken away before its value is looked at. If that leads back
to this mapping, nothing is left to be done. -/
def merge (flatten : Nat → Building → Except LoadError Building) (n : Nat) :
    List (Nat × Nat) → List (Nat × Nat) → List (Nat × Nat) → Building → Except LoadError Building
  | [], own, merged, b =>
    let b := b.setEntries n (merged ++ own)
    .ok { b with flat := n :: b.flat }
  | (k, v) :: rest, own, merged, b =>
    if b.graph.tag k = .scalar .merge then do
      let (found, b) ← source flatten v (b.setEntries n (own ++ rest))
      if b.flat.contains n then
        return b.setEntries n (merged ++ found ++ b.graph.entries n)
      else merge flatten n rest own (merged ++ found) b
    else if b.graph.tag k = .scalar .value then
      merge flatten n rest (own ++ [(k, v)]) merged (b.retag k)
    else merge flatten n rest (own ++ [(k, v)]) merged b

/-- Resolves the merge keys of a mapping. A call inside another one is for a merge key that was
taken away, so `fuel` need not be more than the number of entries. -/
def flatten : Nat → Nat → Building → Except LoadError Building
  | 0, _, b => .ok b
  | fuel + 1, n, b =>
    if b.flat.contains n then .ok b
    else merge (flatten fuel) n (b.graph.entries n) [] [] b

def entryCount (b : Building) : Nat :=
  b.graph.shapes.foldl (fun count s => count + s.entries.length) 0

/-- The items of a list of pairs: mappings with one entry each. -/
def visitPairs : List Nat → Building → Except LoadError (List (Nat × Nat) × Building)
  | [], b => .ok ([], b)
  | n :: rest, b => match b.graph.shape n with
    | .mapping _ [(k, v)] => do
      let b ← b.visit k
      let b ← b.visit v
      let (pairs, b) ← visitPairs rest b
      return ((k, v) :: pairs, b)
    | _ => .error .malformed

def visitEntries : List (Nat × Nat) → Building → Except LoadError (List (Value × Nat) × Building)
  | [], b => .ok ([], b)
  | (k, v) :: rest, b => do
    let b ← b.visit k
    match Pairs.get? k b.made with
    | some (.value key) =>
      let b ← b.visit v
      let (entries, b) ← visitEntries rest b
      return ((key, v) :: entries, b)
    | _ => .error .malformed

def fill (b : Building) (n : Nat) : Except LoadError Building :=
  match b.graph.tag n, b.graph.shape n with
  | .seq, .sequence _ items => do
    let b ← items.foldlM visit b
    return b.put n (.list items)
  | .omap, .sequence _ items | .pairs, .sequence _ items => do
    let (pairs, b) ← visitPairs items b
    return b.put n (.tuples pairs)
  | .map, .mapping _ _ => do
    let b ← flatten (b.entryCount + 1) n b
    let (entries, b) ← visitEntries (b.graph.entries n) b
    return b.put n (.map entries)
  | .set, .mapping _ _ => do
    let b ← flatten (b.entryCount + 1) n b
    let (entries, b) ← visitEntries (b.graph.entries n) b
    return b.put n (.set (entries.map Prod.fst))
  | _, _ => .error .malformed

def run : Nat → Building → Except LoadError Building
  | 0, b => .ok b
  | fuel + 1, b => match b.queue with
    | [] => .ok b
    | n :: rest => do run fuel (← { b with queue := rest }.fill n)

end Building

def Made.read (made : List (Nat × Made)) : Nat → List Nat → Nat → Value
  | 0, _, _ => .cycle
  | fuel + 1, above, n =>
    if above.contains n then .cycle
    else
      let part := Made.read made fuel (n :: above)
      match Pairs.get? n made with
      | some (.value v) => v
      | some (.list items) => .list (items.map part)
      | some (.tuples items) => .list (items.map fun p => .tuple [part p.1, part p.2])
      | some (.set items) => .set ((Pairs.ofList (items.map fun v => (v, ()))).map Prod.fst)
      | some (.map entries) => .map (Pairs.ofList (entries.map fun e => (e.1, part e.2)))
      | none => .cycle

def Node.build (node : Node) : Except LoadError Value := do
  let (n, graph) := Graph.add node {}
  let b ← Building.visit { graph } n
  let b ← b.run graph.shapes.size
  return Made.read b.made (graph.shapes.size + 1) [] n

/-- Loads the only document of a text; a text without one is null. -/
def load (text : List Char) : Except LoadError Value := do
  match ← Node.ofTokens? (Token.scan text) with
  | none => return .null
  | some node => node.build

end RouteBook.Yaml
