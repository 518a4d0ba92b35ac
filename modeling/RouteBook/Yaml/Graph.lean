import RouteBook.Pairs
import RouteBook.Yaml.Scalar.Reader

/-! The nodes of a document by number, a node before its parts. A reference is the number of the
node that it names, so nodes may be shared and may be parts of themselves. -/
namespace RouteBook.Yaml

inductive Shape where
  | scalar (type : Tag) (content : Content)
  | sequence (type : Tag) (items : List Nat)
  | mapping (type : Tag) (entries : List (Nat × Nat))
deriving Repr

namespace Shape

def tag : Shape → Tag
  | scalar t _ | sequence t _ | mapping t _ => t

def withTag (t : Tag) : Shape → Shape
  | scalar _ content => .scalar t content
  | sequence _ items => .sequence t items
  | mapping _ entries => .mapping t entries

def withEntries (entries : List (Nat × Nat)) : Shape → Shape
  | mapping t _ => .mapping t entries
  | s => s

def entries : Shape → List (Nat × Nat)
  | mapping _ entries => entries
  | _ => []

end Shape

structure Graph where
  shapes : Array Shape := #[]
  /-- The numbers of the named nodes. -/
  names : List (String × Nat) := []

namespace Graph

def shape (g : Graph) (n : Nat) : Shape := g.shapes.getD n (.mapping .foreign [])

def tag (g : Graph) (n : Nat) : Tag := (g.shape n).tag

def entries (g : Graph) (n : Nat) : List (Nat × Nat) := (g.shape n).entries

def set (g : Graph) (n : Nat) (s : Shape) : Graph :=
  { g with shapes := g.shapes.setIfInBounds n s }

def push (g : Graph) (s : Shape) : Graph := { g with shapes := g.shapes.push s }

mutual
/-- Takes in a node and its parts; the node's number comes first. -/
def add : Node → Graph → Nat × Graph
  | .scalar t s, g => (g.shapes.size, g.push (.scalar t (.text s)))
  | .halves t codes, g => (g.shapes.size, g.push (.scalar t (.halves codes)))
  | .sequence t items, g =>
    let (ids, g') := addItems items (g.push (.sequence t []))
    (g.shapes.size, g'.set g.shapes.size (.sequence t ids))
  | .mapping t entries, g =>
    let (ids, g') := addEntries entries (g.push (.mapping t []))
    (g.shapes.size, g'.set g.shapes.size (.mapping t ids))
  | .named name n, g => add n { g with names := (name, g.shapes.size) :: g.names }
  | .alias name, g => ((Pairs.get? name g.names).getD 0, g)
def addItems : List Node → Graph → List Nat × Graph
  | [], g => ([], g)
  | n :: rest, g =>
    let (id, g) := add n g
    let (ids, g) := addItems rest g
    (id :: ids, g)
def addEntries : List (Node × Node) → Graph → List (Nat × Nat) × Graph
  | [], g => ([], g)
  | (k, v) :: rest, g =>
    let (key, g) := add k g
    let (value, g) := add v g
    let (ids, g) := addEntries rest g
    ((key, value) :: ids, g)
end

/-- What the scalar at a number holds, or the scalar under the value key of a mapping. A chain of
value keys that is longer than there are nodes leads back to itself. -/
def content (g : Graph) : Nat → Nat → Except LoadError Content
  | 0, _ => .error .escapeTooLarge
  | fuel + 1, n => match g.shape n with
    | .scalar _ c => .ok c
    | .sequence _ _ => .error .malformed
    | .mapping _ entries => match entries.find? fun e => g.tag e.1 == .scalar .value with
      | some e => g.content fuel e.2
      | none => .error .malformed

end Graph

end RouteBook.Yaml
