import RouteBook.Yaml.Scalar

/-! The nodes of a YAML document, their types told but their values not yet read. -/
namespace RouteBook.Yaml

inductive Tag where
  | scalar (type : ScalarTag)
  | binary
  | seq
  | map
  | set
  | pairs
  | omap
  /-- A type that has no values here. -/
  | foreign
deriving Repr, DecidableEq

inductive Node where
  | scalar (type : Tag) (text : String)
  /-- A scalar with halves of surrogate pairs in it. -/
  | halves (type : Tag) (codes : List Nat)
  | sequence (type : Tag) (items : List Node)
  | mapping (type : Tag) (entries : List (Node × Node))
  /-- A node that other places refer to. -/
  | named (name : String) (node : Node)
  /-- A reference to the node with a name. -/
  | alias (name : String)
deriving Repr, Inhabited

namespace Tag

def standard : String := "tag:yaml.org,2002:"

def names : List (String × Tag) :=
  [("str", .scalar .str), ("null", .scalar .null), ("bool", .scalar .bool),
   ("int", .scalar .int), ("float", .scalar .float), ("timestamp", .scalar .timestamp),
   ("merge", .scalar .merge), ("value", .scalar .value), ("yaml", .scalar .yaml),
   ("binary", .binary), ("seq", .seq), ("map", .map), ("set", .set), ("pairs", .pairs),
   ("omap", .omap)]

def ofAddress (address : String) : Tag :=
  match names.find? fun e => standard ++ e.1 == address with
  | some (_, t) => t
  | none => .foreign

end Tag

namespace Node

def empty : Node := .scalar (.scalar .null) ""

end Node

end RouteBook.Yaml
