/-! Paths by their components. Empty components and single dots are dropped; a double dot is kept,
since where it leads depends on the tree. -/
namespace RouteBook

structure Path where
  /-- The slashes that an absolute path starts with. -/
  root : String := ""
  parts : List String := []
deriving Repr, DecidableEq

namespace Path

/-- The slashes at the head of a text that count: exactly two are kept, else one. -/
def rootOf (s : List Char) : String :=
  match (s.takeWhile (· == '/')).length with
  | 0 => ""
  | 2 => "//"
  | _ => "/"

def components (s : List Char) : List String :=
  ((s.splitOn '/').filter fun p => p != [] && p != ['.']).map String.ofList

def ofString (s : String) : Path := ⟨rootOf s.toList, components s.toList⟩

def toString (p : Path) : String :=
  if p.root == "" && p.parts.isEmpty then "." else p.root ++ "/".intercalate p.parts

/-- The last component; empty where there is none. -/
def name (p : Path) : String := p.parts.getLastD ""

def parent (p : Path) : Path := { p with parts := p.parts.dropLast }

def append (p : Path) (parts : List String) : Path := { p with parts := p.parts ++ parts }

end Path

end RouteBook
