/-! Syntax trees of source text, with as much detail as the search for routes needs. Starts and
stops are byte offsets. -/
namespace RouteBook.Source

inductive Tree where
  /-- A call with a list of arguments. -/
  | call (start : Nat) (callee : Tree) (args : List Tree)
  /-- A property of an object, with the start of the property's name. -/
  | member (object : Tree) (nameStart : Nat) (name : String)
  | identifier (name : String)
  /-- A string literal and the text between its quotes. -/
  | string (start : Nat) (raw : String)
  /-- A template literal, the text between its quotes and the expressions in it. -/
  | template (start : Nat) (raw : String) (substitutions : List Tree)
  | comment (stop : Nat) (text : String)
  /-- Anything else, by its parts. -/
  | group (parts : List Tree)
deriving Repr, Inhabited

namespace Tree

/-- Something without parts. -/
def leaf : Tree := .group []

def children : Tree → List Tree
  | call _ callee args => callee :: args
  | member object _ _ => [object]
  | template _ _ substitutions => substitutions
  | group parts => parts
  | _ => []

mutual
def size : Tree → Nat
  | call _ callee args => callee.size + sizeAll args + 1
  | member object _ _ => object.size + 1
  | template _ _ substitutions => sizeAll substitutions + 1
  | group parts => sizeAll parts + 1
  | _ => 1
def sizeAll : List Tree → Nat
  | [] => 0
  | t :: ts => t.size + sizeAll ts
end

theorem sizeAll_append (ts us : List Tree) : sizeAll (ts ++ us) = sizeAll ts + sizeAll us := by
  induction ts with
  | nil => simp [sizeAll]
  | cons t ts ih => simp [sizeAll, ih, Nat.add_assoc]

theorem size_eq (t : Tree) : t.size = sizeAll t.children + 1 := by
  cases t <;> simp [size, children, sizeAll]

/-- The nodes met when a stack of trees is worked off: the top is taken, and its children are put
in its place. -/
def walk : List Tree → List Tree
  | [] => []
  | t :: stack => t :: walk (t.children ++ stack)
termination_by stack => sizeAll stack
decreasing_by simp only [sizeAll_append, sizeAll, size_eq t]; omega

def nodes (t : Tree) : List Tree := walk [t]

def withTypes (callee : Tree) (types : Option Tree) : Tree :=
  match types, callee with
  | none, t => t
  | some ts, .member object start name => .member (.group [object, ts]) start name
  | some ts, t => .group [t, ts]

def isComment : Tree → Bool
  | comment _ _ => true
  | _ => false

end Tree

end RouteBook.Source
