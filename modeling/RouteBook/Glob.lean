import RouteBook.FileTree

/-! Patterns for paths. A component of two stars stands for any number of directories; in other
components a star stands for any characters, a question mark for one and brackets for one of
several. -/
namespace RouteBook

inductive NamePart where
  | star
  | any
  | char (c : Char)
  | oneOf (negated : Bool) (ranges : List (Char × Char))
deriving Repr, DecidableEq

namespace NamePart

def admits (c : Char) : NamePart → Bool
  | star => true
  | any => true
  | char d => c == d
  | oneOf negated ranges => negated != ranges.any fun (lo, hi) => lo ≤ c && c ≤ hi

def fits : List NamePart → List Char → Bool
  | [], s => s.isEmpty
  | .star :: ps, [] => fits ps []
  | .star :: ps, c :: s => fits ps (c :: s) || fits (.star :: ps) s
  | p :: ps, c :: s => p.admits c && fits ps s
  | _ :: _, [] => false
termination_by ps s => ps.length + s.length

/-- The text between brackets cut at the hyphens that make ranges: neither the first character nor
one of the two after such a hyphen can be one. -/
def chunks : Nat → List Char → List Char → List (List Char)
  | _, done, [] => [done.reverse]
  | skip, done, c :: s =>
    if skip = 0 && c == '-' then done.reverse :: chunks 2 [] s
    else chunks (skip - 1) (c :: done) s

def closeChunks : List (List Char) → List (List Char)
  | [c, []] => [c ++ ['-']]
  | c :: cs => c :: closeChunks cs
  | [] => []

def dropEmptyRanges : List (List Char) → List (List Char)
  | [] => []
  | c :: cs =>
    match dropEmptyRanges cs with
    | [] => [c]
    | d :: ds =>
      match c.getLast?, d with
      | some hi, lo :: rest => if lo < hi then (c.dropLast ++ rest) :: ds else c :: d :: ds
      | _, _ => c :: d :: ds

/-- The ranges of some chunks, the first of which stands after a hyphen if there is a lower end. -/
def rangesOf (lower : Option Char) : List (List Char) → List (Char × Char)
  | [] => match lower with
    | some lo => [(lo, lo)]
    | none => []
  | chunk :: rest =>
    let (joined, chunk) := match lower, chunk with
      | some lo, hi :: more => ([(lo, hi)], more)
      | some lo, [] => ([(lo, lo)], [])
      | none, chunk => ([], chunk)
    match rest, chunk.getLast? with
    | _ :: _, some lo =>
      joined ++ chunk.dropLast.map (fun c => (c, c)) ++ rangesOf (some lo) rest
    | _, _ => joined ++ chunk.map (fun c => (c, c)) ++ rangesOf none rest

def ofBrackets (s : List Char) : NamePart :=
  match s with
  | '!' :: t => oneOf true (rangesOf none (pieces t))
  | _ => oneOf false (rangesOf none (pieces s))
where
  pieces (s : List Char) : List (List Char) := dropEmptyRanges (closeChunks (chunks 1 [] s))

/-- The text between brackets and what follows them; a closing bracket in first place is text. -/
def bracketed? (s : List Char) : Option (List Char × List Char) :=
  let lead := match s with
    | '!' :: ']' :: _ => 2
    | '!' :: _ => 1
    | ']' :: _ => 1
    | _ => 0
  let body := (s.drop lead).takeWhile (· != ']')
  match s.drop (lead + body.length) with
  | ']' :: rest => some (s.take lead ++ body, rest)
  | _ => none

/-- The parts of a name pattern; `fuel` is at least its length. -/
def parse : Nat → List Char → List NamePart
  | 0, _ => []
  | _, [] => []
  | fuel + 1, c :: s =>
    match c with
    | '*' => star :: parse fuel s
    | '?' => any :: parse fuel s
    | '[' => match bracketed? s with
      | some (body, rest) => ofBrackets body :: parse fuel rest
      | none => char '[' :: parse fuel s
    | c => char c :: parse fuel s

end NamePart

inductive GlobStep where
  | deep
  | up
  | exact (name : String)
  | wild (name : List NamePart)
deriving Repr, DecidableEq

inductive GlobError where
  | empty
  /-- The pattern has no components. -/
  | noSteps
  | absolute
  /-- Two stars stand beside something else. -/
  | misplacedDeep
  | file (e : FileError)
deriving Repr, DecidableEq

def GlobError.message : GlobError → String
  | empty => "Unacceptable pattern: ''"
  | noSteps => "tuple index out of range"
  | absolute => "Non-relative patterns are unsupported"
  | misplacedDeep => "Invalid pattern: '**' can only be an entire path component"
  | file e => e.message

structure Glob where
  steps : List GlobStep
  /-- Whether only directories are meant. -/
  onlyDirs : Bool := false
deriving Repr, DecidableEq

namespace Glob

def hasPair : List Char → Bool
  | '*' :: '*' :: _ => true
  | _ :: s => hasPair s
  | [] => false

def stepOf (part : String) : Except GlobError GlobStep :=
  let s := part.toList
  if part == "**" then .ok .deep
  else if part == ".." then .ok .up
  else if hasPair s then .error .misplacedDeep
  else if s.any fun c => c == '*' || c == '?' || c == '[' then
    .ok (.wild (NamePart.parse s.length s))
  else .ok (.exact part)

def parse (pattern : String) : Except GlobError Glob := do
  if pattern == "" then throw .empty
  let p := Path.ofString pattern
  if p.root != "" then throw .absolute
  let onlyDirs := pattern.toList.getLast? == some '/'
  if p.parts.isEmpty && !onlyDirs then throw .noSteps
  return ⟨← p.parts.mapM stepOf, onlyDirs⟩

/-- A place that has been reached: the components on the way to it, what is there, and what is
above. -/
structure Spot where
  shown : List String := []
  tree : FileTree
  above : List FileTree := []

namespace Spot

def child (s : Spot) (name : String) (tree : FileTree) : Spot :=
  ⟨s.shown ++ [name], tree, s.tree :: s.above⟩

def children (s : Spot) : List (String × Spot) :=
  s.tree.entries.map fun (n, t) => (n, s.child n t)

/-- One directory up; the top is above itself. -/
def up (s : Spot) : Spot :=
  match s.above with
  | t :: ts => ⟨s.shown ++ [".."], t, ts⟩
  | [] => ⟨s.shown ++ [".."], s.tree, []⟩

end Spot

mutual
def dirsFrom (shown : List String) (above : List FileTree) : FileTree → List Spot
  | .file _ => []
  | .dir es => ⟨shown, .dir es, above⟩ :: dirsBelow shown (.dir es :: above) es
def dirsBelow (shown : List String) (above : List FileTree) :
    List (String × FileTree) → List Spot
  | [] => []
  | (n, t) :: rest => dirsFrom (shown ++ [n]) above t ++ dirsBelow shown above rest
end

def distinct : List Spot → List Spot
  | [] => []
  | s :: rest => s :: (distinct rest).filter fun r => r.shown != s.shown

/-- The places that the components of a pattern lead to; all but the last must be directories. -/
def select (onlyDirs : Bool) : List GlobStep → Spot → Except FileError (List Spot)
  | [], s => .ok [s]
  | step :: rest, s =>
    let admits (t : FileTree) : Bool := (rest.isEmpty && !onlyDirs) || t.isDir
    match step with
    | .deep => do
      let found ← (dirsFrom s.shown s.above s.tree).mapM (select onlyDirs rest)
      return distinct found.flatten
    | .up => select onlyDirs rest s.up
    | .exact name =>
      if maxNameBytes < name.utf8ByteSize then .error .nameTooLong
      else match s.tree.child? name with
        | some t => if admits t then select onlyDirs rest (s.child name t) else .ok []
        | none => .ok []
    | .wild name => do
      let hits := s.children.filter fun (n, c) => admits c.tree && NamePart.fits name n.toList
      let found ← hits.mapM fun (_, c) => select onlyDirs rest c
      return found.flatten

def run (g : Glob) (start : Spot) : Except FileError (List Spot) :=
  if start.tree.isDir then select g.onlyDirs g.steps start else .ok []

end Glob

end RouteBook
