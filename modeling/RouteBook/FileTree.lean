import RouteBook.Pairs
import RouteBook.Path

/-! Files and directories, and what may be done with them by path. -/
namespace RouteBook

inductive FileTree where
  | file (data : List UInt8)
  | dir (entries : List (String × FileTree))
deriving Repr, Inhabited

/-- Why a path cannot be used, as far as that follows from the tree and the path. Faults of the disk
and missing rights are not modelled. -/
inductive FileError where
  | missing
  | notDirectory
  | isDirectory
  | exists
  | nameTooLong
  /-- The path holds a null character. -/
  | badName
deriving Repr, DecidableEq

def FileError.message : FileError → String
  | missing => "No such file or directory"
  | notDirectory => "Not a directory"
  | isDirectory => "Is a directory"
  | .exists => "File exists"
  | nameTooLong => "File name too long"
  | badName => "embedded null byte"

def maxNameBytes : Nat := 255

def maxPathBytes : Nat := 4095

namespace FileTree

def isDir : FileTree → Bool
  | dir _ => true
  | file _ => false

def entries : FileTree → List (String × FileTree)
  | dir es => es
  | file _ => []

def child? (t : FileTree) (name : String) : Option FileTree := Pairs.get? name t.entries

def at? (t : FileTree) : List String → Option FileTree
  | [] => some t
  | n :: ns => match t.child? n with
    | some c => c.at? ns
    | none => none

/-- Puts something at the end of a row of names; directories on the way are made where needed. -/
def insert (t : FileTree) (value : FileTree) : List String → FileTree
  | [] => value
  | n :: ns => .dir (Pairs.put n (((t.child? n).getD (.dir [])).insert value ns) t.entries)

def erase (t : FileTree) : List String → FileTree
  | [] => t
  | [n] => match t with
    | dir es => .dir (Pairs.erase n es)
    | file data => .file data
  | n :: ns => match t, t.child? n with
    | dir es, some c => .dir (Pairs.put n (c.erase ns) es)
    | t, _ => t

mutual
/-- Everything below a directory, each with its names from there; directories without data. -/
def contents (above : List String) : FileTree → List (List String × Option (List UInt8))
  | file _ => []
  | dir es => entryContents above es
def entryContents (above : List String) :
    List (String × FileTree) → List (List String × Option (List UInt8))
  | [] => []
  | (n, .file data) :: rest => (above ++ [n], some data) :: entryContents above rest
  | (n, .dir es) :: rest =>
    (above ++ [n], none) :: contents (above ++ [n]) (.dir es) ++ entryContents above rest
end

def changes (before after : FileTree) : List (List String × Option (List UInt8)) :=
  (after.contents []).filter fun (names, data) =>
    match before.at? names, data with
    | some (.file old), some new => old != new
    | some (.dir _), none => false
    | _, _ => true

end FileTree

structure FileSystem where
  tree : FileTree
  cwd : List String := []

namespace FileSystem

def step (fs : FileSystem) (here : List String) (name : String) :
    Except FileError (List String) :=
  match fs.tree.at? here with
  | some (.dir es) =>
    if name == ".." then .ok here.dropLast
    else if maxNameBytes < name.utf8ByteSize then .error .nameTooLong
    else if Pairs.contains name es then .ok (here ++ [name])
    else .error .missing
  | some (.file _) => .error .notDirectory
  | none => .error .missing

def check (p : Path) : Except FileError Unit :=
  if p.parts.any fun s => s.toList.contains '\x00' then .error .badName
  else if maxPathBytes < p.toString.utf8ByteSize then .error .nameTooLong
  else .ok ()

def resolve (fs : FileSystem) (p : Path) : Except FileError (List String) := do
  check p
  p.parts.foldlM fs.step (if p.root == "" then fs.cwd else [])

def find (fs : FileSystem) (p : Path) : Except FileError FileTree := do
  match fs.tree.at? (← fs.resolve p) with
  | some t => return t
  | none => throw .missing

def exists? (fs : FileSystem) (p : Path) : Except FileError Bool :=
  match fs.find p with
  | .ok _ => .ok true
  | .error .nameTooLong => .error .nameTooLong
  | .error _ => .ok false

def read (fs : FileSystem) (p : Path) : Except FileError (List UInt8) := do
  match ← fs.find p with
  | .file data => return data
  | .dir _ => throw .isDirectory

def isDir (fs : FileSystem) (p : Path) : Bool :=
  match fs.find p with
  | .ok t => t.isDir
  | .error _ => false

def put (fs : FileSystem) (p : Path) (value : FileTree) : Except FileError FileSystem := do
  check p
  let here ← fs.resolve p.parent
  match fs.tree.at? here with
  | some (.dir _) =>
    if maxNameBytes < p.name.utf8ByteSize then throw .nameTooLong
    else return { fs with tree := fs.tree.insert value (here ++ [p.name]) }
  | _ => throw .notDirectory

def makeDir (fs : FileSystem) (p : Path) : Except FileError FileSystem := do
  match fs.find p with
  | .ok _ => throw .exists
  | .error .missing => fs.put p (.dir [])
  | .error e => throw e

def erase (fs : FileSystem) (p : Path) : FileSystem :=
  match fs.resolve p with
  | .ok names => { fs with tree := fs.tree.erase names }
  | .error _ => fs

def move (fs : FileSystem) (source target : Path) : Except FileError FileSystem := do
  let data ← fs.read source
  if fs.isDir target then throw .isDirectory
  return (← fs.put target (.file data)).erase source

end FileSystem

end RouteBook
