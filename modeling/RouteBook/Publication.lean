import RouteBook.FileTree
import RouteBook.Value.Calendar

/-! Putting finished documents into a directory. They are first written into a new directory
beside it and moved only when all of them are there. -/
namespace RouteBook

/-- An action on files. It may fail, and what it did until then stays done. -/
abbrev FileAction := ExceptT FileError (StateM FileSystem)

namespace FileAction

def change (f : FileSystem → Except FileError FileSystem) : FileAction Unit := fun fs =>
  match f fs with
  | .ok fs => (.ok (), fs)
  | .error e => (.error e, fs)

def makeDir (p : Path) : FileAction Unit := fun fs =>
  match fs.makeDir p with
  | .ok fs => (.ok (), fs)
  | .error e => (if fs.isDir p then .ok () else .error e, fs)

/-- Makes a directory and those above it. `depth` bounds their number. -/
def makeDirsWithin : Nat → Path → FileAction Unit
  | 0, p => makeDir p
  | depth + 1, p => fun fs =>
    match fs.makeDir p with
    | .error .missing => (do makeDirsWithin depth p.parent; makeDir p : FileAction Unit) fs
    | _ => makeDir p fs

def makeDirs (p : Path) : FileAction Unit := makeDirsWithin p.parts.length p

end FileAction

namespace Publication
open FileAction

abbrev Texts := List (String × String)

def stagingName (output : Path) (number : Nat) : String :=
  "." ++ output.name ++ "-" ++ Date.padded 8 number

def stagingPath (fs : FileSystem) (output : Path) : Path :=
  let taken := match fs.find output.parent with
    | .ok t => Pairs.keys t.entries
    | .error _ => []
  let names := (List.range (taken.length + 1)).map (stagingName output)
  output.parent.append [(names.find? (!taken.contains ·)).getD ""]

def write (texts : Texts) (staging : Path) : FileAction Unit :=
  texts.forM fun (name, text) =>
    change (·.put (staging.append [name]) (.file text.toUTF8.toList))

def moveIn (texts : Texts) (staging output : Path) : FileAction Unit :=
  texts.forM fun (name, _) => change (·.move (staging.append [name]) (output.append [name]))

def fill (texts : Texts) (staging output : Path) : FileAction Unit := do
  write texts staging
  makeDirs output
  moveIn texts staging output

/-- Runs an action and takes a directory away afterwards, whatever became of the action. -/
def finallyErase (p : Path) (act : FileAction Unit) : FileAction Unit := fun fs =>
  let (r, fs) := act fs
  (r, fs.erase p)

def publish (texts : Texts) (output : Path) : FileAction Unit := do
  makeDirs output.parent
  let staging := stagingPath (← get) output
  change (·.makeDir staging)
  finallyErase staging (fill texts staging output)

def paths (texts : Texts) (output : Path) : List Path := texts.map fun t => output.append [t.1]

end Publication

end RouteBook
