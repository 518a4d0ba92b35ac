import RouteBook.Glob

/-! Finding the route files of a project. -/
namespace RouteBook.RouteFiles

def defaultPattern : String := "**/routes/**/*.js"

/-- Directories whose files never count. -/
def ignoredDirs : List String := ["node_modules", "test", "tests"]

def isIgnored (shown : List String) : Bool := shown.dropLast.any ignoredDirs.contains

/-- The order of paths, component by component. -/
def before : List String → List String → Bool
  | [], _ => true
  | _ :: _, [] => false
  | a :: p, b :: q => if a = b then before p q else decide (a ≤ b)

def spotAt (fs : FileSystem) (names : List String) : Option Glob.Spot :=
  (fs.tree.at? names).map fun t =>
    ⟨[], t, (List.range names.length).reverse.filterMap fun k => fs.tree.at? (names.take k)⟩

/-- The files below a directory that a pattern leads to, in order, each by its components. -/
def below (g : Glob) (start : Glob.Spot) : Except FileError (List (List String)) := do
  let found ← g.run start
  let files := found.filter fun s => !s.tree.isDir && !isIgnored s.shown
  return (files.map (·.shown)).mergeSort before

def find (fs : FileSystem) (project : Path) (pattern : String) :
    Except GlobError (List Path) := do
  let g ← Glob.parse pattern
  match fs.resolve project with
  | .error .nameTooLong => throw (.file .nameTooLong)
  | .error _ => return []
  | .ok names =>
    match spotAt fs names with
    | none => return []
    | some start =>
      match below g start with
      | .ok found => return found.map project.append
      | .error e => throw (.file e)

end RouteBook.RouteFiles
