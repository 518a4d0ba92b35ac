import RouteBook.Command.Program
import Std.Time.DateTime.Timestamp

/-! The command line. It works on the files below the current directory and writes what a run has
changed. -/
namespace RouteBook.Main

/-- Reads the tree below some directory entries. -/
partial def readTree (entries : Array IO.FS.DirEntry) : IO FileTree := do
  let below ← entries.toList.mapM fun e => do
    if ← e.path.isDir then return (e.fileName, ← readTree (← e.path.readDir))
    else return (e.fileName, .file (← IO.FS.readBinFile e.path).toList)
  return .dir below

def readFiles : IO FileSystem := do
  let here ← IO.currentDir
  let names := (Path.ofString here.toString).parts
  return ⟨(FileTree.dir []).insert (← readTree (← here.readDir)) names, names⟩

def writeChanges (before after : FileTree) : IO Unit :=
  (before.changes after).forM fun (names, data) =>
    let path := "/" ++ "/".intercalate names
    match data with
    | none => IO.FS.createDirAll path
    | some bytes => IO.FS.writeBinFile path ⟨bytes.toArray⟩

def currentTime : IO String := do
  let time ← Std.Time.Timestamp.now
  return (DateTime.ofUnixSeconds time.toSecondsSinceUnixEpoch.val.toNat).render

end RouteBook.Main

open RouteBook RouteBook.Main in
def main (args : List String) : IO UInt32 := do
  let fs ← readFiles
  let outcome := Command.run (← currentTime) args fs
  writeChanges fs.tree outcome.session.files.tree
  IO.print outcome.session.output
  IO.eprint outcome.session.errors
  match outcome.halt? with
  | some h => if h.isFault then IO.eprintln (repr h)
  | none => pure ()
  return outcome.exitCode.toUInt32
