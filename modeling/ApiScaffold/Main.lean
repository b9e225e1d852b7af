import ApiScaffold.CommandLine.Run
import ApiScaffold.FileTree.Change
import Std.Time.Format

/-! The command line program. It works on a copy of the directory that a command is about, then
writes the changes. It starts no programs: to a command each of them is one that may not be run. -/
namespace ApiScaffold.Main

def spelling (l : Location) : String :=
  (Path.mk .root l).text

/-- Copies a directory and all below it into a tree. Links are left out. -/
partial def copy (t : FileTree) (l : Location) : IO FileTree := do
  let mut t := (t.makeDirectoryAt l).toOption.getD t
  for entry in ← ((← IO.currentDir) / spelling l).readDir do
    let below := l ++ [entry.fileName]
    match (← entry.path.symlinkMetadata).type with
    | .dir => t ← copy t below
    | .file => t := (t.writeAt below (← IO.FS.readBinFile (spelling below))).toOption.getD t
    | _ => pure ()
  return t

/-- Adds what stands on the way to a place: directories, as far as they exist, or a file
that ends it. -/
def copyWay (t : FileTree) (l : Location) : IO FileTree :=
  ((List.range (l.length + 1)).map l.take).foldlM (fun t l => do
    let there := (← IO.currentDir) / spelling l
    if ← there.isDir then return (t.makeDirectoryAt l).toOption.getD t
    if ← there.pathExists then return (t.writeAt l (← IO.FS.readBinFile there)).toOption.getD t
    return t) t

def apply : FileTree.Change → IO Unit
  | .removed l .directory => IO.FS.removeDir (spelling l)
  | .removed l (.file _) => IO.FS.removeFile (spelling l)
  | .put l .directory => IO.FS.createDir (spelling l)
  | .put l (.file content) => IO.FS.writeBinFile (spelling l) content

/-- The local time; the first second of the calendar where it cannot be told. -/
def now : IO LocalTime := do
  try
    let t ← Std.Time.PlainDateTime.now
    return ⟨t.year.toInt.toNat, t.month.val.toNat, t.day.val.toNat, t.hour.val.toNat,
      t.minute.val.toNat, t.second.val.toNat⟩
  catch _ => return ⟨1, 1, 1, 0, 0, 0⟩

/-- The workspace for a command line: what lies below the directory that it names. -/
def workspace (args : List String) : IO Workspace := do
  let here := (Path.ofString (← IO.currentDir).toString).names
  let mut tree ← copyWay ∅ here
  if let .ok command := CommandLine.Command.read args then
    let about := ((Path.ofString (command.directory.getD ".")).absolute here).names
    tree ← copyWay tree about
    if tree.get? about = some .directory then tree ← copy tree about
  let refused : Program.Response := ⟨[], .notStarted ⟨1, "Operation not permitted", none⟩⟩
  return {
    tree, place := here, cargo := ← IO.getEnv "PRUSTBOWO_CARGO", clock := ← now
    script := List.replicate 8 refused, started := [], journal := [] }

end ApiScaffold.Main

open ApiScaffold in
def main (args : List String) : IO UInt32 := do
  let before ← Main.workspace args
  let (result, after) := CommandLine.run args before
  let (gone, made) := (before.tree.changes after.tree).partition fun
    | .removed _ _ => true
    | .put _ _ => false
  gone.reverse.forM Main.apply
  made.forM Main.apply
  match result with
  | .ok report =>
    IO.print report.output
    IO.eprint report.errors
    return report.status.toUInt32
  | .error failure =>
    IO.eprintln failure.message
    return 1
