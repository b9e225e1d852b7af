import ApiScaffold.Calendar
import ApiScaffold.Failure
import ApiScaffold.Journal

/-! Workspaces: the file tree and all else that an operation works on, and operations that may
fail. -/
namespace ApiScaffold

structure Workspace where
  tree : FileTree
  /-- Where relative paths start. -/
  place : Location
  /-- The environment's choice of a build tool. -/
  cargo : Option String
  clock : LocalTime
  /-- The answers of the programs still to be started. -/
  script : List Program.Response
  /-- The programs started so far. -/
  started : List Program.Invocation
  journal : List Journal.Entry

/-- Work on a workspace. What was done before a failure stays done. -/
abbrev Work := EStateM Failure Workspace

namespace Work

def note (level : Journal.Level) (topic : Journal.Topic) (text : String) : Work Unit :=
  modify fun w => { w with journal := w.journal ++ [⟨level, topic, text⟩] }

def refuse {α : Type} (r : Refusal) (p : Path) : Work α :=
  throw (.system (r.error p) [])

/-- Looks at the tree along a path, which must have no NUL. -/
def look {α : Type} (p : Path) (f : FileTree → Location → Path → Except Refusal α) : Work α := do
  if p.hasNul then throw .nulInPath
  let w ← get
  match f w.tree w.place p with
  | .ok a => pure a
  | .error r => refuse r p

/-- What is at a path. A path with NUL leads nowhere. -/
def status (p : Path) : Work (Option Node) :=
  if p.hasNul then pure none else look p FileTree.status

def fileExists (p : Path) : Work Bool :=
  return (← status p).isSome

def isDirectory (p : Path) : Work Bool :=
  return (← status p) = some .directory

def isFile (p : Path) : Work Bool :=
  return match ← status p with
    | some (.file _) => true
    | _ => false

def readBytes (p : Path) : Work ByteArray :=
  look p FileTree.read

def readText (p : Path) : Work String := do
  match Text.decode (← readBytes p) with
  | .ok s => pure s
  | .error fault => throw (.notText fault)

def setTree (t : FileTree) : Work Unit :=
  modify fun w => { w with tree := t }

def writeBytes (p : Path) (content : ByteArray) : Work Unit := do
  setTree (← look p fun t place p => t.write place p content)

def writeText (p : Path) (s : String) : Work Unit :=
  writeBytes p (Text.encode s)

def absolute (p : Path) : Work Path := do
  if p.hasNul then throw .nulInPath
  return p.absolute (← get).place

end Work
end ApiScaffold
