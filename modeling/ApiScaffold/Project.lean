import ApiScaffold.Placeholder
import ApiScaffold.Template.Project
import ApiScaffold.Toolchain

/-! Creating projects. -/
namespace ApiScaffold.Project

/-- Characters that a name cannot have, in order: it is written between single quotes and
names a directory. -/
def unsupported : List Char :=
  ['\x00', '\n', '\r', '\'', '/', '\\']

def unsupportedIn (name : String) : List Char :=
  unsupported.filter (· ∈ name.toList)

/-- The name as an identifier of the build tool, without dashes. -/
def crateIdentifier (name : String) : String :=
  String.ofList (name.toList.map fun c => if c = '-' then '_' else c)

def nameToken : String := "__PROJECT_NAME__"

def crateToken : String := "__CRATE_IDENT__"

structure Created where
  path : Path
  crate : String
  files : Nat
  git : Bool
  deriving DecidableEq, Repr

def checkName (name : String) : Work Unit := do
  if name = "" then throw (.empty .projectName)
  let found := unsupportedIn name
  if found ≠ [] then throw (.unsupportedName name found)

/-- Writes a project from a template into a new directory, and puts it under version
control if asked to. -/
def create (name : String) (parent : Path) (template : Template) (git : Bool) : Work Created := do
  checkName name
  let directory := parent / name
  if ← Work.fileExists directory then throw (.targetExists directory)
  Work.makeNewDirectory directory
  let files ← template.extract directory
  let crate := crateIdentifier name
  discard (Placeholder.replaceBelow directory nameToken name)
  discard (Placeholder.replaceBelow directory crateToken crate)
  let git ← if git then Toolchain.initGit directory (some { name, crate }) else pure false
  Work.note .info .project s!"Created project {directory} ({files.length} files)"
  return ⟨directory, crate, files.length, git⟩

end ApiScaffold.Project
