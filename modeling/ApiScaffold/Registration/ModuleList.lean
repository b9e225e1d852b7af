import ApiScaffold.Text.Blank
import ApiScaffold.Workspace.Basic

/-! Module lists: texts with one declaration a line. -/
namespace ApiScaffold.ModuleList

def declaration (name : String) : List Char :=
  "pub mod ".toList ++ name.toList ++ [';']

/-- Whether a line, apart from the blanks at its ends, declares a module. -/
def declares (name : String) (s : List Char) : Bool :=
  (Text.lines s).any fun line => Text.strip line = declaration name

def append (name : String) (s : List Char) : List Char :=
  let s := if s = [] ∨ s.getLast? = some '\n' then s else s ++ ['\n']
  s ++ declaration name ++ ['\n']

/-- The text of a module list; one that is missing or no text counts as empty. -/
def textOrEmpty (file : Path) : Work String :=
  tryCatch (Work.readText file) fun
    | .system _ _ | .notText _ => return ""
    | f => throw f

/-- Declares a module in a file unless it is declared there. Tells whether the file was written. -/
def registerIn (file : Path) (name : String) : Work Bool := do
  let s ← textOrEmpty file
  if declares name s.toList then
    Work.note .debug .registration s!"{file} already declares '{name}'"
    return false
  Work.writeText file (String.ofList (append name s.toList))
  return true

end ApiScaffold.ModuleList
