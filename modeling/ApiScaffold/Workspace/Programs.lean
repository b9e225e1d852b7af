import ApiScaffold.Workspace.Directories

/-! Running external programs. -/
namespace ApiScaffold

/-- Puts a file at a path, with the directories above it; leaves the tree as it is where
that cannot be. -/
def FileTree.deposit (t : FileTree) (place : Location) (p : Path)
    (content : ByteArray) : FileTree :=
  let l := Path.follow (if p.isAbsolute then [] else place) p.names
  let make (t : FileTree) (l : Location) : FileTree := (t.makeDirectoryAt l).toOption.getD t
  let t := ((List.range l.length).map l.take).foldl make t
  (t.writeAt l content).toOption.getD t

namespace Work

/-- Starts a program: it writes its files, then comes to its end. With NUL in a word
nothing is started. -/
def start (i : Program.Invocation) : Work Program.Outcome := do
  if i.hasNul then throw .nulInCommand
  modifyGet fun w =>
    let response := w.script.head?.getD .quiet
    (response.outcome, { w with
      started := w.started ++ [i]
      script := w.script.tail
      tree := response.writes.foldl (fun t (p, content) => t.deposit w.place p content) w.tree })

def reasonNotStarted (directory : String) (e : SystemError) : Work String := do
  if e.number = Refusal.missing.number then
    if ← isDirectory (.ofString directory) then return s!"program not found ({e.message})"
    return s!"working directory not found: {directory}"
  return s!"could not start ({e.message})"

/-- Runs a program that must end well, for its output. What it writes about errors is known
only if caught. -/
def execute (i : Program.Invocation) : Work String := do
  note .debug .programs ("Running " ++ " ".intercalate i.command ++ s!" in {i.directory}")
  match ← start i with
  | .notStarted e =>
    let reason ← during e (reasonNotStarted i.directory e)
    throw (.program ⟨i.command, none, "", reason⟩ (some e))
  | .exited 0 output _ => return if i.captured then output else ""
  | .exited status _ errors =>
    throw (.program ⟨i.command, some status, if i.captured then errors else "",
      Program.Failure.defaultReason⟩ none)

def run (command : List String) (directory : String) (captured : Bool) : Work Unit :=
  discard (execute ⟨command, directory, captured⟩)

def read (command : List String) (directory : String) : Work String :=
  execute ⟨command, directory, true⟩

/-- Works on in another way if a program failed; any other failure stands. -/
def orOnProgramFailure {α : Type} (work : Work α) (otherwise : Program.Failure → Work α) : Work α :=
  tryCatch work fun
    | .program failure _ => otherwise failure
    | f => throw f

end Work
end ApiScaffold
