import ApiScaffold.CommandLine.Command
import ApiScaffold.Domain
import ApiScaffold.Migration
import ApiScaffold.Project

/-! Running commands, and reporting what came of them. -/
namespace ApiScaffold.CommandLine
open Text (ofLines)

/-- What a run leaves to the caller: a status, and texts for the two output channels. -/
structure Report where
  status : Nat
  output : String
  errors : String
  deriving DecidableEq, Repr

def Task.perform (task : Task) (directory : Path) : Work (List String) :=
  match task with
  | .createProject name => do
    let made ← Project.create name directory Template.project true
    return [s!"  Created project: {made.path}", s!"  Crate: {made.crate}",
      s!"  Files: {made.files}"] ++
      if made.git then [] else ["  (git repository not initialized)"]
  | .createDomain name => do
    let made ← Domain.create name directory Template.domain none
    return [s!"  Created domain: {made.path}", s!"  Routes registered in {made.routeFile}"] ++
      if made.moduleAdded then [] else [s!"  Module '{name}' was already declared"]
  | .createDocs => do
    match ← Toolchain.exportDocs directory none with
    | none => return ["  OpenAPI export failed; no docs written"]
    | some file => return [s!"  Wrote {file}"]
  | .generateMigrations name => do
    match ← Migration.generate directory name none none with
    | [] => return ["  No domains found; no migrations generated."]
    | made =>
      return s!"  Generated {made.length} migration(s):" :: made.map fun p => s!"    - {p.name}"
  | .runMigrations => do
    match ← Toolchain.runMigrations directory none with
    | .primary => return ["  Migrations applied via project migrate bin"]
    | .fallback => return ["  Migrations applied via diesel CLI"]
    | .degraded => return ["  WARNING: migrations not applied (no working migration runner)"]
  | .runDevelopment => do
    Toolchain.runDevelopment directory none
    return []
  | .runProduction => do
    if ← Toolchain.runProduction directory none then return []
    return ["  Release build finished but no server binary was found"]
  | .build => do
    Toolchain.build directory none
    return []

/-- Refuses a name that a task refuses before it turns to its directory. -/
def Task.checkName : Task → Work Unit
  | .createProject name => Project.checkName name
  | .createDomain name => Domain.checkName name
  | _ => pure ()

def Command.perform (c : Command) : Work (List String) := do
  match c.directory with
  | some directory => c.task.perform (.ofString directory)
  | none =>
    c.task.checkName
    throw .noDirectory

/-- The lines about a failure: what failed and why, then the errors behind it. -/
def failureLines (task : Task) (f : Failure) : List String :=
  s!"ERROR: {task.words.1} {task.words.2} failed: {f.message}" :: f.causes.map fun e =>
    s!"  caused by: {e.message}"

/-- Runs a command in a workspace. The errors channel takes the journal of the run, then a failure
that was foreseen. Any other failure is all that is left of the run. -/
def Command.run (c : Command) (w : Workspace) : Except Failure Report × Workspace :=
  let told (after : Workspace) :=
    Journal.lines (if c.verbose then .debug else .warning) (after.journal.drop w.journal.length)
  match c.perform w with
  | .ok lines after => (.ok ⟨0, ofLines lines, ofLines (told after)⟩, after)
  | .error f after =>
    (if f.isForeseen then .ok ⟨1, "", ofLines (told after ++ failureLines c.task f)⟩
      else .error f, after)

def run (args : List String) (w : Workspace) : Except Failure Report × Workspace :=
  match Command.read args with
  | .error (.help level) => (.ok ⟨0, level.helpText, ""⟩, w)
  | .error (.misuse level message) =>
    (.ok ⟨2, "", level.usage ++ s!"{level.program}: error: {message}\n"⟩, w)
  | .ok command => command.run w

end ApiScaffold.CommandLine
