import ApiScaffold.Settings.Load
import ApiScaffold.Workspace.Programs

/-! The toolchain of a project: version control, builds, servers, migrations and docs. -/
namespace ApiScaffold.Toolchain

/-- The path of a project from the root, and its settings. -/
def openProject (project : Path) (given : Option Settings) : Work (Path × Settings) := do
  let project ← Work.absolute project
  return (project, ← Settings.orLoad given project)

def firstCommitMessage : String := "chore: init from prustbowo"

/-- Runs a step of version control. A failure is noted and does not stop what follows. -/
def versionStep (project : Path) (command : List String) : Work Bool :=
  Work.orOnProgramFailure (do Work.run command project.text true; return true) fun failure => do
    Work.note .warning .toolchain s!"git step skipped: {failure.message}"
    return false

/-- Puts a project under version control. Tells whether every step succeeded. -/
def initGit (project : Path) (given : Option Settings) : Work Bool := do
  let (project, settings) ← openProject project given
  let git := settings.tools.git
  let started ← versionStep project [git, "init"]
  let added ← versionStep project [git, "add", "."]
  let committed ← versionStep project [git, "commit", "-m", firstCommitMessage]
  return started && added && committed

def runDevelopment (project : Path) (given : Option Settings) : Work Unit := do
  let (project, settings) ← openProject project given
  Work.run [settings.tools.cargo, "run", "--bin", settings.tools.server] project.text false

def build (project : Path) (given : Option Settings) : Work Unit := do
  let (project, settings) ← openProject project given
  Work.run [settings.tools.cargo, "build"] project.text false

def releaseServer (settings : Settings) (project : Path) : Path :=
  project / "target" / "release" / settings.tools.server

/-- Runs a server in a directory. Tells whether there is one. -/
def serve (server : Path) (directory : String) : Work Bool := do
  if !(← Work.fileExists server) then
    Work.note .warning .toolchain s!"Release binary not found: {server}"
    return false
  Work.run [server.text] directory false
  return true

/-- Builds for release and runs the server, if the build left one. -/
def runProduction (project : Path) (given : Option Settings) : Work Bool := do
  let (project, settings) ← openProject project given
  Work.run [settings.tools.cargo, "build", "--release"] project.text false
  serve (releaseServer settings project) project.text

inductive MigrationOutcome where
  | primary
  | fallback
  | degraded
  deriving DecidableEq, Repr

namespace MigrationOutcome

def text : MigrationOutcome → String
  | .primary => "primary"
  | .fallback => "fallback"
  | .degraded => "degraded"

def applied (o : MigrationOutcome) : Bool :=
  o ≠ .degraded

end MigrationOutcome

/-- Applies migrations with the project's own program, or else with the migration tool. -/
def runMigrations (project : Path) (given : Option Settings) : Work MigrationOutcome := do
  let (project, settings) ← openProject project given
  let byTool : Work MigrationOutcome :=
    Work.orOnProgramFailure
      (do Work.run [settings.tools.diesel, "migration", "run"] project.text false; return .fallback)
      fun failure => do
        Work.note .warning .toolchain s!"diesel CLI fallback failed: {failure.message}"
        return .degraded
  Work.orOnProgramFailure
    (do
      Work.run [settings.tools.cargo, "run", "--bin", settings.tools.migrate] project.text false
      return .primary)
    fun failure => do
      Work.note .warning .toolchain
        s!"failed to run migrations via project migrate bin: {failure.message}"
      byTool

/-- Writes what the export program prints to the docs file. If the program fails, no file is
written. -/
def exportDocs (project : Path) (given : Option Settings) : Work (Option Path) := do
  let (project, settings) ← openProject project given
  let file := settings.docsFile project
  Work.ensureDirectory file.parent
  let docs : Option String ←
    Work.orOnProgramFailure (some <$> Work.read [settings.tools.cargo, "run", "--bin",
      settings.tools.exportDocs] project.text) fun failure => do
        let program := settings.tools.exportDocs
        Work.note .warning .toolchain
          s!"failed to export OpenAPI via project {program} bin: {failure.message}"
        return none
  match docs with
  | none => return none
  | some text =>
    Work.writeText file text
    return some file

end ApiScaffold.Toolchain
