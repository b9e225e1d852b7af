import ApiScaffold.Settings.Load
import ApiScaffold.Workspace.Directories

/-! Migrations: directories named for a time and a purpose, each with a file for either
direction. -/
namespace ApiScaffold.Migration

def upText : String := "-- Write your up migration here\n"

def downText : String := "-- Write your down migration here\n"

def directoryName (name : String) (time : LocalTime) : String :=
  time.stamp ++ "_" ++ name

/-- Makes the directory of a migration and its two files, over files of an earlier one. -/
def makePair (directory : Path) : Work Path := do
  Work.ensureDirectory directory
  Work.writeText (directory / "up.sql") upText
  Work.writeText (directory / "down.sql") downText
  Work.note .debug .migrations s!"Created migration {directory}"
  return directory

def create (migrations : Path) (name : String) (time : Option LocalTime) : Work Path := do
  if name = "" then throw (.empty .migrationName)
  let time := time.getD (← get).clock
  makePair (migrations / directoryName name time)

def tableName (domain : String) : String :=
  s!"create_{domain}_table"

def createAll (migrations : Path) (domains : List String) (time : Option LocalTime) :
    Work (List Path) :=
  domains.mapM fun domain => create migrations (tableName domain) time

/-- Makes the migration of the given name, or one for the table of each domain below a directory. -/
def generateIn (migrations domainRoot : Path) (name : Option String) (time : Option LocalTime) :
    Work (List Path) := do
  Work.ensureDirectory migrations
  match name with
  | some name => return [← create migrations name time]
  | none => createAll migrations (← Work.subdirectories domainRoot) time

def generate (project : Path) (name : Option String) (given : Option Settings)
    (time : Option LocalTime) : Work (List Path) := do
  let project ← Work.absolute project
  let settings ← Settings.orLoad given project
  generateIn (settings.migrations project) (settings.domainRoot project) name time

end ApiScaffold.Migration
