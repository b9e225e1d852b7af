import ApiScaffold.Placeholder
import ApiScaffold.Registration.ModuleList
import ApiScaffold.Registration.Route
import ApiScaffold.Settings.Load
import ApiScaffold.Template.Domain

/-! Creating the domains of a project. -/
namespace ApiScaffold.Domain

def nameToken : String := "__DOMAIN_NAME__"

structure Created where
  path : Path
  routeFile : Path
  moduleAdded : Bool
  deriving DecidableEq, Repr

def checkName (name : String) : Work Unit := do
  if name = "" then throw (.empty .domainName)

def registrations (name : String) (directory routeFile list : Path) (markers : Settings.Markers) :
    Work Created := do
  discard (Route.registerIn routeFile name markers.imports markers.routes)
  let added ← ModuleList.registerIn list name
  Work.note .info .project s!"Created domain {directory}"
  return ⟨directory, routeFile, added⟩

/-- Writes a domain from a template, then makes its registrations. A failure keeps the
steps before. -/
def create (name : String) (project : Path) (template : Template) (given : Option Settings) :
    Work Created := do
  checkName name
  let project ← Work.absolute project
  let settings ← Settings.orLoad given project
  let directory := settings.domainRoot project / name
  Work.ensureDirectory directory
  discard (template.extract directory)
  discard (Placeholder.replaceBelow directory nameToken name)
  registrations name directory (settings.routeFile project)
    (settings.moduleList project) settings.markers

/-- The domains of a project: the directories in the domain root, in order. -/
def names (root : Path) : Work (List String) :=
  Work.subdirectories root

end ApiScaffold.Domain
