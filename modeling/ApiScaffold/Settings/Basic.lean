import ApiScaffold.Path

/-! Settings of a project, with their defaults. -/
namespace ApiScaffold

/-- Where the parts of a project are, from its directory. -/
structure Settings.Layout where
  domainRoot : String := "src/app/domain"
  routeFile : String := "src/app/route.rs"
  migrations : String := "db/migrations"
  docsFile : String := "docs/swagger.json"
  deriving DecidableEq, Repr

structure Settings.Markers where
  imports : String := "// <prustbowo:imports>"
  routes : String := "// <prustbowo:routes>"
  deriving DecidableEq, Repr

/-- External programs, and the names of the project's own. -/
structure Settings.Tools where
  cargo : String := "cargo"
  diesel : String := "diesel"
  git : String := "git"
  server : String := "server"
  migrate : String := "migrate"
  exportDocs : String := "export-openapi"
  deriving DecidableEq, Repr

structure Settings where
  name : String := ""
  crate : String := ""
  layout : Settings.Layout := {}
  markers : Settings.Markers := {}
  tools : Settings.Tools := {}
  deriving DecidableEq, Repr

namespace Settings

def domainRoot (s : Settings) (project : Path) : Path :=
  project / s.layout.domainRoot

def routeFile (s : Settings) (project : Path) : Path :=
  project / s.layout.routeFile

def moduleList (s : Settings) (project : Path) : Path :=
  s.domainRoot project / "mod.rs"

def migrations (s : Settings) (project : Path) : Path :=
  project / s.layout.migrations

def docsFile (s : Settings) (project : Path) : Path :=
  project / s.layout.docsFile

end Settings
end ApiScaffold
