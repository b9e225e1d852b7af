import ApiScaffold.Settings.OfDocument
import ApiScaffold.Workspace.Basic
import ApiScaffold.Yaml.Document.OfText
import ApiScaffold.Yaml.Pieces

/-! Reading the settings of a project from its directory. -/
namespace ApiScaffold.Settings

def ofBytes (file : Path) (bytes : ByteArray) : Except Failure Settings :=
  let (s, tear) := Yaml.Pieces.text bytes
  match Yaml.Document.ofText s tear with
  | .error (.notText fault) => .error (.notText fault)
  | .error fault => .error (.yaml fault)
  | .ok d => ofDocument file d

/-- The settings in the file of a project; without a file all have their defaults. -/
def ofFile (file : Path) : Work Settings := do
  if !(← Work.isFile file) then return {}
  match ofBytes file (← Work.readBytes file) with
  | .ok settings => return settings
  | .error f => throw f

/-- The settings of a project. The environment may choose the build tool. -/
def load (project : Path) : Work Settings := do
  let settings ← ofFile (project / Failure.settingsFile)
  match (← get).cargo with
  | none | some "" => return settings
  | some cargo => return { settings with tools.cargo := cargo }

/-- Settings given beforehand, or else those of the project. -/
def orLoad (given : Option Settings) (project : Path) : Work Settings :=
  match given with
  | some settings => pure settings
  | none => load project

end ApiScaffold.Settings
