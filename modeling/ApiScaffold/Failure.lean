import ApiScaffold.FileTree.Access
import ApiScaffold.Program
import ApiScaffold.Registration.EntryTemplate
import ApiScaffold.Text.Utf8
import ApiScaffold.Yaml.Fault

/-! Causes of failure and their messages. -/
namespace ApiScaffold

def Refusal.error (r : Refusal) (p : Path) : SystemError :=
  ⟨r.number, r.reason, some p.text⟩

inductive Required where
  | projectName
  | domainName
  | migrationName
  | placeholderToken
  deriving DecidableEq, Repr

def Required.text : Required → String
  | .projectName => "Project name"
  | .domainName => "Domain name"
  | .migrationName => "Migration name"
  | .placeholderToken => "Placeholder token"

/-- Why an operation stops. An error of the system that comes up while others are dealt with names
those, the latest first. -/
inductive Failure where
  | system (error : SystemError) (during : List SystemError)
  | nulInPath
  | nulInCommand
  | tooDeep
  | noDirectory
  | notText (fault : Text.Utf8Fault)
  | empty (required : Required)
  | unsupportedName (name : String) (found : List Char)
  | targetExists (target : Path)
  | unsafePath (template path : String)
  | markerMissing (marker : String)
  | markersMissing (file imports routes : String)
  | entry (defect : EntryTemplate.Defect)
  | settingsNotMapping (file : Path)
  | sectionNotMapping (name : String)
  | yaml (fault : Yaml.Fault)
  | program (failure : Program.Failure) (cause : Option SystemError)
  deriving DecidableEq, Repr

namespace Failure

def settingsFile : String := "prustbowo.yaml"

def message : Failure → String
  | .system error _ => error.message
  | .nulInPath | .nulInCommand => "embedded null byte"
  | .tooDeep => "maximum recursion depth exceeded"
  | .noDirectory => "expected str, bytes or os.PathLike object, not list"
  | .notText fault => fault.message
  | .empty required => s!"{required.text} must not be empty"
  | .unsupportedName name found =>
    let found := String.ofList (Text.quoteList (found.map ([·])))
    s!"Project name {Text.quoted name} contains unsupported characters: {found}"
  | .targetExists target => s!"target directory already exists: {target}"
  | .unsafePath template path => s!"Template '{template}' has unsafe path: {path}"
  | .markerMissing marker => s!"marker not found: {marker}"
  | .markersMissing file imports routes => s!"{file} missing markers {imports} and {routes}"
  | .entry defect => defect.message
  | .settingsNotMapping file => s!"{settingsFile} at {file} is not a YAML mapping"
  | .sectionNotMapping name => s!"'{name}' in {settingsFile} must be a mapping"
  | .yaml fault => fault.message
  | .program failure _ => failure.message

/-- Whether a run tells about a failure. Any other ends it at once. -/
def isForeseen : Failure → Bool
  | .yaml fault => fault.isForeseen
  | .noDirectory => false
  | _ => true

/-- The errors behind a failure, the nearest first. -/
def causes : Failure → List SystemError
  | .system _ during => during
  | .program _ cause => cause.toList
  | _ => []

end Failure
end ApiScaffold
