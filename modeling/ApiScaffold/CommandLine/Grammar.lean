/-! The grammar of the command line: levels of options and choices. -/
namespace ApiScaffold.CommandLine

structure Switch where
  letter : Char
  word : String
  about : String
  deriving DecidableEq, Repr

structure Field where
  word : String
  label : String
  about : String
  required : Bool
  deriving DecidableEq, Repr

structure Choice where
  word : String
  about : String
  deriving DecidableEq, Repr

/-- What may stand behind some words: options, and in their midst a choice that leads on. -/
structure Level where
  program : String
  about : Option String
  switches : List Switch
  fields : List Field
  label : String
  choices : List Choice
  deriving DecidableEq, Repr

def help : Switch := ⟨'h', "help", "show this help message and exit"⟩

def verbose : Switch := ⟨'v', "verbose", "Enable debug logging"⟩

def directory : Field := ⟨"dir", "DIR", "Target directory (default: current directory)", false⟩

namespace Level

def top : Level where
  program := "prustbowo"
  about := some "Scaffold and manage Rust REST API projects"
  switches := [help, verbose]
  fields := []
  label := "command"
  choices := [
    ⟨"create", "Create projects, domains and docs"⟩,
    ⟨"migrate", "Database migrations"⟩,
    ⟨"run", "Build and run the server"⟩]

def group (word : String) (choices : List Choice) : Level where
  program := "prustbowo " ++ word
  about := none
  switches := [help]
  fields := []
  label := "subcommand"
  choices

def create : Level := group "create" [
  ⟨"project", "Initialize a new REST API project"⟩,
  ⟨"domain", "Generate a domain module and register its routes"⟩,
  ⟨"docs", "Export OpenAPI docs to docs/swagger.json"⟩]

def migrate : Level := group "migrate" [
  ⟨"generate", "Generate migration SQL files"⟩,
  ⟨"run", "Run pending migrations"⟩]

def run : Level := group "run" [
  ⟨"dev", "Run server in development mode"⟩,
  ⟨"prod", "Build and run in production mode"⟩,
  ⟨"build", "Build project binary"⟩]

def task (group : Level) (word : String) (fields : List Field) : Level where
  program := group.program ++ " " ++ word
  about := none
  switches := [help]
  fields := fields ++ [directory]
  label := ""
  choices := []

def choiceSet (l : Level) : String :=
  "\x7b" ++ ",".intercalate (l.choices.map (·.word)) ++ "\x7d"

end Level
end ApiScaffold.CommandLine
