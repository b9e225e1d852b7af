import ApiScaffold.CommandLine.Reading

/-! Commands: what a whole command line asks for. -/
namespace ApiScaffold.CommandLine

inductive Task where
  | createProject (name : String)
  | createDomain (name : String)
  | createDocs
  | generateMigrations (name : Option String)
  | runMigrations
  | runDevelopment
  | runProduction
  | build
  deriving DecidableEq, Repr

/-- A task in a directory, told about in detail or not. Without a directory the task cannot be
done. -/
structure Command where
  task : Task
  directory : Option String
  verbose : Bool
  deriving DecidableEq, Repr

namespace Task

def words : Task → String × String
  | .createProject _ => ("create", "project")
  | .createDomain _ => ("create", "domain")
  | .createDocs => ("create", "docs")
  | .generateMigrations _ => ("migrate", "generate")
  | .runMigrations => ("migrate", "run")
  | .runDevelopment => ("run", "dev")
  | .runProduction => ("run", "prod")
  | .build => ("run", "build")

end Task

def groupLevel : String → Level
  | "create" => .create
  | "migrate" => .migrate
  | _ => .run

def nameField (about : String) (required : Bool) : Field :=
  ⟨"name", "NAME", about, required⟩

/-- The name that the words give, if any. It is empty if its value is void. -/
def Reading.name? (r : Reading) : Option String :=
  (r.value? "name").map (·.getD "")

def taskLevel (group choice : String) : Level × (Reading → Task) :=
  let name (r : Reading) := r.name?.getD ""
  match group, choice with
  | "create", "project" =>
    (.task .create "project" [nameField "Project name" true], fun r => .createProject (name r))
  | "create", "domain" =>
    (.task .create "domain" [nameField "Domain name" true], fun r => .createDomain (name r))
  | "create", _ => (.task .create "docs" [], fun _ => .createDocs)
  | "migrate", "generate" =>
    (.task .migrate "generate" [nameField "Migration name (default: one per domain)" false],
      fun r => .generateMigrations r.name?)
  | "migrate", _ => (.task .migrate "run" [], fun _ => .runMigrations)
  | _, "dev" => (.task .run "dev" [], fun _ => .runDevelopment)
  | _, "prod" => (.task .run "prod" [], fun _ => .runProduction)
  | _, _ => (.task .run "build" [], fun _ => .build)

def allUsed (leftOver : List String) : Except Stop Unit :=
  match leftOver with
  | [] => .ok ()
  | words => Level.top.misused ("unrecognized arguments: " ++ " ".intercalate words)

/-- Reads a command line. Without a choice a level shows its help. -/
def Command.read (args : List String) : Except Stop Command := do
  let top ← Level.top.read args
  match top.choice with
  | none =>
    allUsed top.leftOver
    throw (.help .top)
  | some (word, args) =>
    let level := groupLevel word
    let group ← level.read args
    match group.choice with
    | none =>
      allUsed (top.leftOver ++ group.leftOver)
      throw (.help level)
    | some (choice, args) =>
      let (level, task) := taskLevel word choice
      let leaf ← level.read args
      allUsed (top.leftOver ++ group.leftOver ++ leaf.leftOver)
      return ⟨task leaf, (leaf.value? "dir").getD (some "."), CommandLine.verbose ∈ top.switches⟩

end ApiScaffold.CommandLine
