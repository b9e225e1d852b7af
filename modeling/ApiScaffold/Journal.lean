/-! The journal: what an operation tells about its work. -/
namespace ApiScaffold

inductive Journal.Level where
  | debug
  | info
  | warning
  deriving DecidableEq, Repr, Ord

inductive Journal.Topic where
  | registration
  | placeholders
  | project
  | templates
  | migrations
  | programs
  | toolchain
  deriving DecidableEq, Repr

structure Journal.Entry where
  level : Journal.Level
  topic : Journal.Topic
  text : String
  deriving DecidableEq, Repr

namespace Journal

def Level.text : Level → String
  | .debug => "DEBUG"
  | .info => "INFO"
  | .warning => "WARNING"

def Topic.text : Topic → String
  | .registration => "prustbowo.scaffold.inject"
  | .placeholders => "prustbowo.scaffold.placeholders"
  | .project => "prustbowo.scaffold.project"
  | .templates => "prustbowo.templates"
  | .migrations => "prustbowo.migrations.generator"
  | .programs => "prustbowo.commands.runner"
  | .toolchain => "prustbowo.commands.orchestrator"

def Entry.line (e : Entry) : String :=
  s!"{e.level.text} {e.topic.text}: {e.text}"

/-- The lines of the entries from a level upward. -/
def lines (least : Level) (entries : List Entry) : List String :=
  (entries.filter fun e => (compare least e.level).isLE).map Entry.line

end Journal
end ApiScaffold
