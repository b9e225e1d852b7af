import ApiScaffold.Text.CodePoint

/-! Tokens of YAML. -/
namespace ApiScaffold.Yaml

/-- A tag as written: in angle brackets, or a suffix to a handle. -/
structure TagName where
  handle : Option String
  suffix : String
  deriving DecidableEq, Repr

inductive Directive where
  | version (major minor : Nat)
  | handle (name tagStart : String)
  | other
  deriving DecidableEq, Repr

inductive Token where
  | directive (d : Directive)
  | documentStart
  | documentEnd
  | blockSequence
  | blockMapping
  | blockEnd
  | flowSequence
  | flowSequenceEnd
  | flowMapping
  | flowMappingEnd
  | flowEntry
  | blockEntry
  | key
  | value
  | alias (name : String)
  | anchor (name : String)
  | tag (name : TagName)
  | scalar (text : List Text.CodePoint) (plain : Bool)
  deriving DecidableEq, Repr

end ApiScaffold.Yaml
