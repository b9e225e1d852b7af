import ApiScaffold.CommandLine.Grammar

/-! Help: how a level is used, and what its options and choices are about. All lines are short
enough to stay whole. -/
namespace ApiScaffold.CommandLine

structure HelpItem where
  indent : Nat
  head : String
  about : Option String
  deriving DecidableEq, Repr

def Switch.head (s : Switch) : String :=
  "-" ++ s.letter.toString ++ ", --" ++ s.word

def Field.head (f : Field) : String :=
  "--" ++ f.word ++ " " ++ f.label

def Field.usage (f : Field) : String :=
  if f.required then f.head else "[" ++ f.head ++ "]"

namespace Level

def usage (l : Level) : String :=
  let options :=
    l.switches.map (fun s => "[-" ++ s.letter.toString ++ "]") ++ l.fields.map Field.usage
  let choices := if l.choices.isEmpty then [] else [l.choiceSet, "..."]
  "usage: " ++ " ".intercalate (l.program :: options ++ choices) ++ "\n"

def choiceItems (l : Level) : List HelpItem :=
  if l.choices.isEmpty then []
  else ⟨2, l.choiceSet, none⟩ :: l.choices.map fun c => ⟨4, c.word, some c.about⟩

def optionItems (l : Level) : List HelpItem :=
  l.switches.map (fun s => ⟨2, s.head, some s.about⟩) ++ l.fields.map fun f =>
    ⟨2, f.head, some f.about⟩

/-- The column where descriptions start: two behind the widest item, which is counted as if it stood
in by two, and 24 at most. -/
def column (l : Level) : Nat :=
  min 24 (((l.choiceItems ++ l.optionItems).map (·.head.length + 4)).foldl max 0)

def itemLine (column : Nat) (i : HelpItem) : String :=
  let start := "".pushn ' ' i.indent ++ i.head
  match i.about with
  | none => start ++ "\n"
  | some about => start.pushn ' ' (column - start.length) ++ about ++ "\n"

/-- A titled part of a help text, behind an empty line; nothing without items. -/
def part (l : Level) (title : String) (items : List HelpItem) : String :=
  if items.isEmpty then ""
    else "\n" ++ title ++ ":\n" ++ String.join (items.map (itemLine l.column))

def helpText (l : Level) : String :=
  let about := match l.about with
    | none => ""
    | some about => "\n" ++ about ++ "\n"
  l.usage ++ about ++ l.part "positional arguments" l.choiceItems ++ l.part "options" l.optionItems

end Level
end ApiScaffold.CommandLine
