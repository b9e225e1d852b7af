import ApiScaffold.CommandLine.Help
import ApiScaffold.Text.Digit
import ApiScaffold.Text.Quoted
import ApiScaffold.Text.Search

/-! Reading the words of a command line at one level of its grammar. -/
namespace ApiScaffold.CommandLine

/-- The end of reading before all is read: help was asked for, or the words do not fit the
grammar. -/
inductive Stop where
  | help (level : Level)
  | misuse (level : Level) (message : String)
  deriving DecidableEq, Repr

inductive Named where
  | letter (switch : Switch) (value : Option (List Char))
  | switch (switch : Switch) (value : Option (List Char))
  | field (field : Field) (value : Option (List Char))
  deriving DecidableEq, Repr

inductive Role where
  | named (option : Named)
  | unknown
  | plain
  | separator
  deriving DecidableEq, Repr

structure Word where
  text : String
  role : Role
  deriving DecidableEq, Repr

/-- A minus sign and digits of any script, of which some may stand behind a point. A line
end may follow. -/
def isNegativeNumber (s : List Char) : Bool :=
  let s := if s.getLast? = some '\n' then s.dropLast else s
  match s with
  | '-' :: digits =>
    let fraction := digits.dropWhile Text.isDigit
    match fraction with
    | [] => !digits.isEmpty
    | '.' :: more => !more.isEmpty && more.all Text.isDigit
    | _ => false
  | _ => false

def splitValue (s : List Char) : List Char × Option (List Char) :=
  match Text.cut ['='] s with
  | some (before, after) => (before, some after)
  | none => (s, none)

namespace Level

def misused {α : Type} (l : Level) (message : String) : Except Stop α :=
  .error (.misuse l message)

def longOptions (l : Level) (test : List Char → Bool) (value : Option (List Char)) :
    List (String × Named) :=
  (l.switches.filterMap fun s => if test s.word.toList then some ("--" ++ s.word, .switch s value)
    else none) ++
  l.fields.filterMap fun f => if test f.word.toList then some ("--" ++ f.word, .field f value)
    else none

def switch? (l : Level) (c : Char) : Option Switch :=
  l.switches.find? (·.letter = c)

/-- The part of a word of two or more characters behind a minus sign, if no option has just that
name. -/
def otherRole (s : String) : Role :=
  if isNegativeNumber s.toList || ' ' ∈ s.toList then .plain else .unknown

/-- The part that a word plays. A long option may be cut short as long as only one is meant; a
letter may have more behind it, with an equals sign between or not. -/
def role (l : Level) (s : String) : Except Stop Role :=
  match s.toList with
  | '-' :: '-' :: name =>
    let (word, value) := splitValue name
    match l.longOptions (· == name) none ++ l.longOptions (· == word) value with
    | (_, option) :: _ => .ok (.named option)
    | [] =>
      match l.longOptions (word.isPrefixOf ·) value with
      | [] => .ok (otherRole s)
      | [(_, option)] => .ok (.named option)
      | options =>
        let options := ", ".intercalate (options.map (·.1))
        l.misused s!"ambiguous option: {s} could match {options}"
  | '-' :: c :: more =>
    match l.switch? c, more with
    | none, _ => .ok (otherRole s)
    | some switch, [] => .ok (.named (.letter switch none))
    | some switch, '=' :: value => .ok (.named (.letter switch (some value)))
    | some switch, value => .ok (.named (.letter switch (some value)))
  | _ => .ok .plain

/-- The words with their parts. Behind the first `--` all are plain. -/
def words (l : Level) : List String → Except Stop (List Word)
  | [] => .ok []
  | "--" :: rest => .ok (⟨"--", .separator⟩ :: rest.map (⟨·, .plain⟩))
  | s :: rest => do
    let role ← l.role s
    return ⟨s, role⟩ :: (← l.words rest)

def ignoredValue {α : Type} (l : Level) (s : Switch) (value : List Char) : Except Stop α :=
  l.misused ("argument -" ++ s.letter.toString ++ "/--" ++ s.word ++
    ": ignored explicit argument " ++ Text.quoted (String.ofList value))

/-- The switches of a word of letters, given the first one and what is behind it. What is behind a
switch must start with the letter of another. -/
def cluster (l : Level) (s : Switch) : List Char → Except Stop (List Switch)
  | [] => l.ignoredValue s []
  | c :: more =>
    match l.switch? c, more with
    | none, _ => l.ignoredValue s (c :: more)
    | some next, [] => .ok [s, next]
    | some next, more => return s :: (← l.cluster next more)

end Level

/-- What the words of one level say. A value is a text unless it is void. The words behind a choice
are for the level that it leads to. -/
structure Reading where
  switches : List Switch := []
  values : List (String × Option String) := []
  choice : Option (String × List String) := none
  leftOver : List String := []
  deriving DecidableEq, Repr

namespace Reading

def value? (r : Reading) (word : String) : Option (Option String) :=
  (r.values.findRev? (·.1 = word)).map (·.2)

/-- Takes the value of an option, which is void if it is the separator of words. -/
def give (r : Reading) (f : Field) (value : String) : Reading :=
  { r with values := r.values ++ [(f.word, if value = "--" then none else some value)] }

end Reading

namespace Level

/-- Turns switches on. The one for help ends all reading. -/
def turnOn (l : Level) (switches : List Switch) (r : Reading) : Except Stop Reading :=
  if CommandLine.help ∈ switches then .error (.help l)
    else .ok { r with switches := r.switches ++ switches }

def choose (l : Level) (word : String) (rest : List Word) (r : Reading) : Except Stop Reading :=
  if l.choices.any (·.word = word) then .ok { r with choice := some (word, rest.map (·.text)) }
  else
    let choices := ", ".intercalate (l.choices.map fun c => Text.quoted c.word)
    l.misused s!"argument {l.label}: invalid choice: {Text.quoted word} (choose from {choices})"

def readWords (l : Level) : List Word → Reading → Except Stop Reading
  | [], r => .ok r
  | ⟨text, .unknown⟩ :: rest, r => l.readWords rest { r with leftOver := r.leftOver ++ [text] }
  | ⟨text, .plain⟩ :: rest, r =>
    if l.choices.isEmpty then l.readWords rest { r with leftOver := r.leftOver ++ [text] }
    else l.choose text rest r
  | ⟨text, .separator⟩ :: rest, r =>
    if l.choices.isEmpty || rest.isEmpty then
      l.readWords rest { r with leftOver := r.leftOver ++ [text] }
    else l.choose text rest r
  | ⟨_, .named (.letter s none)⟩ :: rest, r => do l.readWords rest (← l.turnOn [s] r)
  | ⟨_, .named (.letter s (some value))⟩ :: rest, r =>
    do l.readWords rest (← l.turnOn (← l.cluster s value) r)
  | ⟨_, .named (.switch s none)⟩ :: rest, r => do l.readWords rest (← l.turnOn [s] r)
  | ⟨_, .named (.switch s (some value))⟩ :: _, _ => l.ignoredValue s value
  | ⟨_, .named (.field f (some value))⟩ :: rest, r =>
    l.readWords rest (r.give f (String.ofList value))
  | ⟨_, .named (.field f none)⟩ :: ⟨text, .plain⟩ :: rest, r =>
    l.readWords rest (r.give f text)
  | ⟨_, .named (.field f none)⟩ :: _, _ => l.misused s!"argument --{f.word}: expected one argument"

/-- Reads the words of a level, in which no required option may be left out. -/
def read (l : Level) (args : List String) : Except Stop Reading := do
  let r ← l.readWords (← l.words args) {}
  match l.fields.filter fun f => f.required && (r.value? f.word).isNone with
  | [] => return r
  | missing =>
    let missing := ", ".intercalate (missing.map fun f => "--" ++ f.word)
    l.misused s!"the following arguments are required: {missing}"

end Level
end ApiScaffold.CommandLine
