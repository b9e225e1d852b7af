import ApiScaffold.Registration.EntryLayout
import ApiScaffold.Registration.Referent
import ApiScaffold.Text.Quoted
import ApiScaffold.Text.Search

/-! Entry templates: text in which `{name}` stands for a name and a doubled brace for a brace. A
field may lead on from the name, quote what it refers to and lay it out. -/
namespace ApiScaffold.EntryTemplate

/-- What is wrong with a template. Only the field `name` has a value. -/
inductive Defect where
  | loneOpening
  | loneClosing
  | unclosed
  | nested
  | noConversion
  | afterConversion
  | unclosedLayout
  | tooDeep
  | positional (index : Nat)
  | unknown (key : String)
  | emptyMember
  | noMember (referent : Referent) (name : String)
  | undivided (referent : Referent)
  | wordAsIndex (referent : Referent)
  | pastEnd (referent : Referent)
  | afterIndex
  | noLayout (referent : Referent)
  | unknownConversion (letter : Char)
  | layout (defect : EntryLayout.Defect)
  deriving DecidableEq, Repr

def Defect.message : Defect → String
  | .loneOpening => "Single '\x7b' encountered in format string"
  | .loneClosing => "Single '\x7d' encountered in format string"
  | .unclosed => "expected '\x7d' before end of string"
  | .nested => "unexpected '\x7b' in field name"
  | .noConversion => "end of string while looking for conversion specifier"
  | .afterConversion => "expected ':' after conversion specifier"
  | .unclosedLayout => "unmatched '\x7b' in format spec"
  | .tooDeep => "Max string recursion exceeded"
  | .positional index => s!"Replacement index {index} out of range for positional args tuple"
  | .unknown key => Text.quoted key
  | .emptyMember => "Empty attribute in format string"
  | .noMember referent name => s!"{referent.described} has no attribute '{name}'"
  | .undivided referent => s!"{referent.undivided} is not subscriptable"
  | .wordAsIndex (.text _) => "string indices must be integers, not 'str'"
  | .wordAsIndex referent => s!"{referent.kindOf.name} indices must be integers or slices, not str"
  | .pastEnd (.text _) => "string index out of range"
  | .pastEnd referent => s!"{referent.kindOf.name} index out of range"
  | .afterIndex => "Only '.' or '[' may follow ']' in format field specifier"
  | .noLayout referent => s!"unsupported format string passed to {referent.kindOf.name}.__format__"
  | .unknownConversion letter => "Unknown conversion specifier " ++ EntryLayout.shown '~' letter
  | .layout defect => defect.message

/-- What stands between braces: a path to a value, a letter for a conversion of it, and the marks
of its layout. -/
structure Field where
  path : List Char
  conversion : Option Char := none
  marks : List Char := []
  deriving DecidableEq, Repr

/-- A part of a template. What is broken ends it. -/
inductive Piece where
  | char (c : Char)
  | field (f : Field)
  | broken (defect : Defect)
  deriving DecidableEq, Repr

/-- Where a reader of a template stands: in text, in the path of a field, inside brackets there or
not, at the letter of a conversion or behind it, or among marks, within some more braces. -/
inductive Place where
  | text
  | path (read : List Char) (bracket : Bool)
  | conversion (path : List Char)
  | converted (path : List Char) (letter : Char)
  | marks (path : List Char) (conversion : Option Char) (depth : Nat) (read : List Char)
  deriving DecidableEq, Repr

def piecesFrom : Place → List Char → List Piece
  | .text, [] => []
  | .text, ['{'] => [.broken .loneOpening]
  | .text, '{' :: '{' :: rest => .char '{' :: piecesFrom .text rest
  | .text, '}' :: '}' :: rest => .char '}' :: piecesFrom .text rest
  | .text, '}' :: _ => [.broken .loneClosing]
  | .text, '{' :: rest => piecesFrom (.path [] false) rest
  | .text, c :: rest => .char c :: piecesFrom .text rest
  | .path _ _, [] => [.broken .unclosed]
  | .path read true, c :: rest => piecesFrom (.path (read ++ [c]) (c ≠ ']')) rest
  | .path _ false, '{' :: _ => [.broken .nested]
  | .path read false, '}' :: rest => .field ⟨read, none, []⟩ :: piecesFrom .text rest
  | .path read false, '!' :: rest => piecesFrom (.conversion read) rest
  | .path read false, ':' :: rest => piecesFrom (.marks read none 0 []) rest
  | .path read false, c :: rest => piecesFrom (.path (read ++ [c]) (c = '[')) rest
  | .conversion _, [] => [.broken .noConversion]
  | .conversion path, letter :: rest => piecesFrom (.converted path letter) rest
  | .converted _ _, [] => [.broken .unclosedLayout]
  | .converted path letter, '}' :: rest => .field ⟨path, some letter, []⟩ :: piecesFrom .text rest
  | .converted path letter, ':' :: rest => piecesFrom (.marks path (some letter) 0 []) rest
  | .converted _ _, _ :: _ => [.broken .afterConversion]
  | .marks _ _ _ _, [] => [.broken .unclosedLayout]
  | .marks path conversion 0 read, '}' :: rest =>
    .field ⟨path, conversion, read⟩ :: piecesFrom .text rest
  | .marks path conversion (depth + 1) read, '}' :: rest =>
    piecesFrom (.marks path conversion depth (read ++ ['}'])) rest
  | .marks path conversion depth read, '{' :: rest =>
    piecesFrom (.marks path conversion (depth + 1) (read ++ ['{'])) rest
  | .marks path conversion depth read, c :: rest =>
    piecesFrom (.marks path conversion depth (read ++ [c])) rest

def pieces (template : List Char) : List Piece :=
  piecesFrom .text template

def index? (word : List Char) : Except Defect (Option Nat) := do
  let (n, rest) ← (EntryLayout.readNumber word).mapError .layout
  return if rest.isEmpty then n else none

/-- The part of a referent at an index, which a word spells. Texts have parts, and so have
rows of kinds. -/
def part (r : Referent) (index : Option Nat) : Except Defect Referent :=
  match r, index with
  | .text s, some i => match s[i]? with
    | some c => .ok (.text [c])
    | none => .error (.pastEnd r)
  | .kinds ks, some i => match ks[i]? with
    | some k => .ok (.kind k)
    | none => .error (.pastEnd r)
  | .text _, none | .kinds _, none => .error (.wordAsIndex r)
  | r, _ => .error (.undivided r)

/-- Goes from a referent on along a path of indices in brackets and members behind points. -/
def follow (r : Referent) (path : List Char) : Except Defect Referent :=
  match path with
  | [] => .ok r
  | '[' :: rest =>
    let word := rest.takeWhile (· ≠ ']')
    match index? word with
    | .error defect => .error defect
    | .ok index =>
      if word.isEmpty then .error .emptyMember
      else
        match part r index with
        | .error defect => .error defect
        | .ok r => follow r (rest.drop (word.length + 1))
  | '.' :: rest =>
    let word := rest.takeWhile fun c => c ≠ '.' ∧ c ≠ '['
    if word.isEmpty then .error .emptyMember
    else
      match r.member? (String.ofList word) with
      | none => .error (.noMember r (String.ofList word))
      | some r => follow r (rest.drop word.length)
  | _ => .error .afterIndex
termination_by path.length
decreasing_by all_goals rw [List.length_drop, List.length_cons]; omega

/-- What a path leads to. A path that starts with a number, or with nothing, asks for a value
by its index. -/
def valueAt (name path : List Char) : Except Defect Referent := do
  let key := path.takeWhile fun c => c ≠ '.' ∧ c ≠ '['
  match ← index? key with
  | some index => throw (.positional index)
  | none =>
    if key.isEmpty then throw (.positional 0)
    if key ≠ "name".toList then throw (.unknown (String.ofList key))
    follow (.text name) (path.drop key.length)

/-- What a referent looks like in quotes. Only texts need them. -/
def quoted (quote : List Char → List Char) : Referent → List Char
  | .text s => quote s
  | r => r.toText

/-- Converts a referent as a letter says: to a text, quoted, quoted in ASCII, or not at all. -/
def convert (letter : Option Char) (r : Referent) : Except Defect Referent :=
  match letter with
  | none => .ok r
  | some 's' => .ok (.text r.toText)
  | some 'r' => .ok (.text (quoted Text.quote r))
  | some 'a' => .ok (.text (quoted Text.quoteAscii r))
  | some c => .error (.unknownConversion c)

/-- Lays out a referent. Only texts take marks. -/
def layOut (marks : List Char) (r : Referent) : Except Defect (List Char) :=
  match r with
  | .text s => (EntryLayout.apply marks s).mapError .layout
  | r => if marks.isEmpty then .ok r.toText else .error (.noLayout r)

/-- Fills in a template. Marks with braces are themselves a template, in which marks have no
braces. -/
def fill (name : List Char) : (depth : Nat) → (template : List Char) → Except Defect (List Char)
  | 0, _ => .error .tooDeep
  | depth + 1, template => do
    let parts ← (pieces template).mapM fun
      | .char c => pure [c]
      | .broken defect => throw defect
      | .field f => do
        let value ← convert f.conversion (← valueAt name f.path)
        let marks ← if '{' ∈ f.marks then fill name depth f.marks else pure f.marks
        layOut marks value
    return parts.flatten

def render (template name : List Char) : Except Defect (List Char) :=
  fill name 2 template

/-- The text in front of the first `{name}`, or all of it. -/
def beforeName (template : List Char) : List Char :=
  match Text.cut "\x7bname\x7d".toList template with
  | some (before, _) => before
  | none => template

end ApiScaffold.EntryTemplate
