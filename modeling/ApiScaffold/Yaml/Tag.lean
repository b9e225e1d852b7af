import ApiScaffold.Text.LineBreak

/-! Tags of nodes, and the tags of plain scalars by their form. -/
namespace ApiScaffold.Yaml

inductive Tag where
  | null
  | bool
  | int
  | float
  | text
  | binary
  | timestamp
  | sequence
  | mapping
  | set
  | orderedMap
  | pairs
  | merge
  | default
  | unknown
  deriving DecidableEq, Repr

namespace Tag

def standardStart : String := "tag:yaml.org,2002:"

def ofName (name : String) : Tag :=
  if name = standardStart ++ "null" then .null
  else if name = standardStart ++ "bool" then .bool
  else if name = standardStart ++ "int" then .int
  else if name = standardStart ++ "float" then .float
  else if name = standardStart ++ "str" then .text
  else if name = standardStart ++ "binary" then .binary
  else if name = standardStart ++ "timestamp" then .timestamp
  else if name = standardStart ++ "seq" then .sequence
  else if name = standardStart ++ "map" then .mapping
  else if name = standardStart ++ "set" then .set
  else if name = standardStart ++ "omap" then .orderedMap
  else if name = standardStart ++ "pairs" then .pairs
  else if name = standardStart ++ "merge" then .merge
  else if name = standardStart ++ "value" then .default
  else .unknown

/-! Forms of plain scalars. -/

def nullWords : List String := ["~", "null", "Null", "NULL"]

def boolWords : List String :=
  ["yes", "Yes", "YES", "no", "No", "NO", "true", "True", "TRUE", "false", "False", "FALSE", "on",
    "On", "ON", "off", "Off", "OFF"]

def isDigitOrUnderscore (c : Char) : Bool := c.isDigit || c = '_'

def unsigned : List Char → List Char
  | '+' :: s => s
  | '-' :: s => s
  | s => s

def isRun (test : Char → Bool) (s : List Char) : Bool :=
  !s.isEmpty && s.all test

/-- A part of a sexagesimal number: a digit, or two of which the first is at most five. -/
def isSixtieth : List Char → Bool
  | [c] => c.isDigit
  | [d, c] => '0' ≤ d && d ≤ '5' && c.isDigit
  | _ => false

/-- The parts between colons, of which there are two or more, in a number that starts with a digit
other than those excluded. -/
def isSexagesimal (least : Char) (s : List Char) : Bool :=
  match Text.segments ':' s with
  | (c :: first) :: second :: more =>
    least ≤ c && c ≤ '9' && first.all isDigitOrUnderscore && (second :: more).all isSixtieth
  | _ => false

def isInt (s : List Char) : Bool :=
  match unsigned s with
  | '0' :: 'b' :: digits => isRun (fun c => c = '0' || c = '1' || c = '_') digits
  | '0' :: 'x' :: digits =>
    isRun (fun c => c.isDigit || ('a' ≤ c && c ≤ 'f') || ('A' ≤ c && c ≤ 'F') || c = '_') digits
  | ['0'] => true
  | '0' :: digits => isRun (fun c => ('0' ≤ c && c ≤ '7') || c = '_') digits
  | c :: digits => c.isDigit && digits.all isDigitOrUnderscore || isSexagesimal '1' (c :: digits)
  | [] => false

def isExponent : List Char → Bool
  | [] => true
  | e :: sign :: digits =>
    (e = 'e' || e = 'E') && (sign = '+' || sign = '-') && isRun Char.isDigit digits
  | _ => false

def isFraction (s : List Char) : Bool :=
  isExponent (s.dropWhile isDigitOrUnderscore)

/-- A sexagesimal number with a point behind its last part. -/
def isSexagesimalFraction (s : List Char) : Bool :=
  isSexagesimal '0' (s.takeWhile (· ≠ '.')) &&
    ((s.dropWhile (· ≠ '.')).drop 1).all isDigitOrUnderscore && s.contains '.'

def isFloat (s : List Char) : Bool :=
  let word (s : List Char) (words : List String) := words.contains (String.ofList s)
  match s with
  | '.' :: c :: rest =>
    word (c :: rest) ["nan", "NaN", "NAN", "inf", "Inf", "INF"] || c.isDigit && isFraction rest
  | _ =>
    match unsigned s with
    | '.' :: rest => word rest ["inf", "Inf", "INF"]
    | c :: rest =>
      c.isDigit &&
        match rest.dropWhile isDigitOrUnderscore with
        | '.' :: rest => isFraction rest
        | _ => isSexagesimalFraction (c :: rest)
    | [] => false

/-- The parts of a time, of which each is text: a date, or a date and a time of day. -/
structure TimeParts where
  year : List Char
  month : List Char
  day : List Char
  clock : Option (List Char × List Char × List Char × List Char)
  zone : Option (Char × List Char × List Char)
  deriving DecidableEq, Repr

def oneOrTwo (s : List Char) : Option (List Char × List Char) :=
  match s with
  | c :: d :: rest =>
    if c.isDigit then some (if d.isDigit then ([c, d], rest) else ([c], d :: rest)) else none
  | [c] => if c.isDigit then some ([c], []) else none
  | [] => none

def two : List Char → Option (List Char × List Char)
  | c :: d :: rest => if c.isDigit && d.isDigit then some ([c, d], rest) else none
  | _ => none

def behind (c : Char) : List Char → Option (List Char)
  | d :: rest => if c = d then some rest else none
  | [] => none

/-- The distance from universal time: a sign, hours and minutes. -/
def zoneParts (s : List Char) : Option (Option (Char × List Char × List Char)) := do
  match s.dropWhile fun c => c = ' ' || c = '\t' with
  | [] => if s.isEmpty then some none else none
  | ['Z'] => some (some ('Z', [], []))
  | sign :: rest =>
    if sign ≠ '+' && sign ≠ '-' then none
    let (hours, rest) ← oneOrTwo rest
    match rest with
    | [] => some (some (sign, hours, []))
    | ':' :: rest =>
      let (minutes, rest) ← two rest
      if rest.isEmpty then some (some (sign, hours, minutes)) else none
    | _ => none

/-- The parts of a time, if it has that form. Without a time of day, month and day have two digits
where `strict` asks for them. -/
def timeParts? (strict : Bool) (s : List Char) : Option TimeParts := do
  let year := s.take 4
  if !(year.length = 4 && year.all Char.isDigit) then none
  let (month, rest) ← oneOrTwo (← behind '-' (s.drop 4))
  let (day, rest) ← oneOrTwo (← behind '-' rest)
  match rest with
  | [] =>
    if strict && !(month.length = 2 && day.length = 2) then none
    return ⟨year, month, day, none, none⟩
  | c :: after =>
    let rest ←
      if c = 'T' || c = 't' then some after
      else if c = ' ' || c = '\t' then some (after.dropWhile fun c => c = ' ' || c = '\t')
      else none
    let (hour, rest) ← oneOrTwo rest
    let (minute, rest) ← two (← behind ':' rest)
    let (second, rest) ← two (← behind ':' rest)
    let (fraction, rest) :=
      match rest with
      | '.' :: rest => (rest.takeWhile Char.isDigit, rest.dropWhile Char.isDigit)
      | _ => ([], rest)
    return ⟨year, month, day, some (hour, minute, second, fraction), ← zoneParts rest⟩

def dropLineEnd (s : List Char) : List Char :=
  if s.getLast? = some '\n' then s.dropLast else s

/-- The tag of a plain scalar. One line end may stand behind the form. -/
def ofPlain (s : List Char) : Tag :=
  let form := dropLineEnd s
  let word := String.ofList form
  if boolWords.contains word then .bool
  else if isFloat form then .float
  else if isInt form then .int
  else if word = "<<" then .merge
  else if nullWords.contains word || s.isEmpty then .null
  else if (timeParts? true form).isSome then .timestamp
  else if word = "=" then .default
  else .text

end Tag
end ApiScaffold.Yaml
