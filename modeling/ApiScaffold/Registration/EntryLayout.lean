import ApiScaffold.Text.Digit
import ApiScaffold.Text.Padding

/-! Layouts: the marks in a field of an entry template that say how a name is cut and filled up.
Marks that make sense for numbers alone are known and refused. -/
namespace ApiScaffold.EntryLayout

inductive Defect where
  | tooManyDigits
  | twoSeparators
  | noLimit
  | malformed (marks : String)
  | separatorWith (separator form : Char)
  | unknownForm (form : Char)
  | sign (mark : Char)
  | zeroSign
  | alternate
  | numberAlignment
  deriving DecidableEq, Repr

/-- A character behind the space and up to `last`, or else its number. -/
def shown (last c : Char) : String :=
  if ' ' < c ∧ c ≤ last then c.toString else "\\x" ++ String.ofList (Nat.toDigits 16 c.toNat)

def lastForm : Char := '\x7f'

def Defect.message : Defect → String
  | .tooManyDigits => "Too many decimal digits in format string"
  | .twoSeparators => "Cannot specify both ',' and '_'."
  | .noLimit => "Format specifier missing precision"
  | .malformed marks => s!"Invalid format specifier '{marks}' for object of type 'str'"
  | .separatorWith separator form => s!"Cannot specify '{separator}' with '{shown lastForm form}'."
  | .unknownForm form => s!"Unknown format code '{shown lastForm form}' for object of type 'str'"
  | .sign mark =>
    if mark = ' ' then "Space not allowed in string format specifier"
    else "Sign not allowed in string format specifier"
  | .zeroSign => "Negative zero coercion (z) not allowed in string format specifier"
  | .alternate => "Alternate form (#) not allowed in string format specifier"
  | .numberAlignment => "'=' alignment not allowed in string format specifier"

structure Marks where
  fill : Option Char
  alignment : Option Char
  sign : Option Char
  zeroSign : Bool
  alternate : Bool
  zeroFill : Bool
  width : Nat
  separator : Option Char
  limit : Option Nat
  form : Char
  deriving DecidableEq, Repr

def greatest : Nat := (1 <<< 63) - 1

/-- The number that leading digits of any script spell, if there are any, and what is behind
them. -/
def readNumber (s : List Char) : Except Defect (Option Nat × List Char) :=
  let digits := s.takeWhile Text.isDigit
  let n := Text.number digits
  if digits.isEmpty then .ok (none, s)
  else if greatest < n then .error .tooManyDigits
  else .ok (some n, s.drop digits.length)

def takeIf (test : Char → Bool) : List Char → Option Char × List Char
  | [] => (none, [])
  | c :: rest => if test c then (some c, rest) else (none, c :: rest)

def isAlignment (c : Char) : Bool :=
  c = '<' || c = '>' || c = '=' || c = '^'

/-- An alignment, with a filling in front of it or not. -/
def takeAlignment : List Char → Option Char × Option Char × List Char
  | c :: a :: rest =>
    if isAlignment a then (some c, some a, rest)
    else if isAlignment c then (none, some c, a :: rest)
    else (none, none, c :: a :: rest)
  | s => (none, takeIf isAlignment s)

/-- A separator of digits, of which there is one at most. -/
def takeSeparator (s : List Char) : Except Defect (Option Char × List Char) :=
  match s with
  | ',' :: '_' :: _ | '_' :: ',' :: _ => .error .twoSeparators
  | s => .ok (takeIf (fun c => c = ',' || c = '_') s)

/-- The greatest length of the text, behind a point. -/
def takeLimit : List Char → Except Defect (Option Nat × List Char)
  | '.' :: rest => do
    match ← readNumber rest with
    | (none, _) => .error .noLimit
    | (limit, rest) => return (limit, rest)
  | s => .ok (none, s)

/-- Reads marks, which stand in a fixed order. -/
def Marks.read (s : List Char) : Except Defect Marks := do
  let (fill, alignment, rest) := takeAlignment s
  let (sign, rest) := takeIf (fun c => c = ' ' || c = '+' || c = '-') rest
  let (zeroSign, rest) := takeIf (· = 'z') rest
  let (alternate, rest) := takeIf (· = '#') rest
  let (zeroFill, rest) := takeIf (fun c => c = '0' && fill.isNone) rest
  let (width, rest) ← readNumber rest
  let (separator, rest) ← takeSeparator rest
  let (limit, rest) ← takeLimit rest
  let form ← match rest with
    | [] => pure 's'
    | [form] => pure form
    | _ => throw (.malformed (String.ofList s))
  return {
    fill, alignment, sign, separator, limit, form
    zeroSign := zeroSign.isSome, alternate := alternate.isSome, zeroFill := zeroFill.isSome
    width := width.getD 0 }

/-- The forms of numbers that a separator goes with. -/
def separates (separator form : Char) : Bool :=
  form = '\x00' || "deEfFgG%".toList.contains form || separator = '_' && "boxX".toList.contains form

def Marks.padding (m : Marks) : Except Defect Text.Padding := do
  if let some separator := m.separator then
    if !separates separator m.form then throw (.separatorWith separator m.form)
  if m.form ≠ 's' then throw (.unknownForm m.form)
  if let some mark := m.sign then throw (.sign mark)
  if m.zeroSign then throw .zeroSign
  if m.alternate then throw .alternate
  let alignment ← match m.alignment with
    | some '=' => throw .numberAlignment
    | some '>' => pure .right
    | some '^' => pure .middle
    | _ => pure .left
  return { limit := m.limit, width := m.width, alignment,
           fill := m.fill.getD (if m.zeroFill then '0' else ' ') }

/-- Lays out a text. Without marks it stays as it is. -/
def apply (marks s : List Char) : Except Defect (List Char) :=
  if marks.isEmpty then .ok s else return (← (← Marks.read marks).padding).apply s

end ApiScaffold.EntryLayout
