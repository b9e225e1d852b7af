import ApiScaffold.Text.Digit
import ApiScaffold.Text.Utf8
import ApiScaffold.Yaml.Character
import ApiScaffold.Yaml.Fault
import ApiScaffold.Yaml.Token

/-! The written forms of names, tags and directives. Each reader gives what it reads and the number
of characters that it takes. -/
namespace ApiScaffold.Yaml.Property

/-- The fault of a text that goes on with something else than it has to. -/
def unexpected {α : Type} (s : List Char) : Except Fault α :=
  .error (if s.isEmpty then .unfinished else .malformed)

def expect (c : Char) (s : List Char) : Except Fault Unit :=
  if s.head? = some c then .ok () else unexpected s

/-- A name behind the indicator of an anchor or an alias. -/
def name (s : List Char) : Except Fault (String × Nat) :=
  let n := countWhile isNameCharacter s
  let ends := (s.drop n).head?.all fun c => c = ' ' || c = '\t' || isBreak c ||
    "?:,]\x7d%@`".toList.contains c
  if n = 0 || !ends then unexpected (s.drop n) else .ok (String.ofList (s.take n), n)

def escapedByte? : List Char → Option UInt8
  | a :: b :: _ => do
    let high ← hexValue? a
    let low ← hexValue? b
    return UInt8.ofNat (16 * high + low)
  | _ => none

/-- The text for the bytes of adjacent escapes. -/
def escapedText (bytes : List UInt8) : Except Fault (List Char) :=
  match Text.decode ⟨bytes.toArray⟩ with
  | .ok s => .ok s.toList
  | .error _ => .error .malformed

/-- Tag characters up to the first other character. `bytes` are those of the escapes just before,
`skip` characters belong to an escape already read. -/
def tagTextFrom : (skip : Nat) → (bytes : List UInt8) → List Char → Except Fault (List Char × Nat)
  | _, bytes, [] => return (← escapedText bytes, 0)
  | skip + 1, bytes, _ :: rest => do
    let (text, n) ← tagTextFrom skip bytes rest
    return (text, n + 1)
  | 0, bytes, c :: rest =>
    if c = '%' then
      match escapedByte? rest with
      | none => unexpected (rest.drop 1)
      | some b => do
        let (text, n) ← tagTextFrom 2 (bytes ++ [b]) rest
        return (text, n + 1)
    else if isTagCharacter c then do
      let before ← escapedText bytes
      let (text, n) ← tagTextFrom 0 [] rest
      return (before ++ c :: text, n + 1)
    else return (← escapedText bytes, 0)

def tagText (s : List Char) : Except Fault (String × Nat) := do
  let (text, n) ← tagTextFrom 0 [] s
  if n = 0 then unexpected s else return (String.ofList text, n)

/-- A tag handle: an exclamation mark, or a name between two. -/
def handle (s : List Char) : Except Fault (String × Nat) :=
  match s with
  | '!' :: rest =>
    if rest.head? = some ' ' then .ok ("!", 1)
    else
      let n := countWhile isNameCharacter rest
      if (rest.drop n).head? = some '!' then .ok (String.ofList (s.take (n + 2)), n + 2)
        else unexpected (rest.drop n)
  | _ => unexpected s

def tag (s : List Char) : Except Fault (TagName × Nat) := do
  let behind := s.drop 1
  let (name, n) ←
    if behind.head? = some '<' then do
      let (suffix, n) ← tagText (s.drop 2)
      expect '>' (s.drop (2 + n))
      pure ((⟨none, suffix⟩ : TagName), n + 3)
    else if atBlank behind then pure (⟨none, "!"⟩, 1)
    else do
      let (handle, h) ←
        if (behind.takeWhile fun c => c ≠ ' ' && !isBreak c).contains '!' then handle s
          else pure ("!", 1)
      let (suffix, n) ← tagText (s.drop h)
      pure (⟨some handle, suffix⟩, h + n)
  if atSpace (s.drop n) then return (name, n) else .error .malformed

def number (s : List Char) : Except Fault (Nat × Nat) :=
  let digits := s.takeWhile Char.isDigit
  if digits.isEmpty then unexpected s
  else if digitLimit < digits.length then .error (.digits (some digits.length))
  else .ok (Text.number digits, digits.length)

def spaces (s : List Char) : Nat :=
  countWhile (· = ' ') s

def version (s : List Char) : Except Fault (Directive × Nat) := do
  let start := spaces s
  let (major, n) ← number (s.drop start)
  expect '.' (s.drop (start + n))
  let (minor, m) ← number (s.drop (start + n + 1))
  let taken := start + n + 1 + m
  if atSpace (s.drop taken) then return (.version major minor, taken) else .error .malformed

/-- A tag handle and what it stands for, behind the name of the directive. -/
def handleMeaning (s : List Char) : Except Fault (Directive × Nat) := do
  let start := spaces s
  let (handle, n) ← handle (s.drop start)
  expect ' ' (s.drop (start + n))
  let gap := spaces (s.drop (start + n))
  let (tagStart, m) ← tagText (s.drop (start + n + gap))
  let taken := start + n + gap + m
  if atSpace (s.drop taken) then return (.handle handle tagStart, taken) else .error .malformed

def directive (s : List Char) : Except Fault (Directive × Nat) := do
  let n := countWhile isNameCharacter s
  let behind := s.drop n
  if n = 0 || !atSpace behind then unexpected behind
  let (d, m) ←
    match String.ofList (s.take n) with
    | "YAML" => version behind
    | "TAG" => handleMeaning behind
    | _ => pure (.other, countWhile (!isBreak ·) behind)
  return (d, n + m)

end ApiScaffold.Yaml.Property
