import ApiScaffold.Text.LineBreak
import ApiScaffold.Yaml.Atom
import ApiScaffold.Yaml.Atom.Number
import ApiScaffold.Yaml.Tag

/-! Atoms, from tags and texts. -/
namespace ApiScaffold.Yaml.Atom

open Text (CodePoint)

/-! Numbers and truth values. -/

def isUnderscore (p : CodePoint) : Bool :=
  p = .char '_'

def sign? (p : CodePoint) : Option Bool :=
  Number.sign? p.toChar

def parts (s : List CodePoint) : List (List CodePoint) :=
  Text.segments (.char ':') s

/-- An integer. Underscores do not count. -/
def int? (s : List CodePoint) : Except Fault Int := do
  let s := s.filter (!isUnderscore ·)
  if s.isEmpty then throw .emptyNumber
  let (negative, s) := Number.splitSign sign? s
  let n ← match CodePoint.toChars s with
    | [] => throw .emptyNumber
    | ['0'] => pure 0
    | '0' :: 'b' :: _ => Number.readInteger 2 (s.drop 2)
    | '0' :: 'x' :: _ => Number.readInteger 16 (s.drop 2)
    | '0' :: _ => Number.readInteger 8 s
    | digits =>
      if ':' ∈ digits then Number.sexagesimal <$> (parts s).mapM (Number.readInteger 10)
        else Number.readInteger 10 s
  return Number.negateIf negative n

/-- Whether a float is one that all nodes share, which are those that words spell, and the float.
Underscores do not count. -/
def float? (s : List CodePoint) : Except Fault (Bool × Binary64) := do
  let s := CodePoint.lower (s.filter (!isUnderscore ·))
  if s.isEmpty then throw .emptyNumber
  let (negative, s) := Number.splitSign sign? s
  let signed (x : Binary64) := if negative then x.neg else x
  let digits := CodePoint.toChars s
  if digits = ".inf".toList then return (true, signed (.infinite false))
  if digits = ".nan".toList then return (true, .notANumber)
  if ':' ∈ digits then return (false,
    signed (← Number.sexagesimalFloat (← (parts s).mapM Number.readFloat)))
  return (false, signed (← Number.readFloat s))

def bool? (s : List CodePoint) : Except Fault Bool :=
  let word := CodePoint.lower s
  let isOne (words : List String) := words.any fun w => word = CodePoint.ofChars w.toList
  if isOne ["yes", "true", "on"] then .ok true
  else if isOne ["no", "false", "off"] then .ok false
  else .error (.boolean word)

/-! Bytes in base 64. -/

def sextet? (c : Char) : Option Nat :=
  if 'A' ≤ c && c ≤ 'Z' then some (c.toNat - 'A'.toNat)
  else if 'a' ≤ c && c ≤ 'z' then some (c.toNat - 'a'.toNat + 26)
  else if c.isDigit then some (c.toNat - '0'.toNat + 52)
  else if c = '+' then some 62
  else if c = '/' then some 63
  else none

/-- Reads on behind `count` sextets of a group, of which the bits left over are given, and behind
`pads` padding characters. Characters that mean nothing are skipped, and what is behind a group
filled up with padding as well. -/
def bytesFrom (count leftOver pads : Nat) : List Char → Except Fault (List UInt8)
  | [] => if count = 0 then .ok [] else .error .malformed
  | '=' :: rest =>
    if 2 ≤ count then
      if 4 ≤ count + pads + 1 then .ok [] else bytesFrom count leftOver (pads + 1) rest
    else bytesFrom count leftOver pads rest
  | c :: rest =>
    match sextet? c with
    | none => bytesFrom count leftOver pads rest
    | some n =>
      match count with
      | 0 => bytesFrom 1 n 0 rest
      | 1 => return UInt8.ofNat (leftOver * 4 + n / 16) :: (← bytesFrom 2 (n % 16) 0 rest)
      | 2 => return UInt8.ofNat (leftOver * 16 + n / 4) :: (← bytesFrom 3 (n % 4) 0 rest)
      | _ => return UInt8.ofNat (leftOver * 64 + n) :: (← bytesFrom 0 0 0 rest)

def bytes? (s : List CodePoint) : Except Fault (List UInt8) :=
  let s := CodePoint.toChars s
  if s.all (·.toNat < 0x80) then bytesFrom 0 0 0 s else .error .malformed

/-! Dates and times. -/

def checkDate (year month day : Nat) : Except Fault Unit :=
  if year = 0 then .error (.calendar (.year year))
  else if month < 1 || 12 < month then .error (.calendar .month)
  else if day < 1 || daysIn year month < day then .error (.calendar .day)
  else .ok ()

def checkClock (hour minute second : Nat) : Except Fault Unit :=
  if 23 < hour then .error (.calendar .hour)
  else if 59 < minute then .error (.calendar .minute)
  else if 59 < second then .error (.calendar .second)
  else .ok ()

def offset? : Option (Char × List Char × List Char) → Except Fault (Option Int)
  | none => .ok none
  | some (sign, hours, minutes) =>
    let seconds :=
      Number.negateIf (sign = '-') (3600 * Text.number hours + 60 * Text.number minutes)
    if seconds.natAbs < 86400 then .ok (some seconds)
      else .error (.calendar (.offset (durationText seconds)))

/-- The digits of a fraction as millionths, of which there are six. -/
def millionths (fraction : List Char) : Nat :=
  Text.number (fraction.take 6 ++ List.replicate (6 - fraction.length) '0')

/-- A date, or a moment. A line end may stand behind it. -/
def time? (s : List CodePoint) : Except Fault Atom := do
  match Tag.timeParts? false (Tag.dropLineEnd (CodePoint.toChars s)) with
  | none => .error .notTime
  | some parts =>
    let year := Text.number parts.year
    let month := Text.number parts.month
    let day := Text.number parts.day
    match parts.clock with
    | none =>
      checkDate year month day
      return .date year month day
    | some (hour, minute, second, fraction) =>
      let offset ← offset? parts.zone
      checkDate year month day
      checkClock (Text.number hour) (Text.number minute) (Text.number second)
      return .moment ⟨⟨year, month, day, Text.number hour, Text.number minute, Text.number second⟩,
        millionths fraction, offset⟩

def ofText (source : NodeId) (tag : Tag) (s : List CodePoint) : Except Fault Atom :=
  match tag with
  | .null => .ok .null
  | .bool => .bool <$> bool? s
  | .int => .int <$> int? s
  | .float => do
    let (isShared, x) ← float? s
    return .float x (if isShared then none else some source)
  | .text => .ok (.text s)
  | .binary => .bytes <$> bytes? s
  | .timestamp => time? s
  | _ => .error .malformed

end ApiScaffold.Yaml.Atom
